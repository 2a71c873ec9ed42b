import TranslationKeys.Proofs.Continuation
import TranslationKeys.Proofs.Repair

/-!
# Fronts of inputs

The call of an input takes up its front.  The same call is read from every other
text with that front, unless a key without a block goes on behind it.  A call
with a block has no shorter form at its start, because its closing brace comes
last: cut off behind its opening brace it cannot be read.
-/

namespace TranslationKeys

open Lexeme

/-! ## Failures -/

/-- A failure that lasts is found at the same place of every longer input. -/
theorem parse_append_of_lasts {input : Text} {failure : Finding}
    (h : (readExpression maxOpenBlocks input).outcome = .error failure)
    (hlasts : failure.Lasts) (more : Text) :
    (parse (input ++ more)).result = .error ⟨failure.kind, offsetOf input failure.rest⟩ := by
  have hmore := (readExpression_continues maxOpenBlocks input more).failed failure h hlasts
  refine parse_result_error_iff.2 ⟨failure.before more, hmore, ?_⟩
  simp [Finding.before, offsetOf, Nat.add_sub_add_right]

/-- What is left at a failure is the text at its offset. -/
theorem cut?_of_failure {input : Text} {failure : Finding}
    (h : (readExpression maxOpenBlocks input).outcome = .error failure) :
    exists front, Text.cut? input (offsetOf input failure.rest) = some (front, failure.rest) := by
  obtain ⟨_, _, front, hrest⟩ := (readExpression_consistent maxOpenBlocks input).failed failure h
  refine ⟨front, ?_⟩
  rw [← hrest, offsetOf_append, Text.cut?_append]

/-! ## Calls -/

/-- Text that a call leaves is the one thing that is reported. -/
theorem parse_of_text_left {input rest : Text} {node : Node}
    (h : (readExpression maxOpenBlocks input).outcome = .ok (node, rest)) (hrest : rest ≠ []) :
    (parse input).result = .ok node /\
      (parse input).diagnostics = [diagnosticAt input ⟨.trailingInput, rest⟩] := by
  refine ⟨parse_result_ok_iff.2 ⟨rest, h⟩, ?_⟩
  have hreports := readInput_reports input
  rw [h] at hreports
  simp [parse, hreports, hrest]

namespace CallText

variable {free : Nat} {front first second : Text} {call : Call}

/-- Only a key without a block depends on the text after it. -/
theorem follow (h : CallText free front first call)
    (hends : call.params? = none -> EndsKey second) : CallText free front second call := by
  cases h with
  | bare hkey _ => exact .bare hkey (hends rfl)
  | block hkey hbody => exact .block hkey hbody.change_rest

/-- A part of a call that holds a brace goes on behind the brace of its block. -/
theorem eq_block_of_mem_brace {start back : Text} (h : CallText free (start ++ back) first call)
    (hbrace : '{' ∈ start) :
    exists key inner, IsKey key /\ start = marker ++ (key ++ '{' :: inner) := by
  have hnone {key : Text} (hkey : IsKey key) : '{' ∉ marker ++ key := by
    intro hmem
    rcases List.mem_append.1 hmem with hmarker | hchar
    · exact absurd hmarker (by decide)
    · exact absurd (hkey.2 _ hchar) (by decide)
  generalize htext : start ++ back = text at h
  cases h with
  | @bare _ key _ hkey _ =>
      exact absurd (htext ▸ List.mem_append_left back hbrace) (hnone hkey)
  | @block _ key body _ _ hkey hbody =>
      rw [← List.append_assoc] at htext
      rcases List.append_eq_append_iff.1 htext with ⟨middle, hkeyText, _⟩ | ⟨middle, hstart, hbody⟩
      · exact absurd (hkeyText ▸ List.mem_append_left middle hbrace) (hnone hkey)
      · cases middle with
        | nil =>
            rw [List.append_nil] at hstart
            exact absurd (hstart ▸ hbrace) (hnone hkey)
        | cons c inner =>
            cases hbody
            exact ⟨key, inner, hkey, by simp [hstart]⟩

end CallText

/-- A call that is taken off the start of an input is read from every text it begins. -/
theorem CallText.parse_append {front first after : Text} {call : Call}
    (h : CallText maxOpenBlocks front first call)
    (hends : call.params? = none -> EndsKey after) :
    (parse (front ++ after)).result = .ok (.translate call) /\
      (after = [] -> (parse (front ++ after)).diagnostics = []) /\
      (after ≠ [] -> exists diagnostic, (parse (front ++ after)).diagnostics = [diagnostic] /\
        diagnostic.kind = .trailingInput /\ diagnostic.offset = Text.byteLength front) := by
  have hread := (h.follow hends).readExpression_outcome
  refine ⟨parse_result_ok_iff.2 ⟨after, hread⟩, ?_, ?_⟩
  · rintro rfl
    exact (parse_of_nothing_left hread).2
  · intro hafter
    exact ⟨_, (parse_of_text_left hread hafter).2, rfl, offsetOf_append front after⟩

/-- A call with a block cannot be cut off behind its brace: what is left of it fails. -/
theorem CallText.parse_of_cut {start back rest : Text} {call : Call}
    (h : CallText maxOpenBlocks (start ++ back) rest call) (hback : back ≠ [])
    (hbrace : '{' ∈ start) :
    exists error, (parse start).result = .error error /\
      error.kind ∈ [.missingTerminator, .malformedKey, .malformedStringLiteral] := by
  have hwhole := h.readExpression_outcome
  obtain ⟨key, inner, hkey, rfl⟩ := h.eq_block_of_mem_brace hbrace
  have hstart := callKey?_of_block inner hkey
  cases houtcome : (readExpression maxOpenBlocks (marker ++ (key ++ '{' :: inner))).outcome with
  | ok found =>
      obtain ⟨node, left⟩ := found
      cases node with
      | literal plain =>
          rw [(readExpression_literal_cases houtcome).1] at hstart
          cases hstart
      | translate other =>
          -- A call that ends inside the start would be the call of the whole input.
          obtain ⟨front, hfront, hcall⟩ := readExpression_translate_iff.1 houtcome
          have hparams : other.params? ≠ none := by
            intro hnone
            cases hcall with
            | bare hother hends =>
                rw [hfront, callKey?_of_bare hother hends] at hstart
                cases hstart
                exact (hends '{' rfl).2 rfl
            | block => cases hnone
          have hlonger : CallText maxOpenBlocks front (left ++ (back ++ rest)) other :=
            hcall.follow fun hnone => absurd hnone hparams
          have hother := hlonger.readExpression_outcome
          rw [← List.append_assoc, ← hfront, ← List.append_assoc] at hother
          rw [hother] at hwhole
          have hlength : (left ++ (back ++ rest)).length = rest.length := by
            simp only [Except.ok.injEq, Prod.mk.injEq] at hwhole
            rw [hwhole.2]
          have hpositive := List.length_pos_iff.2 hback
          simp only [List.length_append] at hlength
          omega
  | error failure =>
      refine ⟨_, parse_result_error_iff.2 ⟨failure, houtcome, rfl⟩, ?_⟩
      have hfatal := ((readExpression_consistent maxOpenBlocks _).failed failure houtcome).2.1
      have hdeep : failure.kind ≠ .nestingTooDeep := by
        intro hkind
        have hlater := (readExpression_continues maxOpenBlocks _ (back ++ rest)).failed failure
          houtcome (Or.inl hkind)
        rw [← List.append_assoc, hwhole] at hlater
        cases hlater
      obtain ⟨kind, left⟩ := failure
      cases kind with
      | missingTerminator | malformedKey | malformedStringLiteral => simp
      | nestingTooDeep => exact absurd rfl hdeep
      | trailingInput => cases hfatal

/-! ## Whole inputs -/

/--
How inputs go on.  A call takes up the same front of every text that begins with
it, and any other text behind it is reported; a key without a block must end
there.  With a block, no part of the front that holds the opening brace is read.
A block too many is a failure of every longer input, at the same offset, and so
is a malformed key unless it is a name that the end of the input cuts off.
-/
theorem calls_and_lasting_failures_go_on (input : Text) :
    (forall call, (parse input).result = .ok (.translate call) ->
      exists front rest, input = front ++ rest /\
        consumed? input = some (Text.byteLength front) /\
        (forall after, (call.params? = none -> EndsKey after) ->
          (parse (front ++ after)).result = .ok (.translate call) /\
          (after = [] -> (parse (front ++ after)).diagnostics = []) /\
          (after ≠ [] -> exists diagnostic,
            (parse (front ++ after)).diagnostics = [diagnostic] /\
              diagnostic.kind = .trailingInput /\
                diagnostic.offset = Text.byteLength front)) /\
        (call.params? ≠ none -> forall start back, front = start ++ back -> back ≠ [] ->
          '{' ∈ start -> exists error, (parse start).result = .error error /\
            error.kind ∈ [.missingTerminator, .malformedKey, .malformedStringLiteral])) /\
    (forall offset, (parse input).result = .error ⟨.nestingTooDeep, offset⟩ ->
      forall after, (parse (input ++ after)).result = .error ⟨.nestingTooDeep, offset⟩) /\
    (forall offset front rest, (parse input).result = .error ⟨.malformedKey, offset⟩ ->
      Text.cut? input offset = some (front, rest) -> ¬ IsOpenName rest ->
        forall after, (parse (input ++ after)).result = .error ⟨.malformedKey, offset⟩) := by
  refine ⟨?_, ?_, ?_⟩
  · intro call hcall
    obtain ⟨rest, hread⟩ := parse_result_ok_iff.1 hcall
    obtain ⟨front, rfl, hfront⟩ := readExpression_translate_iff.1 hread
    have hstop : consumed? (front ++ rest) = some (Text.byteLength front) :=
      consumed?_eq_some_iff.2 ⟨_, rest, hread, (offsetOf_append front rest).symm⟩
    refine ⟨front, rest, rfl, hstop, fun after hends => hfront.parse_append hends, ?_⟩
    rintro _ start back rfl hback hbrace
    exact hfront.parse_of_cut hback hbrace
  · intro offset h after
    obtain ⟨⟨_, left⟩, hfailed, heq⟩ := parse_result_error_iff.1 h
    cases heq
    exact parse_append_of_lasts hfailed (Or.inl rfl) after
  · intro offset front rest h hcut hopen after
    obtain ⟨⟨_, left⟩, hfailed, heq⟩ := parse_result_error_iff.1 h
    cases heq
    obtain ⟨before, hleft⟩ := cut?_of_failure hfailed
    rw [hleft] at hcut
    cases hcut
    exact parse_append_of_lasts hfailed (Or.inr ⟨rfl, hopen⟩) after

def oneLiteral : Text :=
  ['i', '1', '8', 'n', ':', 'a', '{', 'x', ':', '\x22', '1', '\x22', '}']

/-- A call with a literal, cut off in front of its last brace, and failures in front of a brace. -/
theorem oneLiteral_goes_on :
    ((parse oneLiteral).result =
        .ok (.translate (.block ['a'] (.cons ['x'] (.literal ['\x22', '1', '\x22']) .nil))) /\
      (parse (oneLiteral ++ ['{'])).result =
        .ok (.translate (.block ['a'] (.cons ['x'] (.literal ['\x22', '1', '\x22']) .nil))) /\
      exists error, (parse oneLiteral.dropLast).result = .error error /\
        error.kind ∈ [.missingTerminator, .malformedKey, .malformedStringLiteral]) /\
    ((parse oneBlockTooMany).result = .error ⟨.nestingTooDeep, 1159⟩ /\
      (parse (oneBlockTooMany ++ ['}'])).result = .error ⟨.nestingTooDeep, 1159⟩) /\
    ((parse unnamedEntry).result = .error ⟨.malformedKey, 22⟩ /\ ¬ IsOpenName ['?', '}', '}'] /\
      (parse (unnamedEntry ++ ['}'])).result = .error ⟨.malformedKey, 22⟩) := by
  have hcall : (parse oneLiteral).result =
      .ok (.translate (.block ['a'] (.cons ['x'] (.literal ['\x22', '1', '\x22']) .nil))) := by
    rfl
  have hdeep : (parse oneBlockTooMany).result = .error ⟨.nestingTooDeep, 1159⟩ := by
    decide +kernel
  have hkey : (parse unnamedEntry).result = .error ⟨.malformedKey, 22⟩ := by rfl
  have hopen : ¬ IsOpenName ['?', '}', '}'] := by
    rintro ⟨name, space, hname, hspace, htext⟩
    cases name with
    | nil =>
        rw [List.nil_append] at htext
        exact absurd (hspace '?' (htext ▸ List.mem_cons_self)) (by decide)
    | cons c rest =>
        obtain rfl : '?' = c := (List.cons.inj htext).1
        exact absurd (hname '?' List.mem_cons_self) (by decide)
  obtain ⟨front, rest, hsplit, hstop, hlonger, hshorter⟩ :=
    (calls_and_lasting_failures_go_on oneLiteral).1 _ hcall
  obtain rfl : rest = [] := by
    have hbytes := congrArg Text.byteLength hsplit
    have hwhole : consumed? oneLiteral = some (Text.byteLength oneLiteral) := by rfl
    rw [hwhole, Option.some.injEq] at hstop
    rw [hstop, Text.byteLength_append] at hbytes
    exact Text.byteLength_eq_zero_iff.1 (by omega)
  rw [List.append_nil] at hsplit
  subst hsplit
  refine ⟨⟨hcall, ?_, ?_⟩, ⟨hdeep, ?_⟩, hkey, hopen, ?_⟩
  · exact (hlonger ['{'] (by simp [Call.params?])).1
  · exact hshorter (by simp [Call.params?]) _ ['}'] (by rfl) (by simp) (by decide)
  · exact (calls_and_lasting_failures_go_on oneBlockTooMany).2.1 1159 hdeep ['}']
  · exact (calls_and_lasting_failures_go_on unnamedEntry).2.2 22 _ _ hkey (by rfl) hopen ['}']

end TranslationKeys
