import TranslationKeys.Proofs.Entries
import TranslationKeys.Proofs.OpenBlocks

/-!
# What a failure says

The kind of a failure describes the text at its offset.  A missing brace is found at
the end of the input only: there a block is still open, or a value in front of it was
plain text, which takes up everything that follows.  A malformed key is something
that is no header, a malformed literal is a quote that nothing closes, and a block
is nested too deep when as many others are open as may be.
-/

namespace TranslationKeys

open Lexeme

/-! ## Plain text in place of a value -/

/-- True of the entry of an expression where no call begins. -/
def RuleEntry.IsPlain (entry : RuleEntry) : Prop :=
  entry.rule = .expression /\ ¬ BeginsCall entry.remainder

theorem RuleEntry.not_isPlain {depth : Nat} {rule : Rule} {text : Text}
    (hrule : rule ≠ .expression) : ¬ RuleEntry.IsPlain ⟨depth, rule, text⟩ :=
  fun hplain => hrule hplain.1

namespace Reading

variable {α β : Type}

/-- Where an expression turns out to be plain text, the rest of the text is lost with it. -/
def BreaksAtPlain (reading : Reading α) : Prop :=
  ∀ entry ∈ reading.entries, entry.IsPlain ->
    reading.outcome = .error ⟨.missingTerminator, []⟩

namespace BreaksAtPlain

theorem of_no_entries {reading : Reading α} (h : reading.entries = []) :
    reading.BreaksAtPlain := by
  intro entry hentry
  rw [h] at hentry
  cases hentry

theorem entered {reading : Reading α} {entry : RuleEntry} (hentry : ¬ entry.IsPlain)
    (h : reading.BreaksAtPlain) : (Reading.entered entry reading).BreaksAtPlain := by
  intro found hfound hplain
  rcases List.mem_cons.1 hfound with rfl | hlater
  · exact absurd hplain hentry
  · exact h found hlater hplain

/-- A value leaves no plain text behind, so only what comes next may break. -/
theorem andThen {reading : Reading α} {next : α -> Text -> Reading β}
    (h : reading.BreaksAtPlain) (hnext : forall value rest, (next value rest).BreaksAtPlain) :
    (reading.andThen next).BreaksAtPlain := by
  intro entry hentry hplain
  cases houtcome : reading.outcome with
  | error failure =>
      rw [andThen_entries_of_error houtcome] at hentry
      exact andThen_outcome_error_iff.2 (Or.inl (h entry hentry hplain))
  | ok found =>
      obtain ⟨value, rest⟩ := found
      rw [andThen_entries_of_ok houtcome] at hentry
      rw [andThen_outcome_of_ok houtcome]
      rcases List.mem_append.1 hentry with hfirst | hsecond
      · rw [h entry hfirst hplain] at houtcome
        cases houtcome
      · exact hnext value rest entry hsecond hplain

end BreaksAtPlain

end Reading

section Rules

variable {nested : Text -> Reading Node} {depth : Nat}

/-- Plain text is a whole expression, or breaks the expression that it stands in. -/
def BreaksInside (nested : Text -> Reading Node) : Prop :=
  forall text, (exists plain, (nested text).outcome = .ok (.literal plain, [])) \/
    (nested text).BreaksAtPlain

theorem nestedValue_entries (node : Node) (rest : Text) :
    (nestedValue node rest).entries = [] := by
  cases node <;> rfl

theorem closeBlock_entries (key : Text) (params : Params) (rest : Text) :
    (closeBlock key params rest).entries = [] := by
  unfold closeBlock
  split <;> rfl

theorem readValue_breaksAtPlain (hnested : BreaksInside nested) (text : Text) :
    (readValue nested text).BreaksAtPlain := by
  rcases readValue_cases nested text with
    ⟨raw, rest, _, rfl, hread⟩ | ⟨_, _, _, hread⟩ | ⟨_, hread⟩
  · rw [hread]
    exact .of_no_entries rfl
  · rw [hread]
    exact .of_no_entries rfl
  · rw [hread]
    rcases hnested text with ⟨plain, hliteral⟩ | hbreaks
    · intro entry _ _
      rw [Reading.andThen_outcome_of_ok hliteral]
      rfl
    · apply hbreaks.andThen
      intro node rest
      exact .of_no_entries (nestedValue_entries node rest)

theorem readParam_breaksAtPlain (hnested : BreaksInside nested) (text : Text) :
    (readParam nested depth text).BreaksAtPlain := by
  rcases readParam_cases nested depth text with
    ⟨_, hread⟩ | ⟨name, header, value, _, _, hread⟩
  · rw [hread]
    apply Reading.BreaksAtPlain.entered (RuleEntry.not_isPlain (by decide))
    exact .of_no_entries rfl
  · rw [hread]
    apply Reading.BreaksAtPlain.entered (RuleEntry.not_isPlain (by decide))
    apply (readValue_breaksAtPlain hnested value).andThen
    intro value rest
    exact .of_no_entries rfl

theorem readParams_breaksAtPlain (hnested : BreaksInside nested) (depth : Nat) (bound : Text)
    (params : Params) (text : Text) :
    (readParams nested depth bound params text).BreaksAtPlain := by
  induction bound generalizing params text with
  | nil => exact .of_no_entries rfl
  | cons b bound ih =>
      rcases readParams_cons_cases nested depth b bound params text with
        ⟨_, hread⟩ | ⟨rest, _, hread⟩ | ⟨c, rest, _, _, hread⟩
      · rw [hread]
        exact .of_no_entries rfl
      · rw [hread]
        exact .of_no_entries rfl
      · rw [hread]
        apply (readParam_breaksAtPlain hnested (c :: rest)).andThen
        intro param left
        exact ih _ left

end Rules

theorem readExpression_breaksInside (free : Nat) : BreaksInside (readExpression free) := by
  induction free using Nat.strongRecOn with
  | ind free ih =>
      intro text
      have hcall {depth : Nat} {key rest : Text} (hkey : callKey? text = some (key, rest)) :
          ¬ RuleEntry.IsPlain ⟨depth, .expression, text⟩ := by
        rintro ⟨_, hnone⟩
        rw [callKey?_eq_none_iff.2 hnone] at hkey
        cases hkey
      rcases readExpression_cases free text with
        ⟨_, hread⟩ | ⟨key, rest, hkey, _, hread⟩ | ⟨key, inner, hkey, _, hread⟩ |
          ⟨key, inner, within, hkey, rfl, hread⟩
      · exact Or.inl ⟨text, by rw [hread]; rfl⟩
      · refine Or.inr ?_
        rw [hread]
        exact (Reading.BreaksAtPlain.of_no_entries rfl).entered (hcall hkey)
      · refine Or.inr ?_
        rw [hread]
        exact (Reading.BreaksAtPlain.of_no_entries rfl).entered (hcall hkey)
      · have hparams := readParams_breaksAtPlain (ih within (Nat.lt_succ_self within))
          (expressionDepth (within + 1) + 2) inner .nil inner
        refine Or.inr ?_
        rw [hread]
        apply Reading.BreaksAtPlain.entered (hcall hkey)
        apply (hparams.entered (RuleEntry.not_isPlain (by decide))).andThen
        intro params rest
        exact .of_no_entries (closeBlock_entries key params rest)

/-- An input with plain text at a value is lost up to its end. -/
theorem parse_result_of_plain {input : Text} {entry : RuleEntry}
    (hentry : entry ∈ (parse input).trace) (hdepth : 0 < entry.depth) (hplain : entry.IsPlain) :
    (parse input).result = .error ⟨.missingTerminator, Text.byteLength input⟩ := by
  rw [parse_trace] at hentry
  rcases readExpression_breaksInside maxOpenBlocks input with ⟨plain, hliteral⟩ | hbreaks
  · -- Plain text as a whole input is the first entry, and the only one.
    rw [readExpression_literal (readExpression_literal_cases hliteral).1] at hentry
    obtain rfl := List.mem_singleton.1 hentry
    cases hdepth
  · exact parse_result_error_iff.2 ⟨_, hbreaks entry hentry hplain, rfl⟩

/-! ## Whole inputs -/

/-- A failure of an input is the fault at a spot in one of its blocks, and is reported once. -/
theorem fault_of_parse_error {input : Text} {kind : Diagnostic.Kind} {offset : Nat}
    (h : (parse input).result = .error ⟨kind, offset⟩) :
    exists spot opened front rest left, input = front ++ rest /\ 1 <= opened /\
      CallStart spot maxOpenBlocks opened front rest /\
        Fault spot (maxOpenBlocks - opened) rest ⟨kind, left⟩ /\
          offset = offsetOf input left /\
            (parse input).diagnostics = [diagnosticAt input ⟨kind, left⟩] := by
  obtain ⟨⟨_, left⟩, hfailed, heq⟩ := parse_result_error_iff.1 h
  cases heq
  obtain ⟨_, hdiagnostics⟩ := parse_of_failure hfailed
  obtain ⟨key, inner, hkey, rfl, spot, opened, front, rest, rfl, hbody, hfault⟩ :=
    blockFails_of_readExpression (readExpression_fails 127) hfailed
  have hspare : maxOpenBlocks - (opened + 1) = 127 - opened := Nat.succ_sub_succ 127 opened
  refine ⟨spot, opened + 1, _, rest, left, by simp, Nat.le_add_left 1 opened,
    .block hkey hbody, ?_, rfl, hdiagnostics⟩
  rwa [hspare]

/-- No header stands first where there is no name with a colon behind it. -/
theorem Lexeme.not_beginsParam_iff {text : Text} :
    ¬ BeginsParam text <->
      forall name space after, IsName name -> IsSpace space ->
        text ≠ name ++ (space ++ ':' :: after) := by
  constructor
  · rintro hparam name space after hname hspace rfl
    refine hparam ⟨name, name ++ (space ++ [':']), after, ?_, by simp⟩
    exact ⟨hname, space, [], hspace, .nil, rfl⟩
  · rintro hnone ⟨name, header, value, ⟨hname, left, right, hleft, _, rfl⟩, htext⟩
    exact hnone name left (right ++ value) hname hleft (by simpa using htext)

/-- A quote opens no literal when no text up to another quote can stand in one. -/
theorem Lexeme.not_beginsLiteral_iff {text : Text} :
    ¬ BeginsLiteral ('\x22' :: text) <->
      forall body after, LiteralBody body -> text ≠ body ++ '\x22' :: after := by
  constructor
  · rintro hliteral body after hbody rfl
    exact hliteral ⟨'\x22' :: (body ++ ['\x22']), after, ⟨body, hbody, rfl⟩, by simp⟩
  · rintro hnone ⟨raw, after, ⟨body, hbody, rfl⟩, htext⟩
    exact hnone body after hbody (by simpa using htext)

/--
What a failure of an input says.

* A missing brace is found at the end of the input.  Either a block is open there,
  or a value is neither a literal nor a call; such a value is never forgiven,
  whatever comes after it.
* A malformed key is found in front of a text that is neither spacing nor a closing
  brace and starts with no name and colon.
* A malformed literal is found in front of a quote that is not closed, and the
  message cites all the text from there on.
* A block that is nested too deep is found behind its brace, where exactly as many
  other blocks are open as may be.

A block is never left without the brace that closes it.
-/
theorem failures_say_what_is_wrong (input : Text) :
    (forall offset, (parse input).result = .error ⟨.missingTerminator, offset⟩ ->
      offset = Text.byteLength input /\
      (exists diagnostic, (parse input).diagnostics = [diagnostic] /\
        diagnostic.remainder = none) /\
      exists opened, 1 <= opened /\
        (CallStart .entry maxOpenBlocks opened input [] \/
          exists front rest, input = front ++ rest /\
            CallStart .value maxOpenBlocks opened front rest /\
              rest.head? ≠ some '\x22' /\ ¬ BeginsCall rest)) /\
    (forall opened front rest, 1 <= opened -> input = front ++ rest ->
      CallStart .value maxOpenBlocks opened front rest ->
        rest.head? ≠ some '\x22' -> ¬ BeginsCall rest ->
          (parse input).result = .error ⟨.missingTerminator, Text.byteLength input⟩) /\
    (∀ entry ∈ (parse input).trace, 0 < entry.depth -> entry.IsPlain ->
      (parse input).result = .error ⟨.missingTerminator, Text.byteLength input⟩) /\
    (forall offset, (parse input).result = .error ⟨.malformedKey, offset⟩ ->
      exists front c rest, Text.cut? input offset = some (front, c :: rest) /\
        isSpacing c = false /\ c ≠ '}' /\
          forall name space after, IsName name -> IsSpace space ->
            c :: rest ≠ name ++ (space ++ ':' :: after)) /\
    (forall offset, (parse input).result = .error ⟨.malformedStringLiteral, offset⟩ ->
      exists front rest, Text.cut? input offset = some (front, '\x22' :: rest) /\
        (forall body after, LiteralBody body -> rest ≠ body ++ '\x22' :: after) /\
          exists diagnostic, (parse input).diagnostics = [diagnostic] /\
            diagnostic.message = "Expect the string from '".toList ++ '\x22' :: rest ++
              "' starts a double-quoted string".toList) /\
    (forall offset, (parse input).result = .error ⟨.nestingTooDeep, offset⟩ ->
      exists front key rest,
        Text.cut? input offset = some (front ++ (marker ++ (key ++ ['{'])), rest) /\
          IsKey key /\
            forall opened, CallStart .value maxOpenBlocks opened front
              (marker ++ (key ++ '{' :: rest)) <-> opened = maxOpenBlocks) /\
    (forall nested depth text params stop,
      (readBlock nested depth text).outcome = .ok (params, stop) ->
        exists after, stop = '}' :: after /\
          forall key, closeBlock key params stop =
            .done (.translate (.block key params)) after) := by
  refine ⟨?_, ?_, ?_, ?_, ?_, ?_, ?_⟩
  · intro offset h
    obtain ⟨spot, opened, front, rest, left, rfl, hopened, hstart, hfault, rfl, hreport⟩ :=
      fault_of_parse_error h
    generalize maxOpenBlocks - opened = spare at hfault
    cases hfault with
    | ended =>
        refine ⟨rfl, ⟨_, hreport, rfl⟩, opened, hopened, Or.inl ?_⟩
        rwa [List.append_nil]
    | plain hquote hcall =>
        exact ⟨rfl, ⟨_, hreport, rfl⟩, opened, hopened,
          Or.inr ⟨front, rest, rfl, hstart, hquote, hcall⟩⟩
  · rintro opened front rest hopened rfl hstart hquote hcall
    have hread := hstart.readExpression_outcome hopened (.plain hquote hcall)
      (fun hentry => nomatch hentry)
    exact parse_result_error_iff.2 ⟨_, hread, rfl⟩
  · intro entry hentry hdepth hplain
    exact parse_result_of_plain hentry hdepth hplain
  · intro offset h
    obtain ⟨spot, opened, front, rest, left, rfl, _, _, hfault, rfl, _⟩ :=
      fault_of_parse_error h
    generalize maxOpenBlocks - opened = spare at hfault
    cases hfault with
    | @unnamed _ c rest hc hbrace hparam =>
        refine ⟨front, c, rest, ?_, hc, hbrace, not_beginsParam_iff.1 hparam⟩
        rw [offsetOf_append, Text.cut?_append]
  · intro offset h
    obtain ⟨spot, opened, front, rest, left, rfl, _, _, hfault, rfl, hreport⟩ :=
      fault_of_parse_error h
    generalize maxOpenBlocks - opened = spare at hfault
    cases hfault with
    | @unclosed _ rest hliteral =>
        refine ⟨front, rest, ?_, not_beginsLiteral_iff.1 hliteral, _, hreport, rfl⟩
        rw [offsetOf_append, Text.cut?_append]
  · intro offset h
    obtain ⟨spot, opened, front, rest, left, rfl, _, hstart, hfault, rfl, _⟩ :=
      fault_of_parse_error h
    generalize hspare : maxOpenBlocks - opened = spare at hfault
    cases hfault with
    | @deep key _ hkey =>
        refine ⟨front, key, left, ?_, hkey, ?_⟩
        · have hsplit : front ++ (marker ++ (key ++ '{' :: left)) =
              (front ++ (marker ++ (key ++ ['{']))) ++ left := by simp
          rw [hsplit, offsetOf_append, Text.cut?_append]
        · have hall : opened = maxOpenBlocks :=
            Nat.le_antisymm hstart.opened_le (Nat.le_of_sub_eq_zero hspare)
          rw [hall] at hstart
          intro other
          constructor
          · exact fun hother => hother.opened_unique hstart
          · rintro rfl
            exact hstart
  · intro nested depth text params stop h
    obtain ⟨after, rfl⟩ := readParams_stop h
    exact ⟨after, rfl, fun key => rfl⟩

/-- What stands in place of a value: a brace, and then a whole call with braces of its own. -/
def braceForValue : Text :=
  ['}', ' ', 'i', '1', '8', 'n', ':', 'b', '{', '}', '}']

def valueLeftOut : Text :=
  ['i', '1', '8', 'n', ':', 'a', '{', 'x', ':'] ++ braceForValue

theorem valueLeftOut_callStart :
    CallStart .value maxOpenBlocks 1 ['i', '1', '8', 'n', ':', 'a', '{', 'x', ':']
      braceForValue := by
  have hkey : IsKey ['a'] := by decide
  have hheader : IsHeader ['x'] ['x', ':'] := ⟨by decide, [], [], .nil, .nil, rfl⟩
  have hspacing : Avoids isSpacing braceForValue := by
    intro c hc
    cases hc
    rfl
  exact .block hkey (.value .nil hheader (.here rfl hspacing))

/-- Each kind of failure occurs, with a text at its offset as the kind describes it. -/
theorem each_failure_is_described :
    ((parse valueLeftOut).result = .error ⟨.missingTerminator, 20⟩ /\
      20 = Text.byteLength valueLeftOut /\
      (exists diagnostic, (parse valueLeftOut).diagnostics = [diagnostic] /\
        diagnostic.remainder = none)) /\
    (1 <= 1 /\ braceForValue.head? ≠ some '\x22' /\ ¬ BeginsCall braceForValue /\
      (parse valueLeftOut).result =
        .error ⟨.missingTerminator, Text.byteLength valueLeftOut⟩) /\
    (⟨3, .expression, braceForValue⟩ ∈ (parse valueLeftOut).trace /\ 0 < 3 /\
      RuleEntry.IsPlain ⟨3, .expression, braceForValue⟩ /\
      (parse valueLeftOut).result =
        .error ⟨.missingTerminator, Text.byteLength valueLeftOut⟩) /\
    ((parse unnamedEntry).result = .error ⟨.malformedKey, 22⟩ /\
      exists front c rest, Text.cut? unnamedEntry 22 = some (front, c :: rest) /\
        isSpacing c = false /\ c ≠ '}' /\
          forall name space after, IsName name -> IsSpace space ->
            c :: rest ≠ name ++ (space ++ ':' :: after)) /\
    ((parse openLiteral).result = .error ⟨.malformedStringLiteral, 9⟩ /\
      exists front rest, Text.cut? openLiteral 9 = some (front, '\x22' :: rest) /\
        (forall body after, LiteralBody body -> rest ≠ body ++ '\x22' :: after) /\
          exists diagnostic, (parse openLiteral).diagnostics = [diagnostic] /\
            diagnostic.message = "Expect the string from '".toList ++ '\x22' :: rest ++
              "' starts a double-quoted string".toList) /\
    ((parse oneBlockTooMany).result = .error ⟨.nestingTooDeep, 1159⟩ /\
      exists front key rest,
        Text.cut? oneBlockTooMany 1159 = some (front ++ (marker ++ (key ++ ['{'])), rest) /\
          IsKey key /\
            forall opened, CallStart .value maxOpenBlocks opened front
              (marker ++ (key ++ '{' :: rest)) <-> opened = maxOpenBlocks) /\
    ((readBlock (readExpression 127) 1 ['}']).outcome = .ok (.nil, ['}']) /\
      exists after, ['}'] = '}' :: after /\
        forall key, closeBlock key .nil ['}'] =
          .done (.translate (.block key .nil)) after) := by
  obtain ⟨hmissing, hplain, hentered, _, _, _, _⟩ := failures_say_what_is_wrong valueLeftOut
  obtain ⟨_, _, _, hmalformedKey, _, _, _⟩ := failures_say_what_is_wrong unnamedEntry
  obtain ⟨_, _, _, _, hmalformedLiteral, _, _⟩ := failures_say_what_is_wrong openLiteral
  obtain ⟨_, _, _, _, _, htooDeep, hblock⟩ := failures_say_what_is_wrong oneBlockTooMany
  have hvalue : (parse valueLeftOut).result = .error ⟨.missingTerminator, 20⟩ := by rfl
  have hkey : (parse unnamedEntry).result = .error ⟨.malformedKey, 22⟩ := by rfl
  have hliteral : (parse openLiteral).result = .error ⟨.malformedStringLiteral, 9⟩ := by rfl
  have hdeep : (parse oneBlockTooMany).result = .error ⟨.nestingTooDeep, 1159⟩ := by
    decide +kernel
  have hclosed : (readBlock (readExpression 127) 1 ['}']).outcome = .ok (.nil, ['}']) := by rfl
  have hquote : braceForValue.head? ≠ some '\x22' := by decide
  have hcall : ¬ BeginsCall braceForValue := by decide
  have hentry : ⟨3, .expression, braceForValue⟩ ∈ (parse valueLeftOut).trace := by
    decide +kernel
  obtain ⟨hend, hreport, _⟩ := hmissing 20 hvalue
  exact ⟨⟨hvalue, hend, hreport⟩,
    ⟨Nat.le_refl 1, hquote, hcall,
      hplain 1 _ _ (Nat.le_refl 1) rfl valueLeftOut_callStart hquote hcall⟩,
    ⟨hentry, by decide, ⟨rfl, hcall⟩, hentered _ hentry (by decide) ⟨rfl, hcall⟩⟩,
    ⟨hkey, hmalformedKey 22 hkey⟩, ⟨hliteral, hmalformedLiteral 9 hliteral⟩,
    ⟨hdeep, htooDeep 1159 hdeep⟩,
    ⟨hclosed, hblock (readExpression 127) 1 ['}'] .nil ['}'] hclosed⟩⟩

end TranslationKeys
