import TranslationKeys.Proofs.Notation
import TranslationKeys.Proofs.Rules

/-!
# What is accepted

Reading and the notation agree: an expression is read as a call exactly when a
written form of that call stands first, and the text that is left is the text
after the form.  Reading is greedy and never goes back, so each direction needs
its own invariant.

* From a reading to a derivation, the text that was taken is collected as the
  recursion returns.
* From a derivation to a reading, spacing may be taken earlier than the
  derivation has it, so texts are compared after their leading spacing.
-/

namespace TranslationKeys

open Lexeme

/-! ## From readings to derivations -/

/-- Every call that a reading gives stands first in a written form. -/
def ReadsCallText (free : Nat) (nested : Text -> Reading Node) : Prop :=
  forall {text call rest}, (nested text).outcome = .ok (.translate call, rest) ->
    exists front, text = front ++ rest /\ CallText free front rest call

section Sound

variable {free depth : Nat} {nested : Text -> Reading Node} {text rest : Text}

theorem valueText_of_readValue (hnested : ReadsCallText free nested) {value : Value}
    (h : (readValue nested text).outcome = .ok (value, rest)) :
    exists front, text = front ++ rest /\ ValueText free front rest value := by
  rcases readValue_cases nested text with
    ⟨raw, after, hraw, rfl, hread⟩ | ⟨after, _, _, hread⟩ | ⟨_, hread⟩
  · rw [hread] at h
    cases h
    exact ⟨raw, rfl, .literal hraw⟩
  · rw [hread] at h
    cases h
  · rw [hread] at h
    obtain ⟨node, after, hnode, hvalue⟩ := Reading.andThen_outcome_ok_iff.1 h
    cases node with
    | literal plain => cases hvalue
    | translate call =>
        cases hvalue
        obtain ⟨front, rfl, hcall⟩ := hnested hnode
        exact ⟨front, rfl, .nested hcall⟩

/-- A parameter that is read is a header, a value and a separator. -/
theorem param_of_readParam (hnested : ReadsCallText free nested) {name : Text}
    {value : Value} (h : (readParam nested depth text).outcome = .ok ((name, value), rest)) :
    exists header front separator, IsHeader name header /\ IsSeparator separator /\
      ValueText free front (separator ++ rest) value /\
        text = header ++ (front ++ (separator ++ rest)) := by
  rcases readParam_cases nested depth text with
    ⟨_, hread⟩ | ⟨found, header, valueText, hheader, rfl, hread⟩
  · rw [hread] at h
    cases h
  · rw [hread, Reading.entered_outcome] at h
    obtain ⟨_, after, hvalue, hdone⟩ := Reading.andThen_outcome_ok_iff.1 h
    cases hdone
    obtain ⟨separator, hseparator, hafter⟩ := skipSeparator_sound after
    obtain ⟨front, rfl, hfront⟩ := valueText_of_readValue hnested hvalue
    refine ⟨header, front, separator, hheader, hseparator, ?_, ?_⟩
    · rwa [← hafter]
    · rw [← hafter]

/-- The parameters that are read come from a body, up to its closing brace. -/
theorem blockText_of_readParams (hnested : ReadsCallText free nested) {bound : Text}
    {params final : Params}
    (h : (readParams nested depth bound params text).outcome = .ok (final, rest)) :
    exists body entries after, rest = '}' :: after /\ text = body ++ after /\
      BlockText free body after entries /\ final = params.insertAll entries := by
  induction bound generalizing params text with
  | nil => cases h
  | cons b bound ih =>
      obtain ⟨space, hspace, htext⟩ := skipSpacing_sound text
      rcases readParams_cons_cases nested depth b bound params text with
        ⟨_, hread⟩ | ⟨after, hbrace, hread⟩ | ⟨c, more, hmore, _, hread⟩
      · rw [hread] at h
        cases h
      · rw [hread] at h
        cases h
        rw [hbrace] at htext
        exact ⟨space ++ ['}'], [], after, rfl, by simpa using htext, .close hspace, rfl⟩
      · rw [hread] at h
        obtain ⟨⟨name, value⟩, middle, hparam, hparams⟩ := Reading.andThen_outcome_ok_iff.1 h
        obtain ⟨header, front, separator, hheader, hseparator, hvalue, hcut⟩ :=
          param_of_readParam hnested hparam
        obtain ⟨body, entries, after, rfl, rfl, hbody, rfl⟩ := ih hparams
        refine ⟨_, (name, value) :: entries, after, rfl, ?_,
          .entry hspace hheader hvalue hseparator hbody, rfl⟩
        rw [htext, hmore, hcut]
        simp only [List.append_assoc]

theorem callText_bare {key : Text} (hkey : callKey? text = some (key, rest))
    (hrest : rest.head? ≠ some '{') :
    exists front, text = front ++ rest /\ CallText free front rest (.bare key) := by
  obtain ⟨rfl, hisKey, havoids⟩ := callKey?_eq_some_iff.1 hkey
  refine ⟨marker ++ key, by simp, .bare hisKey ?_⟩
  intro c hc
  refine ⟨havoids c hc, ?_⟩
  rintro rfl
  exact hrest hc

theorem readExpression_sound (free : Nat) : ReadsCallText free (readExpression free) := by
  induction free using Nat.strongRecOn with
  | ind free ih =>
      intro text call rest h
      rcases readExpression_translate_cases h with
        ⟨key, hkey, hrest, rfl⟩ | ⟨within, depth, key, inner, params, rfl, hkey, rfl, hparams⟩
      · exact callText_bare hkey hrest
      · have hwithin : ReadsCallText within (readExpression within) :=
          ih within (Nat.lt_succ_self within)
        obtain ⟨body, entries, after, hrest, rfl, hbody, rfl⟩ :=
          blockText_of_readParams hwithin hparams
        cases hrest
        obtain ⟨rfl, hisKey, _⟩ := callKey?_eq_some_iff.1 hkey
        exact ⟨marker ++ (key ++ '{' :: body), by simp, .block hisKey hbody⟩

end Sound

/-! ## From derivations to readings -/

/-- A form of a value starts with a quote or with the marker, never with spacing. -/
theorem ValueText.avoids_spacing {free : Nat} {front rest : Text} {value : Value}
    (h : ValueText free front rest value) : Avoids isSpacing (front ++ rest) := by
  intro c hc
  cases h with
  | literal hraw =>
      obtain ⟨body, _, rfl⟩ := hraw
      cases hc
      rfl
  | nested hcall => cases hcall <;> cases hc <;> rfl

theorem CallText.head?_ne_quote {free : Nat} {front rest : Text} {call : Call}
    (h : CallText free front rest call) : (front ++ rest).head? ≠ some '\x22' := by
  cases h <;> simp [marker]

/-- Behind its leading spacing a body starts with a name or with its closing brace. -/
theorem BlockText.head?_ne_comma {free : Nat} {body rest : Text}
    {entries : List (Text × Value)} (h : BlockText free body rest entries) :
    (skipSpacing (body ++ rest)).head? ≠ some ',' := by
  cases h with
  | close hspace =>
      rw [List.append_assoc, skipSpacing_append hspace]
      change ('}' :: rest).head? ≠ some ','
      simp
  | entry hspace hheader =>
      simp only [List.append_assoc]
      rw [skipSpacing_append hspace, skipSpacing_of_avoids (hheader.avoids_spacing _)]
      exact hheader.head?_ne rfl _

section Complete

variable {free depth : Nat} {nested : Text -> Reading Node} {text rest bound : Text}

theorem readValue_literal {raw : Text} (hraw : IsLiteral raw) :
    (readValue nested (raw ++ rest)).outcome = .ok (.literal raw, rest) := by
  have hread : stringLiteral? (raw ++ rest) = some (raw, rest) :=
    stringLiteral?_eq_some_iff.2 ⟨rfl, hraw⟩
  have hquote : (raw ++ rest).head? = some '\x22' := by
    obtain ⟨body, _, rfl⟩ := hraw
    rfl
  simp [readValue, hquote, hread]

theorem readValue_nested {call : Call} (hquote : text.head? ≠ some '\x22')
    (hcall : (nested text).outcome = .ok (.translate call, rest)) :
    (readValue nested text).outcome = .ok (.nested call, rest) := by
  simp [readValue, hquote, Reading.andThen_outcome_of_ok hcall, nestedValue]

theorem readParam_entry (depth : Nat) {name header : Text} {value : Value}
    (hheader : IsHeader name header) (hspacing : Avoids isSpacing text)
    (hvalue : (readValue nested text).outcome = .ok (value, rest)) :
    (readParam nested depth (header ++ text)).outcome =
      .ok ((name, value), skipSeparator rest) := by
  simp [readParam, paramName?_header hheader, skipSpacing_of_avoids hspacing,
    Reading.andThen_outcome_of_ok hvalue]

theorem readParams_close {params : Params} (hbound : bound ≠ [])
    (hbrace : skipSpacing text = '}' :: rest) :
    (readParams nested depth bound params text).outcome = .ok (params, '}' :: rest) := by
  obtain ⟨b, bound, rfl⟩ := List.exists_cons_of_ne_nil hbound
  simp [readParams, hbrace]

theorem readParams_entry {params : Params} {b : Char} {name : Text} {value : Value}
    (hbrace : (skipSpacing text).head? ≠ some '}')
    (hparam : (readParam nested depth (skipSpacing text)).outcome =
      .ok ((name, value), rest)) :
    (readParams nested depth (b :: bound) params text).outcome =
      (readParams nested depth bound (params.insert name value) rest).outcome := by
  rw [readParams]
  cases htext : skipSpacing text with
  | nil =>
      rw [htext] at hparam
      cases hparam
  | cons c more =>
      rw [htext] at hparam hbrace
      have hc : c ≠ '}' := fun heq => hbrace (congrArg some heq)
      simp only [hc, if_false, Reading.andThen_outcome_of_ok hparam]

end Complete

mutual

theorem CallText.readExpression_outcome :
    forall {free : Nat} {front rest : Text} {call : Call}, CallText free front rest call ->
      (readExpression free (front ++ rest)).outcome = .ok (.translate call, rest)
  | _, _, _, _, .bare hkey hrest => by
      rw [readExpression_bare (callKey?_of_bare hkey hrest)
        (fun hbrace => (hrest _ hbrace).2 rfl)]
      rfl
  | _, _, _, _, @CallText.block free _ body rest _ hkey hbody => by
      have hread := readExpression_block free (callKey?_of_block (body ++ rest) hkey)
      have hparams := hbody.readParams_outcome (expressionDepth (free + 1) + 2)
        (body ++ rest) .nil (Nat.lt_of_lt_of_le hbody.length_lt (by simp)) rfl
      simp only [List.append_assoc, List.cons_append, hread, Reading.entered_outcome,
        Reading.entered_andThen_outcome, Reading.andThen_outcome_of_ok hparams]
      rfl

/-- A body is read as its entries, up to its closing brace. -/
theorem BlockText.readParams_outcome :
    forall {free : Nat} {body rest : Text} {entries : List (Text × Value)},
      BlockText free body rest entries ->
      forall (depth : Nat) (bound : Text) {text : Text} (params : Params),
        entries.length < bound.length ->
        skipSpacing text = skipSpacing (body ++ rest) ->
        (readParams (readExpression free) depth bound params text).outcome =
          .ok (params.insertAll entries, '}' :: rest)
  | _, _, _, _, .close hspace => by
      intro depth bound text params hbound htext
      apply readParams_close (List.length_pos_iff.1 hbound)
      rw [htext, List.append_assoc, skipSpacing_append hspace]
      rfl
  | _, _, _, _, .entry hspace hheader hvalue hseparator hbody => by
      intro depth bound text params hbound htext
      -- Behind its spacing the text starts with the header, however the spacing was split.
      have hheaderText := htext
      simp only [List.append_assoc] at hheaderText
      rw [skipSpacing_append hspace, skipSpacing_of_avoids (hheader.avoids_spacing _)]
        at hheaderText
      have hparam := readParam_entry depth hheader hvalue.avoids_spacing
        hvalue.readValue_outcome
      rw [← hheaderText] at hparam
      cases bound with
      | nil => exact absurd hbound (by simp)
      | cons b bound =>
          rw [readParams_entry (by rw [hheaderText]; exact hheader.head?_ne rfl _) hparam]
          exact hbody.readParams_outcome depth bound _ (by simpa using hbound)
            (skipSpacing_skipSeparator hseparator hbody.head?_ne_comma)

theorem ValueText.readValue_outcome :
    forall {free : Nat} {front rest : Text} {value : Value}, ValueText free front rest value ->
      (readValue (readExpression free) (front ++ rest)).outcome = .ok (value, rest)
  | _, _, _, _, .literal hraw => readValue_literal hraw
  | _, _, _, _, .nested hcall =>
      readValue_nested hcall.head?_ne_quote hcall.readExpression_outcome

end

/-! ## Plain text -/

/-- A text is read as plain text, to its end, exactly when no call begins with it. -/
theorem readExpression_literal_iff {free : Nat} {text plain rest : Text} :
    (readExpression free text).outcome = .ok (.literal plain, rest) <->
      ¬ BeginsCall text /\ plain = text /\ rest = [] := by
  rw [← callKey?_eq_none_iff]
  constructor
  · intro h
    exact readExpression_literal_cases h
  · rintro ⟨hkey, rfl, rfl⟩
    rw [readExpression_literal hkey]
    rfl

/-- A call is read exactly when a written form of it stands first. -/
theorem readExpression_translate_iff {free : Nat} {text rest : Text} {call : Call} :
    (readExpression free text).outcome = .ok (.translate call, rest) <->
      exists front, text = front ++ rest /\ CallText free front rest call := by
  constructor
  · exact readExpression_sound free
  · rintro ⟨front, rfl, hcall⟩
    exact hcall.readExpression_outcome

/-! ## Whole inputs -/

/-- The number of bytes that the tree of an input takes up, if the input has one. -/
def consumed? (input : Text) : Option Nat :=
  match (readInput input).outcome with
  | .error _ => none
  | .ok (_, rest) => some (offsetOf input rest)

theorem consumed?_eq_some_iff {input : Text} {stop : Nat} :
    consumed? input = some stop <->
      exists node rest, (readExpression maxOpenBlocks input).outcome = .ok (node, rest) /\
        stop = offsetOf input rest := by
  simp only [consumed?, readInput_outcome]
  cases (readExpression maxOpenBlocks input).outcome with
  | error failure => simp
  | ok found => simp [Prod.ext_iff, eq_comm]

theorem consumed?_eq_none_iff {input : Text} :
    consumed? input = none <-> exists error, (parse input).result = .error error := by
  simp only [consumed?, parse]
  cases (readInput input).outcome <;> simp

/-- The first `stop` bytes of an input are a written form of a call. -/
def Derives (input : Text) (stop : Nat) (call : Call) : Prop :=
  exists front rest, Text.cut? input stop = some (front, rest) /\
    CallText maxOpenBlocks front rest call

theorem derives_iff {input : Text} {stop : Nat} {call : Call} :
    Derives input stop call <-> exists front rest, input = front ++ rest /\
      Text.byteLength front = stop /\ CallText maxOpenBlocks front rest call := by
  constructor
  · rintro ⟨front, rest, hcut, hcall⟩
    obtain ⟨rfl, hbytes⟩ := Text.cut?_sound hcut
    exact ⟨front, rest, rfl, hbytes, hcall⟩
  · rintro ⟨front, rest, rfl, rfl, hcall⟩
    exact ⟨front, rest, Text.cut?_append front rest, hcall⟩

/-- A call is the tree of an input, and ends at some byte, exactly when it is derived there. -/
theorem parse_translate_iff_derives {input : Text} {call : Call} {stop : Nat} :
    (parse input).result = .ok (.translate call) /\ consumed? input = some stop <->
      Derives input stop call := by
  rw [derives_iff, parse_result_ok_iff, consumed?_eq_some_iff]
  constructor
  · rintro ⟨⟨rest, hread⟩, node, left, hleft, rfl⟩
    rw [hread] at hleft
    cases hleft
    obtain ⟨front, rfl, hcall⟩ := readExpression_translate_iff.1 hread
    exact ⟨front, rest, rfl, (offsetOf_append front rest).symm, hcall⟩
  · rintro ⟨front, rest, rfl, rfl, hcall⟩
    have hread := hcall.readExpression_outcome
    exact ⟨⟨rest, hread⟩, _, rest, hread, (offsetOf_append front rest).symm⟩

theorem parse_literal_iff {input plain : Text} :
    (parse input).result = .ok (.literal plain) <-> ¬ BeginsCall input /\ plain = input := by
  simp [parse_result_ok_iff, readExpression_literal_iff]

/--
Exactly the notation is accepted.  An input is plain text when no call begins
with it, and a call when a written form of that call stands first, which
determines both the call and where it ends.  Every other input is refused.
-/
theorem parse_accepts_written_forms (input : Text) :
    ((parse input).result = .ok (.literal input) <-> ¬ BeginsCall input) /\
    (forall call stop,
      (parse input).result = .ok (.translate call) /\ consumed? input = some stop <->
        Derives input stop call) /\
    (forall first second start stop,
      Derives input start first -> Derives input stop second ->
        start = stop /\ first = second) /\
    ((exists error, (parse input).result = .error error) <->
      BeginsCall input /\ ¬ exists stop call, Derives input stop call) := by
  refine ⟨by simp [parse_literal_iff], fun call stop => parse_translate_iff_derives, ?_, ?_⟩
  · intro first second start stop hfirst hsecond
    obtain ⟨hresult, hstart⟩ := parse_translate_iff_derives.2 hfirst
    obtain ⟨hresult', hstop⟩ := parse_translate_iff_derives.2 hsecond
    rw [hresult] at hresult'
    rw [hstart] at hstop
    cases hresult'
    cases hstop
    exact ⟨rfl, rfl⟩
  · constructor
    · rintro ⟨error, herror⟩
      constructor
      · by_contra hbegins
        rw [parse_literal_iff.2 ⟨hbegins, rfl⟩] at herror
        cases herror
      · rintro ⟨stop, call, hderives⟩
        rw [(parse_translate_iff_derives.2 hderives).1] at herror
        cases herror
    · rintro ⟨hbegins, hnone⟩
      rw [← consumed?_eq_none_iff]
      cases hresult : (parse input).result with
      | error error => exact consumed?_eq_none_iff.2 ⟨error, hresult⟩
      | ok node =>
          cases node with
          | literal plain => exact absurd hbegins (parse_literal_iff.1 hresult).1
          | translate call =>
              cases hstop : consumed? input with
              | none => rfl
              | some stop =>
                  exact absurd ⟨stop, call, parse_translate_iff_derives.1 ⟨hresult, hstop⟩⟩ hnone

/-- An empty block is derived in front of a second closing brace, and not further. -/
theorem empty_block_derived :
    Derives (marker ++ ['a', '{', '}', '}']) 8 (.block ['a'] .nil) :=
  ((parse_accepts_written_forms _).2.1 _ _).1 ⟨by rfl, by rfl⟩

end TranslationKeys
