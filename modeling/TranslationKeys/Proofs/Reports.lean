import TranslationKeys.Proofs.Acceptance

/-!
# What is reported

A rule reports one finding when it fails and none when it gives a value.  This
is kept by every way in which rules are put together, so it holds of a whole
input, where text that is left behind a call is reported as well.
-/

namespace TranslationKeys

open Lexeme

/-! ## Suffixes -/

namespace Lexeme

theorem skipSpacing_suffix (text : Text) : skipSpacing text <:+ text :=
  List.dropWhile_suffix isSpacing

theorem skipSeparator_suffix (text : Text) : skipSeparator text <:+ text := by
  obtain ⟨separator, _, htext⟩ := skipSeparator_sound text
  exact ⟨separator, htext.symm⟩

theorem callKey?_suffix {text key rest : Text} (h : callKey? text = some (key, rest)) :
    rest <:+ text := by
  obtain ⟨rfl, _, _⟩ := callKey?_eq_some_iff.1 h
  exact ⟨marker ++ key, by simp⟩

end Lexeme

/-! ## One finding for each failure -/

namespace Reading

variable {α β : Type}

/--
A reading of a text reports the finding that ends it, of a kind that leaves the
text unread, and nothing else.  What it leaves is a last part of the text.
-/
structure Consistent (text : Text) (reading : Reading α) : Prop where
  done : forall value rest, reading.outcome = .ok (value, rest) ->
    reading.reports = [] /\ rest <:+ text
  failed : forall failure, reading.outcome = .error failure ->
    reading.reports = [failure] /\ failure.kind.isFatal = true /\ failure.rest <:+ text

namespace Consistent

variable {text rest : Text}

theorem of_done (value : α) (hrest : rest <:+ text) :
    (Reading.done value rest).Consistent text := by
  constructor
  · intro found left h
    cases h
    exact ⟨rfl, hrest⟩
  · intro failure h
    cases h

theorem of_fail {kind : Diagnostic.Kind} (hkind : kind.isFatal = true)
    (hrest : rest <:+ text) : (Reading.fail kind rest : Reading α).Consistent text := by
  constructor
  · intro found left h
    cases h
  · intro failure h
    cases h
    exact ⟨rfl, hkind, hrest⟩

theorem entered {reading : Reading α} (entry : RuleEntry) (h : reading.Consistent text) :
    (Reading.entered entry reading).Consistent text :=
  ⟨h.done, h.failed⟩

theorem mono {reading : Reading α} (h : reading.Consistent rest) (hrest : rest <:+ text) :
    reading.Consistent text := by
  constructor
  · intro value left hvalue
    obtain ⟨hreports, hleft⟩ := h.done value left hvalue
    exact ⟨hreports, hleft.trans hrest⟩
  · intro failure hfailure
    obtain ⟨hreports, hkind, hleft⟩ := h.failed failure hfailure
    exact ⟨hreports, hkind, hleft.trans hrest⟩

/-- A value reports nothing, so what is reported after it is all there is. -/
theorem andThen {reading : Reading α} {next : α -> Text -> Reading β}
    (h : reading.Consistent text) (hnext : forall value rest, (next value rest).Consistent rest) :
    (reading.andThen next).Consistent text := by
  unfold Reading.andThen
  cases houtcome : reading.outcome with
  | error failure =>
      constructor
      · intro value left hvalue
        cases hvalue
      · intro found hfound
        cases hfound
        exact h.failed failure houtcome
  | ok found =>
      obtain ⟨value, rest⟩ := found
      obtain ⟨hreports, hrest⟩ := h.done value rest houtcome
      have hfollowing := (hnext value rest).mono hrest
      constructor
      · intro final left hfinal
        obtain ⟨hlater, hleft⟩ := hfollowing.done final left hfinal
        exact ⟨by simp [hreports, hlater], hleft⟩
      · intro failure hfailure
        obtain ⟨hlater, hkind, hleft⟩ := hfollowing.failed failure hfailure
        exact ⟨by simp [hreports, hlater], hkind, hleft⟩

end Consistent

end Reading

/-! ## Rules -/

section Rules

variable {nested : Text -> Reading Node}

theorem nestedValue_consistent (node : Node) (rest : Text) :
    (nestedValue node rest).Consistent rest := by
  cases node with
  | literal plain => exact .of_fail rfl List.suffix_rfl
  | translate call => exact .of_done _ List.suffix_rfl

theorem readValue_consistent (hnested : forall text, (nested text).Consistent text)
    (text : Text) : (readValue nested text).Consistent text := by
  rcases readValue_cases nested text with
    ⟨raw, rest, _, rfl, hread⟩ | ⟨_, _, _, hread⟩ | ⟨_, hread⟩
  · rw [hread]
    exact .of_done _ (List.suffix_append raw rest)
  · rw [hread]
    exact .of_fail rfl List.suffix_rfl
  · rw [hread]
    exact (hnested text).andThen nestedValue_consistent

theorem readParam_consistent (hnested : forall text, (nested text).Consistent text)
    (depth : Nat) (text : Text) : (readParam nested depth text).Consistent text := by
  rcases readParam_cases nested depth text with
    ⟨_, hread⟩ | ⟨name, header, value, _, rfl, hread⟩
  · rw [hread]
    apply Reading.Consistent.entered
    exact .of_fail rfl List.suffix_rfl
  · rw [hread]
    apply Reading.Consistent.entered
    have hvalue := (readValue_consistent hnested value).mono (List.suffix_append header value)
    apply hvalue.andThen
    intro value rest
    exact .of_done _ (skipSeparator_suffix rest)

theorem readParams_consistent (hnested : forall text, (nested text).Consistent text)
    (depth : Nat) (bound : Text) (params : Params) (text : Text) :
    (readParams nested depth bound params text).Consistent text := by
  induction bound generalizing params text with
  | nil => exact .of_fail rfl List.suffix_rfl
  | cons b bound ih =>
      have hsuffix := skipSpacing_suffix text
      rcases readParams_cons_cases nested depth b bound params text with
        ⟨_, hread⟩ | ⟨rest, hbrace, hread⟩ | ⟨c, rest, hmore, _, hread⟩
      · rw [hread]
        exact .of_fail rfl List.nil_suffix
      · rw [hbrace] at hsuffix
        rw [hread]
        exact .of_done _ hsuffix
      · rw [hmore] at hsuffix
        rw [hread]
        have hparam := (readParam_consistent hnested depth (c :: rest)).mono hsuffix
        apply hparam.andThen
        intro param left
        exact ih _ left

theorem closeBlock_consistent (key : Text) (params : Params) (rest : Text) :
    (closeBlock key params rest).Consistent rest := by
  unfold closeBlock
  split
  · exact .of_done _ (List.suffix_cons _ _)
  · exact .of_fail rfl List.suffix_rfl

end Rules

/-- Every expression is read with one finding for a failure and none for a value. -/
theorem readExpression_consistent (free : Nat) (text : Text) :
    (readExpression free text).Consistent text := by
  induction free using Nat.strongRecOn generalizing text with
  | ind free ih =>
      rcases readExpression_cases free text with
        ⟨_, hread⟩ | ⟨key, rest, hkey, _, hread⟩ | ⟨key, inner, hkey, _, hread⟩ |
          ⟨key, inner, within, hkey, rfl, hread⟩
      · rw [hread]
        apply Reading.Consistent.entered
        exact .of_done _ List.nil_suffix
      · rw [hread]
        apply Reading.Consistent.entered
        exact .of_done _ (callKey?_suffix hkey)
      · have hinner : inner <:+ text := (List.suffix_cons '{' inner).trans (callKey?_suffix hkey)
        rw [hread]
        apply Reading.Consistent.entered
        exact .of_fail rfl hinner
      · have hinner : inner <:+ text := (List.suffix_cons '{' inner).trans (callKey?_suffix hkey)
        have hparams := readParams_consistent (ih within (Nat.lt_succ_self within))
          (expressionDepth (within + 1) + 2) inner .nil inner
        rw [hread]
        apply Reading.Consistent.entered
        exact ((hparams.entered _).mono hinner).andThen (closeBlock_consistent key)

/-! ## Whole inputs -/

/-- The findings of an input: the failure, or the text that its tree leaves. -/
theorem readInput_reports (input : Text) :
    (readInput input).reports =
      match (readExpression maxOpenBlocks input).outcome with
      | .error failure => [failure]
      | .ok (_, rest) => if rest.isEmpty then [] else [⟨.trailingInput, rest⟩] := by
  have hconsistent := readExpression_consistent maxOpenBlocks input
  unfold readInput Reading.andThen
  cases houtcome : (readExpression maxOpenBlocks input).outcome with
  | error failure => exact (hconsistent.failed failure houtcome).1
  | ok found =>
      obtain ⟨node, rest⟩ := found
      simp only [(hconsistent.done node rest houtcome).1, List.nil_append, readEnd]
      split <;> rfl

/-- An input of which nothing is left gives its node and no diagnostic. -/
theorem parse_of_nothing_left {input : Text} {node : Node}
    (h : (readExpression maxOpenBlocks input).outcome = .ok (node, [])) :
    (parse input).result = .ok node /\ (parse input).diagnostics = [] := by
  refine ⟨parse_result_ok_iff.2 ⟨[], h⟩, ?_⟩
  have hreports := readInput_reports input
  rw [h] at hreports
  simp [parse, hreports]

/-- An input that cannot be read gives its failure, and the failure as its one diagnostic. -/
theorem parse_of_failure {input : Text} {failure : Finding}
    (h : (readExpression maxOpenBlocks input).outcome = .error failure) :
    (parse input).result = .error ⟨failure.kind, offsetOf input failure.rest⟩ /\
      (parse input).diagnostics = [diagnosticAt input failure] := by
  refine ⟨parse_result_error_iff.2 ⟨failure, h, rfl⟩, ?_⟩
  have hreports := readInput_reports input
  rw [h] at hreports
  simp [parse, hreports]

theorem rest_of_mem_reports {input : Text} {finding : Finding}
    (h : finding ∈ (readInput input).reports) :
    finding.rest <:+ input /\ (finding.kind = .trailingInput -> finding.rest ≠ []) := by
  have hconsistent := readExpression_consistent maxOpenBlocks input
  rw [readInput_reports] at h
  cases houtcome : (readExpression maxOpenBlocks input).outcome with
  | error failure =>
      obtain ⟨_, hkind, hrest⟩ := hconsistent.failed failure houtcome
      rw [houtcome] at h
      cases List.mem_singleton.1 h
      refine ⟨hrest, ?_⟩
      intro htrailing
      rw [htrailing] at hkind
      cases hkind
  | ok found =>
      obtain ⟨node, rest⟩ := found
      rw [houtcome] at h
      dsimp only at h
      split at h
      · cases h
      · rename_i hempty
        cases List.mem_singleton.1 h
        exact ⟨(hconsistent.done node rest houtcome).2, fun _ => by simpa using hempty⟩

/--
A diagnostic points into an input when its offset is the end of a character and
its remainder is the text from there on, absent at the end of the input only.
-/
def Diagnostic.PointsInto (input : Text) (diagnostic : Diagnostic) : Prop :=
  exists front rest, Text.cut? input diagnostic.offset = some (front, rest) /\
    (diagnostic.remainder = none <-> diagnostic.offset = Text.byteLength input) /\
    (diagnostic.offset ≠ Text.byteLength input -> diagnostic.remainder = some rest)

theorem diagnosticAt_pointsInto {input : Text} {finding : Finding}
    (h : finding.rest <:+ input) : (diagnosticAt input finding).PointsInto input := by
  obtain ⟨kind, rest⟩ := finding
  obtain ⟨front, rfl⟩ := h
  refine ⟨front, rest, ?_, ?_, ?_⟩
  · simp only [diagnosticAt, offsetOf_append, Text.cut?_append]
  · simp [diagnosticAt, offsetOf_append]
  · simp [diagnosticAt, offsetOf_append]

/--
The diagnostics of an input agree with its result.  A failure has one, of the
same kind and offset.  Plain text has none.  A call has none when it takes up
the whole input, and else one where it ends.  Each points into the input.
-/
theorem diagnostics_agree_with_result (input : Text) :
    (forall error, (parse input).result = .error error ->
      error.kind.isFatal = true /\
        exists diagnostic, (parse input).diagnostics = [diagnostic] /\
          diagnostic.kind = error.kind /\ diagnostic.offset = error.offset) /\
    (forall plain, (parse input).result = .ok (.literal plain) ->
      (parse input).diagnostics = []) /\
    (forall call, (parse input).result = .ok (.translate call) ->
      ((parse input).diagnostics = [] /\
          consumed? input = some (Text.byteLength input)) \/
        exists diagnostic, (parse input).diagnostics = [diagnostic] /\
          diagnostic.kind = .trailingInput /\ consumed? input = some diagnostic.offset) /\
    (∀ diagnostic ∈ (parse input).diagnostics, diagnostic.PointsInto input /\
      (diagnostic.kind = .trailingInput -> diagnostic.remainder ≠ none)) := by
  have hconsistent := readExpression_consistent maxOpenBlocks input
  have hreports := readInput_reports input
  refine ⟨?_, ?_, ?_, ?_⟩
  · intro error herror
    obtain ⟨failure, houtcome, rfl⟩ := parse_result_error_iff.1 herror
    rw [houtcome] at hreports
    refine ⟨(hconsistent.failed failure houtcome).2.1, diagnosticAt input failure, ?_, rfl, rfl⟩
    simp [parse, hreports]
  · intro plain hplain
    obtain ⟨rest, houtcome⟩ := parse_result_ok_iff.1 hplain
    obtain ⟨_, _, rfl⟩ := readExpression_literal_iff.1 houtcome
    rw [houtcome] at hreports
    simp [parse, hreports]
  · intro call hcall
    obtain ⟨rest, houtcome⟩ := parse_result_ok_iff.1 hcall
    have hstop : consumed? input = some (offsetOf input rest) :=
      consumed?_eq_some_iff.2 ⟨_, rest, houtcome, rfl⟩
    rw [houtcome] at hreports
    cases rest with
    | nil =>
        refine Or.inl ⟨by simp [parse, hreports], ?_⟩
        rw [hstop]
        rfl
    | cons c more =>
        refine Or.inr ⟨diagnosticAt input ⟨.trailingInput, c :: more⟩, ?_, rfl, hstop⟩
        simp [parse, hreports]
  · intro diagnostic hdiagnostic
    obtain ⟨finding, hfinding, rfl⟩ := List.mem_map.1 hdiagnostic
    obtain ⟨hrest, htrailing⟩ := rest_of_mem_reports hfinding
    refine ⟨diagnosticAt_pointsInto hrest, ?_⟩
    intro hkind
    simpa [diagnosticAt] using htrailing hkind

/-- A brace that is left behind an empty block is reported, and an open block is a failure. -/
theorem brace_left_or_missing_is_reported :
    ((parse (marker ++ ['a', '{', '}', '}'])).diagnostics = [] /\
          consumed? (marker ++ ['a', '{', '}', '}']) = some 9 \/
        exists diagnostic,
          (parse (marker ++ ['a', '{', '}', '}'])).diagnostics = [diagnostic] /\
            diagnostic.kind = .trailingInput /\
              consumed? (marker ++ ['a', '{', '}', '}']) = some diagnostic.offset) /\
      (Diagnostic.Kind.missingTerminator.isFatal = true /\
        exists diagnostic, (parse (marker ++ ['a', '{'])).diagnostics = [diagnostic] /\
          diagnostic.kind = .missingTerminator /\ diagnostic.offset = 7) := by
  have hcall : (parse (marker ++ ['a', '{', '}', '}'])).result =
      .ok (.translate (.block ['a'] .nil)) := by rfl
  have hfailure : (parse (marker ++ ['a', '{'])).result = .error ⟨.missingTerminator, 7⟩ := by
    rfl
  exact ⟨(diagnostics_agree_with_result _).2.2.1 _ hcall,
    (diagnostics_agree_with_result _).1 _ hfailure⟩

end TranslationKeys
