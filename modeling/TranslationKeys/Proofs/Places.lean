import TranslationKeys.Command.Ending
import TranslationKeys.Proofs.Reports
import TranslationKeys.Proofs.Stops

/-!
# Diagnostics that can be shown

A report shows each diagnostic under the line of its offset.  Two things stop it:
an offset inside a character, which has no place, and a place that is too far to
the right for a caret.  Reading an input only ever stops between characters, so
its diagnostics have places, and its report is complete unless a line is wide.
What is wide depends on the measure that columns are counted by, and it may be any.
-/

namespace TranslationKeys

open Lexeme

/-! ## Offsets between characters -/

namespace Text

/-- An offset where a text can be cut. -/
def IsBoundary (text : Text) (offset : Nat) : Prop :=
  exists front rest, text = front ++ rest /\ byteLength front = offset

theorem isBoundary_of_cut? {text front rest : Text} {offset : Nat}
    (h : cut? text offset = some (front, rest)) : IsBoundary text offset := by
  obtain ⟨htext, hbytes⟩ := cut?_sound h
  exact ⟨front, rest, htext, hbytes⟩

theorem cut?_eq_none_iff {text : Text} {offset : Nat} :
    cut? text offset = none <-> ¬ IsBoundary text offset := by
  constructor
  · rintro hnone ⟨front, rest, rfl, rfl⟩
    rw [cut?_append] at hnone
    cases hnone
  · intro hinside
    cases hcut : cut? text offset with
    | none => rfl
    | some parts => exact absurd (isBoundary_of_cut? hcut) hinside

@[simp]
theorem displayWidth_append (front back : Text) :
    displayWidth (front ++ back) = displayWidth front + displayWidth back := by
  induction front with
  | nil => simp [displayWidth]
  | cons c rest ih => simp [displayWidth, ih, Nat.add_assoc]

@[simp]
theorem displayWidth_spaces (count : Nat) : displayWidth (spaces count) = count := by
  induction count with
  | zero => rfl
  | succ count ih =>
      have hspaces : spaces (count + 1) = ' ' :: spaces count := rfl
      have hwidth : charWidth ' ' = 1 := rfl
      rw [hspaces, displayWidth, ih, hwidth, Nat.add_comm]

end Text

theorem lastLine_append {more : Text} (h : '\n' ∉ more) (front : Text) :
    lastLine (front ++ more) = lastLine front ++ more := by
  have hinside : ∀ c ∈ more.reverse, (c != '\n') = true := by
    intro c hc
    rw [bne_iff_ne]
    rintro rfl
    exact h (List.mem_reverse.1 hc)
  rw [lastLine, List.reverse_append, List.takeWhile_append_of_pos hinside, List.reverse_append,
    List.reverse_reverse]
  rfl

theorem lastLine_of_not_mem {text : Text} (h : '\n' ∉ text) : lastLine text = text :=
  lastLine_append h []

/-! ## Obstacles -/

namespace Diagnostic

/-- The offset, or the end of the input if that is nearer, lies inside a character. -/
def OffBoundary (input : Text) (diagnostic : Diagnostic) : Prop :=
  ¬ Text.IsBoundary input (min diagnostic.offset (Text.byteLength input))

/-- The line of the offset takes more columns in front of it than a caret can have. -/
def TooFarRight (measure : Text -> Nat) (input : Text) (diagnostic : Diagnostic) : Prop :=
  exists front rest, input = front ++ rest /\
    Text.byteLength front = min diagnostic.offset (Text.byteLength input) /\
      widestPadding < measure (lastLine front)

variable {measure : Text -> Nat} {input : Text} {diagnostic : Diagnostic}

theorem obstacle?_of_cut {front rest : Text} (hinput : input = front ++ rest)
    (hbytes : Text.byteLength front = min diagnostic.offset (Text.byteLength input)) :
    diagnostic.obstacle? measure input =
      if measure (lastLine front) <= widestPadding then none
      else some .tooFarRight := by
  have hcut : Text.cut? input (min diagnostic.offset (Text.byteLength input)) =
      some (front, rest) := by
    rw [← hbytes, hinput, Text.cut?_append]
  simp [obstacle?, Place.ofOffsetBy?, Place.atCut, hcut, Place.isShowable]

theorem obstacle?_eq_insideCharacter_iff :
    diagnostic.obstacle? measure input = some .insideCharacter <->
      diagnostic.OffBoundary input := by
  constructor
  · rintro h ⟨front, rest, hinput, hbytes⟩
    rw [obstacle?_of_cut hinput hbytes] at h
    split at h <;> cases h
  · intro h
    have hcut := Text.cut?_eq_none_iff.2 h
    simp [obstacle?, Place.ofOffsetBy?, hcut]

theorem obstacle?_eq_tooFarRight_iff :
    diagnostic.obstacle? measure input = some .tooFarRight <->
      diagnostic.TooFarRight measure input := by
  constructor
  · intro h
    by_cases hboundary : diagnostic.OffBoundary input
    · rw [obstacle?_eq_insideCharacter_iff.2 hboundary] at h
      cases h
    · obtain ⟨front, rest, hinput, hbytes⟩ := not_not.1 hboundary
      rw [obstacle?_of_cut hinput hbytes] at h
      split at h
      · cases h
      · rename_i hwide
        exact ⟨front, rest, hinput, hbytes, Nat.lt_of_not_le hwide⟩
  · rintro ⟨front, rest, hinput, hbytes, hwide⟩
    rw [obstacle?_of_cut hinput hbytes, if_neg (Nat.not_le_of_lt hwide)]

theorem obstacle?_eq_none_iff :
    diagnostic.obstacle? measure input = none <->
      ¬ diagnostic.OffBoundary input /\ ¬ diagnostic.TooFarRight measure input := by
  rw [← @obstacle?_eq_insideCharacter_iff measure, ← obstacle?_eq_tooFarRight_iff]
  cases diagnostic.obstacle? measure input with
  | none => simp
  | some obstacle => cases obstacle <;> simp

end Diagnostic

/-! ## Summaries -/

namespace Summary

/-- The diagnostics of a summary in the order of its report, each with its input. -/
def shown (summary : Summary) : List (Text × Diagnostic) :=
  summary.outcomes.flatMap fun outcome =>
    outcome.parsed.diagnostics.map fun diagnostic => (outcome.input, diagnostic)

theorem mem_shown {summary : Summary} {input : Text} {diagnostic : Diagnostic} :
    (input, diagnostic) ∈ summary.shown <->
      ∃ outcome ∈ summary.outcomes, outcome.input = input /\
        diagnostic ∈ outcome.parsed.diagnostics := by
  simp only [shown, List.mem_flatMap, List.mem_map, Prod.mk.injEq]
  constructor
  · rintro ⟨outcome, houtcome, found, hfound, rfl, rfl⟩
    exact ⟨outcome, houtcome, rfl, hfound⟩
  · rintro ⟨outcome, houtcome, rfl, hdiagnostic⟩
    exact ⟨outcome, houtcome, diagnostic, hdiagnostic, rfl, rfl⟩

/-- The first obstacle of an outcome is that of the first diagnostic that has one. -/
theorem obstacle?_eq_findSome? (measure : Text -> Nat) (summary : Summary) :
    summary.obstacle? measure =
      summary.shown.findSome? fun (input, diagnostic) => diagnostic.obstacle? measure input := by
  unfold obstacle? shown
  induction summary.outcomes with
  | nil => rfl
  | cons outcome outcomes ih =>
      rw [List.flatMap_cons, List.findSome?_append, ← ih, List.findSome?_cons,
        List.findSome?_map]
      change _ = (outcome.obstacle? measure).or _
      cases outcome.obstacle? measure <;> rfl

theorem stop_reportBy_eq_none_iff {measure : Text -> Nat} {summary : Summary} :
    (summary.reportBy measure).stop = none <->
      ∀ shown ∈ summary.shown, shown.2.obstacle? measure shown.1 = none := by
  rw [stop_reportBy, obstacle?_eq_findSome?, List.findSome?_eq_none_iff]

/-- The report stops inside a character exactly when it can show all diagnostics before. -/
theorem stop_reportBy_eq_insideCharacter_iff {measure : Text -> Nat} {summary : Summary} :
    (summary.reportBy measure).stop = some .insideCharacter <->
      exists before input diagnostic after,
        summary.shown = before ++ (input, diagnostic) :: after /\
          diagnostic.OffBoundary input /\
            ∀ earlier ∈ before, ¬ earlier.2.OffBoundary earlier.1 /\
              ¬ earlier.2.TooFarRight measure earlier.1 := by
  rw [stop_reportBy, obstacle?_eq_findSome?, List.findSome?_eq_some_iff]
  simp only [Diagnostic.obstacle?_eq_insideCharacter_iff, Diagnostic.obstacle?_eq_none_iff]
  constructor
  · rintro ⟨before, ⟨input, diagnostic⟩, after, hshown, hboundary, hbefore⟩
    exact ⟨before, input, diagnostic, after, hshown, hboundary, hbefore⟩
  · rintro ⟨before, input, diagnostic, after, hshown, hboundary, hbefore⟩
    exact ⟨before, (input, diagnostic), after, hshown, hboundary, hbefore⟩

end Summary

/-! ## Inputs that were read -/

theorem Outcome.ofInput_input (traced : Bool) (input : Text) :
    (Outcome.ofInput traced input).input = input :=
  rfl

theorem Outcome.ofInput_diagnostics (traced : Bool) (input : Text) :
    (Outcome.ofInput traced input).parsed.diagnostics = (parse input).diagnostics := by
  cases traced <;> rfl

/-- Reading stops between characters only. -/
theorem not_offBoundary_of_mem_diagnostics {input : Text} {diagnostic : Diagnostic}
    (h : diagnostic ∈ (parse input).diagnostics) : ¬ diagnostic.OffBoundary input := by
  obtain ⟨finding, hfinding, rfl⟩ := List.mem_map.1 h
  obtain ⟨front, rest, hcut, _⟩ := diagnosticAt_pointsInto (rest_of_mem_reports hfinding).1
  obtain ⟨hinput, hbytes⟩ := Text.cut?_sound hcut
  rw [Diagnostic.OffBoundary, not_not]
  refine ⟨front, rest, hinput, ?_⟩
  have htotal := congrArg Text.byteLength hinput
  rw [Text.byteLength_append] at htotal
  omega

theorem mem_shown_summarize {config : Config} {options : ParseOptions} {inputs : List Text}
    {input : Text} {diagnostic : Diagnostic} :
    (input, diagnostic) ∈ (summarize config options inputs).shown <->
      input ∈ inputs /\ diagnostic ∈ (parse input).diagnostics := by
  rw [Summary.mem_shown]
  constructor
  · rintro ⟨outcome, houtcome, hinput, hdiagnostic⟩
    obtain ⟨source, hsource, rfl⟩ := List.mem_map.1 houtcome
    rw [Outcome.ofInput_input] at hinput
    rw [Outcome.ofInput_diagnostics, hinput] at hdiagnostic
    exact ⟨hinput ▸ hsource, hdiagnostic⟩
  · rintro ⟨hinput, hdiagnostic⟩
    refine ⟨_, List.mem_map.2 ⟨input, hinput, rfl⟩, rfl, ?_⟩
    rwa [Outcome.ofInput_diagnostics]

theorem isStopped_finishBy (measure : Text -> Nat) (colour : Bool) (result : Completion) :
    (finishBy measure colour result).isStopped = (result.reportBy measure).stop.isSome := by
  unfold finishBy Report.ending
  cases (result.reportBy measure).stop <;> rfl

/-- Inputs that were read are reported unless a diagnostic is too far to the right. -/
theorem stop_summarize_ne_none_iff {measure : Text -> Nat} {config : Config}
    {options : ParseOptions} {inputs : List Text} :
    ((summarize config options inputs).reportBy measure).stop ≠ none <->
      exists input diagnostic, input ∈ inputs /\
        diagnostic ∈ (parse input).diagnostics /\ diagnostic.TooFarRight measure input := by
  rw [Ne, Summary.stop_reportBy_eq_none_iff]
  constructor
  · intro h
    simp only [not_forall, exists_prop] at h
    obtain ⟨⟨input, diagnostic⟩, hshown, hobstacle⟩ := h
    obtain ⟨hinput, hdiagnostic⟩ := mem_shown_summarize.1 hshown
    refine ⟨input, diagnostic, hinput, hdiagnostic, ?_⟩
    by_contra hnear
    exact hobstacle (Diagnostic.obstacle?_eq_none_iff.2
      ⟨not_offBoundary_of_mem_diagnostics hdiagnostic, hnear⟩)
  · rintro ⟨input, diagnostic, hinput, hdiagnostic, hwide⟩ hnone
    have hobstacle := hnone _ (mem_shown_summarize.2 ⟨hinput, hdiagnostic⟩)
    rw [Diagnostic.obstacle?_eq_tooFarRight_iff.2 hwide] at hobstacle
    cases hobstacle

/--
A report is complete unless something stops it.  It is stopped by a diagnostic
whose offset lies inside a character, if all before it can be shown, and else by
one that is too far to the right.  No diagnostic of an input that was read lies
inside a character, so inputs that were read are reported completely unless a
diagnostic is too far to the right.  This holds however columns are counted.
-/
theorem reports_stop_at_obstacles (measure : Text -> Nat) (summary : Summary) (colour : Bool)
    (config : Config) (options : ParseOptions) (inputs : List Text) :
    (((summary.reportBy measure).stop ≠ none <->
        exists input diagnostic, (input, diagnostic) ∈ summary.shown /\
          (diagnostic.OffBoundary input \/ diagnostic.TooFarRight measure input)) /\
      ((summary.reportBy measure).stop = some .insideCharacter <->
        exists before input diagnostic after,
          summary.shown = before ++ (input, diagnostic) :: after /\
            diagnostic.OffBoundary input /\
              ¬ exists earlier, earlier ∈ before /\
                (earlier.2.OffBoundary earlier.1 \/
                  earlier.2.TooFarRight measure earlier.1))) /\
    (¬ exists input diagnostic,
      (input, diagnostic) ∈ (summarize config options inputs).shown /\
        diagnostic.OffBoundary input) /\
    ((finishBy measure colour (.parsed (summarize config options inputs))).isStopped = true <->
      exists input diagnostic, input ∈ inputs /\
        diagnostic ∈ (parse input).diagnostics /\ diagnostic.TooFarRight measure input) := by
  refine ⟨⟨?_, ?_⟩, ?_, ?_⟩
  · simp only [Ne, Summary.stop_reportBy_eq_none_iff, Diagnostic.obstacle?_eq_none_iff,
      not_forall, not_and_or, not_not, Prod.exists, exists_prop]
  · rw [Summary.stop_reportBy_eq_insideCharacter_iff]
    simp only [not_exists, not_and, not_or]
  · rintro ⟨input, diagnostic, hshown, hboundary⟩
    exact not_offBoundary_of_mem_diagnostics (mem_shown_summarize.1 hshown).2 hboundary
  · rw [isStopped_finishBy, Option.isSome_iff_ne_none]
    exact stop_summarize_ne_none_iff

/-! ## A wide line -/

/-- A block that is still open behind some spaces. -/
def openBlock (count : Nat) : Text :=
  marker ++ (['a'] ++ '{' :: Text.spaces count)

theorem openBlock_outcome (count : Nat) :
    (readExpression maxOpenBlocks (openBlock count)).outcome =
      .error ⟨.missingTerminator, []⟩ := by
  have hkey : IsKey ['a'] := by decide
  have hspaces : skipSpacing (Text.spaces count) = [] := by
    have hspace : IsSpace (Text.spaces count) := by
      intro c hc
      rw [List.eq_of_mem_replicate hc]
      rfl
    calc
      skipSpacing (Text.spaces count) = skipSpacing (Text.spaces count ++ []) := by
        rw [List.append_nil]
      _ = skipSpacing [] := skipSpacing_append hspace []
      _ = [] := rfl
  have hparams (depth : Nat) :
      (readParams (readExpression 127) depth (Text.spaces count) .nil
        (Text.spaces count)).outcome = .error ⟨.missingTerminator, []⟩ := by
    cases count with
    | zero => rfl
    | succ count =>
        have hbound : Text.spaces (count + 1) = ' ' :: Text.spaces count := rfl
        rcases readParams_cons_cases (readExpression 127) depth ' ' (Text.spaces count) .nil
            (Text.spaces (count + 1)) with
          ⟨_, hread⟩ | ⟨rest, hbrace, _⟩ | ⟨c, rest, hmore, _, _⟩
        · rw [hbound] at hread ⊢
          rw [hread]
          rfl
        · rw [hspaces] at hbrace
          cases hbrace
        · rw [hspaces] at hmore
          cases hmore
  have hread := readExpression_block 127 (callKey?_of_block (Text.spaces count) hkey)
  rw [openBlock, maxOpenBlocks, hread, Reading.entered_outcome,
    Reading.entered_andThen_outcome]
  exact Reading.andThen_outcome_error_iff.2 (Or.inl (hparams _))

/-- The end of an open block is as far to the right as the block is long. -/
theorem openBlock_tooFarRight {count : Nat} (hcount : widestPadding < count + 7) :
    (diagnosticAt (openBlock count) ⟨.missingTerminator, []⟩).TooFarRight Text.displayWidth
      (openBlock count) := by
  have hline : '\n' ∉ openBlock count := by
    intro hmem
    simp only [openBlock, Text.spaces, List.mem_append, List.mem_cons, List.mem_replicate] at hmem
    revert hmem
    simp [marker]
  have hwidth : Text.displayWidth (openBlock count) = count + 7 := by
    have hfront : openBlock count = (marker ++ ['a', '{']) ++ Text.spaces count := by
      simp [openBlock]
    rw [hfront, Text.displayWidth_append, Text.displayWidth_spaces, Nat.add_comm]
    rfl
  refine ⟨openBlock count, [], (List.append_nil _).symm, ?_, ?_⟩
  · simp [diagnosticAt, offsetOf]
  · rwa [lastLine_of_not_mem hline, hwidth]

theorem openBlock_diagnostics (count : Nat) :
    (parse (openBlock count)).diagnostics =
      [diagnosticAt (openBlock count) ⟨.missingTerminator, []⟩] :=
  (parse_of_failure (openBlock_outcome count)).2

/-- Not every input that is read is reported: a caret 65536 columns to the right cannot be shown. -/
theorem wide_line_has_no_report :
    ¬ forall colour config options inputs,
      (finishBy Text.displayWidth colour
        (.parsed (summarize config options inputs))).isStopped = false := by
  intro hcomplete
  have hstop : ((summarize .default ⟨[openBlock 65529], none, none, false, false, false⟩
      [openBlock 65529]).reportBy Text.displayWidth).stop ≠ none := by
    rw [stop_summarize_ne_none_iff]
    exact ⟨openBlock 65529, _, List.mem_singleton_self _, by rw [openBlock_diagnostics]; simp,
      openBlock_tooFarRight (by decide)⟩
  have hending := hcomplete false .default
    ⟨[openBlock 65529], none, none, false, false, false⟩ [openBlock 65529]
  rw [isStopped_finishBy, Option.isSome_eq_false_iff, Option.isNone_iff_eq_none] at hending
  exact hstop hending

end TranslationKeys
