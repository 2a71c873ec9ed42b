import TranslationKeys.Command.Report

/-!
# Reports that are stopped

Reports that are made in turn are stopped by the first obstacle in any of them.
What is in front of it is written, and nothing behind it.  So a summary shows its
outcomes through the first one with an obstacle, and that one without its row.
What is said about all outcomes comes last, and only if there is no obstacle.
-/

namespace TranslationKeys

open Text (Styled)

/-! ## Through the first item of a kind -/

section ThroughFirst

variable {α β : Type}

/-- The items through the first one of some kind, or all of them if there is none. -/
def throughFirst (isLast : α -> Bool) : List α -> List α
  | [] => []
  | item :: rest => if isLast item then [item] else item :: throughFirst isLast rest

theorem throughFirst_of_none {isLast : α -> Bool} {items : List α}
    (h : ∀ item ∈ items, isLast item = false) : throughFirst isLast items = items := by
  induction items with
  | nil => rfl
  | cons item rest ih =>
      obtain ⟨hitem, hrest⟩ := List.forall_mem_cons.1 h
      simp [throughFirst, hitem, ih hrest]

theorem throughFirst_map (isLast : β -> Bool) (f : α -> β) (items : List α) :
    throughFirst isLast (items.map f) = (throughFirst (isLast ∘ f) items).map f := by
  induction items with
  | nil => rfl
  | cons item rest ih =>
      rw [List.map_cons, throughFirst, throughFirst, ih, Function.comp_apply]
      split <;> rfl

theorem throughFirst_zipIdx (isLast : α -> Bool) (items : List α) (number : Nat) :
    throughFirst (isLast ∘ Prod.fst) (items.zipIdx number) =
      (throughFirst isLast items).zipIdx number := by
  induction items generalizing number with
  | nil => rfl
  | cons item rest ih =>
      rw [List.zipIdx_cons, throughFirst, throughFirst, ih, Function.comp_apply]
      split <;> rfl

/-- Where the last item counts for nothing, only the items in front of it are left. -/
theorem flatMap_throughFirst (isLast : α -> Bool) (f : α -> List β) (items : List α) :
    ((throughFirst isLast items).flatMap fun item => if isLast item then [] else f item) =
      (items.takeWhile fun item => !isLast item).flatMap f := by
  induction items with
  | nil => rfl
  | cons item rest ih =>
      rw [throughFirst, List.takeWhile_cons]
      cases hitem : isLast item with
      | false => simp [hitem, ih]
      | true => simp [hitem]

end ThroughFirst

/-! ## Reports in turn -/

namespace Report

@[simp]
theorem stop_nothing : nothing.stop = none :=
  rfl

@[simp]
theorem stop_toOut (lines : Styled) : (toOut lines).stop = none :=
  rfl

@[simp]
theorem stop_toErr (lines : Styled) : (toErr lines).stop = none :=
  rfl

@[simp]
theorem stop_stopped (obstacle : Obstacle) : (stopped obstacle).stop = some obstacle :=
  rfl

@[simp]
theorem inTurn_nil : inTurn [] = nothing :=
  rfl

@[simp]
theorem inTurn_cons (report : Report) (reports : List Report) :
    inTurn (report :: reports) = report.andThen (inTurn reports) :=
  rfl

theorem andThen_of_complete {first : Report} (h : first.stop = none) (second : Report) :
    first.andThen second =
      ⟨first.out ++ second.out, first.err ++ second.err, second.stop⟩ := by
  rw [andThen, h]

theorem andThen_of_stopped {first : Report} {obstacle : Obstacle}
    (h : first.stop = some obstacle) (second : Report) : first.andThen second = first := by
  rw [andThen, h]

@[simp]
theorem stop_andThen (first second : Report) :
    (first.andThen second).stop = first.stop.or second.stop := by
  cases hstop : first.stop with
  | none => rw [andThen_of_complete hstop, Option.none_or]
  | some obstacle => rw [andThen_of_stopped hstop, hstop, Option.some_or]

/-- Both streams are written on as long as nothing stops the first report. -/
theorem andThen_streams (first second : Report) :
    (first.andThen second).out =
        first.out ++ (if first.stop = none then second.out else []) /\
      (first.andThen second).err =
        first.err ++ (if first.stop = none then second.err else []) := by
  cases hstop : first.stop with
  | none => simp [andThen_of_complete hstop]
  | some obstacle => simp [andThen_of_stopped hstop]

/-- Reports in turn are written through the first one with an obstacle. -/
theorem inTurn_eq (reports : List Report) :
    inTurn reports =
      ⟨(throughFirst (fun report => report.stop.isSome) reports).flatMap out,
        (throughFirst (fun report => report.stop.isSome) reports).flatMap err,
        reports.findSome? stop⟩ := by
  induction reports with
  | nil => rfl
  | cons report reports ih =>
      rw [inTurn_cons, throughFirst, List.findSome?_cons]
      cases hstop : report.stop with
      | none => simp [andThen_of_complete hstop, ih]
      | some obstacle =>
          obtain ⟨out, err, stop⟩ := report
          cases hstop
          simp [andThen]

theorem stop_inTurn (reports : List Report) :
    (inTurn reports).stop = reports.findSome? stop := by
  rw [inTurn_eq]

/-- What holds of nothing and is kept from one report to the next one holds of all in turn. -/
theorem inTurn_of_forall (holds : Report -> Prop) (hnothing : holds nothing)
    (handThen : forall first second, holds first -> holds second -> holds (first.andThen second))
    {reports : List Report} (h : ∀ report ∈ reports, holds report) :
    holds (inTurn reports) := by
  induction reports with
  | nil => exact hnothing
  | cons report reports ih =>
      obtain ⟨hreport, hreports⟩ := List.forall_mem_cons.1 h
      exact handThen report _ hreport (ih hreports)

end Report

/-! ## Diagnostics -/

/-- What stops the report of a diagnostic. -/
def Diagnostic.obstacle? (measure : Text -> Nat) (input : Text) (diagnostic : Diagnostic) :
    Option Obstacle :=
  match Place.ofOffsetBy? measure input diagnostic.offset with
  | none => some .insideCharacter
  | some place => if place.isShowable then none else some .tooFarRight

section Diagnostics

variable (measure : Text -> Nat) (number : Nat) (input : Text) (verbose : Bool)
  (diagnostic : Diagnostic)

theorem stop_diagnosticReportBy :
    (diagnosticReportBy measure number input verbose diagnostic).stop =
      diagnostic.obstacle? measure input := by
  unfold diagnosticReportBy Diagnostic.obstacle?
  cases Place.ofOffsetBy? measure input diagnostic.offset with
  | none => rfl
  | some place => by_cases hshowable : place.isShowable <;> simp [hshowable]

/-- Diagnostics are for standard error. -/
theorem out_diagnosticReportBy :
    (diagnosticReportBy measure number input verbose diagnostic).out = [] := by
  unfold diagnosticReportBy
  cases Place.ofOffsetBy? measure input diagnostic.offset with
  | none => rfl
  | some place => by_cases hshowable : place.isShowable <;> simp [hshowable] <;> rfl

end Diagnostics

/-! ## Outcomes -/

namespace Outcome

/-- What stops the report on an outcome: the obstacle of the first diagnostic that has one. -/
def obstacle? (measure : Text -> Nat) (outcome : Outcome) : Option Obstacle :=
  outcome.parsed.diagnostics.findSome? (Diagnostic.obstacle? measure outcome.input)

def hasObstacle (measure : Text -> Nat) (outcome : Outcome) : Bool :=
  (outcome.obstacle? measure).isSome

end Outcome

/-- The lines of the diagnostics of an outcome, as far as they are shown. -/
def diagnosticsLines (measure : Text -> Nat) (verbose : Bool) (number : Nat)
    (outcome : Outcome) : Styled :=
  (Report.inTurn (outcome.parsed.diagnostics.map
    (diagnosticReportBy measure number outcome.input verbose))).err

section Outcomes

variable (measure : Text -> Nat) (format : ReportFormat) (verbose : Bool)

theorem inTurn_diagnostics (number : Nat) (outcome : Outcome) :
    Report.inTurn (outcome.parsed.diagnostics.map
        (diagnosticReportBy measure number outcome.input verbose)) =
      ⟨[], diagnosticsLines measure verbose number outcome, outcome.obstacle? measure⟩ := by
  have hout : ∀ report ∈ outcome.parsed.diagnostics.map
      (diagnosticReportBy measure number outcome.input verbose), report.out = [] := by
    intro report hreport
    obtain ⟨diagnostic, -, rfl⟩ := List.mem_map.1 hreport
    exact out_diagnosticReportBy measure number outcome.input verbose diagnostic
  have hnone := Report.inTurn_of_forall (fun report => report.out = []) rfl
    (fun first second hfirst hsecond => by
      simp [(Report.andThen_streams first second).1, hfirst, hsecond]) hout
  have hstop := Report.stop_inTurn (outcome.parsed.diagnostics.map
    (diagnosticReportBy measure number outcome.input verbose))
  have hobstacle : Report.stop ∘ diagnosticReportBy measure number outcome.input verbose =
      Diagnostic.obstacle? measure outcome.input :=
    funext (stop_diagnosticReportBy measure number outcome.input verbose)
  rw [List.findSome?_map, hobstacle] at hstop
  exact congr (congrArg (fun out => Report.mk out _) hnone) hstop

/-- An outcome with an obstacle has no row. -/
theorem outcomeReportBy_eq (number : Nat) (outcome : Outcome) :
    outcomeReportBy measure format verbose number outcome =
      ⟨if outcome.hasObstacle measure then [] else resultRow outcome format,
        traceLines outcome ++ diagnosticsLines measure verbose number outcome,
        outcome.obstacle? measure⟩ := by
  unfold outcomeReportBy Outcome.hasObstacle
  rw [Report.inTurn_cons, Report.inTurn_cons, inTurn_diagnostics]
  cases outcome.obstacle? measure <;>
    simp [Report.andThen, Report.toErr, Report.toOut, Report.nothing]

/-- The lines of an outcome with some number on standard error. -/
def outcomeLines (measure : Text -> Nat) (verbose : Bool) (numbered : Outcome × Nat) : Styled :=
  traceLines numbered.1 ++ diagnosticsLines measure verbose numbered.2 numbered.1

/-- Outcomes in turn are shown through the first one with an obstacle, and have rows before it. -/
theorem inTurn_outcomes (outcomes : List Outcome) :
    Report.inTurn ((outcomes.zipIdx 1).map fun (outcome, number) =>
        outcomeReportBy measure format verbose number outcome) =
      ⟨(outcomes.takeWhile fun outcome => !outcome.hasObstacle measure).flatMap
          (resultRow · format),
        ((throughFirst (Outcome.hasObstacle measure) outcomes).zipIdx 1).flatMap
          (outcomeLines measure verbose),
        outcomes.findSome? (Outcome.obstacle? measure)⟩ := by
  have hstop : (fun report : Report => report.stop.isSome) ∘
        (fun (outcome, number) => outcomeReportBy measure format verbose number outcome) =
      Outcome.hasObstacle measure ∘ Prod.fst := by
    funext numbered
    simp [outcomeReportBy_eq, Outcome.hasObstacle]
  have hrows (numbered : List (Outcome × Nat)) :
      (numbered.flatMap fun (outcome, number) =>
        (outcomeReportBy measure format verbose number outcome).out) =
      (numbered.map Prod.fst).flatMap fun outcome =>
        if outcome.hasObstacle measure then [] else resultRow outcome format := by
    simp [outcomeReportBy_eq, List.flatMap_map]
  have hobstacles : (outcomes.zipIdx 1).findSome? (Outcome.obstacle? measure ∘ Prod.fst) =
      outcomes.findSome? (Outcome.obstacle? measure) := by
    rw [← List.findSome?_map, List.zipIdx_map_fst]
  rw [Report.inTurn_eq, throughFirst_map, hstop, throughFirst_zipIdx, List.findSome?_map,
    List.flatMap_map, List.flatMap_map, hrows, List.zipIdx_map_fst, flatMap_throughFirst,
    ← hobstacles]
  simp only [outcomeReportBy_eq, Function.comp_def]
  rfl

end Outcomes

/-! ## Summaries -/

namespace Summary

/-- What stops the report of a summary: the first obstacle of an outcome. -/
def obstacle? (measure : Text -> Nat) (summary : Summary) : Option Obstacle :=
  summary.outcomes.findSome? (Outcome.obstacle? measure)

/-- What is said about all outcomes comes last, and only if there is no obstacle. -/
theorem reportBy_eq (measure : Text -> Nat) (summary : Summary) :
    summary.reportBy measure =
      ⟨(summary.outcomes.takeWhile fun outcome => !outcome.hasObstacle measure).flatMap
          (resultRow · summary.format) ++
          (if summary.obstacle? measure = none then
            resultDocument summary.outcomes summary.format else []),
        ((throughFirst (Outcome.hasObstacle measure) summary.outcomes).zipIdx 1).flatMap
          (outcomeLines measure summary.verbose) ++
          (if summary.obstacle? measure = none then
            trailingLine summary ++ verdictLine summary else []),
        summary.obstacle? measure⟩ := by
  unfold reportBy obstacle?
  rw [Report.inTurn_cons, inTurn_outcomes]
  cases summary.outcomes.findSome? (Outcome.obstacle? measure) <;>
    simp [Report.andThen, Report.toErr, Report.toOut, Report.nothing]

theorem stop_reportBy (measure : Text -> Nat) (summary : Summary) :
    (summary.reportBy measure).stop = summary.obstacle? measure := by
  rw [reportBy_eq]

end Summary

end TranslationKeys
