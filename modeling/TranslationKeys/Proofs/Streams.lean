import TranslationKeys.Command.Ending
import TranslationKeys.Proofs.Lossless
import TranslationKeys.Proofs.Places

/-!
# What a run of `parse` writes

Once its inputs are gathered, a run of `parse` writes a report, which is complete
unless a diagnostic cannot be shown.  Standard output holds the results and nothing
else.  Standard error holds, for each input in turn, its trace and its diagnostics,
and at the end the lines about all of them.  A run that is stopped has written the
same up to the obstacle, and no lines about all.
-/

namespace TranslationKeys

open Text (Piece Styled)

/-! ## Runs that gather their inputs -/

theorem finishBy_ne_internal (measure : Text -> Nat) (colour : Bool) (result : Completion)
    (error : InternalError) : finishBy measure colour result ≠ .internal error := by
  unfold finishBy Report.ending
  split <;> exact nofun

/--
A run of `parse` gathers inputs under some settings: its arguments can be read,
and so can the settings of its directory and the text that the inputs come from.
-/
structure Gathers (files : Files) (invocation : Invocation) (options : ParseOptions)
    (config : Config) (inputs : List Text) : Prop where
  command : Arguments.read invocation.arguments = .ok (some (.parse options))
  settings : exists fromFile,
    Config.load files invocation.cwd invocation.cwd.toPath = .ok ⟨config, fromFile⟩
  inputs : gatherInputs files invocation.cwd invocation.stdin options = .ok inputs

section Gathers

variable {files : Files} {invocation : Invocation} {options : ParseOptions}
  {config : Config} {inputs : List Text}

theorem Gathers.runParse_eq (h : Gathers files invocation options config inputs) :
    runParse files invocation.cwd invocation.stdin options =
      .ok (.parsed (summarize config options inputs)) := by
  obtain ⟨fromFile, hload⟩ := h.settings
  unfold runParse
  rw [hload]
  dsimp only
  rw [h.inputs]
  rfl

theorem Gathers.runBy_eq (h : Gathers files invocation options config inputs)
    (measure : Text -> Nat) :
    runBy measure files invocation =
      (finishBy measure invocation.colour (.parsed (summarize config options inputs)),
        files) := by
  simp only [runBy, h.command, h.runParse_eq]

theorem Gathers.ne_internal (h : Gathers files invocation options config inputs)
    (measure : Text -> Nat) (error : InternalError) :
    (runBy measure files invocation).1 ≠ .internal error := by
  rw [h.runBy_eq]
  exact finishBy_ne_internal measure invocation.colour _ error

/-- A run of `parse` without an internal error has gathered its inputs. -/
theorem gathers_of_runBy {measure : Text -> Nat}
    (hcommand : Arguments.read invocation.arguments = .ok (some (.parse options)))
    (hending : forall error, (runBy measure files invocation).1 ≠ .internal error) :
    exists config inputs, Gathers files invocation options config inputs := by
  have hrun : forall error,
      runParse files invocation.cwd invocation.stdin options ≠ .error error := by
    intro error herror
    apply hending error
    simp only [runBy, hcommand, herror]
  unfold runParse at hrun
  cases hload : Config.load files invocation.cwd invocation.cwd.toPath with
  | error error =>
      rw [hload] at hrun
      exact absurd rfl (hrun _)
  | ok loaded =>
      obtain ⟨config, fromFile⟩ := loaded
      rw [hload] at hrun
      cases hinputs : gatherInputs files invocation.cwd invocation.stdin options with
      | error error =>
          dsimp only at hrun
          rw [hinputs] at hrun
          exact absurd rfl (hrun _)
      | ok inputs => exact ⟨config, inputs, hcommand, ⟨fromFile, hload⟩, hinputs⟩

/-- How a run of `parse` with some options ends under some settings. -/
def Invocation.endingUnder (measure : Text -> Nat) (invocation : Invocation) (config : Config)
    (files : Files) (options : ParseOptions) : Ending :=
  match gatherInputs files invocation.cwd invocation.stdin options with
  | .error error => .internal error
  | .ok inputs =>
      finishBy measure invocation.colour (.parsed (summarize config options inputs))

/-- A run of `parse` is under the settings of its directory. -/
theorem runBy_of_load {loaded : Config.Loaded}
    (hcommand : Arguments.read invocation.arguments = .ok (some (.parse options)))
    (hload : Config.load files invocation.cwd invocation.cwd.toPath = .ok loaded)
    (measure : Text -> Nat) :
    runBy measure files invocation =
      (invocation.endingUnder measure loaded.config files options, files) := by
  unfold Invocation.endingUnder
  simp only [runBy, hcommand, runParse, hload]
  cases gatherInputs files invocation.cwd invocation.stdin options <;> rfl

end Gathers

/-! ## Texts of one input -/

@[simp]
theorem render_flatMap {α : Type} (colour : Bool) (items : List α) (lines : α -> Styled) :
    Styled.render colour (items.flatMap lines) =
      items.flatMap fun item => Styled.render colour (lines item) :=
  List.flatMap_assoc

/-- The name of the tree of an input, or the mark of an input without one. -/
def shownTree (input : Text) : Text :=
  match Node.parse? input with
  | some node => node.render
  | none => "FAILED".toList

/-- The line that shows the result of an input. -/
def inputRow (input : Text) : Text :=
  '\x22' :: input ++ "\" ==> ".toList ++ shownTree input ++ ['\n']

/-- The lines of one entry of a trace. -/
def entryText (colour : Bool) (entry : RuleEntry) : Text :=
  (Piece.dim entry.render).render colour ++ ['\n']

/-- The text of the diagnostics of an input with some number, as far as they are shown. -/
def diagnosticsText (measure : Text -> Nat) (colour verbose : Bool) (number : Nat)
    (input : Text) : Text :=
  Styled.render colour (diagnosticsLines measure verbose number (Outcome.ofInput false input))

/-- True of an input with a diagnostic that cannot be shown. -/
def isStuck (measure : Text -> Nat) (input : Text) : Bool :=
  (Outcome.ofInput false input).hasObstacle measure

section OfInput

variable (measure : Text -> Nat) (traced : Bool) (input : Text)

theorem resultLine_ofInput : resultLine (Outcome.ofInput traced input) = inputRow input := by
  have hresult : (Outcome.ofInput traced input).parsed.result = (parse input).result := by
    cases traced <;> rfl
  unfold resultLine inputRow shownTree Node.parse?
  rw [hresult]
  cases (parse input).result <;> rfl

theorem toJson_ofInput :
    (Outcome.ofInput traced input).toJson = (Outcome.ofInput false input).toJson := by
  cases traced <;> rfl

theorem render_lineEnd (colour : Bool) : Piece.render colour lineEnd = ['\n'] := by
  cases colour <;> rfl

theorem render_traceLines_ofInput (colour : Bool) :
    Styled.render colour (traceLines (Outcome.ofInput traced input)) =
      if traced then (parse input).trace.flatMap (entryText colour) else [] := by
  have hentry (entry : RuleEntry) :
      Styled.render colour [.dim entry.render, lineEnd] = entryText colour entry := by
    simp [Styled.render, render_lineEnd, entryText]
  cases traced with
  | false => rfl
  | true => simp only [traceLines, render_flatMap, hentry, Outcome.ofInput, if_true]

theorem render_diagnosticsLines_ofInput (colour verbose : Bool) (number : Nat) :
    Styled.render colour
        (diagnosticsLines measure verbose number (Outcome.ofInput traced input)) =
      diagnosticsText measure colour verbose number input := by
  cases traced <;> rfl

theorem obstacle?_ofInput :
    (Outcome.ofInput traced input).obstacle? measure =
      (Outcome.ofInput false input).obstacle? measure := by
  cases traced <;> rfl

end OfInput

/-! ## The two streams -/

/-- What stops a run on some inputs. -/
def firstObstacle? (measure : Text -> Nat) (inputs : List Text) : Option Obstacle :=
  inputs.findSome? fun input => (Outcome.ofInput false input).obstacle? measure

/-- The inputs that a run gets to: all through the first one that is stuck. -/
def reached (measure : Text -> Nat) (inputs : List Text) : List Text :=
  throughFirst (isStuck measure) inputs

/--
The results of some inputs in a format.  There is a row for each input in front of
the first one that is stuck, and a document only if none is.
-/
def resultsText (measure : Text -> Nat) (inputs : List Text) : ReportFormat -> Text
  | .text => (inputs.takeWhile fun input => !isStuck measure input).flatMap inputRow
  | .json =>
      if firstObstacle? measure inputs = none then
        documentText (inputs.map (Outcome.ofInput false))
      else []

section Summarize

variable (measure : Text -> Nat) (colour : Bool) (config : Config) (options : ParseOptions)
  (inputs : List Text)

theorem obstacle?_summarize :
    (summarize config options inputs).obstacle? measure = firstObstacle? measure inputs := by
  simp only [Summary.obstacle?, summarize, List.findSome?_map, Function.comp_def,
    obstacle?_ofInput, firstObstacle?]

theorem stop_summarize :
    ((summarize config options inputs).reportBy measure).stop =
      firstObstacle? measure inputs := by
  rw [Summary.stop_reportBy, obstacle?_summarize]

theorem documentText_ofInput (traced : Bool) :
    documentText (inputs.map (Outcome.ofInput traced)) =
      documentText (inputs.map (Outcome.ofInput false)) := by
  simp only [documentText, List.map_map, Function.comp_def, toJson_ofInput traced]

theorem hasObstacle_comp_ofInput (traced : Bool) :
    Outcome.hasObstacle measure ∘ Outcome.ofInput traced = isStuck measure := by
  cases traced <;> rfl

/-- Standard output depends on the inputs and on the format only. -/
theorem stdout_summarize :
    (((summarize config options inputs).reportBy measure).render colour).stdout =
      resultsText measure inputs (options.format.getD config.format) := by
  have hstuck := hasObstacle_comp_ofInput measure (options.trace || config.trace)
  have hrow (traced : Bool) (input : Text) :
      Styled.render colour (resultRow (Outcome.ofInput traced input) .text) =
        inputRow input := by
    rw [resultRow, render_plain, resultLine_ofInput]
  have hnone (outcomes : List Outcome) : outcomes.flatMap (resultRow · .json) = [] :=
    List.flatMap_eq_nil_iff.2 fun _ _ => rfl
  rw [Summary.reportBy_eq, obstacle?_summarize, Report.render]
  dsimp only [summarize]
  rw [Styled.render_append]
  cases options.format.getD config.format with
  | text =>
      have hwhile : (fun outcome : Outcome => !outcome.hasObstacle measure) ∘
            Outcome.ofInput (options.trace || config.trace) =
          fun input => !isStuck measure input := by
        rw [← hstuck]
        rfl
      rw [List.takeWhile_map, hwhile, List.flatMap_map, render_flatMap, resultsText]
      simp only [hrow, resultDocument, ite_self]
      exact List.append_nil _
  | json =>
      rw [hnone, resultsText]
      split
      · rw [← documentText_ofInput]
        exact render_plain colour _
      · rfl

/-- Standard error: each input in turn, then the lines about all of them. -/
theorem stderr_summarize :
    (((summarize config options inputs).reportBy measure).render colour).stderr =
      (((reached measure inputs).zipIdx 1).flatMap fun (input, number) =>
        (if options.trace || config.trace then
          (parse input).trace.flatMap (entryText colour) else []) ++
        diagnosticsText measure colour options.verbose number input) ++
      (if firstObstacle? measure inputs = none then
        Styled.render colour (trailingLine (summarize config options inputs)) ++
          Styled.render colour (verdictLine (summarize config options inputs))
      else []) := by
  have hreached : throughFirst (Outcome.hasObstacle measure)
        (summarize config options inputs).outcomes =
      (reached measure inputs).map (Outcome.ofInput (options.trace || config.trace)) := by
    rw [summarize, throughFirst_map, hasObstacle_comp_ofInput, reached]
  have hverbose : (summarize config options inputs).verbose = options.verbose := rfl
  rw [Summary.reportBy_eq, obstacle?_summarize, Report.render, hreached, hverbose]
  simp only [Styled.render_append, render_flatMap, List.zipIdx_map, List.flatMap_map,
    outcomeLines, Prod.map_fst, Prod.map_snd, id, render_traceLines_ofInput,
    render_diagnosticsLines_ofInput]
  rw [apply_ite (Styled.render colour), Styled.render_append]
  rfl

end Summarize

/-! ## Endings -/

section Endings

variable (measure : Text -> Nat) (wording : Wording) (colour : Bool) (result : Completion)

/-- What is said about a stop follows everything that was written before it. -/
theorem output_finishBy :
    (finishBy measure colour result).output wording =
      ⟨((result.reportBy measure).render colour).stdout,
        ((result.reportBy measure).render colour).stderr ++
          if (result.reportBy measure).stop = none then [] else wording.stopped⟩ := by
  unfold finishBy Report.ending
  cases (result.reportBy measure).stop <;> simp [Ending.output]

theorem Ending.exitCode_of_isStopped {ending : Ending} (h : ending.isStopped = true) :
    ending.exitCode = stoppedCode := by
  cases ending with
  | unplaced => rfl
  | usage _ => cases h
  | internal _ => cases h
  | finished _ _ => cases h

theorem exitCode_finishBy :
    (finishBy measure colour result).exitCode =
      if (result.reportBy measure).stop = none then result.status.code else stoppedCode := by
  unfold finishBy Report.ending
  cases (result.reportBy measure).stop <;> simp [Ending.exitCode]

end Endings

end TranslationKeys
