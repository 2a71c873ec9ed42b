import TranslationKeys.Proofs.Answers

/-!
# Options and what they change

Each option of a run of `parse` has its place.  The format decides about standard
output, and nothing else does.  Tracing, notes and colour are for standard error.
Whether text may be left decides about the exit code.  So two runs on the same
inputs, wherever these come from, can be compared stream by stream, also where
both are stopped on the way.
-/

namespace TranslationKeys

open Text (Styled)

/-! ## Endings of a run -/

section Gathers

variable {files : Files} {invocation : Invocation} {options : ParseOptions}
  {config : Config} {inputs : List Text}

/-- The lines about all inputs of a run. -/
def closingText (colour deny : Bool) (inputs : List Text) : Text :=
  let summary : Summary := ⟨inputs.map (Outcome.ofInput false), .text, deny, false⟩
  Styled.render colour (trailingLine summary) ++ (verdictText colour deny inputs ++ ['\n'])

theorem trailingLine_congr {first second : Summary}
    (hleftovers : first.leftovers = second.leftovers)
    (hdeny : first.denyTrailing = second.denyTrailing) :
    trailingLine first = trailingLine second := by
  simp only [trailingLine, hleftovers, hdeny]

theorem render_closingLines (colour : Bool) (config : Config) (options : ParseOptions)
    (inputs : List Text) :
    Styled.render colour (trailingLine (summarize config options inputs)) ++
        Styled.render colour (verdictLine (summarize config options inputs)) =
      closingText colour (options.denyTrailing || config.denyTrailing) inputs := by
  have hleftovers := leftovers_summarize config options inputs
  rw [← leftovers_summarize ⟨.text, false, options.denyTrailing || config.denyTrailing⟩
    .empty inputs] at hleftovers
  rw [render_verdictLine, trailingLine_congr hleftovers rfl]
  rfl

/-- What a run says last: the lines about all inputs, or that it was stopped. -/
def lastWords (measure : Text -> Nat) (wording : Wording) (colour deny : Bool)
    (inputs : List Text) : Text :=
  if firstObstacle? measure inputs = none then closingText colour deny inputs
  else wording.stopped

/-- Standard output is up to the inputs and the format. -/
theorem Gathers.stdout_eq (h : Gathers files invocation options config inputs)
    (measure : Text -> Nat) (wording : Wording) :
    ((runBy measure files invocation).1.output wording).stdout =
      resultsText measure inputs (options.format.getD config.format) := by
  rw [h.runBy_eq, output_finishBy]
  exact stdout_summarize measure invocation.colour config options inputs

/-- Standard error is up to the inputs and all options but the format. -/
theorem Gathers.stderr_eq (h : Gathers files invocation options config inputs)
    (measure : Text -> Nat) (wording : Wording) :
    ((runBy measure files invocation).1.output wording).stderr =
      (((reached measure inputs).zipIdx 1).flatMap fun (input, number) =>
        (if options.trace || config.trace then
          (parse input).trace.flatMap (entryText invocation.colour) else []) ++
        diagnosticsText measure invocation.colour options.verbose number input) ++
      lastWords measure wording invocation.colour (options.denyTrailing || config.denyTrailing)
        inputs := by
  rw [h.runBy_eq, output_finishBy, Completion.reportBy, stderr_summarize, stop_summarize,
    render_closingLines, lastWords, List.append_assoc]
  cases firstObstacle? measure inputs <;> simp

/-- The exit code is up to the inputs and to whether text may be left. -/
theorem Gathers.exitCode_cases (h : Gathers files invocation options config inputs)
    (measure : Text -> Nat) :
    (runBy measure files invocation).1.exitCode =
      if firstObstacle? measure inputs = none then
        (Status.ofRejections
          (rejectedCount (options.denyTrailing || config.denyTrailing) inputs)).code
      else stoppedCode := by
  rw [h.runBy_eq, exitCode_finishBy, Completion.reportBy, stop_summarize, Completion.status,
    rejections_summarize]

end Gathers

/-! ## Two runs -/

/--
Two texts of standard error that differ in tracing only.  The second one has a
block for each entry in the trace of an input, right before the diagnostics of
that input.
-/
def InsertsEntries (measure : Text -> Nat) (colour verbose : Bool) (inputs : List Text)
    (silent traced : Text) : Prop :=
  exists closing,
    silent =
      ((inputs.zipIdx 1).flatMap fun (input, number) =>
        diagnosticsText measure colour verbose number input) ++ closing /\
    traced =
      ((inputs.zipIdx 1).flatMap fun (input, number) =>
        (parse input).trace.flatMap (entryText colour) ++
          diagnosticsText measure colour verbose number input) ++ closing

/--
Two runs of `parse` on the same inputs are both stopped or both finished.  They
write the same to standard output if their formats are the same, and the same to
standard error if they trace, note, deny and colour alike.  They have the same
exit code if they deny alike.  If only the second one traces, its standard error has
the entries of each input in front of its diagnostics, and is the same otherwise.

Runs that are stopped get to all inputs through the first one that is stuck, and
runs that finish get to all of them.
-/
theorem options_keep_to_their_outputs (measure : Text -> Nat) (wording : Wording)
    {files files' : Files} {invocation invocation' : Invocation}
    {options options' : ParseOptions} {config config' : Config} {inputs : List Text}
    (hfirst : Gathers files invocation options config inputs)
    (hsecond : Gathers files' invocation' options' config' inputs) :
    let first := (runBy measure files invocation).1
    let second := (runBy measure files' invocation').1
    first.isStopped = second.isStopped /\
    (options.format.getD config.format = options'.format.getD config'.format ->
      (first.output wording).stdout = (second.output wording).stdout) /\
    ((options.trace || config.trace) = (options'.trace || config'.trace) ->
      options.verbose = options'.verbose ->
      (options.denyTrailing || config.denyTrailing) =
        (options'.denyTrailing || config'.denyTrailing) ->
      invocation.colour = invocation'.colour ->
      (first.output wording).stderr = (second.output wording).stderr) /\
    ((options.denyTrailing || config.denyTrailing) =
        (options'.denyTrailing || config'.denyTrailing) ->
      first.exitCode = second.exitCode) /\
    ((options.trace || config.trace) = false -> (options'.trace || config'.trace) = true ->
      options.verbose = options'.verbose ->
      (options.denyTrailing || config.denyTrailing) =
        (options'.denyTrailing || config'.denyTrailing) ->
      invocation.colour = invocation'.colour ->
      InsertsEntries measure invocation.colour options.verbose (reached measure inputs)
        (first.output wording).stderr (second.output wording).stderr) /\
    (first.isStopped = false -> reached measure inputs = inputs) := by
  have hstdout := hfirst.stdout_eq measure wording
  have hstdout' := hsecond.stdout_eq measure wording
  have hstderr := hfirst.stderr_eq measure wording
  have hstderr' := hsecond.stderr_eq measure wording
  refine ⟨?_, ?_, ?_, ?_, ?_, ?_⟩
  · rw [Bool.eq_iff_iff, hfirst.isStopped_iff, hsecond.isStopped_iff]
  · intro hformat
    rw [hstdout, hstdout', hformat]
  · intro htrace hverbose hdeny hcolour
    rw [hstderr, hstderr', htrace, hverbose, hdeny, hcolour]
  · intro hdeny
    rw [hfirst.exitCode_cases, hsecond.exitCode_cases, hdeny]
  · intro hsilent htraced hverbose hdeny hcolour
    rw [← hverbose, ← hdeny, ← hcolour, htraced] at hstderr'
    rw [hsilent] at hstderr
    exact ⟨_, hstderr, hstderr'⟩
  · intro hfinished
    have hnarrow : ¬ TooWide measure inputs := by
      rw [← hfirst.isStopped_iff, hfinished]
      exact Bool.false_ne_true
    exact throughFirst_of_none (not_isStuck_of_narrow hnarrow)

/-! ## A traced run -/

/-- A run on a single call that leaves a brace. -/
def leftBraceRun (words : List Text) : Invocation :=
  ⟨"parse".toList :: (words ++ [marker ++ ['a', '}']]), .empty, [], false⟩

theorem leftBraceRun_gathers :
    Gathers noFiles (leftBraceRun [])
      ⟨[marker ++ ['a', '}']], none, none, false, false, false⟩ .default
      [marker ++ ['a', '}']] :=
  ⟨by rfl, ⟨false, by rfl⟩, by rfl⟩

theorem tracedRun_gathers :
    Gathers noFiles (leftBraceRun ["--trace".toList, "--format".toList, "json".toList])
      ⟨[marker ++ ['a', '}']], none, some .json, true, false, false⟩ .default
      [marker ++ ['a', '}']] :=
  ⟨by rfl, ⟨false, by rfl⟩, by rfl⟩

/-- No texts besides those of the program itself. -/
def noWording : Wording :=
  ⟨fun _ => ⟨[], []⟩, fun _ => [], []⟩

theorem leftBrace_not_tooWide : ¬ TooWide Text.displayWidth [marker ++ ['a', '}']] := by
  rw [← firstObstacle?_eq_none_iff]
  decide +kernel

/-- Tracing puts the one entry in front, although the format is another one, too. -/
theorem trace_is_put_in_front :
    (run noFiles (leftBraceRun [])).1.exitCode =
        (run noFiles (leftBraceRun
          ["--trace".toList, "--format".toList, "json".toList])).1.exitCode /\
      exists closing,
        ((run noFiles (leftBraceRun [])).1.output noWording).stderr =
          diagnosticsText Text.displayWidth false false 1 (marker ++ ['a', '}']) ++ closing /\
        ((run noFiles (leftBraceRun
            ["--trace".toList, "--format".toList, "json".toList])).1.output noWording).stderr =
          "Parsing expression 【i18n:a\x7d】\n".toList ++
            diagnosticsText Text.displayWidth false false 1 (marker ++ ['a', '}']) ++ closing := by
  have hfinished : (runBy Text.displayWidth noFiles (leftBraceRun [])).1.isStopped = false := by
    rw [← Bool.not_eq_true]
    exact leftBraceRun_gathers.isStopped_iff.not.2 leftBrace_not_tooWide
  obtain ⟨_, _, _, hcode, hinserts, hreached⟩ :=
    options_keep_to_their_outputs Text.displayWidth noWording leftBraceRun_gathers
      tracedRun_gathers
  obtain ⟨closing, hsilent, htraced⟩ := hinserts rfl rfl rfl rfl rfl
  rw [hreached hfinished] at hsilent htraced
  exact ⟨hcode rfl, closing, hsilent.trans (by rfl), htraced.trans (by rfl)⟩

end TranslationKeys
