import Mathlib.Data.List.TakeWhile
import TranslationKeys.Proofs.Verdicts

/-!
# Runs that answer for their inputs

A run of `parse` that gathers its inputs shows one result for each of them, in
order, and its verdict is about all of them.  Any input may be run alone with the
same options, and no other input has a say in the code that it gets there.  A run
gives no answer only where a caret would be too far to the right.
-/

namespace TranslationKeys

/-! ## Runs of a single input -/

/-- The arguments that repeat some options, without the inputs and the file. -/
def ParseOptions.words (options : ParseOptions) : List Text :=
  (match options.format with
    | none => []
    | some format => ["--format".toList, format.name]) ++
  (if options.trace then ["--trace".toList] else []) ++
  (if options.denyTrailing then ["--deny-trailing".toList] else []) ++
  (if options.verbose then ["--verbose".toList] else [])

/-- The same run with the same options for a single input. -/
def Invocation.alone (invocation : Invocation) (options : ParseOptions) (input : Text) :
    Invocation :=
  { invocation with
    arguments := "parse".toList :: (options.words ++ ["--".toList, input]) }

theorem read_alone (invocation : Invocation) (options : ParseOptions) (input : Text) :
    Arguments.read (invocation.alone options input).arguments =
      .ok (some (.parse { options with inputs := [input], file := none })) := by
  obtain ⟨inputs, file, format, trace, denyTrailing, verbose⟩ := options
  rcases format with _ | (_ | _) <;> cases trace <;> cases denyTrailing <;> cases verbose <;> rfl

section Gathers

variable {files : Files} {invocation : Invocation} {options : ParseOptions}
  {config : Config} {inputs : List Text}

theorem Gathers.alone (h : Gathers files invocation options config inputs) (input : Text) :
    Gathers files (invocation.alone options input)
      { options with inputs := [input], file := none } config [input] :=
  ⟨read_alone invocation options input, h.settings, rfl⟩

/-- Some diagnostic of some input cannot be shown, because its caret is too far to the right. -/
def TooWide (measure : Text -> Nat) (inputs : List Text) : Prop :=
  exists input diagnostic, input ∈ inputs /\
    diagnostic ∈ (parse input).diagnostics /\ diagnostic.TooFarRight measure input

variable {measure : Text -> Nat}

theorem firstObstacle?_eq_none_iff :
    firstObstacle? measure inputs = none <-> ¬ TooWide measure inputs := by
  rw [← stop_summarize measure .default .empty inputs, ← not_iff_not, not_not]
  exact stop_summarize_ne_none_iff

theorem Gathers.isStopped_iff (h : Gathers files invocation options config inputs) :
    (runBy measure files invocation).1.isStopped = true <-> TooWide measure inputs := by
  rw [h.runBy_eq, isStopped_finishBy, Completion.reportBy, stop_summarize,
    Option.isSome_iff_ne_none, Ne, firstObstacle?_eq_none_iff, not_not]

/-- A run that can show everything ends with its report. -/
theorem Gathers.finished (h : Gathers files invocation options config inputs)
    (hnarrow : ¬ TooWide measure inputs) :
    (runBy measure files invocation).1 =
      .finished
        (.ofRejections (rejectedCount (options.denyTrailing || config.denyTrailing) inputs))
        (((summarize config options inputs).reportBy measure).render invocation.colour) := by
  have hstop := firstObstacle?_eq_none_iff.2 hnarrow
  rw [← stop_summarize measure config options] at hstop
  rw [h.runBy_eq, ← rejections_summarize, finishBy, Completion.reportBy, Report.ending, hstop,
    Completion.status]

/-- The code of a run that can show everything. -/
theorem Gathers.exitCode_eq (h : Gathers files invocation options config inputs)
    (hnarrow : ¬ TooWide measure inputs) :
    (runBy measure files invocation).1.exitCode =
      (Status.ofRejections
        (rejectedCount (options.denyTrailing || config.denyTrailing) inputs)).code := by
  rw [h.finished hnarrow]
  rfl

/-- Standard error ends with the verdict. -/
theorem finalLine_stderr (config : Config) (options : ParseOptions)
    (hnarrow : ¬ TooWide measure inputs) (colour : Bool) :
    finalLine (((summarize config options inputs).reportBy measure).render colour).stderr =
      verdictText colour (options.denyTrailing || config.denyTrailing) inputs := by
  rw [stderr_summarize, if_pos (firstObstacle?_eq_none_iff.2 hnarrow), render_verdictLine,
    ← List.append_assoc]
  refine finalLine_append ?_ (newline_not_mem_verdictText colour _ inputs)
  refine EndsLine.append (.flatMap ?_) (endsLine_trailingLine colour _)
  rintro ⟨input, number⟩
  refine EndsLine.append ?_ (endsLine_diagnosticsLines measure _ number _)
  split
  · exact .flatMap fun entry => .of_concat _
  · exact .nil

theorem not_isStuck_of_narrow (hnarrow : ¬ TooWide measure inputs) :
    ∀ input ∈ inputs, isStuck measure input = false := by
  have hstop := firstObstacle?_eq_none_iff.2 hnarrow
  rw [firstObstacle?, List.findSome?_eq_none_iff] at hstop
  intro input hinput
  rw [isStuck, Outcome.hasObstacle, hstop input hinput]
  rfl

/-- Where nothing is too wide, every input has its row. -/
theorem resultsText_text (hnarrow : ¬ TooWide measure inputs) :
    resultsText measure inputs .text = inputs.flatMap inputRow := by
  rw [resultsText, List.takeWhile_eq_self_iff.2]
  intro input hinput
  rw [not_isStuck_of_narrow hnarrow input hinput]
  rfl

/-! ## Answers -/

/--
How a run answers for its inputs.  Its outcomes are in input order and its text
rows are those of the inputs.  Its code is 0 or 1 and says whether every input
was accepted, and it is the largest code that an input has alone.  Its last line
on standard error gives the verdict with the counts.
-/
structure AnswersFor (measure : Text -> Nat) (files : Files) (invocation : Invocation)
    (options : ParseOptions) (config : Config) (inputs : List Text) (status : Status)
    (output : Output) : Prop where
  outcomes : exists summary,
    runParse files invocation.cwd invocation.stdin options = .ok (.parsed summary) /\
      List.Forall₂ (fun input outcome =>
        outcome.input = input /\ outcome.parsed.result = (parse input).result /\
          outcome.parsed.diagnostics = (parse input).diagnostics) inputs summary.outcomes
  rows : options.format.getD config.format = .text ->
    output.stdout = inputs.flatMap inputRow
  code_cases : status.code = 0 \/ status.code = 1
  code_eq_zero_iff : status.code = 0 <->
    ∀ input ∈ inputs, Accepted (options.denyTrailing || config.denyTrailing) input
  alone_finished : ∀ input ∈ inputs, exists aloneStatus aloneOutput,
    (runBy measure files (invocation.alone options input)).1 =
      .finished aloneStatus aloneOutput
  code_eq_max : status.code =
    (inputs.map fun input =>
      (runBy measure files (invocation.alone options input)).1.exitCode).foldr max 0
  success_iff :
    finalLine output.stderr = successText invocation.colour inputs.length <-> status.code = 0
  failure : status.code ≠ 0 ->
    finalLine output.stderr =
      failureText invocation.colour
        (rejectedCount (options.denyTrailing || config.denyTrailing) inputs) inputs.length
        (inputs.countP isRefused)
  counts :
    inputs.countP isRefused <=
        rejectedCount (options.denyTrailing || config.denyTrailing) inputs /\
      rejectedCount (options.denyTrailing || config.denyTrailing) inputs <= inputs.length

theorem forall₂_summarize (config : Config) (options : ParseOptions) (inputs : List Text) :
    List.Forall₂ (fun input outcome =>
      outcome.input = input /\ outcome.parsed.result = (parse input).result /\
        outcome.parsed.diagnostics = (parse input).diagnostics)
      inputs (summarize config options inputs).outcomes := by
  rw [summarize, List.forall₂_map_right_iff, List.forall₂_same]
  intro input _
  refine ⟨rfl, ?_, Outcome.ofInput_diagnostics _ input⟩
  cases options.trace || config.trace <;> rfl

theorem TooWide.mono {first second : List Text} (hsubset : first ⊆ second)
    (h : TooWide measure first) : TooWide measure second := by
  obtain ⟨input, diagnostic, hinput, hrest⟩ := h
  exact ⟨input, diagnostic, hsubset hinput, hrest⟩

theorem Gathers.answers (h : Gathers files invocation options config inputs)
    (hnarrow : ¬ TooWide measure inputs) :
    exists status output, (runBy measure files invocation).1 = .finished status output /\
      AnswersFor measure files invocation options config inputs status output := by
  have halone : ∀ input ∈ inputs, ¬ TooWide measure [input] := by
    intro input hinput hwide
    apply hnarrow
    apply hwide.mono
    intro other hother
    rw [List.mem_singleton.1 hother]
    exact hinput
  have hcode : (Status.ofRejections
        (rejectedCount (options.denyTrailing || config.denyTrailing) inputs)).code = 0 <->
      rejectedCount (options.denyTrailing || config.denyTrailing) inputs = 0 :=
    code_ofRejections_eq_zero_iff
  have hfinal := finalLine_stderr config options hnarrow invocation.colour
  refine ⟨_, _, h.finished hnarrow,
    ⟨_, h.runParse_eq, forall₂_summarize config options inputs⟩, ?_,
    code_ofRejections_cases _, hcode.trans (rejectedCount_eq_zero_iff inputs _), ?_, ?_, ?_, ?_,
    refused_le_rejectedCount inputs _, rejectedCount_le_length inputs _⟩
  · intro hformat
    rw [stdout_summarize, hformat, resultsText_text hnarrow]
  · intro input hinput
    exact ⟨_, _, (h.alone input).finished (halone input hinput)⟩
  · rw [code_eq_max]
    congr 1
    apply List.map_congr_left
    intro input hinput
    exact ((h.alone input).exitCode_eq (halone input hinput)).symm
  · rw [hfinal, hcode]
    unfold verdictText
    split
    · rename_i hnone
      exact iff_of_true rfl hnone
    · rename_i hsome
      exact iff_of_false (failureText_ne_successText _ _ _ _ _) hsome
  · intro hfailure
    rw [hfinal, verdictText, if_neg (fun hnone => hfailure (hcode.2 hnone))]

end Gathers

/--
A run of `parse` without an internal error has gathered inputs under some
settings.  It is stopped exactly when a caret would be too far to the right, and
answers for its inputs otherwise.  This holds however columns are counted.
-/
theorem runs_answer_for_inputs {measure : Text -> Nat} {files : Files}
    {invocation : Invocation} {options : ParseOptions}
    (hcommand : Arguments.read invocation.arguments = .ok (some (.parse options)))
    (hending : forall error, (runBy measure files invocation).1 ≠ .internal error) :
    exists config inputs, Gathers files invocation options config inputs /\
      ((runBy measure files invocation).1.isStopped = true <-> TooWide measure inputs) /\
      (¬ TooWide measure inputs ->
        exists status output, (runBy measure files invocation).1 = .finished status output /\
          AnswersFor measure files invocation options config inputs status output) := by
  obtain ⟨config, inputs, hgathers⟩ := gathers_of_runBy hcommand hending
  exact ⟨config, inputs, hgathers, hgathers.isStopped_iff, hgathers.answers⟩

/-! ## Mixed inputs and a wide line -/

/-- The files of a system without any. -/
def noFiles : Files :=
  ⟨fun _ => none⟩

/-- Plain text, a call with text behind it, and a block that is left open. -/
def mixedInputs : List Text :=
  [['a'], marker ++ ['a', '}'], marker ++ ['a', '{']]

def mixedRun : Invocation :=
  ⟨"parse".toList :: "--deny-trailing".toList :: mixedInputs, .empty, [], false⟩

theorem mixedRun_gathers :
    Gathers noFiles mixedRun ⟨mixedInputs, none, none, false, true, false⟩ .default mixedInputs :=
  ⟨by rfl, ⟨false, by rfl⟩, by rfl⟩

theorem mixedInputs_not_tooWide : ¬ TooWide Text.displayWidth mixedInputs := by
  rw [← firstObstacle?_eq_none_iff]
  decide +kernel

/-- Two of three inputs are rejected, one of them because of the text behind its call. -/
theorem mixed_inputs_are_answered :
    exists status output, (run noFiles mixedRun).1 = .finished status output /\
      status.code = 1 /\ finalLine output.stderr = failureText false 2 3 1 := by
  obtain ⟨config, inputs, hgathers, _, hanswers⟩ :=
    runs_answer_for_inputs mixedRun_gathers.command
      (mixedRun_gathers.ne_internal Text.displayWidth)
  obtain ⟨fromFile, hload⟩ := hgathers.settings
  cases hload
  cases hgathers.inputs
  obtain ⟨status, output, hrun, hanswer⟩ := hanswers mixedInputs_not_tooWide
  have hcode : status.code ≠ 0 := by
    rw [Ne, hanswer.code_eq_zero_iff, ← rejectedCount_eq_zero_iff]
    decide
  exact ⟨status, output, hrun, hanswer.code_cases.resolve_left hcode, hanswer.failure hcode⟩

theorem openBlock_tooWide {count : Nat} (hcount : widestPadding < count + 7)
    {inputs : List Text} (hinput : openBlock count ∈ inputs) :
    TooWide Text.displayWidth inputs := by
  refine ⟨openBlock count, diagnosticAt (openBlock count) ⟨.missingTerminator, []⟩, hinput, ?_,
    openBlock_tooFarRight hcount⟩
  rw [openBlock_diagnostics]
  exact List.mem_singleton_self _

theorem openBlock_gathers (count : Nat) :
    Gathers noFiles ⟨["parse".toList, openBlock count], .empty, [], false⟩
      ⟨[openBlock count], none, none, false, false, false⟩ .default [openBlock count] :=
  ⟨by rfl, ⟨false, by rfl⟩, by rfl⟩

/-- A run on a single wide line has neither an internal error nor an answer. -/
theorem wide_line_is_not_answered :
    Arguments.read ["parse".toList, openBlock 65529] =
        .ok (some (.parse ⟨[openBlock 65529], none, none, false, false, false⟩)) /\
      (forall error, (run noFiles
        ⟨["parse".toList, openBlock 65529], .empty, [], false⟩).1 ≠ .internal error) /\
      (run noFiles
        ⟨["parse".toList, openBlock 65529], .empty, [], false⟩).1.exitCode = stoppedCode /\
      ¬ exists status output, (run noFiles
        ⟨["parse".toList, openBlock 65529], .empty, [], false⟩).1 = .finished status output := by
  have hgathers := openBlock_gathers 65529
  have hwide : TooWide Text.displayWidth [openBlock 65529] :=
    openBlock_tooWide (by decide) (List.mem_singleton_self _)
  have hstopped := hgathers.isStopped_iff.2 hwide
  refine ⟨hgathers.command, hgathers.ne_internal Text.displayWidth, ?_, ?_⟩
  · exact Ending.exitCode_of_isStopped hstopped
  · rintro ⟨status, output, hfinished⟩
    change (runBy Text.displayWidth _ _).1 = _ at hfinished
    rw [hfinished] at hstopped
    cases hstopped

end TranslationKeys
