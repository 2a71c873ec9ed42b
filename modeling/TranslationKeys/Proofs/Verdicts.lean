import TranslationKeys.Proofs.Streams

/-!
# The verdict on a run

An input counts against a run if it has no tree, and where nothing may be left
also if its tree does not take up all of it.  The exit code, the counts and the
last line of standard error are found from diagnostics, but they say the same.
So a run answers for its inputs one by one: its exit code is the largest one that
any of them has alone.  Only a run that cannot show a diagnostic gives no answer.
-/

namespace TranslationKeys

open Text (Piece Styled)

/-! ## Inputs that count against a run -/

/-- True of an input without a tree. -/
def isRefused (input : Text) : Bool :=
  (Node.parse? input).isNone

/-- True of an input with a tree that does not take up all of it. -/
def leavesRest (input : Text) : Bool :=
  match consumed? input with
  | none => false
  | some stop => stop != Text.byteLength input

/-- An input is accepted if it has a tree and, where nothing may be left, is taken up by it. -/
def Accepted (deny : Bool) (input : Text) : Prop :=
  (exists node, (parse input).result = .ok node) /\
    (deny = true -> consumed? input = some (Text.byteLength input))

theorem isRefused_eq_false_iff {input : Text} :
    isRefused input = false <-> exists node, (parse input).result = .ok node := by
  unfold isRefused Node.parse?
  cases (parse input).result <;> simp [Except.toOption]

theorem leavesRest_eq_false_iff {input : Text} (hresult : isRefused input = false) :
    leavesRest input = false <-> consumed? input = some (Text.byteLength input) := by
  obtain ⟨node, hnode⟩ := isRefused_eq_false_iff.1 hresult
  unfold leavesRest
  cases hstop : consumed? input with
  | some stop => simp
  | none =>
      obtain ⟨error, herror⟩ := consumed?_eq_none_iff.1 hstop
      rw [hnode] at herror
      cases herror

theorem offsetOf_eq_byteLength_iff {input rest : Text} (h : rest <:+ input) :
    offsetOf input rest = Text.byteLength input <-> rest = [] := by
  obtain ⟨front, rfl⟩ := h
  rw [offsetOf_append, Text.byteLength_append, ← Text.byteLength_eq_zero_iff]
  omega

section Outcomes

variable (traced : Bool) (input : Text)

theorem isFailed_ofInput : (Outcome.ofInput traced input).isFailed = isRefused input := by
  have hresult : (Outcome.ofInput traced input).parsed.result = (parse input).result := by
    cases traced <;> rfl
  unfold Outcome.isFailed isRefused Node.parse?
  rw [hresult]
  cases (parse input).result <;> rfl

/-- An input with a tree has text left exactly when that is reported. -/
theorem leavesText_ofInput :
    (!(Outcome.ofInput traced input).isFailed && (Outcome.ofInput traced input).leavesText) =
      leavesRest input := by
  have hconsistent := readExpression_consistent maxOpenBlocks input
  have hreports := readInput_reports input
  have hoffset := readInput_outcome input
  rw [isFailed_ofInput, Outcome.leavesText, Outcome.ofInput_diagnostics]
  unfold leavesRest consumed?
  rw [hoffset]
  cases houtcome : (readExpression maxOpenBlocks input).outcome with
  | error failure =>
      have hrefused : isRefused input = true := by
        rw [← Bool.not_eq_false, isRefused_eq_false_iff]
        rintro ⟨node, hnode⟩
        obtain ⟨rest, hok⟩ := parse_result_ok_iff.1 hnode
        rw [houtcome] at hok
        cases hok
      rw [hrefused]
      rfl
  | ok found =>
      obtain ⟨node, rest⟩ := found
      have hrefused : isRefused input = false :=
        isRefused_eq_false_iff.2 ⟨node, parse_result_ok_iff.2 ⟨rest, houtcome⟩⟩
      have hrest := offsetOf_eq_byteLength_iff (hconsistent.done node rest houtcome).2
      rw [houtcome] at hreports
      rw [hrefused, parse, hreports]
      cases rest with
      | nil => simp [hrest.2 rfl]
      | cons c more =>
          have hstop : offsetOf input (c :: more) ≠ Text.byteLength input := by
            rw [Ne, hrest]
            exact List.cons_ne_nil c more
          simp [diagnosticAt, hstop]

end Outcomes

/-! ## Counts -/

/-- Number of inputs that count against a run. -/
def rejectedCount (deny : Bool) (inputs : List Text) : Nat :=
  inputs.countP isRefused + if deny then inputs.countP leavesRest else 0

section Counts

variable (config : Config) (options : ParseOptions) (inputs : List Text) (deny : Bool)

theorem failures_summarize :
    (summarize config options inputs).failures = inputs.countP isRefused := by
  simp only [Summary.failures, summarize, List.countP_map, Function.comp_def, isFailed_ofInput]

theorem leftovers_summarize :
    (summarize config options inputs).leftovers = inputs.countP leavesRest := by
  simp only [Summary.leftovers, summarize, List.countP_map, Function.comp_def,
    leavesText_ofInput]

theorem rejections_summarize :
    (summarize config options inputs).rejections =
      rejectedCount (options.denyTrailing || config.denyTrailing) inputs := by
  have hdeny : (summarize config options inputs).denyTrailing =
      (options.denyTrailing || config.denyTrailing) := rfl
  rw [Summary.rejections, failures_summarize, leftovers_summarize, hdeny, rejectedCount]
  split <;> rfl

theorem rejectedCount_eq_zero_iff :
    rejectedCount deny inputs = 0 <-> ∀ input ∈ inputs, Accepted deny input := by
  have hone (input : Text) :
      Accepted deny input <->
        isRefused input = false /\ (deny = true -> leavesRest input = false) := by
    rw [Accepted, ← isRefused_eq_false_iff]
    refine and_congr_right fun hresult => ?_
    rw [leavesRest_eq_false_iff hresult]
  simp only [hone]
  cases deny with
  | false => simp [rejectedCount, List.countP_eq_zero]
  | true => simp [rejectedCount, List.countP_eq_zero, forall_and]

theorem rejectedCount_cons (input : Text) :
    rejectedCount deny (input :: inputs) =
      rejectedCount deny [input] + rejectedCount deny inputs := by
  cases deny <;> simp only [rejectedCount, List.countP_cons, List.countP_nil] <;> simp <;> omega

theorem rejectedCount_singleton_le (input : Text) : rejectedCount deny [input] <= 1 := by
  -- What is left of an input without a tree is never counted.
  have hrefused : isRefused input = true -> leavesRest input = false := by
    intro hinput
    unfold leavesRest
    cases hstop : consumed? input with
    | none => rfl
    | some stop =>
        obtain ⟨node, rest, hok, _⟩ := consumed?_eq_some_iff.1 hstop
        have hresult := isRefused_eq_false_iff.2 ⟨node, parse_result_ok_iff.2 ⟨rest, hok⟩⟩
        rw [hinput] at hresult
        cases hresult
  cases hinput : isRefused input with
  | false => cases deny <;> cases hrest : leavesRest input <;> simp [rejectedCount, hinput, hrest]
  | true => cases deny <;> simp [rejectedCount, hinput, hrefused hinput]

theorem rejectedCount_le_length : rejectedCount deny inputs <= inputs.length := by
  induction inputs with
  | nil => cases deny <;> exact Nat.le_refl _
  | cons input inputs ih =>
      have hone := rejectedCount_singleton_le deny input
      rw [rejectedCount_cons, List.length_cons]
      omega

theorem refused_le_rejectedCount : inputs.countP isRefused <= rejectedCount deny inputs :=
  Nat.le_add_right _ _

end Counts

/-! ## Exit codes -/

theorem code_ofRejections_cases (count : Nat) :
    (Status.ofRejections count).code = 0 \/ (Status.ofRejections count).code = 1 := by
  cases count with
  | zero => exact Or.inl rfl
  | succ count => exact Or.inr rfl

theorem code_ofRejections_eq_zero_iff {count : Nat} :
    (Status.ofRejections count).code = 0 <-> count = 0 := by
  cases count <;> simp [Status.ofRejections, Status.code]

theorem code_ofRejections_add (first second : Nat) :
    (Status.ofRejections (first + second)).code =
      max (Status.ofRejections first).code (Status.ofRejections second).code := by
  cases first with
  | zero => simp [Status.ofRejections, Status.code]
  | succ first => cases second <;> simp [Status.ofRejections, Status.code]

/-- The exit code of some inputs is the largest one that any of them has alone. -/
theorem code_eq_max (deny : Bool) (inputs : List Text) :
    (Status.ofRejections (rejectedCount deny inputs)).code =
      (inputs.map fun input =>
        (Status.ofRejections (rejectedCount deny [input])).code).foldr max 0 := by
  induction inputs with
  | nil => cases deny <;> rfl
  | cons input inputs ih =>
      rw [rejectedCount_cons, code_ofRejections_add, List.map_cons, List.foldr_cons, ih]

/-! ## Last lines -/

/-- A text that is made of whole lines. -/
def EndsLine (text : Text) : Prop :=
  forall c, text.getLast? = some c -> c = '\n'

/-- The last one of the lines of a text that is made of whole lines. -/
def finalLine (text : Text) : Text :=
  lastLine text.dropLast

namespace EndsLine

theorem nil : EndsLine [] := by
  intro c hc
  cases hc

theorem of_concat (text : Text) : EndsLine (text ++ ['\n']) := by
  intro c hc
  rw [List.getLast?_concat] at hc
  exact (Option.some.inj hc).symm

theorem append {front rest : Text} (hfront : EndsLine front) (hrest : EndsLine rest) :
    EndsLine (front ++ rest) := by
  intro c hc
  rw [List.getLast?_append] at hc
  cases hlast : rest.getLast? with
  | none =>
      rw [hlast, Option.none_or] at hc
      exact hfront c hc
  | some last =>
      rw [hlast, Option.some_or] at hc
      exact hrest c (hlast.trans hc)

theorem flatMap {α : Type} {items : List α} {lines : α -> Text}
    (h : forall item, EndsLine (lines item)) : EndsLine (items.flatMap lines) := by
  induction items with
  | nil => exact nil
  | cons item items ih =>
      rw [List.flatMap_cons]
      exact (h item).append ih

end EndsLine

theorem finalLine_append {front line : Text} (hfront : EndsLine front) (hline : '\n' ∉ line) :
    finalLine (front ++ (line ++ ['\n'])) = line := by
  have hbefore : lastLine front = [] := by
    cases hreverse : front.reverse with
    | nil => simp [lastLine, hreverse]
    | cons c more =>
        have hlast : front.getLast? = some c := by
          rw [← List.head?_reverse, hreverse]
          rfl
        simp [lastLine, hreverse, hfront c hlast]
  rw [finalLine, ← List.append_assoc, List.dropLast_concat, lastLine_append hline, hbefore,
    List.nil_append]

section Reports

variable {colour : Bool}

theorem EndsLine.render {styled : Styled} (h : styled.getLast? = some lineEnd) :
    EndsLine (Styled.render colour styled) := by
  obtain ⟨front, rfl⟩ := List.getLast?_eq_some_iff.1 h
  have hend : Styled.render colour [lineEnd] = ['\n'] := by
    cases colour <;> rfl
  rw [Styled.render_append, hend]
  exact of_concat _

/-- A report that goes on behind whole lines, or is stopped behind them, ends a line. -/
theorem EndsLine.andThen {first second : Report}
    (hfirst : EndsLine (Styled.render colour first.err))
    (hsecond : EndsLine (Styled.render colour second.err)) :
    EndsLine (Styled.render colour (first.andThen second).err) := by
  rw [(Report.andThen_streams first second).2, Styled.render_append]
  refine hfirst.append ?_
  split
  · exact hsecond
  · exact nil

theorem endsLine_diagnosticReportBy (measure : Text -> Nat) (number : Nat) (input : Text)
    (verbose : Bool) (diagnostic : Diagnostic) :
    EndsLine (Styled.render colour
      (diagnosticReportBy measure number input verbose diagnostic).err) := by
  have htitle : EndsLine (Styled.render colour (Report.toErr (titleLine diagnostic)).err) :=
    .render rfl
  have hplace (place : Place) :
      EndsLine (Styled.render colour (Report.toErr (placeLines number place)).err) :=
    .render (by simp [Report.toErr, placeLines])
  have hcaret (place : Place) :
      EndsLine (Styled.render colour (caretLines diagnostic verbose place)) :=
    .render (by rw [caretLines, List.getLast?_concat])
  unfold diagnosticReportBy
  refine htitle.andThen ?_
  split
  · exact .nil
  · rename_i place _
    refine (hplace place).andThen ?_
    split
    · exact hcaret place
    · exact .nil

theorem endsLine_diagnosticsLines (measure : Text -> Nat) (verbose : Bool) (number : Nat)
    (outcome : Outcome) :
    EndsLine (Styled.render colour (diagnosticsLines measure verbose number outcome)) := by
  refine Report.inTurn_of_forall
    (fun report => EndsLine (Styled.render colour report.err)) .nil (fun _ _ => .andThen) ?_
  intro report hreport
  obtain ⟨diagnostic, -, rfl⟩ := List.mem_map.1 hreport
  exact endsLine_diagnosticReportBy measure number outcome.input verbose diagnostic

end Reports

theorem endsLine_trailingLine (colour : Bool) (summary : Summary) :
    EndsLine (Styled.render colour (trailingLine summary)) := by
  unfold trailingLine
  split
  · exact .nil
  · simp only [Styled.render, List.flatMap_cons, List.flatMap_nil, render_lineEnd,
      List.append_nil]
    rw [← List.append_assoc]
    exact .of_concat _

/-! ## Verdicts -/

theorem newline_not_mem_reopen {opening text : Text} (hopening : '\n' ∉ opening)
    (htext : '\n' ∉ text) : '\n' ∉ Text.reopen opening text := by
  have hreset : '\n' ∉ Text.reset := by decide
  fun_induction Text.reopen opening text with
  | case1 => exact List.not_mem_nil
  | case2 rest ih =>
      simp only [List.mem_cons, not_or] at htext
      simp only [List.mem_append, not_or]
      exact ⟨⟨hreset, hopening⟩, ih htext.2.2.2.2⟩
  | case3 c rest _ ih =>
      simp only [List.mem_cons, not_or] at htext ⊢
      exact ⟨htext.1, ih htext.2⟩

theorem newline_not_mem_opening (style : Text.Style) : '\n' ∉ style.opening := by
  obtain ⟨weight, colour⟩ := style
  cases weight <;> rcases colour with _ | colour <;> try cases colour
  all_goals decide

/-- No style breaks a line. -/
theorem newline_not_mem_render (colour : Bool) {styled : Styled}
    (h : ∀ piece ∈ styled, '\n' ∉ piece.text) : '\n' ∉ Styled.render colour styled := by
  intro hmem
  obtain ⟨piece, hpiece, hmem⟩ := List.mem_flatMap.1 hmem
  unfold Piece.render at hmem
  split at hmem
  · have hopening := newline_not_mem_opening piece.style
    have htext := newline_not_mem_reopen hopening (h piece hpiece)
    have hreset : '\n' ∉ Text.reset := by decide
    simp only [List.mem_append] at hmem
    tauto
  · exact h piece hpiece hmem

theorem newline_not_mem_natural (n : Nat) : '\n' ∉ Text.natural n := by
  intro hmem
  have hdigit := Json.isDigit_of_mem_natural hmem
  cases hdigit

theorem newline_not_mem_inputCount (count : Nat) : '\n' ∉ inputCount count := by
  have hnatural := newline_not_mem_natural count
  unfold inputCount
  rw [List.mem_append, not_or]
  refine ⟨hnatural, ?_⟩
  split <;> decide

/-- The line of a run that all of so many inputs were accepted in. -/
def successText (colour : Bool) (total : Nat) : Text :=
  Styled.render colour [.coloured .green successMark, .plain [' '],
    .coloured .green ("Parsed ".toList ++ inputCount total)]

/-- The line of a run that so many of its inputs were rejected in, and so many had no tree. -/
def failureText (colour : Bool) (rejected total refused : Nat) : Text :=
  Styled.render colour [.coloured .red failureMark, .plain [' '],
    .coloured .red (Text.natural rejected ++ " of ".toList ++ inputCount total ++
      " rejected (".toList ++ Text.natural refused ++ " failed to parse)".toList)]

theorem newline_not_mem_successText (colour : Bool) (total : Nat) :
    '\n' ∉ successText colour total := by
  have htotal := newline_not_mem_inputCount total
  apply newline_not_mem_render
  simp only [List.mem_cons, List.not_mem_nil, or_false, forall_eq_or_imp, forall_eq]
  refine ⟨by decide, by decide, ?_⟩
  simp only [Piece.coloured, List.mem_append, not_or]
  exact ⟨by decide, htotal⟩

theorem newline_not_mem_failureText (colour : Bool) (rejected total refused : Nat) :
    '\n' ∉ failureText colour rejected total refused := by
  have hrejected := newline_not_mem_natural rejected
  have htotal := newline_not_mem_inputCount total
  have hrefused := newline_not_mem_natural refused
  apply newline_not_mem_render
  simp only [List.mem_cons, List.not_mem_nil, or_false, forall_eq_or_imp, forall_eq]
  refine ⟨by decide, by decide, ?_⟩
  simp only [Piece.coloured, List.mem_append, not_or]
  exact ⟨⟨⟨⟨⟨hrejected, by decide⟩, htotal⟩, by decide⟩, hrefused⟩, by decide⟩

/-- The two kinds of verdict differ in their marks. -/
theorem failureText_ne_successText (colour : Bool) (rejected total refused count : Nat) :
    failureText colour rejected total refused ≠ successText colour count := by
  intro hsame
  cases colour with
  | false =>
      have hmark : some '✘' = some '✓' := congrArg List.head? hsame
      cases hmark
  | true =>
      have hcode : some '1' = some '2' := congrArg (fun text => text[3]?) hsame
      cases hcode

/-- The last line of a run that is shown. -/
def verdictText (colour deny : Bool) (inputs : List Text) : Text :=
  if rejectedCount deny inputs = 0 then successText colour inputs.length
  else failureText colour (rejectedCount deny inputs) inputs.length (inputs.countP isRefused)

theorem newline_not_mem_verdictText (colour deny : Bool) (inputs : List Text) :
    '\n' ∉ verdictText colour deny inputs := by
  unfold verdictText
  split
  · exact newline_not_mem_successText colour _
  · exact newline_not_mem_failureText colour _ _ _

theorem render_verdictLine (colour : Bool) (config : Config) (options : ParseOptions)
    (inputs : List Text) :
    Styled.render colour (verdictLine (summarize config options inputs)) =
      verdictText colour (options.denyTrailing || config.denyTrailing) inputs ++ ['\n'] := by
  have htotal : (summarize config options inputs).outcomes.length = inputs.length :=
    List.length_map _
  unfold verdictLine verdictText
  rw [rejections_summarize, failures_summarize, htotal]
  dsimp only
  split
  all_goals
    simp [successText, failureText, Styled.render, render_lineEnd]

end TranslationKeys
