import TranslationKeys.Command.Outcome
import TranslationKeys.Text.Styled
import TranslationKeys.Text.Width

/-!
# Reports

Results are written to standard output.  Traces, diagnostics and the summary
are written to standard error.  A diagnostic shows the source line of its offset
with a caret below the place.  An offset inside a character has no place, and a
caret can be too far to the right.  Either stops the report, and what was written
before stays.

How many columns a text takes is left open here.  Every report is by some measure
of it, and only the program as it is run has a fixed one.
-/

namespace TranslationKeys

open Text (Piece Styled)

/-! ## What is written -/

/-- What keeps a diagnostic from being shown. -/
inductive Obstacle where
  /-- The offset lies inside a character. -/
  | insideCharacter
  /-- The caret would be too far to the right. -/
  | tooFarRight
  deriving DecidableEq, Repr

/-- What is written to the two streams, and the obstacle that it was stopped by, if any. -/
structure Report where
  out : Styled
  err : Styled
  stop : Option Obstacle

namespace Report

def nothing : Report :=
  ⟨[], [], none⟩

def toOut (lines : Styled) : Report :=
  ⟨lines, [], none⟩

def toErr (lines : Styled) : Report :=
  ⟨[], lines, none⟩

def stopped (obstacle : Obstacle) : Report :=
  ⟨[], [], some obstacle⟩

/-- One report after another one.  Nothing is written after an obstacle. -/
def andThen (first second : Report) : Report :=
  match first.stop with
  | none => ⟨first.out ++ second.out, first.err ++ second.err, second.stop⟩
  | some _ => first

def inTurn (reports : List Report) : Report :=
  reports.foldr andThen nothing

end Report

/-! ## Places -/

/-- The place of an offset in an input. -/
structure Place where
  /-- Number of the line, from 1. -/
  line : Nat
  /-- Number of the character on the line, from 1. -/
  column : Nat
  /-- The line that holds the offset. -/
  source : Text
  /-- Number of columns that the line takes up to the offset. -/
  padding : Nat
  deriving DecidableEq, Repr

def lastLine (text : Text) : Text :=
  (text.reverse.takeWhile (· != '\n')).reverse

def firstLine (text : Text) : Text :=
  text.takeWhile (· != '\n')

namespace Place

/-- The place at a cut of an input, where columns are counted by some measure. -/
def atCut (measure : Text -> Nat) (front rest : Text) : Place where
  line := front.count '\n' + 1
  column := (lastLine front).length + 1
  source := lastLine front ++ firstLine rest
  padding := measure (lastLine front)

/--
The place of a byte offset.  An offset beyond the end means the end.  An offset
inside a character has no place.
-/
def ofOffsetBy? (measure : Text -> Nat) (input : Text) (offset : Nat) : Option Place :=
  (Text.cut? input (min offset (Text.byteLength input))).map fun (front, rest) =>
    atCut measure front rest

end Place

/-- Number of columns that a report can leave in front of a caret. -/
def widestPadding : Nat :=
  65535

def Place.isShowable (place : Place) : Bool :=
  place.padding <= widestPadding

/-! ## Diagnostics -/

def lineEnd : Piece :=
  .plain ['\n']

def gutterBar : Piece :=
  .coloured .blue ['|']

def severity (kind : Diagnostic.Kind) : Piece :=
  if kind.isFatal then .boldColoured .red "error".toList
  else .boldColoured .yellow "warning".toList

def caret (kind : Diagnostic.Kind) : Piece :=
  .coloured (if kind.isFatal then .red else .yellow) ['^']

/-- The line that cites the text at a diagnostic. -/
def noteLine (gutter : Text) (diagnostic : Diagnostic) : Styled :=
  [.plain gutter, .coloured .blue ['='], .plain [' '], .bold "note:".toList,
    .plain (" Current location is: '".toList ++ diagnostic.shownRemainder ++ ['\x27']),
    lineEnd]

/-- The line that says what is wrong. -/
def titleLine (diagnostic : Diagnostic) : Styled :=
  [severity diagnostic.kind, .plain (": ".toList ++ diagnostic.message ++ "  ".toList),
    .dimColoured .cyan diagnostic.kind.name, lineEnd]

/-- What stands in front of a bar on a line without a number. -/
def Place.gutter (place : Place) : Text :=
  Text.spaces (Text.natural place.line).length ++ [' ']

/-- The lines that show where a diagnostic is: the place, an empty line and the source line. -/
def placeLines (number : Nat) (place : Place) : Styled :=
  [.plain "  ".toList, .coloured .blue "-->".toList,
    .plain (" <input ".toList ++ Text.natural number ++ ">:".toList ++
      Text.natural place.line ++ [':'] ++ Text.natural place.column), lineEnd] ++
  [.plain place.gutter, gutterBar, lineEnd] ++
  [.coloured .blue (Text.natural place.line), .plain [' '], gutterBar,
    .plain (' ' :: place.source), lineEnd]

/-- The line with the caret and what follows it. -/
def caretLines (diagnostic : Diagnostic) (verbose : Bool) (place : Place) : Styled :=
  [.plain place.gutter, gutterBar, .plain (' ' :: Text.spaces place.padding),
    caret diagnostic.kind, lineEnd] ++
  (if verbose then noteLine place.gutter diagnostic else []) ++
  [lineEnd]

/-- A diagnostic of an input with some number, where columns are counted by some measure. -/
def diagnosticReportBy (measure : Text -> Nat) (number : Nat) (input : Text) (verbose : Bool)
    (diagnostic : Diagnostic) : Report :=
  .andThen (.toErr (titleLine diagnostic))
    (match Place.ofOffsetBy? measure input diagnostic.offset with
    | none => .stopped .insideCharacter
    | some place =>
        .andThen (.toErr (placeLines number place))
          (if place.isShowable then .toErr (caretLines diagnostic verbose place)
          else .stopped .tooFarRight))

/-! ## Outcomes -/

def traceLines (outcome : Outcome) : Styled :=
  outcome.parsed.trace.flatMap fun entry => [.dim entry.render, lineEnd]

def resultLine (outcome : Outcome) : Text :=
  let tree :=
    match outcome.parsed.result with
    | .ok node => node.render
    | .error _ => "FAILED".toList
  ['\x22'] ++ outcome.input ++ "\" ==> ".toList ++ tree ++ ['\n']

/-- The row of an outcome.  A report that is a document has no rows. -/
def resultRow (outcome : Outcome) : ReportFormat -> Styled
  | .text => [.plain (resultLine outcome)]
  | .json => []

/-- The report on an outcome: its trace, its diagnostics, and its row at last. -/
def outcomeReportBy (measure : Text -> Nat) (format : ReportFormat) (verbose : Bool)
    (number : Nat) (outcome : Outcome) : Report :=
  .inTurn [
    .toErr (traceLines outcome),
    .inTurn (outcome.parsed.diagnostics.map
      (diagnosticReportBy measure number outcome.input verbose)),
    .toOut (resultRow outcome format)]

def Outcome.toJson (outcome : Outcome) : Json :=
  let result :=
    match outcome.parsed.result with
    | .ok node => ("result".toList, node.toJson)
    | .error error => ("error".toList, .string error.render)
  .object [
    ("input".toList, .string outcome.input),
    result,
    ("diagnostics".toList, .array (outcome.parsed.diagnostics.map Diagnostic.toJson))]

/-- The document of all outcomes.  A report that has rows has no document. -/
def resultDocument (outcomes : List Outcome) : ReportFormat -> Styled
  | .text => []
  | .json => [.plain ((Json.array (outcomes.map Outcome.toJson)).pretty ++ ['\n'])]

/-! ## Summaries -/

def successMark : Text :=
  ['✓']

def failureMark : Text :=
  ['✘']

def inputCount (count : Nat) : Text :=
  Text.natural count ++ (if count = 1 then " input".toList else " inputs".toList)

def trailingLine (summary : Summary) : Styled :=
  if summary.leftovers = 0 then []
  else
    [if summary.denyTrailing then .boldColoured .red "error:".toList
      else .boldColoured .yellow "warning:".toList,
      .plain ([' '] ++ inputCount summary.leftovers ++
        " left trailing text after a valid expression".toList), lineEnd]

/-- The line that says how a run went. -/
def verdictLine (summary : Summary) : Styled :=
  let total := inputCount summary.outcomes.length
  if summary.rejections = 0 then
    [.coloured .green successMark, .plain [' '],
      .coloured .green ("Parsed ".toList ++ total), lineEnd]
  else
    [.coloured .red failureMark, .plain [' '],
      .coloured .red (Text.natural summary.rejections ++ " of ".toList ++ total ++
        " rejected (".toList ++ Text.natural summary.failures ++
        " failed to parse)".toList), lineEnd]

/-! ## Commands -/

/-- The report of a summary: its outcomes in turn, then what there is to say about all of them. -/
def Summary.reportBy (measure : Text -> Nat) (summary : Summary) : Report :=
  .inTurn [
    .inTurn ((summary.outcomes.zipIdx 1).map fun (outcome, number) =>
      outcomeReportBy measure summary.format summary.verbose number outcome),
    .toOut (resultDocument summary.outcomes summary.format),
    .toErr (trailingLine summary ++ verdictLine summary)]

def initReport : Bool -> Report
  | true =>
      .toOut [.coloured .green successMark, .plain [' '],
        .coloured .green ("Created ".toList ++ Config.fileName), lineEnd]
  | false =>
      .toErr [.boldColoured .red "error:".toList,
        .plain ([' '] ++ Config.fileName ++ " already exists".toList), lineEnd]

def Completion.reportBy (measure : Text -> Nat) : Completion -> Report
  | .parsed summary => summary.reportBy measure
  | .initialized created => initReport created

/-- The report of the program, if nothing stops it. -/
def Completion.report? (completion : Completion) : Option Report :=
  (some (completion.reportBy Text.displayWidth)).filter fun report => report.stop.isNone

/-- The text that a run writes to its two streams. -/
structure Output where
  stdout : Text
  stderr : Text
  deriving DecidableEq, Repr

/-- A report as text, with or without colour. -/
def Report.render (colour : Bool) (report : Report) : Output :=
  ⟨report.out.render colour, report.err.render colour⟩

end TranslationKeys
