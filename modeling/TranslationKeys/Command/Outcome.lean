import TranslationKeys.Config.Basic
import TranslationKeys.Expr.Parser

/-!
# Outcomes

The outcome of an input is the input with everything that was learnt from it.
A summary collects the outcomes of a run in input order and counts the inputs
that failed, that left text after a call, and that count against the run.
-/

namespace TranslationKeys

/-! ## Outcomes -/

/-- An input with everything that was learnt from it. -/
structure Outcome where
  input : Text
  parsed : Parsed

namespace Outcome

/-- The outcome of an input.  Its trace is empty unless tracing is wanted. -/
def ofInput (traced : Bool) (input : Text) : Outcome :=
  let parsed := parse input
  ⟨input, if traced then parsed else { parsed with trace := [] }⟩

def isFailed (outcome : Outcome) : Bool :=
  match outcome.parsed.result with
  | .ok _ => false
  | .error _ => true

def leavesText (outcome : Outcome) : Bool :=
  outcome.parsed.diagnostics.any fun diagnostic => diagnostic.kind == .trailingInput

end Outcome

/-! ## Summaries -/

/-- The outcomes of a run and how they are reported. -/
structure Summary where
  outcomes : List Outcome
  format : ReportFormat
  denyTrailing : Bool
  verbose : Bool

namespace Summary

def failures (summary : Summary) : Nat :=
  summary.outcomes.countP Outcome.isFailed

/-- Number of inputs with a tree and text after it. -/
def leftovers (summary : Summary) : Nat :=
  summary.outcomes.countP fun outcome => !outcome.isFailed && outcome.leavesText

/-- Number of inputs that count against the run. -/
def rejections (summary : Summary) : Nat :=
  if summary.denyTrailing then summary.failures + summary.leftovers
  else summary.failures

end Summary

/-! ## Exit status -/

inductive Status where
  | success
  | failure
  | error
  deriving DecidableEq, Repr

namespace Status

def code : Status -> Nat
  | .success => 0
  | .failure => 1
  | .error => 2

/-- A run succeeds when nothing counts against it. -/
def ofRejections : Nat -> Status
  | 0 => .success
  | _ + 1 => .failure

end Status

inductive Completion where
  /-- The outcomes of the inputs that were parsed. -/
  | parsed (summary : Summary)
  /-- Whether a configuration file was written, or stood there already. -/
  | initialized (created : Bool)

def Completion.status : Completion -> Status
  | .parsed summary => .ofRejections summary.rejections
  | .initialized true => .success
  | .initialized false => .failure

end TranslationKeys
