import TranslationKeys.Expr.Diagnostic
import TranslationKeys.Expr.Trace

/-!
# Readings

A reading is what a grammar rule makes of a text: a value with the text that is
left, or a failure.  It also lists what happened on the way, up to the end or up
to the failure: the rules that were entered, and the findings that were
reported.  The first failure ends a reading.
-/

namespace TranslationKeys

/-- What is wrong with a text, and the part of it that was left at that point. -/
structure Finding where
  kind : Diagnostic.Kind
  rest : Text
  deriving DecidableEq, Repr

structure Reading (α : Type) where
  entries : List RuleEntry
  reports : List Finding
  outcome : Except Finding (α × Text)

namespace Reading

variable {α β : Type}

def done (value : α) (rest : Text) : Reading α :=
  ⟨[], [], .ok (value, rest)⟩

/-- The reading that reports what is wrong with the text that is left, and fails. -/
def fail (kind : Diagnostic.Kind) (rest : Text) : Reading α :=
  ⟨[], [⟨kind, rest⟩], .error ⟨kind, rest⟩⟩

/-- The reading of a value that reports what is wrong with the text that is left. -/
def noted (kind : Diagnostic.Kind) (value : α) (rest : Text) : Reading α :=
  ⟨[], [⟨kind, rest⟩], .ok (value, rest)⟩

/-- Record the entry of the rule that makes a reading. -/
def entered (entry : RuleEntry) (reading : Reading α) : Reading α :=
  { reading with entries := entry :: reading.entries }

/-- Continue after a value with the text that it leaves. -/
def andThen (reading : Reading α) (next : α -> Text -> Reading β) : Reading β :=
  match reading.outcome with
  | .error failure => ⟨reading.entries, reading.reports, .error failure⟩
  | .ok (value, rest) =>
      let following := next value rest
      ⟨reading.entries ++ following.entries, reading.reports ++ following.reports,
        following.outcome⟩

/-! ## Entries, reports and outcomes -/

@[simp]
theorem done_entries (value : α) (rest : Text) : (done value rest).entries = [] :=
  rfl

@[simp]
theorem done_reports (value : α) (rest : Text) : (done value rest).reports = [] :=
  rfl

@[simp]
theorem done_outcome (value : α) (rest : Text) :
    (done value rest).outcome = .ok (value, rest) :=
  rfl

@[simp]
theorem fail_entries (kind : Diagnostic.Kind) (rest : Text) :
    (fail kind rest : Reading α).entries = [] :=
  rfl

@[simp]
theorem fail_reports (kind : Diagnostic.Kind) (rest : Text) :
    (fail kind rest : Reading α).reports = [⟨kind, rest⟩] :=
  rfl

@[simp]
theorem fail_outcome (kind : Diagnostic.Kind) (rest : Text) :
    (fail kind rest : Reading α).outcome = .error ⟨kind, rest⟩ :=
  rfl

@[simp]
theorem noted_reports (kind : Diagnostic.Kind) (value : α) (rest : Text) :
    (noted kind value rest).reports = [⟨kind, rest⟩] :=
  rfl

@[simp]
theorem noted_outcome (kind : Diagnostic.Kind) (value : α) (rest : Text) :
    (noted kind value rest).outcome = .ok (value, rest) :=
  rfl

@[simp]
theorem entered_entries (entry : RuleEntry) (reading : Reading α) :
    (entered entry reading).entries = entry :: reading.entries :=
  rfl

@[simp]
theorem entered_reports (entry : RuleEntry) (reading : Reading α) :
    (entered entry reading).reports = reading.reports :=
  rfl

@[simp]
theorem entered_outcome (entry : RuleEntry) (reading : Reading α) :
    (entered entry reading).outcome = reading.outcome :=
  rfl

@[simp]
theorem entered_andThen_outcome (entry : RuleEntry) (reading : Reading α)
    (next : α -> Text -> Reading β) :
    ((entered entry reading).andThen next).outcome = (reading.andThen next).outcome := by
  unfold andThen
  rw [entered_outcome]
  cases reading.outcome <;> rfl

theorem andThen_outcome_of_ok {reading : Reading α} {value : α} {rest : Text}
    (h : reading.outcome = .ok (value, rest)) (next : α -> Text -> Reading β) :
    (reading.andThen next).outcome = (next value rest).outcome := by
  unfold andThen
  rw [h]

/-- A continued reading has a value exactly when both of its parts have one. -/
theorem andThen_outcome_ok_iff {reading : Reading α} {next : α -> Text -> Reading β}
    {value : β} {rest : Text} :
    (reading.andThen next).outcome = .ok (value, rest) <->
      exists first middle, reading.outcome = .ok (first, middle) /\
        (next first middle).outcome = .ok (value, rest) := by
  unfold andThen
  cases reading.outcome with
  | error failure => simp
  | ok pair =>
      obtain ⟨first, middle⟩ := pair
      simp only [Except.ok.injEq, Prod.mk.injEq]
      exact ⟨fun h => ⟨first, middle, ⟨rfl, rfl⟩, h⟩, fun ⟨_, _, ⟨rfl, rfl⟩, h⟩ => h⟩

/-- A continued reading fails in its first part or, after that, in its second. -/
theorem andThen_outcome_error_iff {reading : Reading α} {next : α -> Text -> Reading β}
    {failure : Finding} :
    (reading.andThen next).outcome = .error failure <->
      reading.outcome = .error failure \/
        exists first middle, reading.outcome = .ok (first, middle) /\
          (next first middle).outcome = .error failure := by
  unfold andThen
  cases reading.outcome with
  | error failure => simp
  | ok pair =>
      obtain ⟨first, middle⟩ := pair
      simp only [Except.ok.injEq, Prod.mk.injEq, reduceCtorEq, false_or]
      exact ⟨fun h => ⟨first, middle, ⟨rfl, rfl⟩, h⟩, fun ⟨_, _, ⟨rfl, rfl⟩, h⟩ => h⟩

end Reading

end TranslationKeys
