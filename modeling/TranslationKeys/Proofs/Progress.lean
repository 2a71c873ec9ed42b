import TranslationKeys.Proofs.Machine
import TranslationKeys.Proofs.Places

/-!
# Reading advances and ends

A step of the machine never moves its cursor back, and moves it by whole characters.
It does not always move it: a value that is no literal is an expression in the same
place.  But such a rule is entered at most once before something is taken, so what a
stage may still enter is paid for by the bytes in front of the cursor.  That is kept
by every step, and it bounds the entries of a whole run by the bytes of the input.
-/

namespace TranslationKeys

open Lexeme

/-! ## What a stage calls and tries -/

theorem Stage.remainder_of_entry? {outer : List OpenParam} {text : Text} {stage : Stage}
    {entry : RuleEntry} (h : stage.entry? outer text = some entry) : entry.remainder = text := by
  cases stage <;> cases h <;> rfl

/-- A stage that calls a rule has a move. -/
theorem Move.exists_of_entry? {outer : List OpenParam} {text : Text} {stage : Stage}
    {entry : RuleEntry} (h : stage.entry? outer text = some entry) :
    exists move, of? outer text stage = some move := by
  cases stage with
  | expression => cases hkey : callKey? text <;> simp [of?, hkey]
  | block key => exact ⟨_, rfl⟩
  | param key params => cases hname : paramName? text <;> simp [of?, hname]
  | plain | params | value | valued | closing | node | failed => cases h

/--
What a stage tries to match.  Spacing and separators are not listed: they may be
empty, so there is always a match for them.
-/
def Stage.matcher? : Stage -> Option (Text -> Option (Text × Text))
  | .expression => some callKey?
  | .param _ _ => some paramName?
  | .value _ => some stringLiteral?
  | _ => none

theorem Move.rest_of_no_match {outer : List OpenParam} {text : Text} {stage : Stage}
    {move : Move} {matcher : Text -> Option (Text × Text)}
    (hmatcher : stage.matcher? = some matcher) (hnone : matcher text = none)
    (hmove : of? outer text stage = some move) : move.rest = text := by
  cases stage with
  | expression =>
      cases hmatcher
      rw [of?, hnone] at hmove
      cases hmove
      rfl
  | param key params =>
      cases hmatcher
      rw [of?, hnone] at hmove
      cases hmove
      rfl
  | value param =>
      cases hmatcher
      rw [of?, hnone] at hmove
      split at hmove <;> cases hmove <;> rfl
  | plain | block | params | valued | closing | node | failed => cases hmatcher

/-! ## Places of states -/

theorem isBoundary_offsetOf {input text : Text} (h : text <:+ input) :
    Text.IsBoundary input (offsetOf input text) := by
  obtain ⟨front, rfl⟩ := h
  exact ⟨front, text, rfl, (offsetOf_append front text).symm⟩

theorem offsetOf_mono (input : Text) {text rest : Text}
    (htaken : Text.byteLength rest <= Text.byteLength text) :
    offsetOf input text <= offsetOf input rest :=
  Nat.sub_le_sub_left htaken _

/-- What takes so many bytes moves the cursor by as many at least. -/
theorem offsetOf_add_le {input text rest : Text} {count : Nat} (htext : text <:+ input)
    (htaken : Text.byteLength rest + count <= Text.byteLength text) :
    offsetOf input text + count <= offsetOf input rest := by
  have hlength := Text.byteLength_le_of_suffix htext
  unfold offsetOf
  omega

namespace State

variable {input text : Text} {state next : State}

/-- The entries so far, and those that the stage may still make, are paid for. -/
structure Paid (input : Text) (state : State) : Prop where
  boundary : Text.IsBoundary input state.position
  paid : state.entries.length + state.stage.reserve <= state.position + 1

theorem paid_start (input : Text) : start.Paid input :=
  ⟨⟨[], input, rfl, rfl⟩, Nat.le_refl 1⟩

/-- A step from between two characters is a move at the text behind the cursor. -/
theorem next?_cases (hboundary : Text.IsBoundary input state.position)
    (h : state.next? input = some next) :
    exists text move, text <:+ input /\ state.rest? input = some text /\
      state.position = offsetOf input text /\ move.Advances state.stage state.outer text /\
      Move.of? state.outer text state.stage = some move /\
      next = before input move.stage move.outer move.rest
        (state.entries ++ (state.stage.entry? state.outer text).toList) := by
  obtain ⟨front, text, hinput, hbytes⟩ := hboundary
  have htext : text <:+ input := ⟨front, hinput.symm⟩
  have hposition : state.position = offsetOf input text := by
    rw [hinput, offsetOf_append, hbytes]
  have hstate : state = before input state.stage state.outer text state.entries := by
    rw [before, <- hposition]
  have hrest : state.rest? input = some text := by
    rw [hstate]
    exact rest?_before htext _ _ _
  rw [hstate, next?_before htext, Option.map_eq_some_iff] at h
  obtain ⟨move, hmove, hnext⟩ := h
  exact ⟨text, move, htext, hrest, hposition, Move.of?_advances hmove, hmove, hnext.symm⟩

theorem position_le_of_next? (hboundary : Text.IsBoundary input state.position)
    (h : state.next? input = some next) : state.position <= next.position := by
  obtain ⟨text, move, _, _, hposition, hadvances, _, rfl⟩ := next?_cases hboundary h
  rw [hposition]
  exact offsetOf_mono input (Text.byteLength_le_of_suffix hadvances.suffix)

/-- A step pays for the rule that it calls. -/
theorem Paid.step (hpaid : state.Paid input) (h : state.next? input = some next) :
    next.Paid input := by
  obtain ⟨text, move, htext, _, hposition, hadvances, _, rfl⟩ := next?_cases hpaid.boundary h
  refine ⟨isBoundary_offsetOf (hadvances.suffix.trans htext), ?_⟩
  have hbefore := hpaid.paid
  have hmove := hadvances.paid
  have hrest := Text.byteLength_le_of_suffix hadvances.suffix
  have hlength := Text.byteLength_le_of_suffix htext
  simp only [hposition, before, offsetOf, List.length_append] at hbefore ⊢
  omega

theorem position_eq_of_no_match {matcher : Text -> Option (Text × Text)}
    (hboundary : Text.IsBoundary input state.position)
    (hmatcher : state.stage.matcher? = some matcher) (hrest : state.rest? input = some text)
    (hnone : matcher text = none) (h : state.next? input = some next) :
    next.position = state.position := by
  obtain ⟨found, move, _, hfound, hposition, _, hmove, rfl⟩ := next?_cases hboundary h
  cases hfound.symm.trans hrest
  have hkept := Move.rest_of_no_match hmatcher hnone hmove
  rw [hposition, before, hkept]

theorem next?_keeps_entries (h : state.next? input = some next) :
    state.entries <+: next.entries := by
  obtain ⟨text, _, hnext⟩ := Option.bind_eq_some_iff.1 h
  obtain ⟨move, _, rfl⟩ := Option.map_eq_some_iff.1 hnext
  exact List.prefix_append _ _

/-- The step from a state that calls a rule makes the entry of the rule. -/
theorem exists_next?_of_call {entry : RuleEntry}
    (hrest : state.rest? input = some entry.remainder)
    (hcall : state.stage.entry? state.outer entry.remainder = some entry) :
    exists next, state.next? input = some next /\ entry ∈ next.entries := by
  obtain ⟨move, hmove⟩ := Move.exists_of_entry? hcall
  rw [next?, hrest, Option.bind_some, hmove, hcall]
  exact ⟨_, rfl, by simp⟩

/-- The next state, unless more rules are entered by then than a budget allows. -/
def nextWithin? (budget : Nat) (input : Text) (state : State) : Option State :=
  (state.next? input).filter fun next => next.entries.length <= budget

end State

/-! ## Runs -/

/-- A state that the machine comes to. -/
def State.Reached (input : Text) (state : State) : Prop :=
  Runs input .start state

namespace State.Reached

variable {input : Text} {state : State}

theorem paid (h : state.Reached input) : state.Paid input := by
  induction h with
  | refl => exact State.paid_start input
  | tail _ hnext ih => exact ih.step hnext

theorem position_le (h : state.Reached input) : state.position <= Text.byteLength input := by
  obtain ⟨front, rest, rfl, hbytes⟩ := h.paid.boundary
  rw [<- hbytes, Text.byteLength_append]
  omega

theorem entries_length_le (h : state.Reached input) :
    state.entries.length <= Text.byteLength input + 1 := by
  have hpaid := h.paid.paid
  have hposition := h.position_le
  omega

/-- Every entry so far was made by a rule at a state that the machine came to. -/
theorem exists_of_mem_entries (h : state.Reached input) {entry : RuleEntry}
    (hentry : entry ∈ state.entries) :
    exists caller : State, caller.Reached input /\ caller.rest? input = some entry.remainder /\
      caller.stage.entry? caller.outer entry.remainder = some entry := by
  induction h with
  | refl => cases hentry
  | @tail middle state hmiddle hnext ih =>
      have hboundary := (State.Reached.paid hmiddle).boundary
      obtain ⟨text, move, _, hrest, _, _, _, rfl⟩ := State.next?_cases hboundary hnext
      rcases List.mem_append.1 hentry with hearlier | hmade
      · exact ih hearlier
      · have hcall := Option.mem_toList.1 hmade
        have hplace := Stage.remainder_of_entry? hcall
        rw [<- hplace] at hrest hcall
        exact ⟨middle, hmiddle, hrest, hcall⟩

theorem nextWithin?_eq (h : state.Reached input) {budget : Nat}
    (hbudget : Text.byteLength input + 1 <= budget) :
    state.nextWithin? budget input = state.next? input := by
  unfold State.nextWithin?
  cases hnext : state.next? input with
  | none => rfl
  | some next =>
      have hreached : next.Reached input := Relation.ReflTransGen.tail h hnext
      have hlength := hreached.entries_length_le
      rw [Option.filter_some, if_pos (by simpa using Nat.le_trans hlength hbudget)]

end State.Reached

theorem Runs.keeps_entries {input : Text} {state later : State} (h : Runs input state later) :
    state.entries <+: later.entries := by
  induction h with
  | refl => exact List.prefix_rfl
  | tail _ hnext ih => exact ih.trans (State.next?_keeps_entries hnext)

/-- The machine has one way to go, so it comes to its end from wherever it is. -/
theorem Runs.to_end {input : Text} {start state final : State} (hstate : Runs input start state)
    (hfinal : Runs input start final) (hend : final.next? input = none) :
    Runs input state final := by
  have hunique : Relator.RightUnique fun state next : State => state.next? input = some next := by
    intro state first second hfirst hsecond
    exact Option.some.inj (hfirst.symm.trans hsecond)
  rcases Relation.ReflTransGen.total_of_right_unique hunique hstate hfinal with hahead | hbehind
  · exact hahead
  · rcases Relation.ReflTransGen.cases_head hbehind with rfl | ⟨next, hnext, _⟩
    · exact .refl
    · rw [hend] at hnext
      cases hnext

/-- The entries at the end are those of the rules that are called on the way. -/
theorem State.Reached.mem_entries_iff {input : Text} {final : State}
    (hfinal : final.Reached input) (hend : final.next? input = none) {entry : RuleEntry} :
    entry ∈ final.entries <-> exists caller : State, caller.Reached input /\
      caller.rest? input = some entry.remainder /\
        caller.stage.entry? caller.outer entry.remainder = some entry := by
  constructor
  · exact hfinal.exists_of_mem_entries
  · rintro ⟨caller, hcaller, hrest, hcall⟩
    obtain ⟨next, hnext, hentry⟩ := State.exists_next?_of_call hrest hcall
    have hreached : Runs input .start next := Relation.ReflTransGen.tail hcaller hnext
    exact (hreached.to_end hfinal hend).keeps_entries.subset hentry

/-! ## Every input -/

/-- What the cursor does in a state and on the step from it. -/
structure State.Advancing (input : Text) (state : State) : Prop where
  boundary : Text.IsBoundary input state.position
  inside : state.position <= Text.byteLength input
  forward : forall next, state.next? input = some next -> state.position <= next.position
  unmoved : forall matcher text next, state.stage.matcher? = some matcher ->
    state.rest? input = some text -> matcher text = none -> state.next? input = some next ->
      next.position = state.position

theorem State.Reached.advancing {input : Text} {state : State} (h : state.Reached input) :
    state.Advancing input := by
  constructor
  · exact h.paid.boundary
  · exact h.position_le
  · intro next hnext
    exact State.position_le_of_next? h.paid.boundary hnext
  · intro matcher text next hmatcher hrest hnone hnext
    exact State.position_eq_of_no_match h.paid.boundary hmatcher hrest hnone hnext

/--
Reading an input advances between characters and ends.  The rules of its trace are
those that the machine comes to a call of.  A parameter takes four bytes at least, and an expression
that is a call six.  From wherever the machine is, it comes to the end that has the
result and the trace of the input, and a budget of one entry more than there are
bytes is no limit to any step.
-/
theorem reading_advances_and_ends (input : Text) :
    (forall state : State, state.Reached input -> state.Advancing input) /\
    (forall entry, entry ∈ (parse input).trace <-> exists caller : State,
      caller.Reached input /\ caller.rest? input = some entry.remainder /\
        caller.stage.entry? caller.outer entry.remainder = some entry) /\
    (forall free depth text param rest, text <:+ input ->
      (readParam (readExpression free) depth text).outcome = .ok (param, rest) ->
        rest <:+ input /\ offsetOf input text + 4 <= offsetOf input rest) /\
    (forall free text call rest, text <:+ input ->
      (readExpression free text).outcome = .ok (.translate call, rest) ->
        rest <:+ input /\ offsetOf input text + 6 <= offsetOf input rest) /\
    (exists final : State, final.Reached input /\ final.next? input = none /\
      final.result? = some (parse input).result /\ final.entries = (parse input).trace /\
        forall state : State, state.Reached input -> Runs input state final) /\
    (forall budget, Text.byteLength input + 1 <= budget ->
      forall state : State, state.Reached input ->
        state.nextWithin? budget input = state.next? input) /\
    (parse input).trace.length <= Text.byteLength input + 1 := by
  obtain ⟨final, hfinal, hend, hresult, htrace⟩ := machine_ends input
  have hreached : final.Reached input := hfinal
  refine ⟨?_, ?_, ?_, ?_, ?_, ?_, ?_⟩
  · intro state hstate
    exact hstate.advancing
  · intro entry
    rw [<- htrace]
    exact hreached.mem_entries_iff hend
  · intro free depth text param rest htext hparam
    have hrest := ((readParam_consistent (readExpression_consistent free) depth text).done param
      rest hparam).2
    exact ⟨hrest.trans htext, offsetOf_add_le htext (readParam_takes hparam)⟩
  · intro free text call rest htext hcall
    have hrest := ((readExpression_consistent free text).done _ rest hcall).2
    exact ⟨hrest.trans htext, offsetOf_add_le htext (readExpression_takes hcall)⟩
  · exact ⟨final, hfinal, hend, hresult, htrace, fun state hstate => hstate.to_end hfinal hend⟩
  · intro budget hbudget state hstate
    exact hstate.nextWithin?_eq hbudget
  · rw [<- htrace]
    exact hreached.entries_length_le

/-- A call of fourteen bytes with one parameter, which starts behind the seventh. -/
def callWithOne : Text :=
  "i18n:a\x7b".toList ++ "b: \"c\"\x7d".toList

theorem callWithOne_advances :
    State.start.Reached callWithOne /\ State.start.Advancing callWithOne /\
    ("b: \"c\"\x7d".toList <:+ callWithOne /\
      (readParam (readExpression 127) 2 "b: \"c\"\x7d".toList).outcome =
          .ok (("b".toList, .literal "\"c\"".toList), ['}']) /\
        7 + 4 <= offsetOf callWithOne ['}']) /\
    (callWithOne <:+ callWithOne /\
      (readExpression 128 callWithOne).outcome =
          .ok (.translate (.block ['a'] (Params.nil.insert ['b'] (.literal "\"c\"".toList))), []) /\
        0 + 6 <= offsetOf callWithOne []) /\
    (⟨2, .param, "b: \"c\"\x7d".toList⟩ ∈ (parse callWithOne).trace /\
      exists caller : State, caller.Reached callWithOne /\
        caller.rest? callWithOne = some "b: \"c\"\x7d".toList /\
          caller.stage.entry? caller.outer "b: \"c\"\x7d".toList =
            some ⟨2, .param, "b: \"c\"\x7d".toList⟩) /\
    (Text.byteLength callWithOne + 1 <= 15 /\
      State.start.nextWithin? 15 callWithOne = State.start.next? callWithOne) /\
    (parse callWithOne).trace.length <= 15 := by
  have hstart : State.start.Reached callWithOne := .refl
  have hparam : (readParam (readExpression 127) 2 "b: \"c\"\x7d".toList).outcome =
      .ok (("b".toList, .literal "\"c\"".toList), ['}']) := by rfl
  have hcall : (readExpression 128 callWithOne).outcome =
      .ok (.translate (.block ['a'] (Params.nil.insert ['b'] (.literal "\"c\"".toList))), []) := by
    rfl
  have hentry : ⟨2, .param, "b: \"c\"\x7d".toList⟩ ∈ (parse callWithOne).trace := by
    decide +kernel
  have hsuffix : "b: \"c\"\x7d".toList <:+ callWithOne := List.suffix_append _ _
  have hbudget : Text.byteLength callWithOne + 1 <= 15 := by decide
  obtain ⟨hadvancing, htrace, hparams, hcalls, _, hwithin, hlength⟩ :=
    reading_advances_and_ends callWithOne
  exact ⟨hstart, hadvancing _ hstart,
    ⟨hsuffix, hparam, (hparams 127 2 _ _ _ hsuffix hparam).2⟩,
    ⟨List.suffix_rfl, hcall, (hcalls 128 _ _ _ List.suffix_rfl hcall).2⟩,
    ⟨hentry, (htrace _).1 hentry⟩,
    ⟨hbudget, hwithin 15 hbudget _ hstart⟩, hlength⟩

end TranslationKeys
