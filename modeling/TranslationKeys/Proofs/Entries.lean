import Mathlib.Data.List.Chain
import TranslationKeys.Proofs.Reports

/-!
# The order of a trace

Rules are entered from the outside to the inside and from left to right.  So an
entry is at most one level below the one before it, and the text that was left
never grows.  Three rules take turns on the way down, so a depth has one rule.

A rule that enters nothing outside itself keeps this, and so does putting rules
together: what comes next starts no deeper than what came before, and in the text
that it left.
-/

namespace TranslationKeys

open Lexeme

/-! ## Depths -/

/-- The rule that is entered at a depth. -/
def Rule.atDepth (depth : Nat) : Rule :=
  match depth % 3 with
  | 0 => .expression
  | 1 => .params
  | _ => .param

/-- The depth of an expression inside as many blocks as may be open. -/
def deepest : Nat :=
  3 * maxOpenBlocks

section Depths

variable (free : Nat)

theorem expressionDepth_le : expressionDepth free <= deepest :=
  Nat.mul_le_mul_left 3 (Nat.sub_le maxOpenBlocks free)

@[simp]
theorem Rule.atDepth_expression : Rule.atDepth (expressionDepth free) = .expression := by
  simp [Rule.atDepth, expressionDepth]

@[simp]
theorem Rule.atDepth_params : Rule.atDepth (expressionDepth free + 1) = .params := by
  simp [Rule.atDepth, expressionDepth]

@[simp]
theorem Rule.atDepth_param : Rule.atDepth (expressionDepth free + 2) = .param := by
  simp [Rule.atDepth, expressionDepth]

variable {free}

/-- What is nested in a block lies three rules below the call of the block. -/
theorem expressionDepth_succ (hfree : free + 1 <= maxOpenBlocks) :
    expressionDepth (free + 1) + 3 = expressionDepth free := by
  unfold expressionDepth
  omega

end Depths

/-! ## Entries in order -/

/-- The later entry is one level deeper at most, and has no more text left. -/
def RuleEntry.LeadsTo (earlier later : RuleEntry) : Prop :=
  later.depth <= earlier.depth + 1 /\ later.remainder <:+ earlier.remainder

namespace Reading

variable {α β : Type}

theorem andThen_entries_of_ok {reading : Reading α} {value : α} {rest : Text}
    (h : reading.outcome = .ok (value, rest)) (next : α -> Text -> Reading β) :
    (reading.andThen next).entries = reading.entries ++ (next value rest).entries := by
  unfold andThen
  rw [h]

theorem andThen_entries_of_error {reading : Reading α} {failure : Finding}
    (h : reading.outcome = .error failure) (next : α -> Text -> Reading β) :
    (reading.andThen next).entries = reading.entries := by
  unfold andThen
  rw [h]

/--
A reading of a text whose entries are in order.  None is less deep than `low`,
the first one is that deep, and what is left behind a value was left at each.
-/
structure Ordered (low : Nat) (text : Text) (reading : Reading α) : Prop where
  chain : reading.entries.IsChain RuleEntry.LeadsTo
  placed : ∀ entry ∈ reading.entries, low <= entry.depth /\ entry.depth <= deepest /\
    entry.rule = Rule.atDepth entry.depth /\ entry.remainder <:+ text
  first : forall entry, reading.entries.head? = some entry -> entry.depth <= low
  left : forall value rest, reading.outcome = .ok (value, rest) ->
    rest <:+ text /\ ∀ entry ∈ reading.entries, rest <:+ entry.remainder

namespace Ordered

variable {low : Nat} {text rest : Text}

theorem of_no_entries {reading : Reading α} (hentries : reading.entries = [])
    (hrest : forall value rest, reading.outcome = .ok (value, rest) -> rest <:+ text) :
    reading.Ordered low text := by
  constructor
  · simp [hentries]
  · simp [hentries]
  · simp [hentries]
  · intro value rest h
    exact ⟨hrest value rest h, by simp [hentries]⟩

theorem of_done (value : α) (hrest : rest <:+ text) :
    (Reading.done value rest).Ordered low text := by
  apply of_no_entries rfl
  intro found left h
  cases h
  exact hrest

theorem of_fail (kind : Diagnostic.Kind) (rest : Text) :
    (Reading.fail kind rest : Reading α).Ordered low text := by
  apply of_no_entries rfl
  intro found left h
  cases h

theorem mono {reading : Reading α} (h : reading.Ordered low rest) (hrest : rest <:+ text) :
    reading.Ordered low text := by
  constructor
  · exact h.chain
  · intro entry hentry
    obtain ⟨hlow, hdeep, hrule, hremainder⟩ := h.placed entry hentry
    exact ⟨hlow, hdeep, hrule, hremainder.trans hrest⟩
  · exact h.first
  · intro value left hok
    obtain ⟨hleft, hentries⟩ := h.left value left hok
    exact ⟨hleft.trans hrest, hentries⟩

/-- A rule is entered one level above whatever is read in it. -/
theorem entered {reading : Reading α} {rule : Rule} (h : reading.Ordered (low + 1) text)
    (hrule : rule = Rule.atDepth low) (hlow : low <= deepest) :
    (Reading.entered ⟨low, rule, text⟩ reading).Ordered low text := by
  constructor
  · refine List.isChain_cons.2 ⟨?_, h.chain⟩
    intro later hlater
    have hmem : later ∈ reading.entries := List.mem_of_mem_head? hlater
    exact ⟨h.first later hlater, (h.placed later hmem).2.2.2⟩
  · intro entry hentry
    rcases List.mem_cons.1 hentry with rfl | hlater
    · exact ⟨Nat.le_refl low, hlow, hrule, List.suffix_rfl⟩
    · obtain ⟨hdepth, hplaced⟩ := h.placed entry hlater
      exact ⟨Nat.le_of_succ_le hdepth, hplaced⟩
  · intro entry hentry
    cases hentry
    exact Nat.le_refl low
  · intro value rest hok
    obtain ⟨hrest, hentries⟩ := h.left value rest hok
    exact ⟨hrest, List.forall_mem_cons.2 ⟨hrest, hentries⟩⟩

theorem andThen {reading : Reading α} {next : α -> Text -> Reading β}
    (h : reading.Ordered low text) (hnext : forall value rest, (next value rest).Ordered low rest) :
    (reading.andThen next).Ordered low text := by
  cases houtcome : reading.outcome with
  | error failure =>
      have hentries := andThen_entries_of_error houtcome next
      constructor
      · rw [hentries]
        exact h.chain
      · rw [hentries]
        exact h.placed
      · rw [hentries]
        exact h.first
      · intro value rest hok
        obtain ⟨found, middle, hfound, _⟩ := andThen_outcome_ok_iff.1 hok
        rw [houtcome] at hfound
        cases hfound
  | ok found =>
      obtain ⟨value, rest⟩ := found
      have hentries := andThen_entries_of_ok houtcome next
      have hlater := hnext value rest
      obtain ⟨hrest, hleft⟩ := h.left value rest houtcome
      constructor
      · rw [hentries, List.isChain_append]
        refine ⟨h.chain, hlater.chain, ?_⟩
        intro earlier hearlier later hhead
        have hmem := List.mem_of_mem_getLast? hearlier
        have hmem' := List.mem_of_mem_head? hhead
        constructor
        · calc
            later.depth <= low := hlater.first later hhead
            _ <= earlier.depth := (h.placed earlier hmem).1
            _ <= earlier.depth + 1 := Nat.le_succ _
        · exact (hlater.placed later hmem').2.2.2.trans (hleft earlier hmem)
      · rw [hentries]
        intro entry hentry
        rcases List.mem_append.1 hentry with hearlier | hmem
        · exact h.placed entry hearlier
        · exact (hlater.mono hrest).placed entry hmem
      · rw [hentries]
        intro entry hentry
        rw [List.head?_append, Option.or_eq_some_iff] at hentry
        rcases hentry with hfirst | ⟨_, hsecond⟩
        · exact h.first entry hfirst
        · exact hlater.first entry hsecond
      · rw [andThen_outcome_of_ok houtcome, hentries]
        intro final left hok
        obtain ⟨hfinal, hmem⟩ := hlater.left final left hok
        refine ⟨hfinal.trans hrest, ?_⟩
        intro entry hentry
        rcases List.mem_append.1 hentry with hearlier | hmem'
        · exact hfinal.trans (hleft entry hearlier)
        · exact hmem entry hmem'

end Ordered

end Reading

/-! ## Rules -/

section Rules

variable {nested : Text -> Reading Node} {depth : Nat}

theorem nestedValue_ordered (node : Node) (rest : Text) :
    (nestedValue node rest).Ordered depth rest := by
  cases node with
  | literal plain => exact .of_fail _ rest
  | translate call => exact .of_done _ List.suffix_rfl

theorem readValue_ordered (hnested : forall text, (nested text).Ordered depth text)
    (text : Text) : (readValue nested text).Ordered depth text := by
  rcases readValue_cases nested text with
    ⟨raw, rest, _, rfl, hread⟩ | ⟨_, _, _, hread⟩ | ⟨_, hread⟩
  · rw [hread]
    exact .of_done _ (List.suffix_append raw rest)
  · rw [hread]
    exact .of_fail _ text
  · rw [hread]
    exact (hnested text).andThen nestedValue_ordered

variable (hnested : forall text, (nested text).Ordered (depth + 1) text)
  (hrule : Rule.atDepth depth = .param) (hdepth : depth <= deepest)

include hnested hrule hdepth

theorem readParam_ordered (text : Text) : (readParam nested depth text).Ordered depth text := by
  rcases readParam_cases nested depth text with
    ⟨_, hread⟩ | ⟨name, header, value, _, rfl, hread⟩
  · rw [hread]
    apply Reading.Ordered.entered _ hrule.symm hdepth
    exact .of_fail _ text
  · rw [hread]
    apply Reading.Ordered.entered _ hrule.symm hdepth
    have hvalue := (readValue_ordered hnested value).mono (List.suffix_append header value)
    apply hvalue.andThen
    intro value rest
    exact .of_done _ (skipSeparator_suffix rest)

theorem readParams_ordered (bound : Text) (params : Params) (text : Text) :
    (readParams nested depth bound params text).Ordered depth text := by
  induction bound generalizing params text with
  | nil => exact .of_fail _ text
  | cons b bound ih =>
      have hsuffix := skipSpacing_suffix text
      rcases readParams_cons_cases nested depth b bound params text with
        ⟨_, hread⟩ | ⟨rest, hbrace, hread⟩ | ⟨c, rest, hmore, _, hread⟩
      · rw [hread]
        exact .of_fail _ []
      · rw [hbrace] at hsuffix
        rw [hread]
        exact .of_done _ hsuffix
      · rw [hmore] at hsuffix
        rw [hread]
        have hparam := (readParam_ordered hnested hrule hdepth (c :: rest)).mono hsuffix
        apply hparam.andThen
        intro param left
        exact ih _ left

end Rules

theorem closeBlock_ordered (depth : Nat) (key : Text) (params : Params) (rest : Text) :
    (closeBlock key params rest).Ordered depth rest := by
  unfold closeBlock
  split
  · exact .of_done _ (List.suffix_cons _ _)
  · exact .of_fail _ rest

/-- The entries of an expression are in order, from its own depth on. -/
theorem readExpression_ordered {free : Nat} (hfree : free <= maxOpenBlocks) (text : Text) :
    (readExpression free text).Ordered (expressionDepth free) text := by
  have hdepth := expressionDepth_le free
  have hrule := (Rule.atDepth_expression free).symm
  induction free using Nat.strongRecOn generalizing text with
  | ind free ih =>
      rcases readExpression_cases free text with
        ⟨_, hread⟩ | ⟨key, rest, hkey, _, hread⟩ | ⟨key, inner, _, _, hread⟩ |
          ⟨key, inner, within, hkey, rfl, hread⟩
      · rw [hread]
        exact (Reading.Ordered.of_done _ List.nil_suffix).entered hrule hdepth
      · rw [hread]
        exact (Reading.Ordered.of_done _ (callKey?_suffix hkey)).entered hrule hdepth
      · rw [hread]
        exact (Reading.Ordered.of_fail _ inner).entered hrule hdepth
      · have hinner : inner <:+ text := (List.suffix_cons '{' inner).trans (callKey?_suffix hkey)
        have hthree := expressionDepth_succ hfree
        have hwithin := expressionDepth_le within
        have hnested (text : Text) :
            (readExpression within text).Ordered (expressionDepth (within + 1) + 2 + 1) text := by
          rw [hthree]
          exact ih within (Nat.lt_succ_self within) (Nat.le_of_succ_le hfree) text hwithin
            (Rule.atDepth_expression within).symm
        have hparams := readParams_ordered hnested (Rule.atDepth_param (within + 1))
          (by omega) inner .nil inner
        have hblock := hparams.entered (Rule.atDepth_params (within + 1)).symm (by omega)
        rw [hread]
        apply Reading.Ordered.entered _ hrule hdepth
        exact (hblock.mono hinner).andThen (closeBlock_ordered _ key)

/-! ## Whole inputs -/

/-- The end of an input enters no rule. -/
theorem parse_trace (input : Text) :
    (parse input).trace = (readExpression maxOpenBlocks input).entries := by
  change (readInput input).entries = _
  unfold readInput
  cases h : (readExpression maxOpenBlocks input).outcome with
  | error failure => exact Reading.andThen_entries_of_error h _
  | ok found =>
      obtain ⟨node, rest⟩ := found
      rw [Reading.andThen_entries_of_ok h, readEnd]
      split <;> exact List.append_nil _

/-- The first entry of an expression is its own. -/
theorem head?_readExpression_entries (free : Nat) (text : Text) :
    (readExpression free text).entries.head? =
      some ⟨expressionDepth free, .expression, text⟩ := by
  rcases readExpression_cases free text with
    ⟨_, hread⟩ | ⟨_, _, _, _, hread⟩ | ⟨_, _, _, _, hread⟩ | ⟨_, _, _, _, _, hread⟩ <;>
      rw [hread] <;> rfl

end TranslationKeys
