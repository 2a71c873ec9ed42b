import TranslationKeys.Proofs.Reports

/-!
# Texts that go on

Reading goes from left to right and looks at one character behind what it takes.
So more text behind an input changes nothing that was found in front of its end.
A value that leaves some text is read again, and some failures last: a block too
many stays one too many, and a text that is no name stays none.

Whatever reaches the end of the text is open, and more text may change it.  This
is closed under every way in which rules are put together.
-/

namespace TranslationKeys

open Lexeme

/-! ## Lexemes in front of more text -/

namespace Lexeme

/-- Name characters and then spacing, to the end: the start of a header, perhaps. -/
def IsOpenName (text : Text) : Prop :=
  exists name space, (∀ c ∈ name, isNameChar c = true) /\ IsSpace space /\
    text = name ++ space

theorem run?_append {member : Char -> Bool} {text run rest : Text}
    (h : run? member text = some (run, rest)) (hrest : rest ≠ []) (more : Text) :
    run? member (text ++ more) = some (run, rest ++ more) := by
  obtain ⟨rfl, hne, hmember, havoids⟩ := run?_eq_some_iff.1 h
  have havoids' : Avoids member rest := havoids
  exact run?_eq_some_iff.2
    ⟨List.append_assoc run rest more, hne, hmember, havoids'.append hrest more⟩

theorem callKey?_append {text key rest : Text} (h : callKey? text = some (key, rest))
    (hrest : rest ≠ []) (more : Text) : callKey? (text ++ more) = some (key, rest ++ more) := by
  obtain ⟨rfl, hkey, havoids⟩ := callKey?_eq_some_iff.1 h
  exact callKey?_eq_some_iff.2 ⟨by simp, hkey, havoids.append hrest more⟩

/-- Spacing that stops in front of a character stops there in a longer text as well. -/
theorem skipSpacing_append_of_eq_cons {text rest : Text} {c : Char}
    (h : skipSpacing text = c :: rest) (more : Text) :
    skipSpacing (text ++ more) = c :: (rest ++ more) := by
  obtain ⟨space, hspace, htext⟩ := skipSpacing_sound text
  have hstop : Avoids isSpacing (c :: rest) := by
    rw [← h]
    exact avoids_skipSpacing text
  rw [h] at htext
  calc
    skipSpacing (text ++ more) = skipSpacing (space ++ (c :: rest ++ more)) := by
      rw [htext, List.append_assoc]
    _ = skipSpacing (c :: rest ++ more) := skipSpacing_append hspace _
    _ = c :: (rest ++ more) := skipSpacing_of_avoids (hstop.append (by simp) more)

theorem skipSeparator_append {text : Text} (h : skipSeparator text ≠ []) (more : Text) :
    skipSeparator (text ++ more) = skipSeparator text ++ more := by
  unfold skipSeparator at h ⊢
  cases hspacing : skipSpacing text with
  | nil => simp [hspacing] at h
  | cons c rest =>
      rw [skipSpacing_append_of_eq_cons hspacing more]
      by_cases hcomma : c = ','
      · simp [hcomma]
      · simp [hcomma]

theorem paramName?_append {text name value : Text}
    (h : paramName? text = some (name, value)) (hvalue : value ≠ []) (more : Text) :
    paramName? (text ++ more) = some (name, value ++ more) := by
  obtain ⟨header, hheader, rfl⟩ := paramName?_sound h
  obtain ⟨c, rest, rfl⟩ := List.exists_cons_of_ne_nil hvalue
  have hstop : skipSpacing (c :: rest) = c :: rest := by
    rw [paramName?_header hheader] at h
    simpa using h
  rw [List.append_assoc, paramName?_header hheader,
    skipSpacing_append_of_eq_cons hstop more, List.cons_append]

/-- A text that starts with no header, and is no open name, starts with none when it goes on. -/
theorem paramName?_append_eq_none {text : Text} (h : paramName? text = none)
    (hopen : ¬ IsOpenName text) (more : Text) : paramName? (text ++ more) = none := by
  cases hrun : run? isNameChar text with
  | none =>
      have htext : text ≠ [] := by
        rintro rfl
        exact hopen ⟨[], [], by simp, .nil, rfl⟩
      have hmore := (run?_eq_none_iff.1 hrun).append htext more
      simp only [paramName?, run?_eq_none_iff.2 hmore]
  | some found =>
      obtain ⟨name, rest⟩ := found
      obtain ⟨htext, _, hname, _⟩ := run?_eq_some_iff.1 hrun
      have hspacing : skipSpacing rest ≠ [] := by
        intro hnil
        obtain ⟨space, hspace, hrest⟩ := skipSpacing_sound rest
        rw [hnil, List.append_nil] at hrest
        exact hopen ⟨name, space, hname, hspace, by rw [htext, hrest]⟩
      have hrest : rest ≠ [] := by
        rintro rfl
        exact hspacing rfl
      obtain ⟨c, after, hafter⟩ := List.exists_cons_of_ne_nil hspacing
      have hcolon : c ≠ ':' := by
        rintro rfl
        simp [paramName?, hrun, hafter] at h
      simp [paramName?, run?_append hrun hrest more,
        skipSpacing_append_of_eq_cons hafter more, hcolon]

end Lexeme

/-! ## Failures that last -/

namespace Finding

/-- True of the failures that nothing behind the text can undo. -/
def Lasts (failure : Finding) : Prop :=
  failure.kind = .nestingTooDeep \/
    failure.kind = .malformedKey /\ ¬ IsOpenName failure.rest

/-- The finding in a text that goes on. -/
def before (failure : Finding) (more : Text) : Finding :=
  ⟨failure.kind, failure.rest ++ more⟩

theorem not_lasts {kind : Diagnostic.Kind} {rest : Text} (hdeep : kind ≠ .nestingTooDeep)
    (hkey : kind ≠ .malformedKey) : ¬ Lasts ⟨kind, rest⟩ := by
  rintro (h | ⟨h, _⟩)
  · exact hdeep h
  · exact hkey h

end Finding

namespace Reading

variable {α β : Type}

/-- A reading that more text behind it may change. -/
structure IsOpen (reading : Reading α) : Prop where
  done : forall value rest, reading.outcome = .ok (value, rest) -> rest = []
  failed : forall failure, reading.outcome = .error failure -> ¬ failure.Lasts

/--
The second reading has what the first one has in front of more text: its value,
if that leaves any text, and its failure, if that lasts.
-/
structure ContinuedBy (more : Text) (first second : Reading α) : Prop where
  done : forall value rest, first.outcome = .ok (value, rest) -> rest ≠ [] ->
    second.outcome = .ok (value, rest ++ more)
  failed : forall failure, first.outcome = .error failure -> failure.Lasts ->
    second.outcome = .error (failure.before more)

namespace IsOpen

theorem of_done (value : α) : (Reading.done value []).IsOpen := by
  constructor
  · intro found rest h
    cases h
    rfl
  · intro failure h
    cases h

theorem of_fail {kind : Diagnostic.Kind} {rest : Text} (hdeep : kind ≠ .nestingTooDeep)
    (hkey : kind ≠ .malformedKey) : (Reading.fail kind rest : Reading α).IsOpen := by
  constructor
  · intro found left h
    cases h
  · intro failure h
    cases h
    exact Finding.not_lasts hdeep hkey

theorem andThen {reading : Reading α} {next : α -> Text -> Reading β} (h : reading.IsOpen)
    (hnext : forall value, (next value []).IsOpen) : (reading.andThen next).IsOpen := by
  constructor
  · intro value rest hok
    obtain ⟨first, middle, hfirst, hsecond⟩ := andThen_outcome_ok_iff.1 hok
    obtain rfl := h.done first middle hfirst
    exact (hnext first).done value rest hsecond
  · intro failure herror
    rcases andThen_outcome_error_iff.1 herror with hfirst | ⟨first, middle, hfirst, hsecond⟩
    · exact h.failed failure hfirst
    · obtain rfl := h.done first middle hfirst
      exact (hnext first).failed failure hsecond

theorem entered {reading : Reading α} (entry : RuleEntry) (h : reading.IsOpen) :
    (Reading.entered entry reading).IsOpen :=
  ⟨h.done, h.failed⟩

/-- Nothing is asked of the continuation of an open reading. -/
theorem continuedBy {first : Reading α} (h : first.IsOpen) (more : Text)
    (second : Reading α) : first.ContinuedBy more second := by
  constructor
  · intro value rest hok hrest
    exact absurd (h.done value rest hok) hrest
  · intro failure herror hlasts
    exact absurd hlasts (h.failed failure herror)

end IsOpen

namespace ContinuedBy

variable {more : Text}

theorem of_done (value : α) (rest : Text) :
    (Reading.done value rest).ContinuedBy more (.done value (rest ++ more)) := by
  constructor
  · intro found left h _
    cases h
    rfl
  · intro failure h
    cases h

theorem of_fail (kind : Diagnostic.Kind) (rest : Text) :
    (Reading.fail kind rest : Reading α).ContinuedBy more (.fail kind (rest ++ more)) := by
  constructor
  · intro found left h
    cases h
  · intro failure h _
    cases h
    rfl

theorem entered {first second : Reading α} (before after : RuleEntry)
    (h : first.ContinuedBy more second) :
    (Reading.entered before first).ContinuedBy more (Reading.entered after second) :=
  ⟨h.done, h.failed⟩

/-- What comes next goes on if it has any text, and is open if it has none. -/
theorem andThen {first second : Reading α} {next following : α -> Text -> Reading β}
    (h : first.ContinuedBy more second)
    (hnext : forall value rest, rest ≠ [] ->
      (next value rest).ContinuedBy more (following value (rest ++ more)))
    (hend : forall value, (next value []).IsOpen) :
    (first.andThen next).ContinuedBy more (second.andThen following) := by
  constructor
  · intro value rest hok hrest
    obtain ⟨found, middle, hfound, hvalue⟩ := andThen_outcome_ok_iff.1 hok
    have hmiddle : middle ≠ [] := by
      rintro rfl
      exact hrest ((hend found).done value rest hvalue)
    rw [andThen_outcome_of_ok (h.done found middle hfound hmiddle)]
    exact (hnext found middle hmiddle).done value rest hvalue hrest
  · intro failure herror hlasts
    rcases andThen_outcome_error_iff.1 herror with hfirst | ⟨found, middle, hfound, hfailed⟩
    · exact andThen_outcome_error_iff.2 (Or.inl (h.failed failure hfirst hlasts))
    · have hmiddle : middle ≠ [] := by
        rintro rfl
        exact (hend found).failed failure hfailed hlasts
      rw [andThen_outcome_of_ok (h.done found middle hfound hmiddle)]
      exact (hnext found middle hmiddle).failed failure hfailed hlasts

end ContinuedBy

end Reading

/-! ## Rules in front of more text -/

section Rules

variable {nested : Text -> Reading Node} {more : Text}

theorem nestedValue_isOpen (node : Node) : (nestedValue node []).IsOpen := by
  cases node with
  | literal plain => exact .of_fail (by decide) (by decide)
  | translate call => exact .of_done _

theorem nestedValue_continues (node : Node) (rest : Text) :
    (nestedValue node rest).ContinuedBy more (nestedValue node (rest ++ more)) := by
  cases node with
  | literal plain => exact .of_fail _ rest
  | translate call => exact .of_done _ rest

theorem readValue_isOpen (hnil : (nested []).IsOpen) : (readValue nested []).IsOpen :=
  hnil.andThen nestedValue_isOpen

theorem readValue_continues (hnil : (nested []).IsOpen)
    (hnested : forall text, (nested text).ContinuedBy more (nested (text ++ more)))
    (text : Text) :
    (readValue nested text).ContinuedBy more (readValue nested (text ++ more)) := by
  rcases readValue_cases nested text with
    ⟨raw, rest, hraw, rfl, hread⟩ | ⟨_, _, _, hread⟩ | ⟨hquote, hread⟩
  · have hfirst : (readValue nested (raw ++ rest)).outcome = .ok (.literal raw, rest) :=
      readValue_literal hraw
    have hsecond : (readValue nested (raw ++ (rest ++ more))).outcome =
        .ok (.literal raw, rest ++ more) := readValue_literal hraw
    rw [List.append_assoc]
    constructor
    · intro value left h _
      rw [hfirst] at h
      cases h
      exact hsecond
    · intro failure h
      rw [hfirst] at h
      cases h
  · rw [hread]
    have hopen : (Reading.fail .malformedStringLiteral text : Reading Value).IsOpen :=
      .of_fail (by decide) (by decide)
    exact hopen.continuedBy more _
  · cases text with
    | nil => exact (readValue_isOpen hnil).continuedBy more _
    | cons c rest =>
        have hmore : readValue nested (c :: rest ++ more) =
            (nested (c :: rest ++ more)).andThen nestedValue := by
          unfold readValue
          rw [if_neg (by simpa using hquote)]
        rw [hread, hmore]
        exact (hnested (c :: rest)).andThen (fun node left _ => nestedValue_continues node left)
          nestedValue_isOpen

theorem readParam_continues (hnil : (nested []).IsOpen)
    (hnested : forall text, (nested text).ContinuedBy more (nested (text ++ more)))
    (depth : Nat) (text : Text) :
    (readParam nested depth text).ContinuedBy more (readParam nested depth (text ++ more)) := by
  have hdone (name : Text) (value : Value) :
      (Reading.done (name, value) (skipSeparator [])).IsOpen := .of_done _
  unfold readParam
  apply Reading.ContinuedBy.entered
  cases hname : paramName? text with
  | none =>
      constructor
      · intro found left h
        cases h
      · intro failure h hlasts
        cases h
        have hopen : ¬ IsOpenName text := by
          rcases hlasts with hdeep | ⟨_, hopen⟩
          · cases hdeep
          · exact hopen
        rw [paramName?_append_eq_none hname hopen more]
        rfl
  | some found =>
      obtain ⟨name, value⟩ := found
      by_cases hvalue : value = []
      · subst hvalue
        have hopen : ((readValue nested []).andThen fun value rest =>
            .done (name, value) (skipSeparator rest)).IsOpen :=
          (readValue_isOpen hnil).andThen (hdone name)
        exact hopen.continuedBy more _
      · rw [paramName?_append hname hvalue more]
        apply (readValue_continues hnil hnested value).andThen
        · intro value rest _
          by_cases hrest : skipSeparator rest = []
          · rw [hrest]
            exact (Reading.IsOpen.of_done (name, value)).continuedBy more _
          · rw [skipSeparator_append hrest]
            exact .of_done _ _
        · exact hdone name

theorem readParams_isOpen (nested : Text -> Reading Node) (depth : Nat) (bound : Text)
    (params : Params) : (readParams nested depth bound params []).IsOpen := by
  cases bound <;> exact .of_fail (by decide) (by decide)

/-- The bound of a longer text is at least as long, and no bound is ever used up. -/
theorem readParams_continues (hnil : (nested []).IsOpen)
    (hnested : forall text, (nested text).ContinuedBy more (nested (text ++ more)))
    (depth : Nat) {bound larger : Text} (hbound : bound.length <= larger.length)
    (params : Params) (text : Text) :
    (readParams nested depth bound params text).ContinuedBy more
      (readParams nested depth larger params (text ++ more)) := by
  have hopen : (Reading.fail .missingTerminator [] : Reading Params).IsOpen :=
    .of_fail (by decide) (by decide)
  induction bound generalizing larger params text with
  | nil =>
      have hend : (Reading.fail .missingTerminator text : Reading Params).IsOpen :=
        .of_fail (by decide) (by decide)
      exact hend.continuedBy more _
  | cons b bound ih =>
      cases larger with
      | nil => exact absurd hbound (by simp)
      | cons d larger =>
          have hlater : bound.length <= larger.length := by simpa using hbound
          rcases readParams_cons_cases nested depth b bound params text with
            ⟨_, hread⟩ | ⟨rest, hbrace, hread⟩ | ⟨c, rest, hmore, hbrace, hread⟩
          · rw [hread]
            exact hopen.continuedBy more _
          · rw [hread, readParams, skipSpacing_append_of_eq_cons hbrace more]
            exact .of_done params ('}' :: rest)
          · rw [hread, readParams, skipSpacing_append_of_eq_cons hmore more]
            simp only [if_neg hbrace]
            apply (readParam_continues hnil hnested depth (c :: rest)).andThen
            · intro param left _
              exact ih hlater _ left
            · intro param
              exact readParams_isOpen nested depth bound _

theorem closeBlock_continues (key : Text) (params : Params) {rest : Text} (hrest : rest ≠ []) :
    (closeBlock key params rest).ContinuedBy more (closeBlock key params (rest ++ more)) := by
  obtain ⟨c, after, rfl⟩ := List.exists_cons_of_ne_nil hrest
  by_cases hbrace : c = '}'
  · subst hbrace
    exact .of_done _ after
  · have hfail (left : Text) : closeBlock key params (c :: left) =
        .fail .missingTerminator (c :: left) := by
      unfold closeBlock
      split
      · rename_i heq
        cases heq
        exact absurd rfl hbrace
      · rfl
    rw [List.cons_append, hfail, hfail]
    exact .of_fail _ (c :: after)

end Rules

theorem readExpression_isOpen (free : Nat) : (readExpression free []).IsOpen := by
  rw [readExpression_literal (by rfl : callKey? [] = none)]
  exact (Reading.IsOpen.of_done _).entered _

/-- Every expression keeps what it has in front of more text. -/
theorem readExpression_continues (free : Nat) (text more : Text) :
    (readExpression free text).ContinuedBy more (readExpression free (text ++ more)) := by
  induction free using Nat.strongRecOn generalizing text with
  | ind free ih =>
      rcases readExpression_cases free text with
        ⟨_, hread⟩ | ⟨key, rest, hkey, hbrace, hread⟩ | ⟨key, inner, hkey, rfl, hread⟩ |
          ⟨key, inner, within, hkey, rfl, hread⟩
      · have hopen : (Reading.done (Node.literal text) []).IsOpen := .of_done _
        rw [hread]
        exact (hopen.entered _).continuedBy more _
      · by_cases hrest : rest = []
        · subst hrest
          have hopen : (Reading.done (Node.translate (.bare key)) []).IsOpen := .of_done _
          rw [hread]
          exact (hopen.entered _).continuedBy more _
        · have hhead : (rest ++ more).head? ≠ some '{' := by
            obtain ⟨c, after, rfl⟩ := List.exists_cons_of_ne_nil hrest
            simpa using hbrace
          rw [hread, readExpression_bare (callKey?_append hkey hrest more) hhead]
          apply Reading.ContinuedBy.entered
          exact .of_done _ rest
      · rw [hread, readExpression_deep (callKey?_append hkey (by simp) more)]
        apply Reading.ContinuedBy.entered
        exact .of_fail _ inner
      · have hparams := readParams_continues (readExpression_isOpen within)
          (fun text => ih within (Nat.lt_succ_self within) text)
          (expressionDepth (within + 1) + 2)
          (show inner.length <= (inner ++ more).length by simp) .nil inner
        rw [hread, readExpression_block within (callKey?_append hkey (by simp) more)]
        apply Reading.ContinuedBy.entered
        apply (hparams.entered _ _).andThen
        · intro params rest hrest
          exact closeBlock_continues key params hrest
        · intro params
          exact .of_fail (by decide) (by decide)

end TranslationKeys
