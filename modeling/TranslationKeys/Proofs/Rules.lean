import TranslationKeys.Expr.Parser
import TranslationKeys.Proofs.Lexemes

/-!
# One step of each rule

Every rule looks at the start of its text, and what it finds there decides which
rules come next.  The cases of each rule are stated once, as equations between
readings, and the outcomes of an expression are read off from them.
-/

namespace TranslationKeys

open Lexeme

/-! ## Values and parameters -/

/-- A value is a literal, a quote that opens none, or whatever is nested. -/
theorem readValue_cases (nested : Text -> Reading Node) (text : Text) :
    (exists raw rest, IsLiteral raw /\ text = raw ++ rest /\
      readValue nested text = .done (.literal raw) rest) \/
    (exists rest, text = '\x22' :: rest /\ stringLiteral? text = none /\
      readValue nested text = .fail .malformedStringLiteral text) \/
    (text.head? ≠ some '\x22' /\
      readValue nested text = (nested text).andThen nestedValue) := by
  unfold readValue
  split
  · rename_i hquote
    obtain ⟨rest, htext⟩ := List.head?_eq_some_iff.1 hquote
    split
    · rename_i raw after hraw
      obtain ⟨hsplit, hliteral⟩ := stringLiteral?_eq_some_iff.1 hraw
      exact Or.inl ⟨raw, after, hliteral, hsplit, rfl⟩
    · rename_i hnone
      exact Or.inr (Or.inl ⟨rest, htext, hnone, rfl⟩)
  · rename_i hquote
    exact Or.inr (Or.inr ⟨hquote, rfl⟩)

/-- A parameter has a header and a value behind it, or no header at all. -/
theorem readParam_cases (nested : Text -> Reading Node) (depth : Nat) (text : Text) :
    (paramName? text = none /\
      readParam nested depth text =
        .entered ⟨depth, .param, text⟩ (.fail .malformedKey text)) \/
    (exists name header value, IsHeader name header /\ text = header ++ value /\
      readParam nested depth text =
        .entered ⟨depth, .param, text⟩
          ((readValue nested value).andThen fun value rest =>
            .done (name, value) (skipSeparator rest))) := by
  cases hname : paramName? text with
  | none => exact Or.inl ⟨rfl, by simp only [readParam, hname]⟩
  | some found =>
      obtain ⟨name, value⟩ := found
      obtain ⟨header, hheader, htext⟩ := paramName?_sound hname
      exact Or.inr ⟨name, header, value, hheader, htext, by simp only [readParam, hname]⟩

/-- Behind their spacing parameters end with the text, end with a brace, or go on. -/
theorem readParams_cons_cases (nested : Text -> Reading Node) (depth : Nat) (b : Char)
    (bound : Text) (params : Params) (text : Text) :
    (skipSpacing text = [] /\
      readParams nested depth (b :: bound) params text = .fail .missingTerminator []) \/
    (exists rest, skipSpacing text = '}' :: rest /\
      readParams nested depth (b :: bound) params text = .done params ('}' :: rest)) \/
    (exists c rest, skipSpacing text = c :: rest /\ c ≠ '}' /\
      readParams nested depth (b :: bound) params text =
        (readParam nested depth (c :: rest)).andThen fun param left =>
          readParams nested depth bound (params.insert param.1 param.2) left) := by
  rw [readParams]
  cases htext : skipSpacing text with
  | nil => exact Or.inl ⟨rfl, rfl⟩
  | cons c rest =>
      by_cases hbrace : c = '}'
      · subst hbrace
        exact Or.inr (Or.inl ⟨rest, rfl, rfl⟩)
      · exact Or.inr (Or.inr ⟨c, rest, rfl, hbrace, by simp only [hbrace, if_false]⟩)

/-- The parameters of a block end in front of a brace, however its values are read. -/
theorem readParams_stop {nested : Text -> Reading Node} {depth : Nat} {bound text stop : Text}
    {params final : Params}
    (h : (readParams nested depth bound params text).outcome = .ok (final, stop)) :
    exists after, stop = '}' :: after := by
  induction bound generalizing params text with
  | nil => cases h
  | cons b bound ih =>
      rcases readParams_cons_cases nested depth b bound params text with
        ⟨_, hread⟩ | ⟨rest, _, hread⟩ | ⟨c, rest, _, _, hread⟩
      · rw [hread] at h
        cases h
      · rw [hread] at h
        cases h
        exact ⟨rest, rfl⟩
      · rw [hread] at h
        obtain ⟨param, left, _, hlater⟩ := Reading.andThen_outcome_ok_iff.1 h
        exact ih hlater

theorem closeBlock_eq_ok_iff {key stop rest : Text} {params : Params} {node : Node} :
    (closeBlock key params stop).outcome = .ok (node, rest) <->
      stop = '}' :: rest /\ node = .translate (.block key params) := by
  constructor
  · intro h
    unfold closeBlock at h
    split at h
    · cases h
      exact ⟨rfl, rfl⟩
    · cases h
  · rintro ⟨rfl, rfl⟩
    rfl

/-! ## Expressions -/

section Expressions

variable {free : Nat} {text key rest inner : Text}

theorem readExpression_literal (hkey : callKey? text = none) :
    readExpression free text =
      .entered ⟨expressionDepth free, .expression, text⟩ (.done (.literal text) []) := by
  cases free <;> simp only [readExpression, readExpressionWith, hkey]

theorem readExpression_bare (hkey : callKey? text = some (key, rest))
    (hrest : rest.head? ≠ some '{') :
    readExpression free text =
      .entered ⟨expressionDepth free, .expression, text⟩
        (.done (.translate (.bare key)) rest) := by
  have hcall (openBlock : Text -> Reading Params) :
      readCall openBlock key rest = .done (.translate (.bare key)) rest := by
    unfold readCall
    split
    · exact absurd rfl hrest
    · rfl
  cases free <;> simp only [readExpression, readExpressionWith, hkey, hcall]

theorem readExpression_deep (hkey : callKey? text = some (key, '{' :: inner)) :
    readExpression 0 text =
      .entered ⟨expressionDepth 0, .expression, text⟩ (.fail .nestingTooDeep inner) := by
  simp only [readExpression, readExpressionWith, hkey, readCall]
  rfl

/-- The parameters of a block are read two rules below its expression. -/
theorem readExpression_block (free : Nat) (hkey : callKey? text = some (key, '{' :: inner)) :
    readExpression (free + 1) text =
      .entered ⟨expressionDepth (free + 1), .expression, text⟩
        ((Reading.entered ⟨expressionDepth (free + 1) + 1, .params, inner⟩
          (readParams (readExpression free) (expressionDepth (free + 1) + 2) inner .nil
            inner)).andThen (closeBlock key)) := by
  simp only [readExpression, readExpressionWith, hkey, readCall, readBlock]

/--
An expression starts with no key, with a key alone, or with a key and a brace.
Behind a brace its parameters are read, unless as many blocks are open as may be.
-/
theorem readExpression_cases (free : Nat) (text : Text) :
    (callKey? text = none /\
      readExpression free text =
        .entered ⟨expressionDepth free, .expression, text⟩ (.done (.literal text) [])) \/
    (exists key rest, callKey? text = some (key, rest) /\ rest.head? ≠ some '{' /\
      readExpression free text =
        .entered ⟨expressionDepth free, .expression, text⟩
          (.done (.translate (.bare key)) rest)) \/
    (exists key inner, callKey? text = some (key, '{' :: inner) /\ free = 0 /\
      readExpression free text =
        .entered ⟨expressionDepth free, .expression, text⟩ (.fail .nestingTooDeep inner)) \/
    (exists key inner within, callKey? text = some (key, '{' :: inner) /\
      free = within + 1 /\
        readExpression free text =
          .entered ⟨expressionDepth free, .expression, text⟩
            ((Reading.entered ⟨expressionDepth free + 1, .params, inner⟩
              (readParams (readExpression within) (expressionDepth free + 2) inner .nil
                inner)).andThen (closeBlock key))) := by
  cases hkey : callKey? text with
  | none => exact Or.inl ⟨rfl, readExpression_literal hkey⟩
  | some found =>
      obtain ⟨key, rest⟩ := found
      by_cases hbrace : rest.head? = some '{'
      · obtain ⟨inner, rfl⟩ := List.head?_eq_some_iff.1 hbrace
        refine Or.inr (Or.inr ?_)
        cases free with
        | zero => exact Or.inl ⟨key, inner, rfl, rfl, readExpression_deep hkey⟩
        | succ within =>
            exact Or.inr ⟨key, inner, within, rfl, rfl, readExpression_block within hkey⟩
      · exact Or.inr (Or.inl ⟨key, rest, rfl, hbrace, readExpression_bare hkey hbrace⟩)

/-- Plain text is all of a text that starts with no key. -/
theorem readExpression_literal_cases {plain : Text}
    (h : (readExpression free text).outcome = .ok (.literal plain, rest)) :
    callKey? text = none /\ plain = text /\ rest = [] := by
  rcases readExpression_cases free text with
    ⟨hkey, hread⟩ | ⟨key, after, hkey, _, hread⟩ | ⟨key, inner, hkey, _, hread⟩ |
      ⟨key, inner, within, hkey, _, hread⟩
  · rw [hread] at h
    cases h
    exact ⟨hkey, rfl, rfl⟩
  · rw [hread] at h
    cases h
  · rw [hread] at h
    cases h
  · rw [hread, Reading.entered_outcome] at h
    obtain ⟨params, stop, _, hclose⟩ := Reading.andThen_outcome_ok_iff.1 h
    cases (closeBlock_eq_ok_iff.1 hclose).2

/-- A call that is read is a key alone, or a key and the parameters behind its brace. -/
theorem readExpression_translate_cases {call : Call}
    (h : (readExpression free text).outcome = .ok (.translate call, rest)) :
    (exists key, callKey? text = some (key, rest) /\ rest.head? ≠ some '{' /\
      call = .bare key) \/
    (exists within depth key inner params, free = within + 1 /\
      callKey? text = some (key, '{' :: inner) /\ call = .block key params /\
        (readParams (readExpression within) depth inner .nil inner).outcome =
          .ok (params, '}' :: rest)) := by
  rcases readExpression_cases free text with
    ⟨_, hread⟩ | ⟨key, after, hkey, hafter, hread⟩ | ⟨key, inner, _, _, hread⟩ |
      ⟨key, inner, within, hkey, hfree, hread⟩
  · rw [hread] at h
    cases h
  · rw [hread] at h
    cases h
    exact Or.inl ⟨key, hkey, hafter, rfl⟩
  · rw [hread] at h
    cases h
  · rw [hread, Reading.entered_outcome] at h
    obtain ⟨params, stop, hparams, hclose⟩ := Reading.andThen_outcome_ok_iff.1 h
    obtain ⟨rfl, hcall⟩ := closeBlock_eq_ok_iff.1 hclose
    cases hcall
    exact Or.inr ⟨within, _, key, inner, params, hfree, hkey, rfl, hparams⟩

/-- An expression fails at a brace too many, among its parameters, or behind them. -/
theorem readExpression_error_cases {failure : Finding}
    (h : (readExpression free text).outcome = .error failure) :
    (exists key inner, free = 0 /\ callKey? text = some (key, '{' :: inner) /\
      failure = ⟨.nestingTooDeep, inner⟩) \/
    (exists within depth key inner, free = within + 1 /\
      callKey? text = some (key, '{' :: inner) /\
        ((readParams (readExpression within) depth inner .nil inner).andThen
          (closeBlock key)).outcome = .error failure) := by
  rcases readExpression_cases free text with
    ⟨_, hread⟩ | ⟨key, after, _, _, hread⟩ | ⟨key, inner, hkey, hfree, hread⟩ |
      ⟨key, inner, within, hkey, hfree, hread⟩
  · rw [hread] at h
    cases h
  · rw [hread] at h
    cases h
  · rw [hread] at h
    cases h
    exact Or.inl ⟨key, inner, hfree, hkey, rfl⟩
  · rw [hread, Reading.entered_outcome, Reading.entered_andThen_outcome] at h
    exact Or.inr ⟨within, _, key, inner, hfree, hkey, h⟩

end Expressions

/-! ## Whole inputs -/

/-- What is found at the end of an input does not change its outcome. -/
theorem readInput_outcome (input : Text) :
    (readInput input).outcome = (readExpression maxOpenBlocks input).outcome := by
  unfold readInput
  cases h : (readExpression maxOpenBlocks input).outcome with
  | error failure => simp [Reading.andThen, h]
  | ok found =>
      obtain ⟨node, rest⟩ := found
      rw [Reading.andThen_outcome_of_ok h, readEnd]
      split <;> rfl

theorem parse_result_ok_iff {input : Text} {node : Node} :
    (parse input).result = .ok node <->
      exists rest, (readExpression maxOpenBlocks input).outcome = .ok (node, rest) := by
  simp only [parse, readInput_outcome]
  cases (readExpression maxOpenBlocks input).outcome with
  | error failure => simp
  | ok found => simp [Prod.ext_iff]

theorem parse_result_error_iff {input : Text} {error : ParseError} :
    (parse input).result = .error error <->
      exists failure, (readExpression maxOpenBlocks input).outcome = .error failure /\
        error = ⟨failure.kind, offsetOf input failure.rest⟩ := by
  simp only [parse, readInput_outcome]
  cases (readExpression maxOpenBlocks input).outcome with
  | error failure => simp [eq_comm]
  | ok found => simp

theorem offsetOf_append (front rest : Text) :
    offsetOf (front ++ rest) rest = Text.byteLength front := by
  simp [offsetOf]

end TranslationKeys
