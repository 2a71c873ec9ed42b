import Mathlib.Logic.Relation
import TranslationKeys.Proofs.Entries

/-!
# Reading step by step

The rules call each other, and the parameters of a block are read in a loop.  The
machine below does the same one step at a time.  Its cursor is a number of bytes,
its stack holds the parameters whose values are being read, and nothing bounds the
number of its steps.

A rule that reads a text is a run of the machine: from the stage of the rule, with
the cursor in front of the text, to the stage that holds what the rule gives.  So
the machine comes to an end on every input, with the result and the trace of it.
-/

namespace TranslationKeys

open Lexeme

/-! ## The machine -/

/-- A parameter whose value is being read, with what is known of its block. -/
structure OpenParam where
  key : Text
  params : Params
  name : Text

/-- The rule that is to be tried next, or what a rule has given. -/
inductive Stage where
  | expression
  | plain
  | block (key : Text)
  | params (key : Text) (params : Params)
  | param (key : Text) (params : Params)
  | value (param : OpenParam)
  | valued (param : OpenParam) (value : Value)
  | closing (key : Text) (params : Params)
  | node (node : Node)
  | failed (kind : Diagnostic.Kind)

/-- The entry of the rule that a stage calls at a text, inside the parameters that are open. -/
def Stage.entry? (outer : List OpenParam) (text : Text) : Stage -> Option RuleEntry
  | .expression => some ⟨3 * outer.length, .expression, text⟩
  | .block _ => some ⟨3 * outer.length + 1, .params, text⟩
  | .param _ _ => some ⟨3 * outer.length + 2, .param, text⟩
  | _ => none

/-- What a move leads to, and the text that it leaves. -/
structure Move where
  stage : Stage
  outer : List OpenParam
  rest : Text

namespace Move

/-- A failure gives up everything that is open. -/
def fail (kind : Diagnostic.Kind) (rest : Text) : Move :=
  ⟨.failed kind, [], rest⟩

/-- The move behind the key of a call. -/
def ofCall (outer : List OpenParam) (key rest : Text) : Move :=
  match rest with
  | '{' :: inner =>
      if outer.length = maxOpenBlocks then .fail .nestingTooDeep inner
      else ⟨.block key, outer, inner⟩
  | _ => ⟨.node (.translate (.bare key)), outer, rest⟩

theorem ofCall_bare {outer : List OpenParam} {key rest : Text} (hrest : rest.head? ≠ some '{') :
    ofCall outer key rest = ⟨.node (.translate (.bare key)), outer, rest⟩ := by
  unfold ofCall
  split
  · exact absurd rfl hrest
  · rfl

/-- The move behind the parameters of a block. -/
def ofStop (outer : List OpenParam) (key : Text) (params : Params) (text : Text) : Move :=
  match text with
  | '}' :: rest => ⟨.node (.translate (.block key params)), outer, rest⟩
  | _ => .fail .missingTerminator text

/-- The move at a text inside the parameters that are open, unless all is read. -/
def of? (outer : List OpenParam) (text : Text) : Stage -> Option Move
  | .expression =>
      match callKey? text with
      | none => some ⟨.plain, outer, text⟩
      | some (key, rest) => some (ofCall outer key rest)
  | .plain => some ⟨.node (.literal text), outer, []⟩
  | .block key => some ⟨.params key .nil, outer, text⟩
  | .params key params =>
      match skipSpacing text with
      | [] => some (.fail .missingTerminator [])
      | c :: rest =>
          if c = '}' then some ⟨.closing key params, outer, c :: rest⟩
          else some ⟨.param key params, outer, c :: rest⟩
  | .param key params =>
      match paramName? text with
      | none => some (.fail .malformedKey text)
      | some (name, rest) => some ⟨.value ⟨key, params, name⟩, outer, rest⟩
  | .value param =>
      if text.head? = some '\x22' then
        match stringLiteral? text with
        | none => some (.fail .malformedStringLiteral text)
        | some (raw, rest) => some ⟨.valued param (.literal raw), outer, rest⟩
      else
        some ⟨.expression, param :: outer, text⟩
  | .valued param value =>
      some ⟨.params param.key (param.params.insert param.name value), outer, skipSeparator text⟩
  | .closing key params => some (ofStop outer key params text)
  | .node node =>
      match outer, node with
      | [], _ => none
      | param :: outer, .translate call => some ⟨.valued param (.nested call), outer, text⟩
      | _ :: _, .literal _ => some (.fail .missingTerminator text)
  | .failed _ => none

end Move

structure State where
  stage : Stage
  /-- The parameters that are open, the innermost one first. -/
  outer : List OpenParam
  /-- Number of bytes in front of the cursor. -/
  position : Nat
  entries : List RuleEntry

namespace State

def start : State :=
  ⟨.expression, [], 0, []⟩

/-- The text behind the cursor.  There is none unless the cursor is at the end of a character. -/
def rest? (input : Text) (state : State) : Option Text :=
  (Text.cut? input state.position).map Prod.snd

/-- The next state: the cursor moves by the number of bytes that the move takes. -/
def next? (input : Text) (state : State) : Option State :=
  (state.rest? input).bind fun text =>
    (Move.of? state.outer text state.stage).map fun move =>
      { stage := move.stage
        outer := move.outer
        position := state.position + (Text.byteLength text - Text.byteLength move.rest)
        entries := state.entries ++ (state.stage.entry? state.outer text).toList }

/-- What has been read when no parameter is open, or what is wrong. -/
def result? (state : State) : Option (Except ParseError Node) :=
  match state.stage, state.outer with
  | .node node, [] => some (.ok node)
  | .failed kind, _ => some (.error ⟨kind, state.position⟩)
  | _, _ => none

end State

/-- The machine comes from one state to another. -/
def Runs (input : Text) : State -> State -> Prop :=
  Relation.ReflTransGen fun state next => state.next? input = some next

/-! ## Bytes of lexemes -/

theorem Text.byteLength_le_of_suffix {text rest : Text} (h : rest <:+ text) :
    byteLength rest <= byteLength text := by
  obtain ⟨front, rfl⟩ := h
  simp

theorem Text.byteLength_pos {text : Text} (h : text ≠ []) : 0 < byteLength text :=
  Nat.pos_of_ne_zero fun hzero => h (byteLength_eq_zero_iff.1 hzero)

theorem Text.length_lt_of_suffix {text rest : Text} (h : rest <:+ text)
    (hless : byteLength rest < byteLength text) : rest.length < text.length := by
  refine Nat.lt_of_le_of_ne h.length_le ?_
  intro heq
  rw [h.eq_of_length heq] at hless
  exact Nat.lt_irrefl _ hless

/-- A call takes its marker and a key. -/
theorem Lexeme.byteLength_of_callKey? {text key rest : Text}
    (h : callKey? text = some (key, rest)) :
    Text.byteLength rest + 6 <= Text.byteLength text := by
  obtain ⟨rfl, ⟨hkey, _⟩, _⟩ := callKey?_eq_some_iff.1 h
  have hpos := Text.byteLength_pos hkey
  have hmarker : Text.byteLength marker = 5 := by rfl
  simp only [Text.byteLength_append, hmarker]
  omega

/-- A header takes its name and a colon. -/
theorem Lexeme.IsHeader.two_le_byteLength {name header : Text} (h : IsHeader name header) :
    2 <= Text.byteLength header := by
  obtain ⟨⟨hname, _⟩, left, right, _, _, rfl⟩ := h
  have hpos := Text.byteLength_pos hname
  have hcolon : (':').utf8Size = 1 := by rfl
  simp only [Text.byteLength_append, Text.byteLength_cons, hcolon]
  omega

theorem Lexeme.byteLength_of_paramName? {text name rest : Text}
    (h : paramName? text = some (name, rest)) :
    rest <:+ text /\ Text.byteLength rest + 2 <= Text.byteLength text := by
  obtain ⟨header, hheader, rfl⟩ := paramName?_sound h
  have htwo := hheader.two_le_byteLength
  refine ⟨List.suffix_append header rest, ?_⟩
  rw [Text.byteLength_append]
  omega

theorem Lexeme.IsLiteral.two_le_byteLength {raw : Text} (h : IsLiteral raw) :
    2 <= Text.byteLength raw := by
  obtain ⟨body, _, rfl⟩ := h
  have hquote : ('\x22').utf8Size = 1 := by rfl
  simp only [Text.byteLength_append, Text.byteLength_cons, hquote]
  omega

/-! ## What a rule takes -/

theorem CallText.six_le_byteLength {free : Nat} {front rest : Text} {call : Call}
    (h : CallText free front rest call) : 6 <= Text.byteLength front := by
  have hmarker : Text.byteLength marker = 5 := by rfl
  cases h with
  | bare hkey _ =>
      have hpos := Text.byteLength_pos hkey.1
      simp only [Text.byteLength_append, hmarker]
      omega
  | block hkey _ =>
      have hpos := Text.byteLength_pos hkey.1
      simp only [Text.byteLength_append, hmarker]
      omega

theorem ValueText.two_le_byteLength {free : Nat} {front rest : Text} {value : Value}
    (h : ValueText free front rest value) : 2 <= Text.byteLength front := by
  cases h with
  | literal hraw => exact hraw.two_le_byteLength
  | nested hcall => exact Nat.le_trans (by decide) hcall.six_le_byteLength

section Taken

variable {free depth : Nat} {text rest : Text}

/-- An expression that is a call takes six bytes at least: its marker and a key. -/
theorem readExpression_takes {call : Call}
    (h : (readExpression free text).outcome = .ok (.translate call, rest)) :
    Text.byteLength rest + 6 <= Text.byteLength text := by
  obtain ⟨front, rfl, hcall⟩ := readExpression_translate_iff.1 h
  have hsix := hcall.six_le_byteLength
  rw [Text.byteLength_append]
  omega

/-- A parameter takes four bytes at least: a name, a colon, and two for its value. -/
theorem readParam_takes {param : Text × Value}
    (h : (readParam (readExpression free) depth text).outcome = .ok (param, rest)) :
    Text.byteLength rest + 4 <= Text.byteLength text := by
  obtain ⟨header, front, separator, hheader, _, hvalue, rfl⟩ :=
    param_of_readParam (readExpression_sound free) h
  have hname := hheader.two_le_byteLength
  have htwo := hvalue.two_le_byteLength
  simp only [Text.byteLength_append]
  omega

end Taken

/-! ## What a move takes -/

/--
The number of rules that may be called in a stage and behind it, before the cursor
moves on, with one to spare.
-/
def Stage.reserve : Stage -> Nat
  | .block _ => 2
  | .plain => 0
  | .node (.literal _) => 0
  | .failed _ => 0
  | _ => 1

/--
A move at a text leaves a last part of it.  The bytes that it takes pay for the rule
that it calls and for what the reserve of its stage grows by.
-/
structure Move.Advances (stage : Stage) (outer : List OpenParam) (text : Text) (move : Move) :
    Prop where
  suffix : move.rest <:+ text
  paid : (stage.entry? outer text).toList.length + move.stage.reserve +
    Text.byteLength move.rest <= Text.byteLength text + stage.reserve

namespace Move

variable {stage : Stage} {outer : List OpenParam} {text rest : Text} {move : Move}

/-- A move whose calls are in reserve may leave any last part of its text. -/
theorem advances_of_reserve (hrest : move.rest <:+ text)
    (hreserve : (stage.entry? outer text).toList.length + move.stage.reserve <= stage.reserve) :
    move.Advances stage outer text := by
  refine ⟨hrest, ?_⟩
  have hbytes := Text.byteLength_le_of_suffix hrest
  omega

theorem ofCall_advances {key : Text} (hkey : callKey? text = some (key, rest)) :
    (ofCall outer key rest).Advances .expression outer text := by
  have hsix := byteLength_of_callKey? hkey
  have hrest := callKey?_suffix hkey
  have hcalls : (Stage.expression.entry? outer text).toList.length = 1 := rfl
  unfold ofCall
  split
  · rename_i inner
    have hinner := (List.suffix_cons '{' inner).trans hrest
    have hbytes := Text.byteLength_le_of_suffix (List.suffix_cons '{' inner)
    split
    · exact advances_of_reserve hinner (Nat.le_refl 1)
    · exact ⟨hinner, by simp only [hcalls, Stage.reserve]; omega⟩
  · exact ⟨hrest, by simp only [hcalls, Stage.reserve]; omega⟩

theorem of?_advances (h : of? outer text stage = some move) :
    move.Advances stage outer text := by
  cases stage with
  | expression =>
      rw [of?] at h
      split at h
      · cases h
        exact advances_of_reserve List.suffix_rfl (Nat.le_refl 1)
      · rename_i key rest hkey
        cases h
        exact ofCall_advances hkey
  | plain =>
      cases h
      exact advances_of_reserve List.nil_suffix (Nat.le_refl 0)
  | block key =>
      cases h
      exact advances_of_reserve List.suffix_rfl (Nat.le_refl 2)
  | params key filled =>
      have hsuffix := skipSpacing_suffix text
      rw [of?] at h
      split at h
      · cases h
        exact advances_of_reserve List.nil_suffix (Nat.zero_le 1)
      · rename_i c rest hmore
        rw [hmore] at hsuffix
        split at h
        · cases h
          exact advances_of_reserve hsuffix (Nat.le_refl 1)
        · cases h
          exact advances_of_reserve hsuffix (Nat.le_refl 1)
  | param key filled =>
      rw [of?] at h
      split at h
      · cases h
        exact advances_of_reserve List.suffix_rfl (Nat.le_refl 1)
      · rename_i name rest hname
        cases h
        obtain ⟨hrest, htwo⟩ := byteLength_of_paramName? hname
        refine ⟨hrest, ?_⟩
        simp only [Stage.entry?, Option.toList_some, List.length_singleton, Stage.reserve]
        omega
  | value param =>
      rw [of?] at h
      split at h
      · split at h
        · cases h
          exact advances_of_reserve List.suffix_rfl (Nat.zero_le 1)
        · rename_i raw rest hraw
          cases h
          obtain ⟨rfl, _⟩ := stringLiteral?_eq_some_iff.1 hraw
          exact advances_of_reserve (List.suffix_append raw rest) (Nat.le_refl 1)
      · cases h
        exact advances_of_reserve List.suffix_rfl (Nat.le_refl 1)
  | valued param value =>
      cases h
      exact advances_of_reserve (skipSeparator_suffix text) (Nat.le_refl 1)
  | closing key filled =>
      cases h
      unfold ofStop
      split
      · exact advances_of_reserve (List.suffix_cons _ _) (Nat.le_refl 1)
      · exact advances_of_reserve List.suffix_rfl (Nat.zero_le 1)
  | node node =>
      cases outer with
      | nil => cases h
      | cons param outer =>
          cases node with
          | literal plain =>
              cases h
              exact advances_of_reserve List.suffix_rfl (Nat.le_refl 0)
          | translate call =>
              cases h
              exact advances_of_reserve List.suffix_rfl (Nat.le_refl 1)
  | failed kind => cases h

end Move

/-! ## Moves from a place -/

namespace State

variable {input text : Text}

/-- The state in front of a last part of an input. -/
def before (input : Text) (stage : Stage) (outer : List OpenParam) (text : Text)
    (entries : List RuleEntry) : State :=
  ⟨stage, outer, offsetOf input text, entries⟩

theorem rest?_before (htext : text <:+ input) (stage : Stage) (outer : List OpenParam)
    (entries : List RuleEntry) :
    (before input stage outer text entries).rest? input = some text := by
  obtain ⟨front, rfl⟩ := htext
  simp [rest?, before, offsetOf_append, Text.cut?_append]

theorem next?_before (htext : text <:+ input) (stage : Stage) (outer : List OpenParam)
    (entries : List RuleEntry) :
    (before input stage outer text entries).next? input =
      (Move.of? outer text stage).map fun move =>
        before input move.stage move.outer move.rest
          (entries ++ (stage.entry? outer text).toList) := by
  rw [next?, rest?_before htext]
  cases hmove : Move.of? outer text stage with
  | none => simp [before, hmove]
  | some move =>
      have hrest := (Move.of?_advances hmove).suffix
      have hposition : offsetOf input text + (Text.byteLength text - Text.byteLength move.rest) =
          offsetOf input move.rest := by
        have hless := Text.byteLength_le_of_suffix hrest
        have hinside := Text.byteLength_le_of_suffix htext
        unfold offsetOf
        omega
      simp [before, hmove, hposition]

end State

/-! ## Endings of readings -/

namespace Reading

variable {α β : Type} {input rest : Text} {shown : α -> Stage} {outer : List OpenParam}
  {entries : List RuleEntry}

/-- The state that a reading ends in, if its value is shown by a stage. -/
def ending (input : Text) (shown : α -> Stage) (outer : List OpenParam)
    (entries : List RuleEntry) (reading : Reading α) : State :=
  match reading.outcome with
  | .ok (value, rest) => .before input (shown value) outer rest (entries ++ reading.entries)
  | .error failure =>
      .before input (.failed failure.kind) [] failure.rest (entries ++ reading.entries)

theorem ending_done (value : α) (rest : Text) :
    (done value rest).ending input shown outer entries =
      .before input (shown value) outer rest entries := by
  simp [ending]

theorem ending_fail (kind : Diagnostic.Kind) (rest : Text) :
    (fail kind rest : Reading α).ending input shown outer entries =
      .before input (.failed kind) [] rest entries := by
  simp [ending]

theorem ending_entered (entry : RuleEntry) (reading : Reading α) :
    (entered entry reading).ending input shown outer entries =
      reading.ending input shown outer (entries ++ [entry]) := by
  simp [ending]

theorem ending_andThen_of_ok {reading : Reading α} {value : α}
    (h : reading.outcome = .ok (value, rest)) (next : α -> Text -> Reading β)
    (shown : β -> Stage) :
    (reading.andThen next).ending input shown outer entries =
      (next value rest).ending input shown outer (entries ++ reading.entries) := by
  simp only [ending, andThen_outcome_of_ok h, andThen_entries_of_ok h, List.append_assoc]

/-- A failure ends what comes behind it in the same way. -/
theorem ending_andThen_of_error {reading : Reading α} {failure : Finding}
    (h : reading.outcome = .error failure) (next : α -> Text -> Reading β)
    (shownNext : β -> Stage) (outerNext : List OpenParam) :
    (reading.andThen next).ending input shownNext outerNext entries =
      reading.ending input shown outer entries := by
  have hnext : (reading.andThen next).outcome = .error failure :=
    andThen_outcome_error_iff.2 (Or.inl h)
  simp only [ending, h, hnext, andThen_entries_of_error h]

end Reading

/-! ## Readings as runs -/

namespace Runs

variable {input text : Text} {outer : List OpenParam} {entries : List RuleEntry}

theorem trans {first second third : State} (h : Runs input first second)
    (hnext : Runs input second third) : Runs input first third :=
  Relation.ReflTransGen.trans h hnext

variable {stage next : Stage} {inner : List OpenParam} {rest : Text}

/-- A move that calls a rule. -/
theorem call (htext : text <:+ input) {entry : RuleEntry}
    (hentry : stage.entry? outer text = some entry)
    (hmove : Move.of? outer text stage = some ⟨next, inner, rest⟩) :
    Runs input (.before input stage outer text entries)
      (.before input next inner rest (entries ++ [entry])) :=
  .single (by simp [State.next?_before htext, hmove, hentry])

/-- A move that calls no rule. -/
theorem step (htext : text <:+ input) (hentry : stage.entry? outer text = none)
    (hmove : Move.of? outer text stage = some ⟨next, inner, rest⟩) :
    Runs input (.before input stage outer text entries)
      (.before input next inner rest entries) :=
  .single (by simp [State.next?_before htext, hmove, hentry])

/-- A failure ends a run, and a value is where the next run begins. -/
theorem andThen {α β : Type} {start : State} {reading : Reading α}
    {next : α -> Text -> Reading β} {shown : α -> Stage} {shownNext : β -> Stage}
    {outerNext : List OpenParam}
    (h : Runs input start (reading.ending input shown outer entries))
    (hnext : forall value rest, reading.outcome = .ok (value, rest) ->
      Runs input (.before input (shown value) outer rest (entries ++ reading.entries))
        ((next value rest).ending input shownNext outerNext (entries ++ reading.entries))) :
    Runs input start ((reading.andThen next).ending input shownNext outerNext entries) := by
  cases houtcome : reading.outcome with
  | error failure =>
      rwa [Reading.ending_andThen_of_error houtcome]
  | ok found =>
      obtain ⟨value, rest⟩ := found
      have hfirst : reading.ending input shown outer entries =
          .before input (shown value) outer rest (entries ++ reading.entries) := by
        simp only [Reading.ending, houtcome]
      rw [Reading.ending_andThen_of_ok houtcome]
      rw [hfirst] at h
      exact h.trans (hnext value rest houtcome)

end Runs

/-- Every expression with so many blocks to spare is a run of the machine. -/
def RunsExpressions (input : Text) (free : Nat) : Prop :=
  forall outer text entries, text <:+ input -> outer.length + free = maxOpenBlocks ->
    Runs input (.before input .expression outer text entries)
      ((readExpression free text).ending input .node outer entries)

section Rules

variable {input : Text} {free : Nat} {outer : List OpenParam}

theorem readValue_runs (hnested : RunsExpressions input free)
    (houter : outer.length + 1 + free = maxOpenBlocks) (param : OpenParam) {text : Text}
    (htext : text <:+ input) (entries : List RuleEntry) :
    Runs input (.before input (.value param) outer text entries)
      ((readValue (readExpression free) text).ending input (.valued param) outer entries) := by
  by_cases hquote : text.head? = some '\x22'
  · cases hraw : stringLiteral? text with
    | none =>
        have hmove : Move.of? outer text (.value param) =
            some (.fail .malformedStringLiteral text) := by simp [Move.of?, hquote, hraw]
        have hread : readValue (readExpression free) text = .fail .malformedStringLiteral text := by
          simp [readValue, hquote, hraw]
        rw [hread, Reading.ending_fail]
        exact .step htext rfl hmove
    | some found =>
        obtain ⟨raw, rest⟩ := found
        have hmove : Move.of? outer text (.value param) =
            some ⟨.valued param (.literal raw), outer, rest⟩ := by
          simp [Move.of?, hquote, hraw]
        have hread : readValue (readExpression free) text = .done (.literal raw) rest := by
          simp [readValue, hquote, hraw]
        rw [hread, Reading.ending_done]
        exact .step htext rfl hmove
  · have hmove : Move.of? outer text (.value param) =
        some ⟨.expression, param :: outer, text⟩ := by simp [Move.of?, hquote]
    have hread : readValue (readExpression free) text =
        (readExpression free text).andThen nestedValue := by simp [readValue, hquote]
    have hexpression := hnested (param :: outer) text entries htext houter
    rw [hread]
    apply Runs.andThen ((Runs.step htext rfl hmove).trans hexpression)
    intro node rest hnode
    have hrest := ((readExpression_consistent free text).done node rest hnode).2.trans htext
    cases node with
    | literal plain =>
        rw [nestedValue, Reading.ending_fail]
        exact .step hrest rfl rfl
    | translate call =>
        rw [nestedValue, Reading.ending_done]
        exact .step hrest rfl rfl

theorem readParam_runs (hnested : RunsExpressions input free)
    (houter : outer.length + 1 + free = maxOpenBlocks) (key : Text) (params : Params)
    {text : Text} (htext : text <:+ input) (entries : List RuleEntry) :
    Runs input (.before input (.param key params) outer text entries)
      ((readParam (readExpression free) (3 * outer.length + 2) text).ending input
        (fun param => .params key (params.insert param.1 param.2)) outer entries) := by
  cases hname : paramName? text with
  | none =>
      have hmove : Move.of? outer text (.param key params) =
          some (.fail .malformedKey text) := by simp [Move.of?, hname]
      rw [readParam, hname, Reading.ending_entered, Reading.ending_fail]
      exact .call htext rfl hmove
  | some found =>
      obtain ⟨name, rest⟩ := found
      have hrest := (byteLength_of_paramName? hname).1.trans htext
      have hmove : Move.of? outer text (.param key params) =
          some ⟨.value ⟨key, params, name⟩, outer, rest⟩ := by
        simp [Move.of?, hname]
      have hvalue := readValue_runs hnested houter ⟨key, params, name⟩ hrest
        (entries ++ [⟨3 * outer.length + 2, .param, text⟩])
      rw [readParam, hname, Reading.ending_entered]
      apply Runs.andThen ((Runs.call htext rfl hmove).trans hvalue)
      intro value left hleft
      have hsuffix := ((readValue_consistent (readExpression_consistent free) rest).done value left
        hleft).2.trans hrest
      rw [Reading.ending_done]
      exact .step hsuffix rfl rfl

theorem readParams_runs (hnested : RunsExpressions input free)
    (houter : outer.length + 1 + free = maxOpenBlocks) (key : Text) (params : Params)
    {bound text : Text} (hbound : text.length <= bound.length) (htext : text <:+ input)
    (entries : List RuleEntry) :
    Runs input (.before input (.params key params) outer text entries)
      ((readParams (readExpression free) (3 * outer.length + 2) bound params text).ending input
        (.closing key) outer entries) := by
  induction bound generalizing params text entries with
  | nil =>
      have hnil : text = [] := by simpa using hbound
      subst hnil
      rw [readParams, Reading.ending_fail]
      exact .step htext rfl rfl
  | cons b bound ih =>
      have hsuffix := skipSpacing_suffix text
      rcases readParams_cons_cases (readExpression free) (3 * outer.length + 2) b bound params
        text with ⟨hend, hread⟩ | ⟨rest, hbrace, hread⟩ | ⟨c, rest, hmore, hc, hread⟩
      · have hmove : Move.of? outer text (.params key params) =
            some (.fail .missingTerminator []) := by simp [Move.of?, hend]
        rw [hread, Reading.ending_fail]
        exact .step htext rfl hmove
      · have hmove : Move.of? outer text (.params key params) =
            some ⟨.closing key params, outer, '}' :: rest⟩ := by simp [Move.of?, hbrace]
        rw [hread, Reading.ending_done]
        exact .step htext rfl hmove
      · have hmove : Move.of? outer text (.params key params) =
            some ⟨.param key params, outer, c :: rest⟩ := by simp [Move.of?, hmore, hc]
        rw [hmore] at hsuffix
        have hparam := readParam_runs hnested houter key params (hsuffix.trans htext) entries
        rw [hread]
        apply Runs.andThen ((Runs.step htext rfl hmove).trans hparam)
        intro param left hleft
        have hconsistent := readParam_consistent (readExpression_consistent free)
          (3 * outer.length + 2) (c :: rest)
        have hleftSuffix := (hconsistent.done param left hleft).2
        -- A parameter takes something, so a bound as long as the text is never used up.
        have htaken := readParam_takes hleft
        have hshorter := Text.length_lt_of_suffix hleftSuffix (by omega)
        have hlength := hsuffix.length_le
        apply ih
        · simp only [List.length_cons] at hbound hshorter hlength
          omega
        · exact (hleftSuffix.trans hsuffix).trans htext

theorem readBlock_runs (hnested : RunsExpressions input free)
    (houter : outer.length + 1 + free = maxOpenBlocks) (key : Text) {text : Text}
    (htext : text <:+ input) (entries : List RuleEntry) :
    Runs input (.before input (.block key) outer text entries)
      (((readBlock (readExpression free) (3 * outer.length + 1) text).andThen
        (closeBlock key)).ending input .node outer entries) := by
  have hparams := readParams_runs hnested houter key .nil (Nat.le_refl _) htext
    (entries ++ [⟨3 * outer.length + 1, .params, text⟩])
  rw [<- Reading.ending_entered] at hparams
  apply Runs.andThen ((Runs.call htext rfl rfl).trans hparams)
  intro params stop hstop
  have hsuffix := ((readParams_consistent (readExpression_consistent free) (3 * outer.length + 2)
    text .nil text).done params stop hstop).2
  obtain ⟨after, rfl⟩ := readParams_stop hstop
  rw [closeBlock, Reading.ending_done]
  exact .step (hsuffix.trans htext) rfl rfl

end Rules

/-- An expression is a run of the machine, however many blocks it may still open. -/
theorem readExpression_runs (input : Text) (free : Nat) : RunsExpressions input free := by
  induction free using Nat.strongRecOn with
  | ind free ih =>
      intro outer text entries htext houter
      have hdepth : expressionDepth free = 3 * outer.length := by
        unfold expressionDepth
        omega
      rcases readExpression_cases free text with
        ⟨hkey, hread⟩ | ⟨key, rest, hkey, hrest, hread⟩ | ⟨key, inner, hkey, hfree, hread⟩ |
          ⟨key, inner, within, hkey, rfl, hread⟩
      · have hmove : Move.of? outer text .expression = some ⟨.plain, outer, text⟩ := by
          simp [Move.of?, hkey]
        rw [hread, hdepth, Reading.ending_entered, Reading.ending_done]
        exact (Runs.call htext rfl hmove).trans (.step htext rfl rfl)
      · have hmove : Move.of? outer text .expression =
            some ⟨.node (.translate (.bare key)), outer, rest⟩ := by
          simp [Move.of?, hkey, Move.ofCall_bare hrest]
        rw [hread, hdepth, Reading.ending_entered, Reading.ending_done]
        exact .call htext rfl hmove
      · have hmove : Move.of? outer text .expression =
            some (.fail .nestingTooDeep inner) := by
          have hfull : outer.length = maxOpenBlocks := by omega
          simp [Move.of?, hkey, Move.ofCall, hfull]
        rw [hread, hdepth, Reading.ending_entered, Reading.ending_fail]
        exact .call htext rfl hmove
      · have hmove : Move.of? outer text .expression =
            some ⟨.block key, outer, inner⟩ := by
          have hmore : outer.length ≠ maxOpenBlocks := by omega
          simp [Move.of?, hkey, Move.ofCall, hmore]
        have hinner : inner <:+ input :=
          ((List.suffix_cons '{' inner).trans (callKey?_suffix hkey)).trans htext
        rw [hread, hdepth, Reading.ending_entered]
        have hinside : outer.length + 1 + within = maxOpenBlocks := by omega
        exact (Runs.call htext rfl hmove).trans
          (readBlock_runs (ih within (Nat.lt_succ_self within)) hinside key hinner _)

/-! ## Whole inputs -/

/-- The machine ends on every input, with its result and its trace. -/
theorem machine_ends (input : Text) :
    exists final, Runs input State.start final /\ final.next? input = none /\
      final.result? = some (parse input).result /\ final.entries = (parse input).trace := by
  have hrun : Runs input .start
      ((readExpression maxOpenBlocks input).ending input .node [] []) := by
    have hstart : State.start = .before input .expression [] input [] := by
      simp [State.start, State.before, offsetOf]
    rw [hstart]
    exact readExpression_runs input maxOpenBlocks [] input [] List.suffix_rfl (Nat.zero_add _)
  have hconsistent := readExpression_consistent maxOpenBlocks input
  refine ⟨_, hrun, ?_⟩
  cases houtcome : (readExpression maxOpenBlocks input).outcome with
  | ok found =>
      obtain ⟨node, rest⟩ := found
      have hrest := (hconsistent.done node rest houtcome).2
      simp only [Reading.ending, houtcome, State.next?_before hrest, parse_trace]
      refine ⟨rfl, ?_, rfl⟩
      rw [parse_result_ok_iff.2 ⟨rest, houtcome⟩]
      rfl
  | error failure =>
      have hrest := (hconsistent.failed failure houtcome).2.2
      simp only [Reading.ending, houtcome, State.next?_before hrest, parse_trace]
      refine ⟨rfl, ?_, rfl⟩
      rw [parse_result_error_iff.2 ⟨failure, houtcome, rfl⟩]
      rfl

end TranslationKeys
