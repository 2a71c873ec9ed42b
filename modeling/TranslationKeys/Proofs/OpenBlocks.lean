import TranslationKeys.Proofs.Repair

/-!
# Inside open blocks

A failure is found at a spot inside the blocks that are open there: in front of an
entry or in front of a value.  What stands before the spot is the start of a call,
with complete entries in front of the one that breaks off.  What stands behind it
is at fault, and the fault says what is reported.

Reading fails exactly so.  From a failure the spot is collected as the recursion
returns; from a spot the failure is found again, because everything before it is
read as it is written.  How many blocks are open at a spot depends on the text
before it only: so many braces complete it.
-/

namespace TranslationKeys

open Lexeme

/-! ## Spots and faults -/

/-- Where a text can break off inside a block. -/
inductive Spot where
  /-- In front of an entry or of the closing brace. -/
  | entry
  /-- In front of a value. -/
  | value
  deriving DecidableEq, Repr

mutual

/--
The text `front`, with `rest` after it, is the start of a call that breaks off at a
spot where `opened` of its blocks are open, of at most `free`.  With no block open
the spot is the place of the call itself.
-/
inductive CallStart (spot : Spot) : Nat -> Nat -> Text -> Text -> Prop where
  | here {free : Nat} {rest : Text} (hspot : spot = .value) (hrest : Avoids isSpacing rest) :
      CallStart spot free 0 [] rest
  | block {free opened : Nat} {key front rest : Text} (hkey : IsKey key)
      (hbody : BlockStart spot free opened front rest) :
      CallStart spot (free + 1) (opened + 1) (marker ++ (key ++ '{' :: front)) rest

/-- The text `front` is the start of what follows an opening brace. -/
inductive BlockStart (spot : Spot) : Nat -> Nat -> Text -> Text -> Prop where
  | here {free : Nat} {space rest : Text} (hspot : spot = .entry) (hspace : IsSpace space)
      (hrest : Avoids isSpacing rest) : BlockStart spot free 0 space rest
  | value {free opened : Nat} {space name header front rest : Text} (hspace : IsSpace space)
      (hheader : IsHeader name header) (hvalue : CallStart spot free opened front rest) :
      BlockStart spot free opened (space ++ (header ++ front)) rest
  | entry {free opened : Nat} {space name header front separator body rest : Text}
      {value : Value} (hspace : IsSpace space) (hheader : IsHeader name header)
      (hvalue : ValueText free front (separator ++ (body ++ rest)) value)
      (hseparator : IsSeparator separator) (hbody : BlockStart spot free opened body rest) :
      BlockStart spot free opened (space ++ (header ++ (front ++ (separator ++ body)))) rest

end

/--
What can be wrong with the text at a spot where `free` more blocks may be opened,
and the finding that reports it.
-/
inductive Fault : Spot -> Nat -> Text -> Finding -> Prop where
  | ended {free : Nat} : Fault .entry free [] ⟨.missingTerminator, []⟩
  | unnamed {free : Nat} {c : Char} {rest : Text} (hc : isSpacing c = false) (hbrace : c ≠ '}')
      (hparam : ¬ BeginsParam (c :: rest)) :
      Fault .entry free (c :: rest) ⟨.malformedKey, c :: rest⟩
  | plain {free : Nat} {rest : Text} (hquote : rest.head? ≠ some '\x22')
      (hcall : ¬ BeginsCall rest) : Fault .value free rest ⟨.missingTerminator, []⟩
  | unclosed {free : Nat} {rest : Text} (hliteral : ¬ BeginsLiteral ('\x22' :: rest)) :
      Fault .value free ('\x22' :: rest) ⟨.malformedStringLiteral, '\x22' :: rest⟩
  | deep {key inner : Text} (hkey : IsKey key) :
      Fault .value 0 (marker ++ (key ++ '{' :: inner)) ⟨.nestingTooDeep, inner⟩

/-- The text is at fault at some spot of a call that starts with it. -/
def CallFails (free : Nat) (text : Text) (failure : Finding) : Prop :=
  exists spot opened front rest, text = front ++ rest /\
    CallStart spot free opened front rest /\ Fault spot (free - opened) rest failure

/-- The text is at fault at some spot behind the opening brace in front of it. -/
def BlockFails (free : Nat) (text : Text) (failure : Finding) : Prop :=
  exists spot opened front rest, text = front ++ rest /\
    BlockStart spot free opened front rest /\ Fault spot (free - opened) rest failure

section Closure

variable {free : Nat} {text key space name header : Text} {failure : Finding}

theorem CallFails.of_fault (htext : Avoids isSpacing text)
    (hfault : Fault .value free text failure) : CallFails free text failure :=
  ⟨.value, 0, [], text, rfl, .here rfl htext, hfault⟩

theorem CallFails.of_block (hkey : IsKey key) (h : BlockFails free text failure) :
    CallFails (free + 1) (marker ++ (key ++ '{' :: text)) failure := by
  obtain ⟨spot, opened, front, rest, rfl, hbody, hfault⟩ := h
  refine ⟨spot, opened + 1, _, rest, ?_, .block hkey hbody, ?_⟩
  · simp
  · rwa [Nat.add_sub_add_right]

theorem BlockFails.of_fault (hspace : IsSpace space) (htext : Avoids isSpacing text)
    (hfault : Fault .entry free text failure) : BlockFails free (space ++ text) failure :=
  ⟨.entry, 0, space, text, rfl, .here rfl hspace htext, hfault⟩

theorem BlockFails.of_value (hspace : IsSpace space) (hheader : IsHeader name header)
    (h : CallFails free text failure) : BlockFails free (space ++ (header ++ text)) failure := by
  obtain ⟨spot, opened, front, rest, rfl, hvalue, hfault⟩ := h
  exact ⟨spot, opened, _, rest, by simp, .value hspace hheader hvalue, hfault⟩

theorem BlockFails.of_entry {front separator : Text} {value : Value} (hspace : IsSpace space)
    (hheader : IsHeader name header) (hvalue : ValueText free front (separator ++ text) value)
    (hseparator : IsSeparator separator) (h : BlockFails free text failure) :
    BlockFails free (space ++ (header ++ (front ++ (separator ++ text)))) failure := by
  obtain ⟨spot, opened, body, rest, rfl, hbody, hfault⟩ := h
  exact ⟨spot, opened, _, rest, by simp, .entry hspace hheader hvalue hseparator hbody, hfault⟩

end Closure

/-! ## From failures to faults -/

theorem Lexeme.paramName?_eq_none_iff {text : Text} :
    paramName? text = none <-> ¬ BeginsParam text := by
  constructor
  · rintro hnone ⟨name, header, value, hheader, rfl⟩
    rw [paramName?_header hheader] at hnone
    cases hnone
  · intro hparam
    cases hname : paramName? text with
    | none => rfl
    | some found =>
        obtain ⟨header, hheader, htext⟩ := paramName?_sound hname
        exact absurd ⟨found.1, header, found.2, hheader, htext⟩ hparam

/-- All spacing in front of a value belongs to its header. -/
theorem Lexeme.avoids_spacing_of_paramName? {text name value : Text}
    (h : paramName? text = some (name, value)) : Avoids isSpacing value := by
  obtain ⟨header, hheader, rfl⟩ := paramName?_sound h
  rw [paramName?_header hheader, Option.some.injEq, Prod.mk.injEq] at h
  rw [← h.2]
  exact avoids_skipSpacing value

/-- Every failure of an expression is a fault at some spot. -/
def FailsAtFaults (free : Nat) : Prop :=
  forall {text failure}, (readExpression free text).outcome = .error failure ->
    CallFails free text failure

section Sound

variable {free depth : Nat} {text : Text} {failure : Finding}

theorem callFails_of_readValue (hnested : FailsAtFaults free) (htext : Avoids isSpacing text)
    (h : (readValue (readExpression free) text).outcome = .error failure) :
    CallFails free text failure := by
  rcases readValue_cases (readExpression free) text with
    ⟨raw, rest, _, _, hread⟩ | ⟨rest, rfl, hnone, hread⟩ | ⟨hquote, hread⟩
  · rw [hread] at h
    cases h
  · rw [hread] at h
    cases h
    refine .of_fault htext (.unclosed ?_)
    rintro ⟨raw, after, hliteral, hcut⟩
    rw [stringLiteral?_eq_some_iff.2 ⟨hcut, hliteral⟩] at hnone
    cases hnone
  · rw [hread] at h
    rcases Reading.andThen_outcome_error_iff.1 h with hfailed | ⟨node, rest, hnode, hvalue⟩
    · exact hnested hfailed
    · cases node with
      | literal plain =>
          obtain ⟨hbegins, _, rfl⟩ := readExpression_literal_iff.1 hnode
          cases hvalue
          exact .of_fault htext (.plain hquote hbegins)
      | translate call => cases hvalue

/-- A parameter fails for want of a header, or in its value. -/
theorem fails_of_readParam (hnested : FailsAtFaults free)
    (h : (readParam (readExpression free) depth text).outcome = .error failure) :
    (failure = ⟨.malformedKey, text⟩ /\ ¬ BeginsParam text) \/
      exists name header value, IsHeader name header /\ text = header ++ value /\
        CallFails free value failure := by
  cases hname : paramName? text with
  | none =>
      simp only [readParam, hname, Reading.entered_outcome, Reading.fail_outcome] at h
      cases h
      exact Or.inl ⟨rfl, paramName?_eq_none_iff.1 hname⟩
  | some found =>
      obtain ⟨name, value⟩ := found
      obtain ⟨header, hheader, rfl⟩ := paramName?_sound hname
      simp only [readParam, hname, Reading.entered_outcome] at h
      rcases Reading.andThen_outcome_error_iff.1 h with hfailed | ⟨_, rest, _, hdone⟩
      · exact Or.inr ⟨name, header, value, hheader, rfl,
          callFails_of_readValue hnested (avoids_spacing_of_paramName? hname) hfailed⟩
      · cases hdone

/-- The bound never runs out before the text does, since each parameter takes up characters. -/
theorem blockFails_of_readParams (hnested : FailsAtFaults free) {bound : Text} {params : Params}
    (hbound : text.length <= bound.length)
    (h : (readParams (readExpression free) depth bound params text).outcome = .error failure) :
    BlockFails free text failure := by
  induction bound generalizing params text with
  | nil =>
      obtain rfl := List.eq_nil_of_length_eq_zero (Nat.le_zero.1 hbound)
      cases h
      exact .of_fault IsSpace.nil (avoids_skipSpacing []) .ended
  | cons b bound ih =>
      obtain ⟨space, hspace, htext⟩ := skipSpacing_sound text
      have hstop := avoids_skipSpacing text
      rw [htext]
      rcases readParams_cons_cases (readExpression free) depth b bound params text with
        ⟨hend, hread⟩ | ⟨rest, _, hread⟩ | ⟨c, more, hmore, hbrace, hread⟩
      · rw [hread] at h
        cases h
        rw [hend] at hstop ⊢
        exact .of_fault hspace hstop .ended
      · rw [hread] at h
        cases h
      · rw [hread] at h
        rw [hmore] at htext hstop ⊢
        rcases Reading.andThen_outcome_error_iff.1 h with
          hparam | ⟨⟨name, value⟩, rest, hparam, hlater⟩
        · rcases fails_of_readParam hnested hparam with
            ⟨rfl, hnone⟩ | ⟨name, header, value, hheader, hcut, hvalue⟩
          · exact .of_fault hspace hstop (.unnamed (hstop c rfl) hbrace hnone)
          · rw [hcut]
            exact .of_value hspace hheader hvalue
        · obtain ⟨header, front, separator, hheader, hseparator, hvalue, hcut⟩ :=
            param_of_readParam (readExpression_sound free) hparam
          have hrest : rest.length <= bound.length := by
            obtain ⟨d, tail, _, rfl⟩ := hheader.eq_cons
            rw [htext, hcut] at hbound
            simp only [List.length_append, List.length_cons] at hbound
            omega
          rw [hcut]
          exact .of_entry hspace hheader hvalue hseparator (ih hrest hlater)

/-- Where a block may be opened, an expression fails behind its opening brace only. -/
theorem blockFails_of_readExpression (hnested : FailsAtFaults free)
    (h : (readExpression (free + 1) text).outcome = .error failure) :
    exists key inner, IsKey key /\ text = marker ++ (key ++ '{' :: inner) /\
      BlockFails free inner failure := by
  rcases readExpression_error_cases h with
    ⟨key, inner, hfree, _, _⟩ | ⟨within, depth, key, inner, hfree, hkey, hblock⟩
  · cases hfree
  · cases hfree
    obtain ⟨htext, hisKey, _⟩ := callKey?_eq_some_iff.1 hkey
    refine ⟨key, inner, hisKey, htext, ?_⟩
    rcases Reading.andThen_outcome_error_iff.1 hblock with
      hparams | ⟨params, stop, hparams, hclose⟩
    · exact blockFails_of_readParams hnested (Nat.le_refl _) hparams
    · obtain ⟨after, rfl⟩ := readParams_stop hparams
      cases hclose

end Sound

/-- Every failure of an expression is a fault at a spot of the call that starts there. -/
theorem readExpression_fails (free : Nat) : FailsAtFaults free := by
  induction free with
  | zero =>
      intro text failure h
      rcases readExpression_error_cases h with
        ⟨key, inner, _, hkey, rfl⟩ | ⟨within, _, _, _, hfree, _, _⟩
      · obtain ⟨rfl, hisKey, _⟩ := callKey?_eq_some_iff.1 hkey
        exact .of_fault (by intro c hc; cases hc; rfl) (.deep hisKey)
      · cases hfree
  | succ free ih =>
      intro text failure h
      obtain ⟨key, inner, hkey, rfl, hblock⟩ := blockFails_of_readExpression ih h
      exact .of_block hkey hblock

/-! ## From faults to failures -/

section Complete

variable {free depth : Nat} {text inner key : Text} {failure : Finding}

theorem readValue_error (hquote : text.head? ≠ some '\x22')
    (h : (readExpression free text).outcome = .error failure) :
    (readValue (readExpression free) text).outcome = .error failure := by
  rw [readValue, if_neg hquote]
  exact Reading.andThen_outcome_error_iff.2 (Or.inl h)

theorem readParam_error (depth : Nat) {name header : Text} (hheader : IsHeader name header)
    (hspacing : Avoids isSpacing text)
    (h : (readValue (readExpression free) text).outcome = .error failure) :
    (readParam (readExpression free) depth (header ++ text)).outcome = .error failure := by
  simp only [readParam, paramName?_header hheader, skipSpacing_of_avoids hspacing,
    Reading.entered_outcome]
  exact Reading.andThen_outcome_error_iff.2 (Or.inl h)

theorem readParams_error {b c : Char} {bound more : Text} {params : Params}
    (hmore : skipSpacing text = c :: more) (hbrace : c ≠ '}')
    (h : (readParam (readExpression free) depth (c :: more)).outcome = .error failure) :
    (readParams (readExpression free) depth (b :: bound) params text).outcome =
      .error failure := by
  simp only [readParams, hmore, if_neg hbrace]
  exact Reading.andThen_outcome_error_iff.2 (Or.inl h)

theorem readExpression_block_error (hkey : IsKey key)
    (h : forall depth, (readParams (readExpression free) depth inner .nil inner).outcome =
      .error failure) :
    (readExpression (free + 1) (marker ++ (key ++ '{' :: inner))).outcome = .error failure := by
  rw [readExpression_block free (callKey?_of_block inner hkey), Reading.entered_outcome,
    Reading.entered_andThen_outcome]
  exact Reading.andThen_outcome_error_iff.2 (Or.inl (h _))

/-- A value that is at fault where it stands cannot be read. -/
theorem Fault.readValue_outcome (hfault : Fault .value free text failure) :
    (readValue (readExpression free) text).outcome = .error failure := by
  cases hfault with
  | plain hquote hcall =>
      have hread : (readExpression free text).outcome = .ok (.literal text, []) :=
        readExpression_literal_iff.2 ⟨hcall, rfl, rfl⟩
      rw [readValue, if_neg hquote, Reading.andThen_outcome_of_ok hread]
      rfl
  | @unclosed _ rest hliteral =>
      have hnone : stringLiteral? ('\x22' :: rest) = none := by
        rw [Option.eq_none_iff_forall_ne_some]
        rintro ⟨raw, after⟩ hraw
        obtain ⟨hcut, hisLiteral⟩ := stringLiteral?_eq_some_iff.1 hraw
        exact hliteral ⟨raw, after, hisLiteral, hcut⟩
      simp [readValue, hnone]
  | @deep key inner hkey =>
      refine readValue_error (by simp [marker]) ?_
      rw [readExpression_deep (callKey?_of_block inner hkey)]
      rfl

/-- What is at fault in front of an entry ends the parameters. -/
theorem Fault.readParams_outcome {spare : Nat} {bound rest : Text} {params : Params}
    (hfault : Fault .entry spare rest failure) (hbound : text.length <= bound.length)
    (htext : skipSpacing text = rest) :
    (readParams (readExpression free) depth bound params text).outcome = .error failure := by
  cases bound with
  | nil =>
      obtain rfl := List.eq_nil_of_length_eq_zero (Nat.le_zero.1 hbound)
      subst htext
      generalize hnil : skipSpacing [] = nothing at hfault
      cases hfault with
      | ended => rfl
      | unnamed => cases hnil
  | cons b bound =>
      cases hfault with
      | ended => simp [readParams, htext]
      | unnamed _ hbrace hparam =>
          refine readParams_error htext hbrace ?_
          simp [readParam, paramName?_eq_none_iff.2 hparam]

end Complete

section Starts

variable {spot : Spot} {free opened : Nat} {front rest : Text}

theorem CallStart.avoids_spacing (h : CallStart spot free opened front rest) :
    Avoids isSpacing (front ++ rest) := by
  cases h with
  | here _ hrest => exact hrest
  | block hkey _ =>
      intro c hc
      cases hc
      rfl

/-- Behind its spacing the start of a block goes on with a name, or with what is at the spot. -/
theorem BlockStart.head?_ne_comma (h : BlockStart spot free opened front rest)
    (hcomma : spot = .entry -> rest.head? ≠ some ',') :
    (skipSpacing (front ++ rest)).head? ≠ some ',' := by
  cases h with
  | here hspot hspace hrest =>
      rw [skipSpacing_append hspace, skipSpacing_of_avoids hrest]
      exact hcomma hspot
  | value hspace hheader _ =>
      simp only [List.append_assoc]
      rw [skipSpacing_entry hspace hheader]
      exact hheader.head?_ne rfl _
  | entry hspace hheader _ _ _ =>
      simp only [List.append_assoc]
      rw [skipSpacing_entry hspace hheader]
      exact hheader.head?_ne rfl _

end Starts

mutual

/--
A fault is reported as the failure of the whole value.  A comma at an entry is left
out: it may as well belong to the entry before.
-/
theorem CallStart.readValue_outcome {spot : Spot} {failure : Finding} :
    forall {free opened : Nat} {front rest : Text}, CallStart spot free opened front rest ->
      Fault spot (free - opened) rest failure ->
      (spot = .entry -> rest.head? ≠ some ',') ->
      (readValue (readExpression free) (front ++ rest)).outcome = .error failure
  | _, _, _, _, .here hspot _ => by
      intro hfault _
      subst hspot
      exact hfault.readValue_outcome
  | _, _, _, _, @CallStart.block _ free opened key front rest hkey hbody => by
      intro hfault hcomma
      rw [Nat.add_sub_add_right] at hfault
      simp only [List.append_assoc, List.cons_append]
      refine readValue_error (by simp [marker]) (readExpression_block_error hkey ?_)
      intro depth
      exact hbody.readParams_outcome hfault hcomma depth _ .nil (Nat.le_refl _) rfl

theorem BlockStart.readParams_outcome {spot : Spot} {failure : Finding} :
    forall {free opened : Nat} {front rest : Text}, BlockStart spot free opened front rest ->
      Fault spot (free - opened) rest failure ->
      (spot = .entry -> rest.head? ≠ some ',') ->
      forall (depth : Nat) (bound : Text) {text : Text} (params : Params),
        text.length <= bound.length -> skipSpacing text = skipSpacing (front ++ rest) ->
        (readParams (readExpression free) depth bound params text).outcome = .error failure
  | _, _, _, _, .here hspot hspace hrest => by
      intro hfault _ depth bound text params hbound htext
      subst hspot
      rw [skipSpacing_append hspace, skipSpacing_of_avoids hrest] at htext
      exact hfault.readParams_outcome hbound htext
  | _, _, _, _, @BlockStart.value _ free opened space name header front rest hspace hheader
      hvalue => by
      intro hfault hcomma depth bound text params hbound htext
      simp only [List.append_assoc] at htext
      rw [skipSpacing_entry hspace hheader] at htext
      have hparam := readParam_error depth hheader hvalue.avoids_spacing
        (hvalue.readValue_outcome hfault hcomma)
      obtain ⟨c, more, hc, rfl⟩ := hheader.eq_cons
      cases bound with
      | nil =>
          obtain rfl := List.eq_nil_of_length_eq_zero (Nat.le_zero.1 hbound)
          cases htext
      | cons b bound => exact readParams_error htext (ne_of_member hc rfl) hparam
  | _, _, _, _, @BlockStart.entry _ free opened space name header front separator body rest
      value hspace hheader hvalue hseparator hbody => by
      intro hfault hcomma depth bound text params hbound htext
      simp only [List.append_assoc] at htext
      rw [skipSpacing_entry hspace hheader] at htext
      have hparam := readParam_entry depth hheader hvalue.avoids_spacing
        hvalue.readValue_outcome
      have hbrace := hheader.head?_ne (rfl : isNameChar '}' = false)
        (front ++ (separator ++ (body ++ rest)))
      -- What is left behind the entry is shorter by its header at least.
      have hlength : (skipSeparator (separator ++ (body ++ rest))).length < bound.length := by
        have hspacing := (skipSpacing_suffix text).length_le
        have hleft := (skipSeparator_suffix (separator ++ (body ++ rest))).length_le
        obtain ⟨c, more, _, rfl⟩ := hheader.eq_cons
        rw [htext] at hspacing
        simp only [List.length_append, List.length_cons] at hspacing hleft
        omega
      rw [← htext] at hparam hbrace
      cases bound with
      | nil => cases hlength
      | cons b bound =>
          rw [readParams_entry hbrace hparam]
          exact hbody.readParams_outcome hfault hcomma depth bound _
            (Nat.le_of_lt_succ hlength)
            (skipSpacing_skipSeparator hseparator (hbody.head?_ne_comma hcomma))

end

/-- A fault inside an open block is the failure of the whole expression. -/
theorem CallStart.readExpression_outcome {spot : Spot} {opened : Nat} {front rest : Text}
    {failure : Finding} (h : CallStart spot maxOpenBlocks opened front rest)
    (hopened : 1 <= opened) (hfault : Fault spot (maxOpenBlocks - opened) rest failure)
    (hcomma : spot = .entry -> rest.head? ≠ some ',') :
    (readExpression maxOpenBlocks (front ++ rest)).outcome = .error failure := by
  generalize hfree : maxOpenBlocks = free at h hfault
  cases h with
  | here => cases hopened
  | @block free opened key front _ hkey hbody =>
      rw [Nat.add_sub_add_right] at hfault
      simp only [List.append_assoc, List.cons_append]
      refine readExpression_block_error hkey ?_
      intro depth
      exact hbody.readParams_outcome hfault hcomma depth _ .nil (Nat.le_refl _) rfl

/-! ## The number of open blocks -/

mutual

/-- No more blocks are open than may be. -/
theorem CallStart.opened_le {spot : Spot} :
    forall {free opened : Nat} {front rest : Text}, CallStart spot free opened front rest ->
      opened <= free
  | _, _, _, _, .here _ _ => Nat.zero_le _
  | _, _, _, _, .block _ hbody => Nat.succ_le_succ hbody.opened_le

theorem BlockStart.opened_le {spot : Spot} :
    forall {free opened : Nat} {front rest : Text}, BlockStart spot free opened front rest ->
      opened <= free
  | _, _, _, _, .here _ _ _ => Nat.zero_le _
  | _, _, _, _, .value _ _ hvalue => hvalue.opened_le
  | _, _, _, _, .entry _ _ _ _ hbody => hbody.opened_le

end

/-- What completes an entry at a spot. -/
def Spot.filler : Spot -> Text
  | .entry => []
  | .value => ['\x22', '\x22']

theorem Spot.endsKey_filler (spot : Spot) (count : Nat) (after : Text) :
    EndsKey (spot.filler ++ (braces (count + 1) ++ after)) := by
  cases spot with
  | entry => exact .brace _
  | value => exact .quote _

mutual

/-- The start of a value is completed by one brace for each open block. -/
theorem CallStart.completed {spot : Spot} :
    forall {free opened : Nat} {front rest : Text}, CallStart spot free opened front rest ->
      exists value, forall after, EndsKey after ->
        ValueText free (front ++ (spot.filler ++ braces opened)) after value
  | _, _, _, _, .here hspot _ => by
      subst hspot
      exact ⟨_, fun after _ => .literal ⟨[], .nil, rfl⟩⟩
  | _, _, _, _, @CallStart.block _ _ _ key _ _ hkey hbody => by
      obtain ⟨entries, hentries⟩ := hbody.completed
      refine ⟨.nested (.block key (.ofList entries)), ?_⟩
      intro after _
      simpa using ValueText.nested (CallText.block hkey (hentries after))

theorem BlockStart.completed {spot : Spot} :
    forall {free opened : Nat} {front rest : Text}, BlockStart spot free opened front rest ->
      exists entries, forall after,
        BlockText free (front ++ (spot.filler ++ braces (opened + 1))) after entries
  | _, _, _, _, .here hspot hspace _ => by
      subst hspot
      exact ⟨[], fun after => .close hspace⟩
  | _, _, _, _, @BlockStart.value _ _ _ _ name _ _ _ hspace hheader hvalue => by
      obtain ⟨value, hfront⟩ := hvalue.completed
      refine ⟨[(name, value)], ?_⟩
      intro after
      have hentry := BlockText.entry hspace hheader (hfront _ (.brace after)) .nil (.close .nil)
      simpa [braces_succ] using hentry
  | _, _, _, _, @BlockStart.entry _ _ opened _ name _ _ _ _ _ value hspace hheader hvalue
      hseparator hbody => by
      obtain ⟨entries, hentries⟩ := hbody.completed
      refine ⟨(name, value) :: entries, ?_⟩
      intro after
      have hfront := hvalue.change_rest (fun hends => by
        rw [← List.append_assoc] at hends
        exact hends.append (spot.endsKey_filler opened after))
      have hentry := BlockText.entry hspace hheader (by simpa using hfront) hseparator
        (hentries after)
      simpa using hentry

end

/-- No other number of blocks is open at a spot, whatever comes after it. -/
theorem CallStart.opened_unique {spot : Spot} {free first second : Nat} {front rest more : Text}
    (hfirst : CallStart spot free first front rest)
    (hsecond : CallStart spot free second front more) : first = second := by
  wlog hle : first <= second generalizing first second rest more with hsymm
  · exact (hsymm hsecond hfirst (Nat.le_of_not_le hle)).symm
  obtain ⟨count, rfl⟩ := Nat.exists_eq_add_of_le hle
  obtain ⟨value, hvalue⟩ := hfirst.completed
  obtain ⟨other, hother⟩ := hsecond.completed
  have hends : EndsKey (braces count) := by
    intro c hc
    obtain rfl := List.eq_of_mem_replicate (List.mem_of_mem_head? hc)
    exact ⟨rfl, by decide⟩
  -- Both completions are read from the same text, so they leave the same braces.
  have hread := (hvalue _ hends).readValue_outcome
  have hwhole := (hother [] .nil).readValue_outcome
  have hbraces : braces (first + count) = braces first ++ braces count :=
    List.replicate_add first count '}'
  rw [List.append_nil, hbraces] at hwhole
  simp only [List.append_assoc] at hread hwhole
  rw [hread] at hwhole
  have hnone : braces count = [] := (Prod.mk.inj (Except.ok.inj hwhole)).2
  have hcount : count = 0 := by simpa [braces] using hnone
  omega

end TranslationKeys
