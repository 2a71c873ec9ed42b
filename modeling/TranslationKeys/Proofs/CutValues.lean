import TranslationKeys.Proofs.LongerTexts

/-!
# Values that are cut off

A value that is skipped may be cut off at any place, inside any number of brackets.
More text behind it changes nothing that was skipped.  A number that ends in its sign,
its point or the mark of its exponent is malformed, wherever it stands: skipping comes
to the place of the number through complete values only.
-/

namespace TranslationKeys

open RawJson
open Lexeme (Avoids)

namespace Decoder

variable {α β : Type} {text more rest : Text}

/-! ## More text behind a value -/

theorem skipAtom_steady {first : Char} (h : ¬ (first = '-' \/ first.isDigit = true)) :
    Steady (skipAtom first) := by
  unfold skipAtom
  rw [if_neg (beginsNumber_eq_true_iff.not.2 h)]
  refine .ite (literal_steady _) (.ite (literal_steady _) (.ite (literal_steady _) ?_))
  exact .ite skippedString_steady (.throw _)

theorem skipAtom_extends (first : Char) :
    ExtendsAt (.ofNumber (IsCutNumber (first :: text))) (skipAtom first) text more := by
  by_cases hfirst : first = '-' \/ first.isDigit = true
  · rw [skipAtom_numeral hfirst]
    exact (numeral_extends hfirst fun hcut => Or.inr ⟨rfl, hcut⟩).bind id id
      (fun _ _ _ => .ended trivial _ _) fun _ _ _ _ => (Steady.pure _).extendsAt _ _
  · exact (skipAtom_steady hfirst).extendsAt _ _

theorem skipLead_steady (bracket : Bracket) : Steady (skipLead bracket) := by
  cases bracket with
  | array => exact .pure _
  | object =>
      exact (expectToken_steady _).bind fun _ =>
        skippedString_steady.bind fun _ => expectToken_steady _

theorem skipOpening_steady (bracket : Bracket) (around : List Bracket) :
    Steady (skipOpening bracket around) := by
  refine peekToken_steady.bind fun _ => .ite ?_ ?_
  · exact take_steady.bind fun _ => .pure _
  · exact (skipLead_steady bracket).bind fun _ => .pure _

/-- A step of skipping reaches the end only behind a number, or where nothing is left to skip. -/
theorem skipStep_extends {whole : Text} {wanted : Bool} {around : List Bracket}
    (h : Reached whole wanted around text) :
    ExtendsAt (.ofNumber (exists path, EndsInNumber whole path)) (skipStep wanted around) text
      more := by
  rcases wanted with _ | _
  · rcases around with _ | ⟨bracket, around⟩
    · exact (Steady.pure _).extendsAt _ _
    · refine takeToken_steady.bind_extendsAt fun c rest _ _ => ?_
      have hstep : Steady (if c == bracket.closing then Pure.pure (false, around)
          else if c == ',' then do
            skipLead bracket
            return (true, bracket :: around)
          else throw .malformed : Decoder (Bool × List Bracket)) :=
        .ite (.pure _) (.ite ((skipLead_steady bracket).bind fun _ => .pure _) (.throw _))
      exact hstep.extendsAt _ _
  · rw [skipStep_value_eq]
    refine takeToken_steady.bind_extendsAt fun c rest htoken _ => ?_
    cases bracketOf? c with
    | some bracket => exact (skipOpening_steady bracket around).extendsAt _ _
    | none =>
        obtain ⟨path, place, -, hplace, hbefore⟩ := h
        have hblank := hbefore.trans (takeToken_ok_iff.1 htoken).1
        refine ExtendsAt.bind (skipAtom_extends c) id ?_ (fun _ _ _ => .ended trivial _ _)
          fun _ _ _ _ => (Steady.pure _).extendsAt _ _
        intro hcut
        exact ⟨path, place, _, hplace, hblank, hcut⟩

/-- Skipping goes on from a state, with as many steps as there are characters. -/
def skipFrom (wanted : Bool) (around : List Bracket) : Decoder Unit := fun text =>
  skipRest text wanted around text

theorem skipStep_nil {wanted : Bool} {around : List Bracket}
    (hopen : ¬ (wanted = false /\ around = [])) :
    skipStep wanted around [] = .error .cutOff := by
  rcases wanted with _ | _
  · rcases around with _ | ⟨bracket, around⟩
    · exact absurd ⟨rfl, rfl⟩ hopen
    · rfl
  · rfl

theorem skipRest_nil (bound : Text) {wanted : Bool} {around : List Bracket}
    (hopen : ¬ (wanted = false /\ around = [])) :
    skipRest bound wanted around [] = .error .cutOff := by
  cases bound with
  | nil =>
      rcases wanted with _ | _
      · rcases around with _ | ⟨bracket, around⟩
        · exact absurd ⟨rfl, rfl⟩ hopen
        · rfl
      · rfl
  | cons c bound => rw [skipRest_cons c bound hopen, bind_of_error (skipStep_nil hopen)]

/-- It makes no difference how long the bound is, as long as there is a character for each step. -/
theorem skipRest_congr {bound other : Text} {wanted : Bool} {around : List Bracket}
    (hbound : text.length <= bound.length) (hother : text.length <= other.length) :
    skipRest bound wanted around text = skipRest other wanted around text := by
  induction bound generalizing text other wanted around with
  | nil =>
      have hnil : text = [] := List.eq_nil_of_length_eq_zero (Nat.le_zero.1 hbound)
      subst hnil
      by_cases hdone : wanted = false /\ around = []
      · obtain ⟨rfl, rfl⟩ := hdone
        simp only [skipRest]
      · rw [skipRest_nil [] hdone, skipRest_nil other hdone]
  | cons c bound ih =>
      by_cases hdone : wanted = false /\ around = []
      · obtain ⟨rfl, rfl⟩ := hdone
        simp only [skipRest]
      · cases other with
        | nil =>
            have hnil : text = [] := List.eq_nil_of_length_eq_zero (Nat.le_zero.1 hother)
            subst hnil
            rw [skipRest_nil _ hdone, skipRest_nil _ hdone]
        | cons d other =>
            rw [skipRest_cons c bound hdone, skipRest_cons d other hdone]
            refine bind_congr_of_ok fun next rest hstep => ?_
            have hlength := skipStep_length_lt hdone hstep
            rw [List.length_cons] at hbound hother
            exact ih (by omega) (by omega)

theorem skipFrom_done : skipFrom false [] = pure () :=
  funext fun text => congrFun (skipRest.eq_1 text) text

theorem skipFrom_nil {wanted : Bool} {around : List Bracket}
    (hopen : ¬ (wanted = false /\ around = [])) :
    skipFrom wanted around [] = .error .cutOff :=
  skipRest_nil [] hopen

/-- Skipping is one step and what it goes on with. -/
theorem skipFrom_step {wanted : Bool} {around : List Bracket}
    (hopen : ¬ (wanted = false /\ around = [])) :
    skipFrom wanted around = (do
      let next <- skipStep wanted around
      skipFrom next.1 next.2) := by
  funext text
  cases text with
  | nil => rw [skipFrom_nil hopen, bind_of_error (skipStep_nil hopen)]
  | cons c text =>
      unfold skipFrom
      rw [skipRest_cons c text hopen]
      refine bind_congr_of_ok fun next rest hstep => ?_
      have hlength := skipStep_length_lt hopen hstep
      exact skipRest_congr (Nat.le_of_lt_succ hlength) (Nat.le_refl _)

/-- The run lemma: more text changes skipping only at its end, or inside a number there. -/
theorem skipFrom_extends {whole : Text} {wanted : Bool} {around : List Bracket}
    (h : Reached whole wanted around text) :
    ExtendsAt (.ofNumber (exists path, EndsInNumber whole path)) (skipFrom wanted around) text
      more := by
  induction hlength : text.length using Nat.strongRecOn generalizing text wanted around with
  | ind length ih =>
      by_cases hdone : wanted = false /\ around = []
      · obtain ⟨rfl, rfl⟩ := hdone
        rw [skipFrom_done]
        exact (Steady.pure _).extendsAt _ _
      · rw [skipFrom_step hdone]
        refine (skipStep_extends h).bind id id (fun _ next _ => ?_) fun next rest hstep _ => ?_
        · by_cases hdone : next.1 = false /\ next.2 = []
          · rw [hdone.1, hdone.2]
            exact .ended trivial () _
          · rw [skipFrom_nil hdone]
            exact .cutOff _
        · exact ih rest.length (hlength ▸ skipStep_length_lt hdone hstep) (h.step hstep) rfl

theorem skipValue_extends :
    ExtendsAt (.ofNumber (exists path, EndsInNumber text path)) skipValue text more :=
  skipFrom_extends (.refl text)

/-! ## Skipping comes to each place -/

/-- A frame of brackets around those that are open changes no step inside. -/
theorem skipOpening_append (bracket : Bracket) (around outer : List Bracket) :
    skipOpening bracket (around ++ outer) =
      Prod.map id (· ++ outer) <$> skipOpening bracket around := by
  simp only [skipOpening, map_bind]
  refine congrArg (peekToken >>= ·) (funext fun c => ?_)
  split <;> simp

theorem skipStep_append {wanted : Bool} {around : List Bracket}
    (hopen : ¬ (wanted = false /\ around = [])) (outer : List Bracket) :
    skipStep wanted (around ++ outer) =
      Prod.map id (· ++ outer) <$> skipStep wanted around := by
  rcases wanted with _ | _
  · rcases around with _ | ⟨bracket, around⟩
    · exact absurd ⟨rfl, rfl⟩ hopen
    · simp only [skipStep, List.cons_append, map_bind]
      refine congrArg (takeToken >>= ·) (funext fun c => ?_)
      split
      · simp
      · split
        · simp
        · rfl
  · simp only [skipStep_value_eq, map_bind]
    refine congrArg (takeToken >>= ·) (funext fun c => ?_)
    cases bracketOf? c with
    | some bracket => exact skipOpening_append bracket around outer
    | none => simp

/-- Skipping that ends goes on in the brackets around it. -/
theorem skipFrom_append {wanted : Bool} {around : List Bracket} {result : Unit}
    (h : skipFrom wanted around text = .ok (result, rest)) (outer : List Bracket) :
    skipFrom wanted (around ++ outer) text = skipFrom false outer rest := by
  induction hlength : text.length using Nat.strongRecOn generalizing text wanted around with
  | ind length ih =>
      by_cases hdone : wanted = false /\ around = []
      · obtain ⟨rfl, rfl⟩ := hdone
        rw [skipFrom_done] at h
        obtain ⟨-, rfl⟩ := pure_ok_iff.1 h
        rfl
      · have hopen : ¬ (wanted = false /\ around ++ outer = []) := fun hnil =>
          hdone ⟨hnil.1, (List.append_eq_nil_iff.1 hnil.2).1⟩
        rw [skipFrom_step hdone] at h
        obtain ⟨next, between, hstep, hnext⟩ := bind_ok_iff.1 h
        have hframed : skipStep wanted (around ++ outer) text =
            .ok ((next.1, next.2 ++ outer), between) := by
          rw [skipStep_append hdone]
          exact map_ok_iff.2 ⟨next, hstep, rfl⟩
        rw [skipFrom_step hopen, bind_of_ok hframed]
        exact ih between.length (hlength ▸ skipStep_length_lt hdone hstep) hnext rfl

/-- Skipping passes a complete value. -/
theorem skipFrom_value {document : RawJson} (h : Begins document text rest)
    (hrest : Avoids continuesNumber rest) (around : List Bracket) :
    skipFrom true around text = skipFrom false around rest :=
  skipFrom_append ((skipValue_ok_iff hrest).2 ⟨document, h⟩ :
    skipFrom true [] text = .ok ((), rest)) around

/-- Blank characters in front of a value are passed. -/
theorem skipFrom_blank (h : IsBlank text rest) (around : List Bracket) :
    skipFrom true around text = skipFrom true around rest := by
  have hopen : ¬ (true = false /\ around = []) := fun hdone => Bool.noConfusion hdone.1
  have htoken : takeToken text = takeToken rest := by
    rw [takeToken_eq, takeToken_eq, h.dropWhile_congr]
  rw [skipFrom_step hopen, skipStep_value_eq, bind_assoc]
  cases hrest : takeToken rest with
  | error error => rw [bind_of_error hrest, bind_of_error (htoken.trans hrest)]
  | ok taken => rw [bind_of_ok hrest, bind_of_ok (htoken.trans hrest)]

/-- A value stands behind blank characters. -/
def IsPlaced (text : Text) : Prop :=
  exists c rest, IsBlank text (c :: rest) /\ BeginsValue c

theorem isPlaced_of_begins {document : RawJson} (h : Begins document text rest) :
    IsPlaced text := by
  obtain ⟨start, hblank, hvalue⟩ := h
  obtain ⟨c, more, rfl, hc⟩ := hvalue.eq_cons
  exact ⟨c, more, hblank, hc⟩

theorem beginsValue_opening (bracket : Bracket) : BeginsValue bracket.opening := by
  cases bracket <;> exact Or.inl (by decide)

theorem skipOpening_of_leads {step : Step} {inside : Text} (around : List Bracket)
    (hlead : step.Leads inside rest) (hrest : IsPlaced rest) :
    exists start, IsBlank rest start /\
      skipOpening step.bracket around inside = .ok ((true, step.bracket :: around), start) := by
  cases step with
  | item =>
      cases hlead
      obtain ⟨c, start, hblank, hc⟩ := hrest
      have hclosing : ¬ (c == ']') = true := fun heq => hc.apart.2.1 (beq_iff_eq.1 heq)
      refine ⟨c :: start, hblank, bind_ok_iff.2 ⟨c, c :: start,
        peekToken_ok_iff.2 ⟨hblank, rfl, hc.apart.1⟩, ?_⟩⟩
      rw [Step.bracket, Bracket.closing, if_neg hclosing]
      rfl
  | member key =>
      obtain ⟨behind, hkey, hquote, hcolon⟩ := hlead
      refine ⟨rest, .refl rest, bind_ok_iff.2 ⟨'\x22', _,
        peekToken_ok_iff.2 ⟨hquote, rfl, rfl⟩, ?_⟩⟩
      rw [Step.bracket, Bracket.closing, if_neg (by decide)]
      exact bind_ok_iff.2 ⟨(), rest,
        skipLead_ok_iff.2 (isLead_iff.2 ⟨.member key, rfl, behind, hkey, .refl _, hcolon⟩), rfl⟩

/-- Skipping enters a bracket that does not close at once. -/
theorem skipFrom_opening {step : Step} {inside : Text} (around : List Bracket)
    (hopen : IsBlank text (step.bracket.opening :: inside)) (hlead : step.Leads inside rest)
    (hrest : IsPlaced rest) :
    skipFrom true around text = skipFrom true (step.bracket :: around) rest := by
  have hspace : isJsonSpace step.bracket.opening = false := (beginsValue_opening _).apart.1
  obtain ⟨start, hstart, hopening⟩ := skipOpening_of_leads around hlead hrest
  have hstep : skipStep true around text = .ok ((true, step.bracket :: around), start) := by
    rw [skipStep_value_eq, bind_of_ok (takeToken_ok_iff.2 ⟨hopen, hspace⟩),
      bracketOf?_eq_some_iff.2 rfl]
    exact hopening
  have hwanted : ¬ (true = false /\ around = []) := fun hdone => Bool.noConfusion hdone.1
  rw [skipFrom_step hwanted, bind_of_ok hstep, skipFrom_blank hstart]

/-- Skipping goes on behind a comma. -/
theorem skipFrom_comma {step : Step} {behind : Text} (around : List Bracket)
    (hcomma : IsBlank text (',' :: behind)) (hlead : step.Leads behind rest) :
    skipFrom false (step.bracket :: around) text =
      skipFrom true (step.bracket :: around) rest := by
  have hclosing : ¬ (',' == step.bracket.closing) = true := fun heq =>
    (closing_apart step.bracket).2 (beq_iff_eq.1 heq).symm
  have hstep : skipStep false (step.bracket :: around) text =
      .ok ((true, step.bracket :: around), rest) := by
    refine bind_ok_iff.2 ⟨',', behind, takeToken_ok_iff.2 ⟨hcomma, rfl⟩, ?_⟩
    rw [if_neg hclosing, if_pos (beq_self_eq_true ',')]
    exact bind_ok_iff.2 ⟨(), rest, skipLead_ok_iff.2 (isLead_iff.2 ⟨step, rfl, hlead⟩), rfl⟩
  rw [skipFrom_step (fun hdone => List.cons_ne_nil _ _ hdone.2), bind_of_ok hstep]

/-! ## Numbers that are cut off -/

/-- A decoder that finds no text to be cut off. -/
def NeverCutOff (decoder : Decoder α) : Prop :=
  forall text, decoder text ≠ .error .cutOff

theorem NeverCutOff.pure (value : α) : NeverCutOff (pure value : Decoder α) :=
  fun _ => nofun

theorem NeverCutOff.bind {first : Decoder α} {next : α -> Decoder β} (hfirst : NeverCutOff first)
    (hnext : forall value, NeverCutOff (next value)) : NeverCutOff (first >>= next) := by
  intro text
  cases hresult : first text with
  | error error =>
      rw [bind_of_error hresult]
      rintro ⟨⟩
      exact hfirst text hresult
  | ok taken =>
      rw [bind_of_ok hresult]
      exact hnext taken.1 taken.2

theorem digits_neverCutOff : NeverCutOff digits :=
  fun _ => nofun

theorem takeIf?_neverCutOff (wanted : Char -> Bool) : NeverCutOff (takeIf? wanted) := by
  intro text
  unfold takeIf?
  split
  · exact nofun
  · split <;> exact nofun

theorem require_neverCutOff (condition : Bool) : NeverCutOff (require condition) := by
  intro text
  cases condition <;> exact nofun

theorem digit_neverCutOff : NeverCutOff (digit .malformed) := by
  intro text
  unfold digit
  split
  · exact nofun
  · split <;> exact nofun

theorem someDigits_neverCutOff : NeverCutOff (someDigits .malformed) :=
  digit_neverCutOff.bind fun _ => digits_neverCutOff.bind fun _ => .pure _

theorem fractionPart_neverCutOff : NeverCutOff (fractionPart .malformed) := by
  refine (takeIf?_neverCutOff _).bind fun point => ?_
  cases point with
  | none => exact .pure _
  | some c => exact someDigits_neverCutOff

theorem exponentPart_neverCutOff : NeverCutOff (exponentPart .malformed) := by
  refine (takeIf?_neverCutOff _).bind fun mark => ?_
  cases mark with
  | none => exact .pure _
  | some c =>
      exact (takeIf?_neverCutOff _).bind fun _ => someDigits_neverCutOff.bind fun _ => .pure _

theorem leadDigit_neverCutOff (first : Char) : NeverCutOff (leadDigit .malformed first) := by
  unfold leadDigit
  split
  · exact digit_neverCutOff
  · exact .pure _

/-- A number that is skipped is malformed where a digit is missing, also at the end. -/
theorem numeral_neverCutOff (first : Char) : NeverCutOff (Decoder.numeral .malformed first) :=
  (leadDigit_neverCutOff first).bind fun _ => digits_neverCutOff.bind fun _ =>
    (require_neverCutOff _).bind fun _ => fractionPart_neverCutOff.bind fun _ =>
      exponentPart_neverCutOff.bind fun _ => .pure _

/-- A number that ends in a mark is malformed, since it is none yet and not cut off either. -/
theorem numeral_of_isCutNumber {first : Char} (h : IsCutNumber (first :: text)) :
    Decoder.numeral .malformed first text = .error .malformed := by
  have hfirst : first = '-' \/ first.isDigit = true := by
    obtain ⟨c, more, hcons, hc⟩ := h.eq_cons
    cases hcons
    exact hc
  obtain ⟨⟨back, hnumber⟩, before, mark, hfront, hmark⟩ := h
  obtain ⟨numeral, hnumeral⟩ := numeral_of_number .malformed hnumber (avoids_nil _)
    (List.append_nil _).symm
  have hends {value : Numeral} (hvalue : Decoder.numeral .malformed first text = .ok (value, [])) :
      False := by
    obtain ⟨number, hnumber, htext⟩ := number_of_numeral hfirst hvalue
    obtain ⟨front, c, rfl, hc⟩ := endsInDigit_of_isNumber hnumber
    rw [List.append_nil, hfront] at htext
    obtain ⟨-, htext⟩ := List.append_inj' htext rfl
    cases htext
    simp only [List.mem_cons, List.not_mem_nil, or_false] at hmark
    rcases hmark with rfl | rfl | rfl | rfl | rfl <;> cases hc
  have hextends : ExtendsAt (.ofNumber True) (Decoder.numeral .malformed first) text back :=
    numeral_extends hfirst fun _ => Or.inr ⟨rfl, trivial⟩
  rcases hextends.front_of_ok hnumeral with
    ⟨behind, hwhole, hnil⟩ | hcutOff | ⟨-, value, hended⟩ | ⟨-, hmalformed⟩
  · rw [(List.append_eq_nil_iff.1 hnil.symm).1] at hwhole
    exact (hends hwhole).elim
  · exact (numeral_neverCutOff first text hcutOff).elim
  · exact (hends hended).elim
  · exact hmalformed

end Decoder

namespace RawJson

open Decoder

/-- Skipping a text comes to the place of each value. -/
theorem IsAt.skipValue_eq {text place : Text} {path : List Step} (h : IsAt text path place)
    (hplace : IsPlaced place) :
    skipValue text = skipFrom true (path.map Step.bracket) place := by
  induction h with
  | whole => rfl
  | @first path step outer inside after h hopen hlead ih =>
      rw [ih ⟨_, _, hopen, beginsValue_opening _⟩, List.map_cons]
      exact skipFrom_opening _ hopen hlead hplace
  | @next path step other outer after behind start document h hvalue hcomma hbracket hlead ih =>
      rw [ih (isPlaced_of_begins hvalue), List.map_cons, List.map_cons,
        skipFrom_value hvalue (ends_of_isBlank (by decide) hcomma), ← hbracket]
      exact skipFrom_comma _ hcomma hlead

/-- The converse: skipping a text that ends in such a number finds the number malformed. -/
theorem EndsInNumber.skipValue_eq {text : Text} {path : List Step} (h : EndsInNumber text path) :
    skipValue text = .error .malformed := by
  obtain ⟨place, front, hplace, hblank, hcut⟩ := h
  obtain ⟨c, rest, rfl, hc⟩ := hcut.eq_cons
  have hbegins : BeginsValue c := by
    rcases hc with rfl | hdigit
    · exact Or.inl (by decide)
    · exact Or.inr hdigit
  have hbracket : bracketOf? c = none := by
    rcases hc with rfl | hdigit
    · rfl
    · rw [bracketOf?, if_neg (by simpa using Lexeme.ne_of_member hdigit rfl),
        if_neg (by simpa using Lexeme.ne_of_member hdigit rfl)]
  have hopen : ¬ (true = false /\ path.map Step.bracket = []) := fun hdone =>
    Bool.noConfusion hdone.1
  have hatom : skipAtom c rest = .error .malformed := by
    rw [skipAtom_numeral hc, bind_of_error (numeral_of_isCutNumber hcut)]
  rw [hplace.skipValue_eq ⟨c, rest, hblank, hbegins⟩, skipFrom_step hopen, skipStep_value_eq,
    bind_assoc, bind_of_ok (takeToken_ok_iff.2 ⟨hblank, hbegins.apart.1⟩), hbracket]
  exact bind_of_error (bind_of_error hatom _) _

end RawJson

end TranslationKeys
