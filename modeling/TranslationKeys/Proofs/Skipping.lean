import TranslationKeys.Proofs.Decoders

/-!
# Skipped values

Skipping a value succeeds exactly on the values of the grammar, however deep they
are.  The state of the skipping is whether a value must come next and which
brackets are open.  `Demands` says what such a state still needs of the text.
One step turns what a state needs into what the next one needs, and back, and
takes at least one character.
-/

namespace TranslationKeys

open RawJson
open Lexeme (Avoids)

namespace Decoder

variable {α β : Type} {text rest : Text}

/-! ## Decoders only take -/

/-- A decoder leaves no more of a text than there was. -/
def Shrinks (decoder : Decoder α) : Prop :=
  forall text value rest, decoder text = .ok (value, rest) -> rest.length <= text.length

theorem Shrinks.pure (value : α) : Shrinks (pure value : Decoder α) := by
  intro text result rest h
  obtain ⟨_, rfl⟩ := pure_ok_iff.1 h
  exact Nat.le_refl _

theorem Shrinks.throw (error : DecodeError) : Shrinks (throw error : Decoder α) := by
  intro text result rest h
  exact (throw_ok_iff.1 h).elim

theorem Shrinks.bind {first : Decoder α} {next : α -> Decoder β} (hfirst : Shrinks first)
    (hnext : forall value, Shrinks (next value)) : Shrinks (first >>= next) := by
  intro text result rest h
  obtain ⟨value, between, h, hrest⟩ := bind_ok_iff.1 h
  exact Nat.le_trans (hnext value between result rest hrest) (hfirst text value between h)

theorem Shrinks.ite {condition : Prop} [Decidable condition] {first second : Decoder α}
    (hfirst : condition -> Shrinks first) (hsecond : ¬ condition -> Shrinks second) :
    Shrinks (if condition then first else second) := by
  split
  · exact hfirst ‹_›
  · exact hsecond ‹_›

theorem takeToken_length_lt {c : Char} (h : takeToken text = .ok (c, rest)) :
    rest.length < text.length :=
  (takeToken_ok_iff.1 h).1.isSuffix.length_le

theorem shrinks_take : Shrinks take := by
  intro text c rest h
  rw [take_ok_iff.1 h]
  exact Nat.le_succ _

theorem shrinks_takeToken : Shrinks takeToken :=
  fun _ _ _ h => Nat.le_of_lt (takeToken_length_lt h)

theorem shrinks_peekToken : Shrinks peekToken :=
  fun _ _ _ h => (peekToken_ok_iff.1 h).1.isSuffix.length_le

theorem shrinks_require (condition : Bool) : Shrinks (require condition) := by
  intro text _ rest h
  exact Nat.le_of_eq (congrArg List.length (require_ok_iff.1 h).2.symm)

theorem shrinks_expectToken (wanted : Char) : Shrinks (expectToken wanted) :=
  shrinks_takeToken.bind fun _ => shrinks_require _

theorem shrinks_literal (word : Text) : Shrinks (literal word) := by
  intro text _ rest h
  rw [literal_ok_iff.1 h, List.length_append]
  exact Nat.le_add_left _ _

theorem shrinks_skippedString : Shrinks skippedString := by
  intro text _ rest h
  obtain ⟨body, _, rfl⟩ := skippedString_ok_iff.1 h
  simp only [List.length_append, List.length_cons]
  omega

theorem shrinks_numeral (missing : DecodeError) {first : Char}
    (hfirst : first = '-' \/ first.isDigit = true) :
    Shrinks (Decoder.numeral missing first) := by
  intro text numeral rest h
  obtain ⟨number, hnumber, htext⟩ := number_of_numeral hfirst h
  obtain ⟨c, more, rfl, _⟩ := hnumber.eq_cons
  have hlength := congrArg List.length htext
  simp only [List.length_append, List.length_cons] at hlength
  omega

theorem beginsNumber_eq_true_iff {first : Char} :
    (first == '-' || first.isDigit) = true <-> first = '-' \/ first.isDigit = true := by
  rw [Bool.or_eq_true, beq_iff_eq]

theorem shrinks_skipAtom (first : Char) : Shrinks (skipAtom first) := by
  unfold skipAtom
  refine .ite (fun _ => shrinks_literal _) fun _ => ?_
  refine .ite (fun _ => shrinks_literal _) fun _ => ?_
  refine .ite (fun _ => shrinks_literal _) fun _ => ?_
  refine .ite (fun _ => shrinks_skippedString) fun _ => ?_
  refine .ite (fun hfirst => ?_) fun _ => .throw _
  exact (shrinks_numeral _ (beginsNumber_eq_true_iff.1 hfirst)).bind fun _ => .pure _

theorem shrinks_skipLead (bracket : Bracket) : Shrinks (skipLead bracket) := by
  cases bracket with
  | array => exact .pure _
  | object =>
      exact (shrinks_expectToken _).bind fun _ =>
        shrinks_skippedString.bind fun _ => shrinks_expectToken _

theorem shrinks_skipOpening (bracket : Bracket) (around : List Bracket) :
    Shrinks (skipOpening bracket around) := by
  refine shrinks_peekToken.bind fun _ => .ite (fun _ => ?_) fun _ => ?_
  · exact shrinks_take.bind fun _ => .pure _
  · exact (shrinks_skipLead bracket).bind fun _ => .pure _

/-- A step takes at least one character unless nothing is left to skip. -/
theorem skipStep_length_lt {wanted : Bool} {around : List Bracket} {next : Bool × List Bracket}
    (hopen : ¬ (wanted = false /\ around = []))
    (h : skipStep wanted around text = .ok (next, rest)) : rest.length < text.length := by
  rcases wanted with _ | _
  · rcases around with _ | ⟨bracket, around⟩
    · exact absurd ⟨rfl, rfl⟩ hopen
    · obtain ⟨c, between, htoken, hnext⟩ := bind_ok_iff.1 h
      refine Nat.lt_of_le_of_lt ?_ (takeToken_length_lt htoken)
      refine Shrinks.ite (fun _ => .pure _) (fun _ => ?_) between next rest hnext
      exact .ite (fun _ => (shrinks_skipLead bracket).bind fun _ => .pure _) fun _ => .throw _
  · obtain ⟨c, between, htoken, hnext⟩ := bind_ok_iff.1 h
    refine Nat.lt_of_le_of_lt ?_ (takeToken_length_lt htoken)
    refine Shrinks.ite (fun _ => shrinks_skipOpening _ _) (fun _ => ?_) between next rest hnext
    refine .ite (fun _ => shrinks_skipOpening _ _) fun _ => ?_
    exact (shrinks_skipAtom c).bind fun _ => .pure _

/-! ## Values without brackets -/

theorem isValue_of_skipAtom {first : Char} {result : Unit}
    (h : skipAtom first text = .ok (result, rest)) :
    exists document, IsValue document (first :: text) rest := by
  unfold skipAtom at h
  split at h
  · rename_i hfirst
    rw [beq_iff_eq.1 hfirst, literal_ok_iff.1 h]
    exact ⟨.null, .null⟩
  · split at h
    · rename_i hfirst
      rw [beq_iff_eq.1 hfirst, literal_ok_iff.1 h]
      exact ⟨.boolean true, .boolean true⟩
    · split at h
      · rename_i hfirst
        rw [beq_iff_eq.1 hfirst, literal_ok_iff.1 h]
        exact ⟨.boolean false, .boolean false⟩
      · split at h
        · rename_i hfirst
          obtain ⟨body, hbody, rfl⟩ := skippedString_ok_iff.1 h
          rw [beq_iff_eq.1 hfirst]
          exact ⟨.string body, .string hbody⟩
        · split at h
          · rename_i hfirst
            obtain ⟨numeral, between, hnumeral, hend⟩ := bind_ok_iff.1 h
            obtain ⟨_, rfl⟩ := pure_ok_iff.1 hend
            obtain ⟨number, hnumber, htext⟩ :=
              number_of_numeral (beginsNumber_eq_true_iff.1 hfirst) hnumeral
            rw [htext]
            exact ⟨.number number, .number hnumber⟩
          · exact (throw_ok_iff.1 h).elim

/-- The character that a number begins with is no other mark. -/
theorem beq_eq_false_of_beginsNumber {first : Char} (h : first = '-' \/ first.isDigit = true)
    (c : Char) (hc : ¬ (c = '-' \/ c.isDigit = true)) : (first == c) = false :=
  beq_eq_false_iff_ne.2 fun heq => hc (heq ▸ h)

theorem skipAtom_numeral {first : Char} (h : first = '-' \/ first.isDigit = true) :
    skipAtom first = (do let _ <- Decoder.numeral .malformed first) := by
  have hne := beq_eq_false_of_beginsNumber h
  unfold skipAtom
  rw [hne 'n' (by decide), hne 't' (by decide), hne 'f' (by decide), hne '\x22' (by decide),
    beginsNumber_eq_true_iff.2 h]
  rfl

/-- Values without brackets are skipped if the text behind them does not go on with a number. -/
theorem skipAtom_of_isValue {first : Char} {document : RawJson}
    (hfirst : first ≠ '[' /\ first ≠ '{') (hrest : Avoids continuesNumber rest)
    (h : IsValue document (first :: text) rest) : skipAtom first text = .ok ((), rest) := by
  generalize htext : first :: text = whole at h
  cases h with
  | null =>
      cases htext
      exact literal_ok_iff.2 rfl
  | boolean value =>
      cases value with
      | true =>
          cases htext
          exact literal_ok_iff.2 rfl
      | false =>
          cases htext
          exact literal_ok_iff.2 rfl
  | number hnumber =>
      obtain ⟨numeral, hnumeral⟩ := numeral_of_number .malformed hnumber hrest htext
      have hbegins : first = '-' \/ first.isDigit = true := by
        obtain ⟨c, more, rfl, hc⟩ := hnumber.eq_cons
        cases htext
        exact hc
      rw [skipAtom_numeral hbegins]
      exact bind_ok_iff.2 ⟨numeral, rest, hnumeral, rfl⟩
  | string hbody =>
      cases htext
      exact skippedString_ok_iff.2 ⟨_, hbody, rfl⟩
  | emptyArray hend =>
      cases htext
      exact absurd rfl hfirst.1
  | array hblank hitem hitems =>
      cases htext
      exact absurd rfl hfirst.1
  | emptyObject hend =>
      cases htext
      exact absurd rfl hfirst.2
  | object hkey hblank hvalue hmembers =>
      cases htext
      exact absurd rfl hfirst.2

/-! ## Brackets -/

def Bracket.opening : Bracket -> Char
  | .array => '['
  | .object => '{'

/-- What stands in front of a value inside a bracket: in an object its key. -/
def IsLead : Bracket -> Text -> Text -> Prop
  | .array, text, rest => text = rest
  | .object, text, rest => exists key, IsKey key text rest

/-- What may follow a value inside a bracket, up to the end of the bracket. -/
def Completes : Bracket -> Text -> Text -> Prop
  | .array, text, rest => exists items, AreMoreItems items text rest
  | .object, text, rest => exists members, AreMoreMembers members text rest

/-- Blank characters, a value and what completes the bracket around it. -/
def Continues (bracket : Bracket) (text rest : Text) : Prop :=
  exists document between, Begins document text between /\ Completes bracket between rest

/-- The values of a bracket, at least one of them, up to its end. -/
def Fills (bracket : Bracket) (text rest : Text) : Prop :=
  exists after, IsLead bracket text after /\ Continues bracket after rest

theorem closing_apart (bracket : Bracket) :
    isJsonSpace bracket.closing = false /\ bracket.closing ≠ ',' := by
  cases bracket <;> decide

theorem isValue_opening_iff (bracket : Bracket) :
    (exists document, IsValue document (bracket.opening :: text) rest) <->
      IsBlank text (bracket.closing :: rest) \/ Fills bracket text rest := by
  constructor
  · rintro ⟨document, h⟩
    generalize htext : bracket.opening :: text = whole at h
    cases h with
    | null => cases bracket <;> cases htext
    | boolean value => cases bracket <;> cases value <;> cases htext
    | number hnumber =>
        obtain ⟨c, more, rfl, rfl | hdigit⟩ := hnumber.eq_cons
        · cases bracket <;> cases htext
        · cases bracket <;> cases htext <;> cases hdigit
    | string => cases bracket <;> cases htext
    | emptyArray hend =>
        cases bracket <;> cases htext
        exact Or.inl hend
    | array hblank hitem hitems =>
        cases bracket <;> cases htext
        exact Or.inr ⟨_, rfl, _, _, ⟨_, hblank, hitem⟩, _, hitems⟩
    | emptyObject hend =>
        cases bracket <;> cases htext
        exact Or.inl hend
    | object hkey hblank hvalue hmembers =>
        cases bracket <;> cases htext
        exact Or.inr ⟨_, ⟨_, hkey⟩, _, _, ⟨_, hblank, hvalue⟩, _, hmembers⟩
  · cases bracket with
    | array =>
        rintro (hend | ⟨_, rfl, _, _, ⟨_, hblank, hitem⟩, _, hitems⟩)
        · exact ⟨_, .emptyArray hend⟩
        · exact ⟨_, .array hblank hitem hitems⟩
    | object =>
        rintro (hend | ⟨_, ⟨_, hkey⟩, _, _, ⟨_, hblank, hvalue⟩, _, hmembers⟩)
        · exact ⟨_, .emptyObject hend⟩
        · exact ⟨_, .object hkey hblank hvalue hmembers⟩

theorem completes_iff (bracket : Bracket) :
    Completes bracket text rest <->
      IsBlank text (bracket.closing :: rest) \/
        exists behind, IsBlank text (',' :: behind) /\ Fills bracket behind rest := by
  cases bracket with
  | array =>
      constructor
      · rintro ⟨items, hend | ⟨hcomma, hblank, hitem, hitems⟩⟩
        · exact Or.inl hend
        · exact Or.inr ⟨_, hcomma, _, rfl, _, _, ⟨_, hblank, hitem⟩, _, hitems⟩
      · rintro (hend | ⟨behind, hcomma, _, rfl, _, _, ⟨_, hblank, hitem⟩, _, hitems⟩)
        · exact ⟨_, .close hend⟩
        · exact ⟨_, .comma hcomma hblank hitem hitems⟩
  | object =>
      constructor
      · rintro ⟨members, hend | ⟨hcomma, hkey, hblank, hvalue, hmembers⟩⟩
        · exact Or.inl hend
        · exact Or.inr ⟨_, hcomma, _, ⟨_, hkey⟩, _, _, ⟨_, hblank, hvalue⟩, _, hmembers⟩
      · rintro (hend | ⟨behind, hcomma, _, ⟨_, hkey⟩, _, _, ⟨_, hblank, hvalue⟩, _, hmembers⟩)
        · exact ⟨_, .close hend⟩
        · exact ⟨_, .comma hcomma hkey hblank hvalue hmembers⟩

theorem skipLead_ok_iff {bracket : Bracket} {result : Unit} :
    skipLead bracket text = .ok (result, rest) <-> IsLead bracket text rest := by
  cases bracket with
  | array => simp [skipLead, pure_ok_iff, IsLead]
  | object =>
      simp only [skipLead, skipKey, bind_ok_iff, IsLead, IsKey, skippedString_ok_iff,
        expectToken_ok_iff (show isJsonSpace '\x22' = false by rfl),
        expectToken_ok_iff (show isJsonSpace ':' = false by rfl)]
      constructor
      · rintro ⟨_, _, hquote, _, _, ⟨key, hkey, rfl⟩, hcolon⟩
        exact ⟨key, _, hkey, hquote, hcolon⟩
      · rintro ⟨key, after, hkey, hquote, hcolon⟩
        exact ⟨(), _, hquote, (), after, ⟨key, hkey, rfl⟩, hcolon⟩

/-- Blank characters in front of the values of a bracket make no difference. -/
theorem fills_congr (bracket : Bracket) {start : Text} (h : IsBlank text start) :
    Fills bracket text rest <-> Fills bracket start rest := by
  cases bracket with
  | array =>
      constructor
      · rintro ⟨_, rfl, document, between, ⟨first, hblank, hvalue⟩, hcompletes⟩
        have hstart : IsBlank start first :=
          (h.congr hvalue.avoids_space).1 hblank
        exact ⟨_, rfl, document, between, ⟨first, hstart, hvalue⟩, hcompletes⟩
      · rintro ⟨_, rfl, document, between, ⟨first, hblank, hvalue⟩, hcompletes⟩
        exact ⟨_, rfl, document, between, ⟨first, h.trans hblank, hvalue⟩, hcompletes⟩
  | object =>
      constructor
      · rintro ⟨after, ⟨key, between, hkey, hquote, hcolon⟩, hcontinues⟩
        have hstart := (h.congr (avoids_cons.2 rfl)).1 hquote
        exact ⟨after, ⟨key, between, hkey, hstart, hcolon⟩, hcontinues⟩
      · rintro ⟨after, ⟨key, between, hkey, hquote, hcolon⟩, hcontinues⟩
        exact ⟨after, ⟨key, between, hkey, h.trans hquote, hcolon⟩, hcontinues⟩

/-- The values of a bracket do not begin with its end. -/
theorem Fills.token {bracket : Bracket} (h : Fills bracket text rest) :
    exists c more, IsBlank text (c :: more) /\ isJsonSpace c = false /\
      c ≠ bracket.closing := by
  cases bracket with
  | array =>
      obtain ⟨_, rfl, document, between, ⟨first, hblank, hvalue⟩, -⟩ := h
      obtain ⟨c, more, rfl, hc⟩ := hvalue.eq_cons
      exact ⟨c, more, hblank, hc.apart.1, hc.apart.2.1⟩
  | object =>
      obtain ⟨after, ⟨key, between, -, hquote, -⟩, -⟩ := h
      exact ⟨_, _, hquote, rfl, by decide⟩

/-! ## States of skipping -/

/-- What the brackets that are open around a value still need of the text behind it. -/
def Closes : List Bracket -> Text -> Text -> Prop
  | [], text, rest => text = rest
  | bracket :: around, text, rest =>
      exists between, Completes bracket text between /\ Closes around between rest

/-- What a state of skipping still needs of the text. -/
def Demands (wanted : Bool) (around : List Bracket) (text rest : Text) : Prop :=
  match wanted with
  | true => exists document between, Begins document text between /\ Closes around between rest
  | false => Closes around text rest

theorem continuesNumber_apart {c : Char} (h : isJsonSpace c = true \/ c ∈ [',', ']', '}']) :
    continuesNumber c = false := by
  rcases h with hspace | hmember
  · simp only [isJsonSpace, Bool.or_eq_true, beq_iff_eq] at hspace
    rcases hspace with ((rfl | rfl) | rfl) | rfl <;> rfl
  · simp only [List.mem_cons, List.not_mem_nil, or_false] at hmember
    rcases hmember with rfl | rfl | rfl <;> rfl

theorem ends_of_isBlank {c : Char} (hc : c ∈ [',', ']', '}']) (h : IsBlank text (c :: rest)) :
    Avoids continuesNumber text := by
  obtain ⟨blank, hblank, rfl⟩ := h
  cases blank with
  | nil => exact avoids_cons.2 (continuesNumber_apart (Or.inr hc))
  | cons d more =>
      exact avoids_cons.2 (continuesNumber_apart (Or.inl (hblank d List.mem_cons_self)))

/-- No bracket goes on with a number right behind a value. -/
theorem Completes.ends {bracket : Bracket} (h : Completes bracket text rest) :
    Avoids continuesNumber text := by
  rcases (completes_iff bracket).1 h with hend | ⟨behind, hcomma, -⟩
  · exact ends_of_isBlank (by cases bracket <;> decide) hend
  · exact ends_of_isBlank (by decide) hcomma

theorem Closes.ends {around : List Bracket} (h : Closes around text rest)
    (hrest : Avoids continuesNumber rest) : Avoids continuesNumber text := by
  cases around with
  | nil => exact h.symm ▸ hrest
  | cons bracket around =>
      obtain ⟨between, hcompletes, -⟩ := h
      exact hcompletes.ends

theorem fills_and_closes_iff {bracket : Bracket} {around : List Bracket} :
    (exists between, Fills bracket text between /\ Closes around between rest) <->
      exists after, IsLead bracket text after /\ Demands true (bracket :: around) after rest := by
  constructor
  · rintro ⟨last, ⟨after, hlead, document, between, hbegins, hcompletes⟩, hcloses⟩
    exact ⟨after, hlead, document, between, hbegins, last, hcompletes, hcloses⟩
  · rintro ⟨after, hlead, document, between, hbegins, last, hcompletes, hcloses⟩
    exact ⟨last, ⟨after, hlead, document, between, hbegins, hcompletes⟩, hcloses⟩

/-! ## Steps -/

/-- A step of skipping succeeds, and the next state needs what is left up to the given rest. -/
def StepsTo (step : Decoder (Bool × List Bracket)) (text rest : Text) : Prop :=
  exists next between, step text = .ok (next, between) /\ Demands next.1 next.2 between rest

theorem skipOpening_stepsTo_iff (bracket : Bracket) {around : List Bracket} :
    StepsTo (skipOpening bracket around) text rest <->
      exists document between, IsValue document (bracket.opening :: text) between /\
        Closes around between rest := by
  constructor
  · rintro ⟨next, between, hopening, hdemands⟩
    obtain ⟨c, start, hpeek, hnext⟩ := bind_ok_iff.1 hopening
    obtain ⟨hblank, hhead, -⟩ := peekToken_ok_iff.1 hpeek
    split at hnext
    · rename_i hclosing
      obtain ⟨d, after, htake, hend⟩ := bind_ok_iff.1 hnext
      obtain ⟨rfl, rfl⟩ := pure_ok_iff.1 hend
      rw [take_ok_iff.1 htake] at hblank hhead
      cases hhead
      rw [beq_iff_eq.1 hclosing] at hblank
      obtain ⟨document, hvalue⟩ := (isValue_opening_iff bracket).2 (Or.inl hblank)
      exact ⟨document, after, hvalue, hdemands⟩
    · obtain ⟨_, after, hlead, hend⟩ := bind_ok_iff.1 hnext
      obtain ⟨rfl, rfl⟩ := pure_ok_iff.1 hend
      obtain ⟨last, hfills, hcloses⟩ :=
        fills_and_closes_iff.2 ⟨after, skipLead_ok_iff.1 hlead, hdemands⟩
      obtain ⟨document, hvalue⟩ :=
        (isValue_opening_iff bracket).2 (Or.inr ((fills_congr bracket hblank).2 hfills))
      exact ⟨document, last, hvalue, hcloses⟩
  · rintro ⟨document, last, hvalue, hcloses⟩
    rcases (isValue_opening_iff bracket).1 ⟨document, hvalue⟩ with hend | hfills
    · refine ⟨(false, around), last, bind_ok_iff.2 ⟨bracket.closing, bracket.closing :: last,
        peekToken_ok_iff.2 ⟨hend, rfl, (closing_apart bracket).1⟩, ?_⟩, hcloses⟩
      rw [if_pos (beq_self_eq_true _)]
      rfl
    · obtain ⟨c, more, htoken, hc, hne⟩ := hfills.token
      obtain ⟨after, hlead, hdemands⟩ :=
        fills_and_closes_iff.1 ⟨last, (fills_congr bracket htoken).1 hfills, hcloses⟩
      refine ⟨(true, bracket :: around), after, bind_ok_iff.2 ⟨c, c :: more,
        peekToken_ok_iff.2 ⟨htoken, rfl, hc⟩, ?_⟩, hdemands⟩
      rw [if_neg (beq_eq_false_iff_ne.2 hne ▸ Bool.false_ne_true)]
      exact bind_ok_iff.2 ⟨(), after, skipLead_ok_iff.2 hlead, rfl⟩

/-- The bracket that a character opens, if it opens one. -/
def bracketOf? (c : Char) : Option Bracket :=
  if c == '[' then some .array
  else if c == '{' then some .object
  else none

theorem bracketOf?_eq_some_iff {c : Char} {bracket : Bracket} :
    bracketOf? c = some bracket <-> c = bracket.opening := by
  constructor
  · intro h
    unfold bracketOf? at h
    split at h
    · cases h
      exact beq_iff_eq.1 ‹_›
    · split at h
      · cases h
        exact beq_iff_eq.1 ‹_›
      · cases h
  · rintro rfl
    cases bracket <;> rfl

theorem ne_opening_of_bracketOf? {c : Char} (h : bracketOf? c = none) : c ≠ '[' /\ c ≠ '{' := by
  constructor
  · rintro rfl
    cases h
  · rintro rfl
    cases h

/-- A value is a bracket that opens, or it is skipped in one step. -/
theorem skipStep_value_eq (around : List Bracket) :
    skipStep true around = (do
      let c <- takeToken
      match bracketOf? c with
      | some bracket => skipOpening bracket around
      | none =>
          skipAtom c
          return (false, around)) := by
  unfold skipStep
  refine congrArg (takeToken >>= ·) (funext fun c => ?_)
  unfold bracketOf?
  split
  · rfl
  · split <;> rfl

/-- The step that takes the first character of a value. -/
theorem skipStep_value_iff {around : List Bracket} (hrest : Avoids continuesNumber rest) :
    StepsTo (skipStep true around) text rest <-> Demands true around text rest := by
  rw [skipStep_value_eq]
  constructor
  · rintro ⟨next, between, hstep, hdemands⟩
    obtain ⟨c, after, htoken, hnext⟩ := bind_ok_iff.1 hstep
    have hblank := (takeToken_ok_iff.1 htoken).1
    cases hbracket : bracketOf? c with
    | some bracket =>
        rw [hbracket] at hnext
        obtain ⟨document, last, hvalue, hcloses⟩ :=
          (skipOpening_stepsTo_iff bracket).1 ⟨next, between, hnext, hdemands⟩
        rw [bracketOf?_eq_some_iff.1 hbracket] at hblank
        exact ⟨document, last, ⟨_, hblank, hvalue⟩, hcloses⟩
    | none =>
        rw [hbracket] at hnext
        obtain ⟨_, last, hatom, hend⟩ := bind_ok_iff.1 hnext
        obtain ⟨rfl, rfl⟩ := pure_ok_iff.1 hend
        obtain ⟨document, hvalue⟩ := isValue_of_skipAtom hatom
        exact ⟨document, last, ⟨_, hblank, hvalue⟩, hdemands⟩
  · rintro ⟨document, last, ⟨start, hblank, hvalue⟩, hcloses⟩
    obtain ⟨c, more, rfl, hc⟩ := hvalue.eq_cons
    have htoken : takeToken text = .ok (c, more) := takeToken_ok_iff.2 ⟨hblank, hc.apart.1⟩
    cases hbracket : bracketOf? c with
    | some bracket =>
        rw [bracketOf?_eq_some_iff.1 hbracket] at hvalue
        obtain ⟨next, between, hopening, hdemands⟩ :=
          (skipOpening_stepsTo_iff bracket).2 ⟨document, last, hvalue, hcloses⟩
        refine ⟨next, between, bind_ok_iff.2 ⟨c, more, htoken, ?_⟩, hdemands⟩
        rw [hbracket]
        exact hopening
    | none =>
        have hatom := skipAtom_of_isValue (ne_opening_of_bracketOf? hbracket)
          (hcloses.ends hrest) hvalue
        refine ⟨(false, around), last, bind_ok_iff.2 ⟨c, more, htoken, ?_⟩, hcloses⟩
        rw [hbracket]
        exact bind_ok_iff.2 ⟨(), last, hatom, rfl⟩

/-- The step behind a value inside a bracket. -/
theorem skipStep_bracket_iff {bracket : Bracket} {around : List Bracket} :
    StepsTo (skipStep false (bracket :: around)) text rest <->
      Demands false (bracket :: around) text rest := by
  constructor
  · rintro ⟨next, between, hstep, hdemands⟩
    obtain ⟨c, after, htoken, hnext⟩ := bind_ok_iff.1 hstep
    have hblank := (takeToken_ok_iff.1 htoken).1
    split at hnext
    · rename_i hc
      obtain ⟨rfl, rfl⟩ := pure_ok_iff.1 hnext
      rw [beq_iff_eq.1 hc] at hblank
      exact ⟨after, (completes_iff bracket).2 (Or.inl hblank), hdemands⟩
    · split at hnext
      · rename_i hc
        obtain ⟨_, behind, hlead, hend⟩ := bind_ok_iff.1 hnext
        obtain ⟨rfl, rfl⟩ := pure_ok_iff.1 hend
        rw [beq_iff_eq.1 hc] at hblank
        obtain ⟨last, hfills, hcloses⟩ :=
          fills_and_closes_iff.2 ⟨behind, skipLead_ok_iff.1 hlead, hdemands⟩
        exact ⟨last, (completes_iff bracket).2 (Or.inr ⟨after, hblank, hfills⟩), hcloses⟩
      · exact (throw_ok_iff.1 hnext).elim
  · rintro ⟨last, hcompletes, hcloses⟩
    rcases (completes_iff bracket).1 hcompletes with hend | ⟨behind, hcomma, hfills⟩
    · refine ⟨(false, around), last, bind_ok_iff.2 ⟨bracket.closing, last,
        takeToken_ok_iff.2 ⟨hend, (closing_apart bracket).1⟩, ?_⟩, hcloses⟩
      rw [if_pos (beq_self_eq_true _)]
      rfl
    · obtain ⟨after, hlead, hdemands⟩ := fills_and_closes_iff.1 ⟨last, hfills, hcloses⟩
      refine ⟨(true, bracket :: around), after, bind_ok_iff.2 ⟨',', behind,
        takeToken_ok_iff.2 ⟨hcomma, rfl⟩, ?_⟩, hdemands⟩
      rw [if_neg (by simpa using (closing_apart bracket).2.symm)]
      exact bind_ok_iff.2 ⟨(), after, skipLead_ok_iff.2 hlead, rfl⟩

/-- The step lemma: a step succeeds on what its state needs, and leaves what the next one needs. -/
theorem skipStep_iff {wanted : Bool} {around : List Bracket}
    (hopen : ¬ (wanted = false /\ around = [])) (hrest : Avoids continuesNumber rest) :
    StepsTo (skipStep wanted around) text rest <-> Demands wanted around text rest := by
  rcases wanted with _ | _
  · rcases around with _ | ⟨bracket, around⟩
    · exact absurd ⟨rfl, rfl⟩ hopen
    · exact skipStep_bracket_iff
  · exact skipStep_value_iff hrest

/-! ## Whole values -/

theorem skipRest_cons (c : Char) (bound : Text) {wanted : Bool} {around : List Bracket}
    (hopen : ¬ (wanted = false /\ around = [])) :
    skipRest (c :: bound) wanted around = (do
      let next <- skipStep wanted around
      skipRest bound next.1 next.2) := by
  rcases wanted with _ | _
  · rcases around with _ | ⟨bracket, around⟩
    · exact absurd ⟨rfl, rfl⟩ hopen
    · rfl
  · rfl

theorem not_demands_nil {wanted : Bool} {around : List Bracket}
    (hopen : ¬ (wanted = false /\ around = [])) : ¬ Demands wanted around [] rest := by
  rcases wanted with _ | _
  · rcases around with _ | ⟨bracket, around⟩
    · exact absurd ⟨rfl, rfl⟩ hopen
    · rintro ⟨between, hcompletes, -⟩
      rcases (completes_iff bracket).1 hcompletes with hend | ⟨behind, hcomma, -⟩
      · exact hend.ne_nil rfl
      · exact hcomma.ne_nil rfl
  · rintro ⟨document, between, ⟨start, hblank, hvalue⟩, -⟩
    obtain ⟨c, more, rfl, -⟩ := hvalue.eq_cons
    exact hblank.ne_nil rfl

/-- The run lemma: skipping succeeds exactly on the texts that give its state what it needs. -/
theorem skipRest_ok_iff {bound : Text} {wanted : Bool} {around : List Bracket}
    (hbound : text.length <= bound.length) (hrest : Avoids continuesNumber rest)
    {result : Unit} :
    skipRest bound wanted around text = .ok (result, rest) <->
      Demands wanted around text rest := by
  induction bound generalizing text wanted around with
  | nil =>
      by_cases hdone : wanted = false /\ around = []
      · obtain ⟨rfl, rfl⟩ := hdone
        simp [skipRest, pure_ok_iff, Demands, Closes]
      · have hnil : text = [] := List.eq_nil_of_length_eq_zero (Nat.le_zero.1 hbound)
        subst hnil
        constructor
        · intro h
          rcases wanted with _ | _
          · rcases around with _ | ⟨bracket, around⟩
            · exact absurd ⟨rfl, rfl⟩ hdone
            · cases h
          · cases h
        · intro h
          exact absurd h (not_demands_nil hdone)
  | cons c bound ih =>
      by_cases hdone : wanted = false /\ around = []
      · obtain ⟨rfl, rfl⟩ := hdone
        simp [skipRest, pure_ok_iff, Demands, Closes]
      · rw [skipRest_cons c bound hdone, bind_ok_iff, ← skipStep_iff hdone hrest]
        refine exists_congr fun next => exists_congr fun between =>
          and_congr_right fun hstep => ih ?_
        have hlength := skipStep_length_lt hdone hstep
        rw [List.length_cons] at hbound
        omega

/-- Skipping takes exactly a value off a text that does not go on with a number behind it. -/
theorem skipValue_ok_iff (hrest : Avoids continuesNumber rest) {result : Unit} :
    skipValue text = .ok (result, rest) <-> exists document, Begins document text rest := by
  refine (skipRest_ok_iff (Nat.le_refl _) hrest).trans ?_
  constructor
  · rintro ⟨document, between, hbegins, rfl⟩
    exact ⟨document, hbegins⟩
  · rintro ⟨document, hbegins⟩
    exact ⟨document, rest, hbegins, rfl⟩

end Decoder

end TranslationKeys
