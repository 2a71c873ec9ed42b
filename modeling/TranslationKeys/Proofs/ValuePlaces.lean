import TranslationKeys.Proofs.Unambiguous

/-!
# Places of values

A path names the place of a value: the keys and the items that lead to it, the
innermost first.  What stands in front of the place is read, and the text may end
anywhere behind it.  So a place is found in a text that was cut off as well as in
the whole one.

Skipping comes to the places of values.  `Reached` says where a state of skipping
stands, one step keeps it, and a bracket that closes is a value that is complete.
-/

namespace TranslationKeys

open Lexeme (Avoids)

namespace RawJson

open Decoder

/-! ## Paths -/

/-- How a value stands in its bracket: as an item, or behind a key. -/
inductive Step where
  | item
  | member (key : Text)

def Step.bracket : Step -> Bracket
  | .item => .array
  | .member _ => .object

/-- What stands between a value and the mark in front of it. -/
def Step.Leads : Step -> Text -> Text -> Prop
  | .item, text, rest => text = rest
  | .member key, text, rest => IsKey key text rest

/--
The place of a value in a text.  It is the whole text, or it stands behind an open
bracket, or behind a comma and the value in front of it.
-/
inductive IsAt (text : Text) : List Step -> Text -> Prop where
  | whole : IsAt text [] text
  | first {path : List Step} {step : Step} {place inside after : Text}
      (h : IsAt text path place) (hopen : IsBlank place (step.bracket.opening :: inside))
      (hlead : step.Leads inside after) : IsAt text (step :: path) after
  | next {path : List Step} {step other : Step} {place after behind start : Text}
      {document : RawJson} (h : IsAt text (step :: path) place)
      (hvalue : Begins document place after) (hcomma : IsBlank after (',' :: behind))
      (hbracket : other.bracket = step.bracket) (hlead : other.Leads behind start) :
      IsAt text (other :: path) start

/-- A number that is cut off right behind its sign, its point or the mark of its exponent. -/
def IsCutNumber (front : Text) : Prop :=
  (exists back, IsNumber (front ++ back)) /\
    exists before mark, front = before ++ [mark] /\ mark ∈ ['-', '+', '.', 'e', 'E']

/-- A text ends inside the number at a path, where nothing but a digit or a sign can follow. -/
def EndsInNumber (text : Text) (path : List Step) : Prop :=
  exists place front, IsAt text path place /\ IsBlank place front /\ IsCutNumber front

theorem IsCutNumber.eq_cons {front : Text} (h : IsCutNumber front) :
    exists first more, front = first :: more /\ (first = '-' \/ first.isDigit = true) := by
  obtain ⟨⟨back, hnumber⟩, before, mark, rfl, -⟩ := h
  obtain ⟨first, more, hfirst⟩ := List.exists_cons_of_ne_nil
    (List.append_ne_nil_of_right_ne_nil before (List.cons_ne_nil mark []))
  obtain ⟨c, rest, hcons, hc⟩ := hnumber.eq_cons
  rw [hfirst] at hcons
  cases hcons
  exact ⟨first, more, hfirst, hc⟩

theorem isLead_iff {bracket : Bracket} {text rest : Text} :
    IsLead bracket text rest <-> exists step : Step, step.bracket = bracket /\
      step.Leads text rest := by
  cases bracket with
  | array =>
      constructor
      · intro h
        exact ⟨.item, rfl, h⟩
      · rintro ⟨_ | key, hbracket, h⟩
        · exact h
        · cases hbracket
  | object =>
      constructor
      · rintro ⟨key, h⟩
        exact ⟨.member key, rfl, h⟩
      · rintro ⟨_ | key, hbracket, h⟩
        · cases hbracket
        · exact ⟨key, h⟩

theorem Step.eq_member {step : Step} (h : step.bracket = .object) :
    exists key, step = .member key := by
  cases step with
  | item => cases h
  | member key => exact ⟨key, rfl⟩

/-! ## Places inside places -/

theorem IsAt.trans {text place last : Text} {path inner : List Step} (h : IsAt text path place)
    (hinner : IsAt place inner last) : IsAt text (inner ++ path) last := by
  induction hinner with
  | whole => exact h
  | first _ hopen hlead ih => exact ih.first hopen hlead
  | next _ hvalue hcomma hbracket hlead ih => exact ih.next hvalue hcomma hbracket hlead

/-- A place inside a bracket lies in one of the values of the bracket. -/
theorem IsAt.exists_outermost {text place : Text} {path : List Step} {step : Step}
    (h : IsAt text (path ++ [step]) place) :
    exists value, IsAt text [step] value /\ IsAt value path place := by
  generalize hpath : path ++ [step] = whole at h
  induction h generalizing path with
  | whole => exact absurd hpath (List.append_ne_nil_of_right_ne_nil path (by simp))
  | @first _ _ _ _ after hplace hopen hlead ih =>
      cases path with
      | nil =>
          cases hpath
          exact ⟨after, hplace.first hopen hlead, .whole⟩
      | cons inner path =>
          cases hpath
          obtain ⟨value, hvalue, hinner⟩ := ih rfl
          exact ⟨value, hvalue, hinner.first hopen hlead⟩
  | @next _ last _ _ _ _ start _ hplace hbegins hcomma hbracket hlead ih =>
      cases path with
      | nil =>
          cases hpath
          exact ⟨start, hplace.next hbegins hcomma hbracket hlead, .whole⟩
      | cons inner path =>
          cases hpath
          obtain ⟨value, hvalue, hinner⟩ := @ih (last :: path) rfl
          exact ⟨value, hvalue, hinner.next hbegins hcomma hbracket hlead⟩

/--
A bracket that closes behind a complete value makes up a complete value itself,
and it stands at the outer place.
-/
theorem IsAt.closes {text place : Text} {path : List Step} {step : Step}
    (h : IsAt text (step :: path) place) :
    exists outer, IsAt text path outer /\ forall document after rest,
      Begins document place after -> Completes step.bracket after rest ->
        exists whole, Begins whole outer rest := by
  generalize hpath : step :: path = full at h
  induction h generalizing step path with
  | whole => cases hpath
  | @first _ last outer _ _ hplace hopen hlead _ =>
      cases hpath
      refine ⟨outer, hplace, fun document after rest hbegins hcompletes => ?_⟩
      obtain ⟨whole, hwhole⟩ := (isValue_opening_iff last.bracket).2
        (Or.inr ⟨_, isLead_iff.2 ⟨last, rfl, hlead⟩, document, after, hbegins, hcompletes⟩)
      exact ⟨whole, _, hopen, hwhole⟩
  | @next _ _ last _ _ behind _ _ _ hvalue hcomma hbracket hlead ih =>
      cases hpath
      obtain ⟨outer, houter, hclose⟩ := ih rfl
      refine ⟨outer, houter, fun document after rest hbegins hcompletes => ?_⟩
      have hfills : Fills last.bracket behind rest :=
        ⟨_, isLead_iff.2 ⟨last, rfl, hlead⟩, document, after, hbegins, hcompletes⟩
      rw [hbracket] at hfills
      exact hclose _ _ rest hvalue ((completes_iff _).2 (Or.inr ⟨_, hcomma, hfills⟩))

end RawJson

namespace Decoder

open RawJson

/-! ## States of skipping -/

/--
Where a state of skipping stands: in front of a value inside the open brackets, or
behind a complete one.
-/
def Reached (text : Text) : Bool -> List Bracket -> Text -> Prop
  | true, around, rest => exists path place, path.map Step.bracket = around /\
      IsAt text path place /\ IsBlank place rest
  | false, around, rest => exists path place document, path.map Step.bracket = around /\
      IsAt text path place /\ Begins document place rest

variable {text place rest : Text} {around : List Bracket} {next : Bool × List Bracket}

theorem Reached.refl (text : Text) : Reached text true [] text :=
  ⟨[], text, rfl, .whole, .refl text⟩

theorem Reached.opening {bracket : Bracket} (h : Reached text true around place)
    {inside : Text} (hblank : IsBlank place (bracket.opening :: inside))
    (hstep : skipOpening bracket around inside = .ok (next, rest)) :
    Reached text next.1 next.2 rest := by
  obtain ⟨path, start, rfl, hstart, hbefore⟩ := h
  obtain ⟨c, token, hpeek, hnext⟩ := bind_ok_iff.1 hstep
  obtain ⟨hinside, hhead, -⟩ := peekToken_ok_iff.1 hpeek
  split at hnext
  · rename_i hclosing
    obtain ⟨d, after, htake, hend⟩ := bind_ok_iff.1 hnext
    obtain ⟨rfl, rfl⟩ := pure_ok_iff.1 hend
    rw [take_ok_iff.1 htake] at hinside hhead
    cases hhead
    rw [beq_iff_eq.1 hclosing] at hinside
    obtain ⟨document, hvalue⟩ := (isValue_opening_iff bracket).2 (Or.inl hinside)
    exact ⟨path, start, document, rfl, hstart, _, hbefore.trans hblank, hvalue⟩
  · obtain ⟨_, after, hskip, hend⟩ := bind_ok_iff.1 hnext
    obtain ⟨rfl, rfl⟩ := pure_ok_iff.1 hend
    obtain ⟨step, rfl, hlead⟩ := isLead_iff.1 (skipLead_ok_iff.1 hskip)
    have hopen := hbefore.trans hblank
    -- Blank characters behind the bracket belong to the place of an item.
    cases step with
    | item =>
        cases hlead
        exact ⟨.item :: path, inside, rfl, hstart.first hopen rfl, hinside⟩
    | member key =>
        obtain ⟨behind, hkey, hquote, hcolon⟩ := hlead
        have hlead : IsKey key inside after := ⟨behind, hkey, hinside.trans hquote, hcolon⟩
        exact ⟨.member key :: path, after, rfl, hstart.first hopen hlead, .refl _⟩

/-- The step lemma: skipping goes from the place of a value to its end, or to another place. -/
theorem Reached.step {wanted : Bool} (h : Reached text wanted around place)
    (hstep : skipStep wanted around place = .ok (next, rest)) :
    Reached text next.1 next.2 rest := by
  rcases wanted with _ | _
  · rcases around with _ | ⟨bracket, around⟩
    · obtain ⟨rfl, rfl⟩ := pure_ok_iff.1 hstep
      exact h
    · obtain ⟨path, start, document, hpath, hstart, hbegins⟩ := h
      obtain ⟨step, path, rfl, rfl, rfl⟩ := List.map_eq_cons_iff.1 hpath
      obtain ⟨c, after, htoken, hnext⟩ := bind_ok_iff.1 hstep
      have hblank := (takeToken_ok_iff.1 htoken).1
      split at hnext
      · rename_i hc
        obtain ⟨rfl, rfl⟩ := pure_ok_iff.1 hnext
        rw [beq_iff_eq.1 hc] at hblank
        obtain ⟨outer, houter, hclose⟩ := hstart.closes
        obtain ⟨whole, hwhole⟩ :=
          hclose document place after hbegins ((completes_iff _).2 (Or.inl hblank))
        exact ⟨path, outer, whole, rfl, houter, hwhole⟩
      · split at hnext
        · rename_i hc
          obtain ⟨_, behind, hlead, hend⟩ := bind_ok_iff.1 hnext
          obtain ⟨rfl, rfl⟩ := pure_ok_iff.1 hend
          rw [beq_iff_eq.1 hc] at hblank
          obtain ⟨other, hbracket, hlead⟩ := isLead_iff.1 (skipLead_ok_iff.1 hlead)
          refine ⟨other :: path, behind, ?_, hstart.next hbegins hblank hbracket hlead, .refl _⟩
          rw [List.map_cons, hbracket]
        · exact (throw_ok_iff.1 hnext).elim
  · rw [skipStep_value_eq] at hstep
    obtain ⟨c, after, htoken, hnext⟩ := bind_ok_iff.1 hstep
    have hblank := (takeToken_ok_iff.1 htoken).1
    cases hbracket : bracketOf? c with
    | some bracket =>
        rw [hbracket] at hnext
        rw [bracketOf?_eq_some_iff.1 hbracket] at hblank
        exact h.opening hblank hnext
    | none =>
        rw [hbracket] at hnext
        obtain ⟨_, last, hatom, hend⟩ := bind_ok_iff.1 hnext
        obtain ⟨rfl, rfl⟩ := pure_ok_iff.1 hend
        obtain ⟨path, start, rfl, hstart, hbefore⟩ := h
        obtain ⟨document, hvalue⟩ := isValue_of_skipAtom hatom
        exact ⟨path, start, document, rfl, hstart, _, hbefore.trans hblank, hvalue⟩

end Decoder

end TranslationKeys
