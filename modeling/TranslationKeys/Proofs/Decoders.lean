import TranslationKeys.Proofs.JsonGrammar

/-!
# What decoders take

A decoder that succeeds has taken some form off the front of the text.  For each
decoder of a lexeme this file says which form that is, and that the decoder does
succeed on every text that begins with it.  A number needs a text behind it that
does not go on with the number.
-/

namespace TranslationKeys

open RawJson
open Lexeme (Avoids)

namespace Decoder

variable {α β : Type} {text rest : Text}

/-! ## Decoders in sequence -/

theorem bind_ok_iff {first : Decoder α} {next : α -> Decoder β} {result : β} :
    (first >>= next) text = .ok (result, rest) <->
      exists value between, first text = .ok (value, between) /\
        next value between = .ok (result, rest) := by
  change (first text >>= fun taken => next taken.1 taken.2) = _ <-> _
  cases first text with
  | error error => simp [bind, Except.bind]
  | ok taken =>
      obtain ⟨value, between⟩ := taken
      simp [bind, Except.bind]

theorem pure_ok_iff {value result : α} :
    (pure value : Decoder α) text = .ok (result, rest) <-> value = result /\ text = rest := by
  change Except.ok (value, text) = _ <-> _
  simp

theorem throw_ok_iff {error : DecodeError} {result : α} :
    (throw error : Decoder α) text = .ok (result, rest) <-> False := by
  change Except.error error = _ <-> _
  simp

theorem map_ok_iff {first : Decoder α} {map : α -> β} {result : β} :
    (map <$> first) text = .ok (result, rest) <->
      exists value, first text = .ok (value, rest) /\ map value = result := by
  rw [map_eq_pure_bind, bind_ok_iff]
  simp only [pure_ok_iff]
  constructor
  · rintro ⟨value, between, hfirst, rfl, rfl⟩
    exact ⟨value, hfirst, rfl⟩
  · rintro ⟨value, hfirst, rfl⟩
    exact ⟨value, rest, hfirst, rfl, rfl⟩

theorem require_ok_iff {condition : Bool} {result : Unit} :
    require condition text = .ok (result, rest) <-> condition = true /\ text = rest := by
  cases condition with
  | false => simp [require, throw_ok_iff]
  | true => simp [require, pure_ok_iff]

/-! ## Characters -/

theorem take_ok_iff {c : Char} : take text = .ok (c, rest) <-> text = c :: rest := by
  cases text <;> simp [take]

theorem peek_ok_iff {c : Char} :
    peek text = .ok (c, rest) <-> text.head? = some c /\ text = rest := by
  cases text <;> simp [peek]

theorem takeToken_eq (text : Text) : takeToken text = take (text.dropWhile isJsonSpace) :=
  rfl

theorem peekToken_eq (text : Text) : peekToken text = peek (text.dropWhile isJsonSpace) :=
  rfl

theorem avoids_cons {member : Char -> Bool} {c : Char} :
    Avoids member (c :: rest) <-> member c = false := by
  simp [Avoids]

theorem takeToken_ok_iff {c : Char} :
    takeToken text = .ok (c, rest) <->
      IsBlank text (c :: rest) /\ isJsonSpace c = false := by
  rw [takeToken_eq, take_ok_iff]
  constructor
  · intro h
    refine ⟨h ▸ isBlank_dropWhile text, ?_⟩
    exact avoids_cons.1 (h ▸ avoids_dropWhile isJsonSpace text)
  · rintro ⟨hblank, hc⟩
    exact (isBlank_iff_dropWhile_eq (avoids_cons.2 hc)).1 hblank

theorem peekToken_ok_iff {c : Char} :
    peekToken text = .ok (c, rest) <->
      IsBlank text rest /\ rest.head? = some c /\ isJsonSpace c = false := by
  rw [peekToken_eq, peek_ok_iff]
  constructor
  · rintro ⟨hhead, rfl⟩
    exact ⟨isBlank_dropWhile text, hhead, avoids_dropWhile isJsonSpace text c hhead⟩
  · rintro ⟨hblank, hhead, hc⟩
    have hrest : Avoids isJsonSpace rest := by
      intro d hd
      rw [hhead] at hd
      cases hd
      exact hc
    rw [(isBlank_iff_dropWhile_eq hrest).1 hblank]
    exact ⟨hhead, rfl⟩

theorem expectToken_ok_iff {wanted : Char} (hwanted : isJsonSpace wanted = false)
    {result : Unit} :
    expectToken wanted text = .ok (result, rest) <-> IsBlank text (wanted :: rest) := by
  simp only [expectToken, bind_ok_iff, takeToken_ok_iff, require_ok_iff, beq_iff_eq]
  constructor
  · rintro ⟨c, between, ⟨hblank, _⟩, rfl, rfl⟩
    exact hblank
  · intro hblank
    exact ⟨wanted, rest, ⟨hblank, hwanted⟩, rfl, rfl⟩

theorem literal_ok_iff {word : Text} {result : Unit} :
    literal word text = .ok (result, rest) <-> text = word ++ rest := by
  induction word generalizing text with
  | nil => simp [literal, pure_ok_iff]
  | cons wanted more ih =>
      simp only [literal, bind_ok_iff, take_ok_iff, require_ok_iff, beq_iff_eq, ih]
      constructor
      · rintro ⟨c, between, rfl, _, _, ⟨rfl, rfl⟩, rfl⟩
        rfl
      · rintro rfl
        exact ⟨wanted, more ++ rest, rfl, (), more ++ rest, ⟨rfl, rfl⟩, rfl⟩

/-! ## Strings -/

theorem consResult_ok_iff {c : Char} {result : Except DecodeError (Text × Text)}
    {value : Text} :
    consResult c result = .ok (value, rest) <->
      exists more, value = c :: more /\ result = .ok (more, rest) := by
  cases result with
  | error error => simp [consResult, Except.map]
  | ok taken =>
      simp only [consResult, Except.map, Except.ok.injEq, Prod.mk.injEq]
      constructor
      · rintro ⟨rfl, rfl⟩
        exact ⟨taken.1, rfl, rfl⟩
      · rintro ⟨more, rfl, rfl⟩
        exact ⟨rfl, rfl⟩

theorem shortEscape?_ne_u {letter c : Char} (h : shortEscape? letter = some c) :
    letter ≠ 'u' := by
  rintro rfl
  cases h

theorem isTrailUnit_of_isLeadUnit {unit : Nat} (h : isLeadUnit unit = true) :
    isTrailUnit unit = false := by
  simp only [isLeadUnit, isTrailUnit, Bool.and_eq_true, decide_eq_true_eq] at h ⊢
  simp only [Bool.and_eq_false_iff, decide_eq_false_iff_not]
  omega

theorem stringBody_plain (kept : Bool) {c : Char} (hquote : c ≠ '\x22') (hslash : c ≠ '\\')
    (hprinted : 0x20 <= c.toNat) (rest : Text) :
    stringBody kept (c :: rest) = consResult c (stringBody kept rest) := by
  rw [stringBody]
  · rw [if_neg (Nat.not_lt.2 hprinted)]
  all_goals simp [hquote, hslash]

theorem stringBody_short (kept : Bool) {letter c : Char} (hletter : shortEscape? letter = some c)
    (rest : Text) :
    stringBody kept ('\\' :: letter :: rest) = consResult c (stringBody kept rest) := by
  have hne := shortEscape?_ne_u hletter
  rw [stringBody]
  · rw [hletter]
  all_goals simp [hne]

theorem stringBody_unit (kept : Bool) {a b c d : Char} {unit : Nat}
    (hunit : hexUnit? a b c d = some unit)
    (hlead : (kept && isLeadUnit unit) = false) (htrail : (kept && isTrailUnit unit) = false)
    (rest : Text) :
    stringBody kept ('\\' :: 'u' :: a :: b :: c :: d :: rest) =
      consResult (Char.ofNat unit) (stringBody kept rest) := by
  simp only [stringBody, hunit, hlead, htrail, Bool.false_eq_true, if_false]

theorem stringBody_pair {a b c d e f g h : Char} {lead trail : Nat}
    (hunit : hexUnit? a b c d = some lead) (hlead : isLeadUnit lead = true)
    (hnext : hexUnit? e f g h = some trail) (htrail : isTrailUnit trail = true) (rest : Text) :
    stringBody true ('\\' :: 'u' :: a :: b :: c :: d :: '\\' :: 'u' :: e :: f :: g :: h :: rest) =
      consResult (pairedChar lead trail) (stringBody true rest) := by
  have hnot : isTrailUnit lead = false := isTrailUnit_of_isLeadUnit hlead
  simp only [stringBody, hunit, hlead, hnot, hnext, htrail, Bool.and_true, Bool.true_and,
    Bool.false_eq_true, if_false, if_true]

theorem keptString_of_unescapes {body value : Text} (h : Unescapes body value) (rest : Text) :
    keptString (body ++ '\x22' :: rest) = .ok (value, rest) := by
  induction h with
  | nil => rfl
  | plain hquote hslash hprinted _ ih =>
      exact (stringBody_plain true hquote hslash hprinted _).trans (congrArg _ ih)
  | short hletter _ ih =>
      exact (stringBody_short true hletter _).trans (congrArg _ ih)
  | unit hunit hlead htrail _ ih =>
      exact (stringBody_unit true hunit hlead htrail _).trans (congrArg _ ih)
  | pair hunit hlead hnext htrail _ ih =>
      exact (stringBody_pair hunit hlead hnext htrail _).trans (congrArg _ ih)

theorem skippedString_of_isBody {body : Text} (h : IsBody body) (rest : Text) :
    skippedString (body ++ '\x22' :: rest) = .ok ((), rest) := by
  have hvalue : exists value, stringBody false (body ++ '\x22' :: rest) = .ok (value, rest) := by
    induction h with
    | nil => exact ⟨[], rfl⟩
    | plain hquote hslash hprinted _ ih =>
        obtain ⟨value, ih⟩ := ih
        exact ⟨_, (stringBody_plain false hquote hslash hprinted _).trans (congrArg _ ih)⟩
    | short hletter _ ih =>
        obtain ⟨value, ih⟩ := ih
        exact ⟨_, (stringBody_short false hletter _).trans (congrArg _ ih)⟩
    | unit hunit _ ih =>
        obtain ⟨value, ih⟩ := ih
        exact ⟨_, (stringBody_unit false hunit rfl rfl _).trans (congrArg _ ih)⟩
  obtain ⟨value, hvalue⟩ := hvalue
  unfold skippedString
  rw [bind_ok_iff]
  exact ⟨value, rest, hvalue, rfl⟩

/-- Every string that is read has a body, and what is kept of it is what the body stands for. -/
theorem body_of_stringBody {kept : Bool} {value : Text}
    (h : stringBody kept text = .ok (value, rest)) :
    exists body, text = body ++ '\x22' :: rest /\ IsBody body /\
      (kept = true -> Unescapes body value) := by
  fun_induction stringBody kept text generalizing value with
  | case2 after =>
      cases h
      exact ⟨[], rfl, .nil, fun _ => .nil⟩
  | case9 a b c d lead hunit hnotTrail hlead e f g k after trail hnext htrail ih =>
      obtain ⟨more, rfl, hmore⟩ := consResult_ok_iff.1 h
      obtain ⟨body, rfl, hbody, hunescapes⟩ := ih hmore
      refine ⟨_, rfl, .unit hunit (.unit hnext hbody), fun hkept => ?_⟩
      rw [hkept, Bool.true_and] at hlead
      exact .pair hunit hlead hnext htrail (hunescapes hkept)
  | case13 a b c d after unit hunit hnotTrail hnotLead ih =>
      obtain ⟨more, rfl, hmore⟩ := consResult_ok_iff.1 h
      obtain ⟨body, rfl, hbody, hunescapes⟩ := ih hmore
      refine ⟨_, rfl, .unit hunit hbody, fun hkept => ?_⟩
      rw [hkept, Bool.true_and, Bool.not_eq_true] at hnotTrail hnotLead
      exact .unit hunit hnotLead hnotTrail (hunescapes hkept)
  | case16 letter after _ _ c hletter ih =>
      obtain ⟨more, rfl, hmore⟩ := consResult_ok_iff.1 h
      obtain ⟨body, rfl, hbody, hunescapes⟩ := ih hmore
      exact ⟨_, rfl, .short hletter hbody, fun hkept => .short hletter (hunescapes hkept)⟩
  | case18 c after hquote hend _ _ hletter hprinted ih =>
      obtain ⟨more, rfl, hmore⟩ := consResult_ok_iff.1 h
      obtain ⟨body, rfl, hbody, hunescapes⟩ := ih hmore
      have hslash : c ≠ '\\' := by
        rintro rfl
        cases hbody : body ++ '\x22' :: rest with
        | nil => exact hend rfl hbody
        | cons d more => exact hletter d more rfl hbody
      have hcode : 0x20 <= c.toNat := Nat.not_lt.1 hprinted
      exact ⟨_, rfl, .plain hquote hslash hcode hbody,
        fun hkept => .plain hquote hslash hcode (hunescapes hkept)⟩
  | _ => cases h

theorem keptString_ok_iff {value : Text} :
    keptString text = .ok (value, rest) <->
      exists body, Unescapes body value /\ text = body ++ '\x22' :: rest := by
  constructor
  · intro h
    obtain ⟨body, htext, _, hunescapes⟩ := body_of_stringBody h
    exact ⟨body, hunescapes rfl, htext⟩
  · rintro ⟨body, hunescapes, rfl⟩
    exact keptString_of_unescapes hunescapes rest

theorem skippedString_ok_iff {result : Unit} :
    skippedString text = .ok (result, rest) <->
      exists body, IsBody body /\ text = body ++ '\x22' :: rest := by
  constructor
  · intro h
    obtain ⟨value, between, hstring, hend⟩ := bind_ok_iff.1 h
    cases hend
    obtain ⟨body, htext, hbody, _⟩ := body_of_stringBody hstring
    exact ⟨body, hbody, htext⟩
  · rintro ⟨body, hbody, rfl⟩
    exact skippedString_of_isBody hbody rest

/-! ## Numbers -/

/-- A character that may go on with a number. -/
def continuesNumber (c : Char) : Bool :=
  c.isDigit || c == '.' || c == 'e' || c == 'E'

theorem isSign_of_isDigit {c : Char} (h : c.isDigit = true) :
    (c == '+' || c == '-') = false := by
  rw [Bool.or_eq_false_iff, beq_eq_false_iff_ne, beq_eq_false_iff_ne]
  exact ⟨Lexeme.ne_of_member h rfl, Lexeme.ne_of_member h rfl⟩

theorem avoids_digit_of_ends (h : Avoids continuesNumber rest) : Avoids Char.isDigit rest := by
  intro c hc
  have hcontinues := h c hc
  simp only [continuesNumber, Bool.or_eq_false_iff] at hcontinues
  exact hcontinues.1.1.1

theorem digits_ok_iff {taken : Text} :
    digits text = .ok (taken, rest) <->
      (∀ c ∈ taken, c.isDigit = true) /\ text = taken ++ rest /\ Avoids Char.isDigit rest := by
  unfold digits
  simp only [Except.ok.injEq, Prod.mk.injEq]
  constructor
  · rintro ⟨rfl, rfl⟩
    exact ⟨fun c hc => List.all_eq_true.1 List.all_takeWhile c hc,
      List.takeWhile_append_dropWhile.symm, avoids_dropWhile _ _⟩
  · rintro ⟨htaken, rfl, hrest⟩
    rw [List.takeWhile_append_of_pos htaken, List.dropWhile_append_of_pos htaken,
      dropWhile_of_avoids hrest]
    have hnone : rest.takeWhile Char.isDigit = [] := by
      have hparts := List.takeWhile_append_dropWhile (p := Char.isDigit) (l := rest)
      rw [dropWhile_of_avoids hrest] at hparts
      exact List.append_left_eq_self.1 hparts
    rw [hnone, List.append_nil]
    exact ⟨rfl, rfl⟩

theorem digit_ok_iff {missing : DecodeError} {c : Char} :
    digit missing text = .ok (c, rest) <-> c.isDigit = true /\ text = c :: rest := by
  cases text with
  | nil => simp [digit]
  | cons d more =>
      simp only [digit, List.cons.injEq]
      split
      · rename_i hdigit
        simp only [Except.ok.injEq, Prod.mk.injEq]
        constructor
        · rintro ⟨rfl, rfl⟩
          exact ⟨hdigit, rfl, rfl⟩
        · rintro ⟨_, rfl, rfl⟩
          exact ⟨rfl, rfl⟩
      · rename_i hdigit
        constructor
        · exact nofun
        · rintro ⟨hc, rfl, _⟩
          exact absurd hc hdigit

theorem someDigits_ok_iff {missing : DecodeError} {taken : Text} :
    someDigits missing text = .ok (taken, rest) <->
      AreDigits taken /\ text = taken ++ rest /\ Avoids Char.isDigit rest := by
  simp only [someDigits, bind_ok_iff, digit_ok_iff, digits_ok_iff, pure_ok_iff]
  constructor
  · rintro ⟨first, _, ⟨hfirst, rfl⟩, more, _, ⟨hmore, rfl, hrest⟩, rfl, rfl⟩
    exact ⟨⟨nofun, List.forall_mem_cons.2 ⟨hfirst, hmore⟩⟩, rfl, hrest⟩
  · rintro ⟨⟨hnonempty, htaken⟩, rfl, hrest⟩
    obtain ⟨first, more, rfl⟩ := List.exists_cons_of_ne_nil hnonempty
    obtain ⟨hfirst, hmore⟩ := List.forall_mem_cons.1 htaken
    exact ⟨first, more ++ rest, ⟨hfirst, rfl⟩, more, rest, ⟨hmore, rfl, hrest⟩, rfl, rfl⟩

theorem takeIf?_some_iff {wanted : Char -> Bool} {c : Char} :
    takeIf? wanted text = .ok (some c, rest) <-> wanted c = true /\ text = c :: rest := by
  cases text with
  | nil => simp [takeIf?]
  | cons d more =>
      simp only [takeIf?, List.cons.injEq]
      split
      · rename_i hwanted
        simp only [Except.ok.injEq, Prod.mk.injEq, Option.some.injEq]
        constructor
        · rintro ⟨rfl, rfl⟩
          exact ⟨hwanted, rfl, rfl⟩
        · rintro ⟨_, rfl, rfl⟩
          exact ⟨rfl, rfl⟩
      · rename_i hwanted
        constructor
        · exact nofun
        · rintro ⟨hc, rfl, _⟩
          exact absurd hc hwanted

theorem takeIf?_none_iff {wanted : Char -> Bool} :
    takeIf? wanted text = .ok (none, rest) <-> text = rest /\ Avoids wanted rest := by
  cases text with
  | nil =>
      simp only [takeIf?, Except.ok.injEq, Prod.mk.injEq, true_and]
      constructor
      · rintro rfl
        exact ⟨rfl, nofun⟩
      · exact fun h => h.1
  | cons d more =>
      simp only [takeIf?]
      split
      · rename_i hwanted
        constructor
        · exact nofun
        · rintro ⟨rfl, havoids⟩
          rw [avoids_cons, hwanted] at havoids
          cases havoids
      · rename_i hwanted
        simp only [Except.ok.injEq, Prod.mk.injEq, true_and]
        constructor
        · rintro rfl
          exact ⟨rfl, avoids_cons.2 (Bool.not_eq_true _ ▸ hwanted)⟩
        · exact fun h => h.1

theorem fraction_of_fractionPart {missing : DecodeError} {taken : Text}
    (h : fractionPart missing text = .ok (taken, rest)) :
    exists fraction, IsFraction fraction /\ text = fraction ++ rest := by
  obtain ⟨point, between, hpoint, hnext⟩ := bind_ok_iff.1 h
  cases point with
  | none =>
      obtain ⟨rfl, _⟩ := takeIf?_none_iff.1 hpoint
      obtain ⟨rfl, rfl⟩ := pure_ok_iff.1 hnext
      exact ⟨[], Or.inl rfl, rfl⟩
  | some c =>
      obtain ⟨hc, rfl⟩ := takeIf?_some_iff.1 hpoint
      obtain ⟨hdigits, rfl, _⟩ := someDigits_ok_iff.1 hnext
      rw [beq_iff_eq] at hc
      exact ⟨c :: taken, Or.inr ⟨taken, hdigits, by rw [hc]⟩, rfl⟩

theorem fractionPart_of_fraction (missing : DecodeError) {fraction : Text}
    (h : IsFraction fraction) (hpoint : Avoids (· == '.') rest)
    (hdigit : Avoids Char.isDigit rest) :
    exists taken, fractionPart missing (fraction ++ rest) = .ok (taken, rest) := by
  rcases h with rfl | ⟨digits, hdigits, rfl⟩
  · exact ⟨[], bind_ok_iff.2 ⟨none, rest, takeIf?_none_iff.2 ⟨rfl, hpoint⟩, rfl⟩⟩
  · exact ⟨digits, bind_ok_iff.2 ⟨some '.', digits ++ rest, rfl,
      someDigits_ok_iff.2 ⟨hdigits, rfl, hdigit⟩⟩⟩

theorem exponent_of_exponentPart {missing : DecodeError} {taken : Option (Bool × Text)}
    (h : exponentPart missing text = .ok (taken, rest)) :
    exists exponent, IsExponent exponent /\ text = exponent ++ rest := by
  obtain ⟨mark, between, hmark, hnext⟩ := bind_ok_iff.1 h
  cases mark with
  | none =>
      obtain ⟨rfl, _⟩ := takeIf?_none_iff.1 hmark
      obtain ⟨rfl, rfl⟩ := pure_ok_iff.1 hnext
      exact ⟨[], Or.inl rfl, rfl⟩
  | some c =>
      obtain ⟨hc, rfl⟩ := takeIf?_some_iff.1 hmark
      obtain ⟨sign, next, hsign, hnext⟩ := bind_ok_iff.1 hnext
      obtain ⟨power, last, hpower, hlast⟩ := bind_ok_iff.1 hnext
      obtain ⟨hdigits, rfl, _⟩ := someDigits_ok_iff.1 hpower
      obtain ⟨_, rfl⟩ := pure_ok_iff.1 hlast
      rw [Bool.or_eq_true, beq_iff_eq, beq_iff_eq] at hc
      cases sign with
      | none =>
          obtain ⟨rfl, _⟩ := takeIf?_none_iff.1 hsign
          exact ⟨c :: power, Or.inr ⟨c, [], power, hc, Or.inl rfl, hdigits, rfl⟩, rfl⟩
      | some s =>
          obtain ⟨hs, rfl⟩ := takeIf?_some_iff.1 hsign
          rw [Bool.or_eq_true, beq_iff_eq, beq_iff_eq] at hs
          have hsign : [s] = [] \/ [s] = ['+'] \/ [s] = ['-'] := by
            rcases hs with rfl | rfl
            · exact Or.inr (Or.inl rfl)
            · exact Or.inr (Or.inr rfl)
          exact ⟨c :: s :: power, Or.inr ⟨c, [s], power, hc, hsign, hdigits, rfl⟩, rfl⟩

theorem exponentPart_of_exponent (missing : DecodeError) {exponent : Text}
    (h : IsExponent exponent) (hrest : Avoids continuesNumber rest) :
    exists taken, exponentPart missing (exponent ++ rest) = .ok (taken, rest) := by
  rcases h with rfl | ⟨mark, sign, digits, hmark, hsign, hdigits, rfl⟩
  · have hmark : Avoids (fun c => c == 'e' || c == 'E') rest := by
      intro c hc
      have hcontinues := hrest c hc
      simp only [continuesNumber, Bool.or_eq_false_iff] at hcontinues ⊢
      exact ⟨hcontinues.1.2, hcontinues.2⟩
    exact ⟨none, bind_ok_iff.2 ⟨none, rest, takeIf?_none_iff.2 ⟨rfl, hmark⟩, rfl⟩⟩
  · have hmark : (mark == 'e' || mark == 'E') = true := by
      rw [Bool.or_eq_true, beq_iff_eq, beq_iff_eq]
      exact hmark
    have hpower : someDigits missing (digits ++ rest) = .ok (digits, rest) :=
      someDigits_ok_iff.2 ⟨hdigits, rfl, avoids_digit_of_ends hrest⟩
    have hsigned : exists taken, takeIf? (fun c => c == '+' || c == '-')
        (sign ++ (digits ++ rest)) = .ok (taken, digits ++ rest) := by
      rcases hsign with rfl | rfl | rfl
      · refine ⟨none, takeIf?_none_iff.2 ⟨rfl, ?_⟩⟩
        obtain ⟨first, more, rfl⟩ := List.exists_cons_of_ne_nil hdigits.1
        exact avoids_cons.2 (isSign_of_isDigit (hdigits.2 first List.mem_cons_self))
      · exact ⟨some '+', rfl⟩
      · exact ⟨some '-', rfl⟩
    obtain ⟨taken, hsigned⟩ := hsigned
    rw [List.cons_append, List.append_assoc]
    exact ⟨_, bind_ok_iff.2 ⟨some mark, _, takeIf?_some_iff.2 ⟨hmark, rfl⟩,
      bind_ok_iff.2 ⟨taken, _, hsigned, bind_ok_iff.2 ⟨digits, rest, hpower, rfl⟩⟩⟩⟩

/-- The first digit of a number stands behind its sign, if it has one. -/
theorem leadDigit_ok_iff {missing : DecodeError} {first lead : Char}
    (hfirst : first = '-' \/ first.isDigit = true) :
    leadDigit missing first text = .ok (lead, rest) <->
      lead.isDigit = true /\ exists sign, (sign = [] \/ sign = ['-']) /\
        first :: text = sign ++ lead :: rest := by
  unfold leadDigit
  split
  · rename_i hminus
    rw [beq_iff_eq] at hminus
    subst hminus
    rw [digit_ok_iff]
    constructor
    · rintro ⟨hlead, rfl⟩
      exact ⟨hlead, ['-'], Or.inr rfl, rfl⟩
    · rintro ⟨hlead, sign, rfl | rfl, htext⟩
      · cases htext
        cases hlead
      · cases htext
        exact ⟨hlead, rfl⟩
  · rename_i hminus
    rw [beq_iff_eq] at hminus
    rw [pure_ok_iff]
    constructor
    · rintro ⟨rfl, rfl⟩
      exact ⟨hfirst.resolve_left hminus, [], Or.inl rfl, rfl⟩
    · rintro ⟨hlead, sign, rfl | rfl, htext⟩
      · cases htext
        exact ⟨rfl, rfl⟩
      · cases htext
        exact absurd rfl hminus

theorem isWhole_cons_iff {lead : Char} {more : Text} :
    IsWhole (lead :: more) <->
      lead.isDigit = true /\ (∀ c ∈ more, c.isDigit = true) /\
        (lead != '0' || more.isEmpty) = true := by
  simp only [IsWhole, AreDigits, List.forall_mem_cons, List.head?_cons, Option.some.injEq,
    List.cons.injEq, Bool.or_eq_true, bne_iff_ne, List.isEmpty_iff, ne_eq, reduceCtorEq,
    not_false_eq_true, true_and, and_assoc]
  refine and_congr_right fun _ => and_congr_right fun _ => ?_
  by_cases hzero : lead = '0' <;> simp [hzero]

theorem number_of_numeral {missing : DecodeError} {first : Char} {numeral : Numeral}
    (hfirst : first = '-' \/ first.isDigit = true)
    (h : Decoder.numeral missing first text = .ok (numeral, rest)) :
    exists number, IsNumber number /\ first :: text = number ++ rest := by
  obtain ⟨lead, afterLead, hlead, hnext⟩ := bind_ok_iff.1 h
  obtain ⟨more, afterWhole, hmore, hnext⟩ := bind_ok_iff.1 hnext
  obtain ⟨_, _, hrequire, hnext⟩ := bind_ok_iff.1 hnext
  obtain ⟨_, afterFraction, hfraction, hnext⟩ := bind_ok_iff.1 hnext
  obtain ⟨_, afterExponent, hexponent, hnext⟩ := bind_ok_iff.1 hnext
  obtain ⟨_, rfl⟩ := pure_ok_iff.1 hnext
  obtain ⟨exponent, isExponent, rfl⟩ := exponent_of_exponentPart hexponent
  obtain ⟨fraction, isFraction, rfl⟩ := fraction_of_fractionPart hfraction
  obtain ⟨hzero, rfl⟩ := require_ok_iff.1 hrequire
  obtain ⟨areDigits, rfl, _⟩ := digits_ok_iff.1 hmore
  obtain ⟨isDigit, sign, hsign, htext⟩ := (leadDigit_ok_iff hfirst).1 hlead
  refine ⟨sign ++ (lead :: more ++ (fraction ++ exponent)), ⟨sign, lead :: more, fraction,
    exponent, hsign, isWhole_cons_iff.2 ⟨isDigit, areDigits, hzero⟩, isFraction, isExponent,
    rfl⟩, ?_⟩
  rw [htext]
  simp only [List.append_assoc, List.cons_append]

theorem avoids_exponent {exponent : Text} (h : IsExponent exponent)
    (hrest : Avoids continuesNumber rest) :
    Avoids (fun c => c.isDigit || c == '.') (exponent ++ rest) := by
  rcases h with rfl | ⟨mark, sign, digits, hmark, -, -, rfl⟩
  · intro c hc
    have hcontinues := hrest c hc
    simp only [continuesNumber, Bool.or_eq_false_iff] at hcontinues ⊢
    exact hcontinues.1.1
  · rcases hmark with rfl | rfl
    · exact avoids_cons.2 rfl
    · exact avoids_cons.2 rfl

theorem avoids_fraction {fraction : Text} (h : IsFraction fraction)
    (hrest : Avoids Char.isDigit rest) : Avoids Char.isDigit (fraction ++ rest) := by
  rcases h with rfl | ⟨digits, -, rfl⟩
  · exact hrest
  · exact avoids_cons.2 rfl

theorem numeral_of_number (missing : DecodeError) {first : Char} {number : Text}
    (hnumber : IsNumber number) (hrest : Avoids continuesNumber rest)
    (htext : first :: text = number ++ rest) :
    exists numeral, Decoder.numeral missing first text = .ok (numeral, rest) := by
  obtain ⟨sign, whole, fraction, exponent, hsign, hwhole, hfraction, hexponent, rfl⟩ := hnumber
  obtain ⟨lead, more, rfl⟩ := List.exists_cons_of_ne_nil hwhole.1.1
  obtain ⟨hlead, hmore, hzero⟩ := isWhole_cons_iff.1 hwhole
  have hfirst : first = '-' \/ first.isDigit = true := by
    rcases hsign with rfl | rfl
    · cases htext
      exact Or.inr hlead
    · cases htext
      exact Or.inl rfl
  have hends : Avoids Char.isDigit (exponent ++ rest) /\ Avoids (· == '.') (exponent ++ rest) := by
    constructor
    · exact fun c hc => (Bool.or_eq_false_iff.1 (avoids_exponent hexponent hrest c hc)).1
    · exact fun c hc => (Bool.or_eq_false_iff.1 (avoids_exponent hexponent hrest c hc)).2
  have hstart : leadDigit missing first text =
      .ok (lead, more ++ (fraction ++ (exponent ++ rest))) := by
    refine (leadDigit_ok_iff hfirst).2 ⟨hlead, sign, hsign, ?_⟩
    rw [htext]
    simp only [List.append_assoc, List.cons_append]
  obtain ⟨taken, hfraction'⟩ := fractionPart_of_fraction missing hfraction hends.2 hends.1
  obtain ⟨power, hexponent'⟩ := exponentPart_of_exponent missing hexponent hrest
  exact ⟨_, bind_ok_iff.2 ⟨lead, _, hstart,
    bind_ok_iff.2 ⟨more, _, digits_ok_iff.2 ⟨hmore, rfl, avoids_fraction hfraction hends.1⟩,
    bind_ok_iff.2 ⟨(), _, require_ok_iff.2 ⟨hzero, rfl⟩,
    bind_ok_iff.2 ⟨taken, _, hfraction',
    bind_ok_iff.2 ⟨power, rest, hexponent', rfl⟩⟩⟩⟩⟩⟩

end Decoder

end TranslationKeys
