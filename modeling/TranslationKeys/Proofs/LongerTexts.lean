import TranslationKeys.Proofs.ValuePlaces

/-!
# Decoding a longer text

A decoder goes from left to right, and looks at one character behind what it takes.
So more text behind the end changes little of its result.  It changes a text that is
cut off, and a number that reaches the end.  `Extends` relates the two results, and
it is closed under every way in which decoders are put together.
-/

namespace TranslationKeys

open RawJson
open Lexeme (Avoids)

namespace Decoder

variable {α β : Type} {text more rest : Text}

/-! ## Results that are extended -/

/-- What more text may change in a result, besides a text that is cut off. -/
structure Leeway where
  /-- A value that reaches the end. -/
  ended : Prop
  /-- A problem that becomes another one. -/
  refused : Prop
  /-- A malformed text that is completed. -/
  unfinished : Prop

def Leeway.none : Leeway :=
  ⟨False, False, False⟩

/-- The results of a decoder on a text and on the same text with more behind it. -/
inductive Extends (leeway : Leeway) (text more : Text) :
    Except DecodeError (α × Text) -> Except DecodeError (α × Text) -> Prop where
  | value {value : α} {rest : Text} (hsuffix : rest <:+ text) :
      Extends leeway text more (.ok (value, rest)) (.ok (value, rest ++ more))
  | problem (error : DecodeError) : Extends leeway text more (.error error) (.error error)
  | cutOff (result : Except DecodeError (α × Text)) :
      Extends leeway text more (.error .cutOff) result
  | ended (h : leeway.ended) (value : α) (result : Except DecodeError (α × Text)) :
      Extends leeway text more (.ok (value, [])) result
  | refused (h : leeway.refused) (error other : DecodeError) :
      Extends leeway text more (.error error) (.error other)
  | unfinished (h : leeway.unfinished) (result : Except DecodeError (α × Text)) :
      Extends leeway text more (.error .malformed) result

def ExtendsAt (leeway : Leeway) (decoder : Decoder α) (text more : Text) : Prop :=
  Extends leeway text more (decoder text) (decoder (text ++ more))

/-- More text changes nothing but a text that is cut off. -/
def Steady (decoder : Decoder α) : Prop :=
  forall text more, ExtendsAt .none decoder text more

section Closure

variable {leeway other : Leeway} {first second : Except DecodeError (α × Text)}

theorem Extends.mono (h : Extends leeway text more first second)
    (hended : leeway.ended -> forall value, first = .ok (value, []) -> other.ended)
    (hrefused : leeway.refused -> other.refused)
    (hunfinished : leeway.unfinished -> other.unfinished) :
    Extends other text more first second := by
  cases h with
  | value hsuffix => exact .value hsuffix
  | problem error => exact .problem error
  | cutOff => exact .cutOff _
  | ended hend value => exact .ended (hended hend value rfl) value _
  | refused hother error second => exact .refused (hrefused hother) error second
  | unfinished hnumber => exact .unfinished (hunfinished hnumber) _

theorem Extends.of_isSuffix (h : Extends leeway rest more first second) (hrest : rest <:+ text) :
    Extends leeway text more first second := by
  cases h with
  | value hsuffix => exact .value (hsuffix.trans hrest)
  | problem error => exact .problem error
  | cutOff => exact .cutOff _
  | ended hend value => exact .ended hend value _
  | refused hother error second => exact .refused hother error second
  | unfinished hnumber => exact .unfinished hnumber _

theorem ExtendsAt.isSuffix {decoder : Decoder α} {value : α}
    (h : ExtendsAt leeway decoder text more) (hvalue : decoder text = .ok (value, rest)) :
    rest <:+ text := by
  unfold ExtendsAt at h
  generalize decoder (text ++ more) = result at h
  rw [hvalue] at h
  cases h with
  | value hsuffix => exact hsuffix
  | ended => exact List.nil_suffix

/-- What a decoder finds in the front of a text in which it finds a value. -/
theorem ExtendsAt.front_of_ok {decoder : Decoder α} {value : α}
    (h : ExtendsAt leeway decoder text more) (hvalue : decoder (text ++ more) = .ok (value, rest)) :
    (exists behind, decoder text = .ok (value, behind) /\ rest = behind ++ more) \/
      decoder text = .error .cutOff \/
      (leeway.ended /\ exists other, decoder text = .ok (other, [])) \/
      (leeway.unfinished /\ decoder text = .error .malformed) := by
  unfold ExtendsAt at h
  generalize decoder text = front at h ⊢
  rw [hvalue] at h
  cases h with
  | value => exact Or.inl ⟨_, rfl, rfl⟩
  | cutOff => exact Or.inr (Or.inl rfl)
  | ended hend other => exact Or.inr (Or.inr (Or.inl ⟨hend, other, rfl⟩))
  | unfinished hnumber => exact Or.inr (Or.inr (Or.inr ⟨hnumber, rfl⟩))

theorem Steady.extendsAt {decoder : Decoder α} (h : Steady decoder) (text more : Text) :
    ExtendsAt leeway decoder text more :=
  (h text more).mono (fun h => h.elim) False.elim False.elim

end Closure

theorem bind_of_ok {first : Decoder α} {value : α} (h : first text = .ok (value, rest))
    (next : α -> Decoder β) : (first >>= next) text = next value rest := by
  change (first text >>= fun taken => next taken.1 taken.2) = _
  rw [h]
  rfl

theorem bind_of_error {first : Decoder α} {error : DecodeError} (h : first text = .error error)
    (next : α -> Decoder β) : (first >>= next) text = .error error := by
  change (first text >>= fun taken => next taken.1 taken.2) = _
  rw [h]
  rfl

theorem bind_congr_of_ok {first : Decoder α} {next other : α -> Decoder β}
    (h : forall value rest, first text = .ok (value, rest) ->
      next value rest = other value rest) :
    (first >>= next) text = (first >>= other) text := by
  cases hresult : first text with
  | error error => rw [bind_of_error hresult, bind_of_error hresult]
  | ok taken =>
      rw [bind_of_ok hresult, bind_of_ok hresult]
      exact h taken.1 taken.2 hresult

/--
Decoders in sequence.  A value that reaches the end leaves nothing, and it counts
what the next decoder makes of that.
-/
theorem ExtendsAt.bind {leeway before : Leeway} {first : Decoder α} {next : α -> Decoder β}
    (hfirst : ExtendsAt before first text more)
    (hrefused : before.refused -> leeway.refused)
    (hunfinished : before.unfinished -> leeway.unfinished)
    (hended : before.ended -> forall value, first text = .ok (value, []) ->
      Extends leeway text more (next value []) ((first >>= next) (text ++ more)))
    (hnext : forall value rest, first text = .ok (value, rest) -> rest <:+ text ->
      ExtendsAt leeway (next value) rest more) :
    ExtendsAt leeway (first >>= next) text more := by
  unfold ExtendsAt at hfirst ⊢
  generalize hone : first text = one at hfirst
  generalize htwo : first (text ++ more) = two at hfirst
  cases hfirst with
  | @value value rest hsuffix =>
      rw [bind_of_ok hone, bind_of_ok htwo]
      exact (hnext value rest hone hsuffix).of_isSuffix hsuffix
  | problem error =>
      rw [bind_of_error hone, bind_of_error htwo]
      exact .problem error
  | cutOff =>
      rw [bind_of_error hone]
      exact .cutOff _
  | ended hend value =>
      rw [bind_of_ok hone]
      exact hended hend value hone
  | refused hother error other =>
      rw [bind_of_error hone, bind_of_error htwo]
      exact .refused (hrefused hother) error other
  | unfinished hnumber =>
      rw [bind_of_error hone]
      exact .unfinished (hunfinished hnumber) _

theorem Steady.bind_extendsAt {leeway : Leeway} {first : Decoder α} {next : α -> Decoder β}
    (hfirst : Steady first)
    (hnext : forall value rest, first text = .ok (value, rest) -> rest <:+ text ->
      ExtendsAt leeway (next value) rest more) :
    ExtendsAt leeway (first >>= next) text more :=
  (hfirst text more).bind False.elim False.elim (fun h => h.elim) hnext

theorem Steady.pure (value : α) : Steady (pure value : Decoder α) :=
  fun text _ => .value (List.suffix_refl text)

theorem Steady.throw (error : DecodeError) : Steady (throw error : Decoder α) :=
  fun _ _ => .problem error

theorem Steady.bind {first : Decoder α} {next : α -> Decoder β} (hfirst : Steady first)
    (hnext : forall value, Steady (next value)) : Steady (first >>= next) :=
  fun _ _ => hfirst.bind_extendsAt fun value rest _ _ => hnext value rest _

theorem Steady.ite {condition : Prop} [Decidable condition] {first second : Decoder α}
    (hfirst : Steady first) (hsecond : Steady second) :
    Steady (if condition then first else second) := by
  split
  · exact hfirst
  · exact hsecond

/-! ## Characters -/

theorem take_steady : Steady take := by
  intro text more
  cases text with
  | nil => exact .cutOff _
  | cons c rest => exact .value (List.suffix_cons c rest)

theorem peek_steady : Steady peek := by
  intro text more
  cases text with
  | nil => exact .cutOff _
  | cons c rest => exact .value (List.suffix_refl _)

/-- Behind blank characters, where the text must not end. -/
theorem Steady.skipBlank {decoder : Decoder α} (h : Steady decoder)
    (hend : decoder [] = .error .cutOff) : Steady (skipBlank >>= fun _ => decoder) := by
  intro text more
  change Extends .none text more (decoder (text.dropWhile isJsonSpace))
    (decoder ((text ++ more).dropWhile isJsonSpace))
  rw [List.dropWhile_append]
  cases hrest : text.dropWhile isJsonSpace with
  | nil =>
      rw [hend]
      exact .cutOff _
  | cons c rest =>
      refine (h (c :: rest) more).of_isSuffix ?_
      rw [← hrest]
      exact (isBlank_dropWhile text).isSuffix

theorem takeToken_steady : Steady takeToken :=
  take_steady.skipBlank rfl

theorem peekToken_steady : Steady peekToken :=
  peek_steady.skipBlank rfl

theorem require_steady (condition : Bool) : Steady (require condition) :=
  .ite (.pure _) (.throw _)

theorem expectToken_steady (wanted : Char) : Steady (expectToken wanted) :=
  takeToken_steady.bind fun _ => require_steady _

theorem literal_steady (word : Text) : Steady (literal word) := by
  induction word with
  | nil => exact .pure _
  | cons wanted word ih => exact take_steady.bind fun _ => (require_steady _).bind fun _ => ih

/-! ## Strings -/

theorem utf8Size_of_hexValue? {c : Char} {value : Nat} (h : hexValue? c = some value) :
    c.utf8Size = 1 := by
  have hcode : c.toNat <= 127 := by
    unfold hexValue? at h
    split at h
    · rename_i hdigit
      rw [Bool.and_eq_true, decide_eq_true_eq, decide_eq_true_eq] at hdigit
      exact Nat.le_trans (UInt32.le_iff_toNat_le.1 hdigit.2) (by decide)
    · split at h
      · rename_i hletter
        rw [Bool.and_eq_true, decide_eq_true_eq, decide_eq_true_eq] at hletter
        exact Nat.le_trans (UInt32.le_iff_toNat_le.1 hletter.2) (by decide)
      · split at h
        · rename_i hletter
          rw [Bool.and_eq_true, decide_eq_true_eq, decide_eq_true_eq] at hletter
          exact Nat.le_trans (UInt32.le_iff_toNat_le.1 hletter.2) (by decide)
        · cases h
  exact Char.utf8Size_eq_one_iff.2 (UInt32.le_iff_toNat_le.2 hcode)

theorem byteLength_eq_length (h : ∀ c ∈ text, c.utf8Size = 1) :
    Text.byteLength text = text.length := by
  induction text with
  | nil => rfl
  | cons c rest ih =>
      obtain ⟨hc, hrest⟩ := List.forall_mem_cons.1 h
      rw [Text.byteLength_cons, hc, ih hrest, List.length_cons, Nat.add_comm]

/-- Fewer than four characters with four bytes or more cannot begin four digits. -/
theorem hexUnit?_of_byteLength {a b c d : Char} {after : Text} (hlength : text.length < 4)
    (hbytes : 4 <= Text.byteLength text) (h : text ++ more = a :: b :: c :: d :: after) :
    hexUnit? a b c d = none := by
  by_contra hsome
  obtain ⟨unit, hunit⟩ := Option.ne_none_iff_exists'.1 hsome
  simp only [hexUnit?, Option.bind_eq_bind, Option.bind_eq_some_iff] at hunit
  obtain ⟨_, ha, _, hb, _, hc, _, hd, -⟩ := hunit
  have hdigits : ∀ digit ∈ [a, b, c, d], digit.utf8Size = 1 := by
    simp only [List.forall_mem_cons]
    exact ⟨utf8Size_of_hexValue? ha, utf8Size_of_hexValue? hb, utf8Size_of_hexValue? hc,
      utf8Size_of_hexValue? hd, List.forall_mem_nil _⟩
  have hfront : text <+: [a, b, c, d] := by
    have hprefix : text <+: [a, b, c, d] ++ after := ⟨more, h⟩
    exact List.prefix_of_prefix_length_le hprefix (List.prefix_append _ _) (Nat.le_of_lt hlength)
  have hsize := byteLength_eq_length fun c hc => hdigits c (hfront.subset hc)
  omega

theorem Extends.consResult {leeway : Leeway} {first second : Except DecodeError (Text × Text)}
    (c : Char) (h : Extends leeway rest more first second) (hrest : rest <:+ text) :
    Extends leeway text more (consResult c first) (consResult c second) := by
  cases h with
  | value hsuffix => exact .value (hsuffix.trans hrest)
  | problem error => exact .problem error
  | cutOff => exact .cutOff _
  | ended hend value => exact .ended hend (c :: value) _
  | refused hother error second => exact .refused hother error second
  | unfinished hnumber => exact .unfinished hnumber _

/-- An escape without four digits, where four bytes are left, is malformed. -/
theorem stringBody_badUnit (kept : Bool) (hbytes : 4 <= Text.byteLength text)
    (hbad : forall a b c d after, text = a :: b :: c :: d :: after -> hexUnit? a b c d = none) :
    stringBody kept ('\\' :: 'u' :: text) = .error .malformed := by
  match text with
  | a :: b :: c :: d :: after => simp only [stringBody, hbad a b c d after rfl]
  | [] | [_] | [_, _] | [_, _, _] =>
      simp only [stringBody, hexProblem, if_neg (Nat.not_lt.2 hbytes)]

section Pairs

variable {a b c d : Char} {lead : Nat} (hunit : hexUnit? a b c d = some lead)
  (hlead : isLeadUnit lead = true)

include hunit hlead

/-- A code unit that begins a pair needs an escape behind it. -/
theorem stringBody_unpaired (hrest : rest ≠ []) (hslash : rest ≠ ['\\'])
    (hescape : forall after, rest ≠ '\\' :: 'u' :: after) :
    stringBody true ('\\' :: 'u' :: a :: b :: c :: d :: rest) = .error .malformed := by
  have htrail := isTrailUnit_of_isLeadUnit hlead
  simp only [stringBody, hunit, htrail, hlead, Bool.and_false, Bool.and_true, Bool.false_eq_true,
    if_false, if_true]
  split
  · exact absurd rfl hrest
  · exact absurd rfl hslash
  · exact absurd rfl (hescape _)
  · exact absurd rfl (hescape _)
  · rfl

theorem stringBody_badPair (hbytes : 4 <= Text.byteLength text)
    (hbad : forall a b c d after, text = a :: b :: c :: d :: after -> hexUnit? a b c d = none) :
    stringBody true ('\\' :: 'u' :: a :: b :: c :: d :: '\\' :: 'u' :: text) =
      .error .malformed := by
  have htrail := isTrailUnit_of_isLeadUnit hlead
  match text with
  | e :: f :: g :: h :: after =>
      simp only [stringBody, hunit, htrail, hlead, hbad e f g h after rfl, Bool.and_false,
        Bool.and_true, Bool.false_eq_true, if_false, if_true]
  | [] | [_] | [_, _] | [_, _, _] =>
      simp only [stringBody, hunit, htrail, hlead, hexProblem, if_neg (Nat.not_lt.2 hbytes),
        Bool.and_false, Bool.and_true, Bool.false_eq_true, if_false, if_true]

end Pairs

theorem stringBody_badEscape (kept : Bool) {letter : Char} (hletter : shortEscape? letter = none)
    (hu : letter ≠ 'u') (rest : Text) :
    stringBody kept ('\\' :: letter :: rest) = .error .malformed := by
  rw [stringBody]
  · rw [hletter]
  all_goals simp [hu]

theorem stringBody_control (kept : Bool) {c : Char} (hcode : c.toNat < 0x20) (rest : Text) :
    stringBody kept (c :: rest) = .error .malformed := by
  have hne (d : Char) (hd : 0x20 <= d.toNat) : c ≠ d := by
    rintro rfl
    omega
  rw [stringBody]
  · rw [if_pos hcode]
  all_goals simp [hne '\x22' (by decide), hne '\\' (by decide)]

/-- Fewer than four digits are cut off, or they stay wrong. -/
theorem Extends.hexProblem {result : Except DecodeError (Text × Text)} {whole : Text}
    (hlength : text.length < 4)
    (h : 4 <= Text.byteLength text -> (forall a b c d after,
      text ++ more = a :: b :: c :: d :: after -> hexUnit? a b c d = none) ->
        result = .error .malformed) :
    Extends .none whole more (.error (hexProblem text)) result := by
  unfold Decoder.hexProblem
  split
  · exact .cutOff _
  · rename_i hbytes
    have hfour := Nat.not_lt.1 hbytes
    rw [h hfour fun a b c d after => hexUnit?_of_byteLength hlength hfour]
    exact .problem _

theorem length_lt_of_ne (h : forall a b c d after, text = a :: b :: c :: d :: after -> False) :
    text.length < 4 := by
  match text with
  | a :: b :: c :: d :: after => exact (h a b c d after rfl).elim
  | [] | [_] | [_, _] | [_, _, _] => simp

theorem stringBody_steady (kept : Bool) : Steady (stringBody kept : Decoder Text) := by
  intro text more
  unfold ExtendsAt
  have hbytes {text : Text} (h : 4 <= Text.byteLength text) :
      4 <= Text.byteLength (text ++ more) := by
    rw [Text.byteLength_append]
    exact Nat.le_add_right_of_le h
  fun_induction stringBody kept text with
  | case1 => exact .cutOff _
  | case2 rest => exact .value (List.suffix_cons _ _)
  | case3 => exact .cutOff _
  | case4 a b c d rest hunit =>
      simp only [List.cons_append, stringBody, hunit]
      exact .problem _
  | case5 a b c d rest unit hunit htrail =>
      simp only [List.cons_append, stringBody, hunit, htrail, if_true]
      exact .problem _
  | case6 => exact .cutOff _
  | case7 => exact .cutOff _
  | case8 a b c d lead hunit htrail hlead e f g h rest hnext =>
      simp only [List.cons_append, stringBody, hunit, htrail, hlead, hnext, if_true]
      exact .problem _
  | case9 a b c d lead hunit htrail hlead e f g h rest trail hnext hpair ih =>
      simp only [List.cons_append, stringBody, hunit, htrail, hlead, hnext, hpair, if_true]
      exact ih.consResult _ (List.suffix_append [_, _, _, _, _, _, _, _, _, _, _, _] rest)
  | case10 a b c d lead hunit htrail hlead e f g h rest trail hnext hpair =>
      simp only [List.cons_append, stringBody, hunit, htrail, hlead, hnext, hpair, if_true]
      exact .problem _
  | case11 a b c d lead hunit htrail hlead rest hshort =>
      obtain ⟨rfl, hlead⟩ := Bool.and_eq_true_iff.1 hlead
      exact .hexProblem (length_lt_of_ne hshort) fun hfour hbad =>
        stringBody_badPair hunit hlead (hbytes hfour) hbad
  | case12 a b c d rest lead hunit htrail hlead hrest hslash hlong hescape =>
      obtain ⟨rfl, hlead⟩ := Bool.and_eq_true_iff.1 hlead
      have hmore : stringBody true ('\\' :: 'u' :: a :: b :: c :: d :: (rest ++ more)) =
          .error .malformed := by
        refine stringBody_unpaired hunit hlead (fun h => ?_) (fun h => ?_) fun after h => ?_
        · exact hrest (List.append_eq_nil_iff.1 h).1
        · rcases List.append_eq_singleton_iff.1 h with ⟨h, -⟩ | ⟨h, -⟩
          · exact hrest h
          · exact hslash h
        · rcases List.append_eq_cons_iff.1 h with ⟨h, -⟩ | ⟨tail, rfl, htail⟩
          · exact hrest h
          · rcases List.cons_eq_append_iff.1 htail with ⟨rfl, -⟩ | ⟨after, rfl, -⟩
            · exact hslash rfl
            · exact hescape after rfl
      simp only [List.cons_append, hmore]
      exact .problem _
  | case13 a b c d rest unit hunit htrail hlead ih =>
      simp only [List.cons_append, stringBody, hunit, htrail, hlead]
      exact ih.consResult _ (List.suffix_append [_, _, _, _, _, _] rest)
  | case14 rest hshort =>
      exact .hexProblem (length_lt_of_ne hshort) fun hfour hbad =>
        stringBody_badUnit kept (hbytes hfour) hbad
  | case15 letter rest _ hu hletter =>
      rw [List.cons_append, List.cons_append, stringBody_badEscape kept hletter hu]
      exact .problem _
  | case16 letter rest _ hu c hletter ih =>
      rw [List.cons_append, List.cons_append, stringBody_short kept hletter]
      exact ih.consResult c (List.suffix_append [_, _] rest)
  | case17 c rest hquote hend _ _ hletter hcode =>
      rw [List.cons_append, stringBody_control kept hcode]
      exact .problem _
  | case18 c rest hquote hend _ _ hletter hcode ih =>
      have hslash : c ≠ '\\' := by
        rintro rfl
        cases rest with
        | nil => exact hend rfl rfl
        | cons letter rest => exact hletter letter rest rfl rfl
      rw [List.cons_append, stringBody_plain kept hquote hslash (Nat.not_lt.1 hcode)]
      exact ih.consResult c (List.suffix_cons c rest)

theorem keptString_steady : Steady keptString :=
  stringBody_steady true

theorem skippedString_steady : Steady skippedString := by
  have hstring : Steady (stringBody false : Decoder Text) := stringBody_steady false
  exact hstring.bind fun _ => .pure _

/-! ## Numbers -/

/-- The leeway of a number: it may reach the end, and it may be unfinished there. -/
def Leeway.ofNumber (unfinished : Prop) : Leeway :=
  ⟨True, False, unfinished⟩

/-- The problem of a missing digit is a text that is cut off, or a number that is unfinished. -/
def Excuses (leeway : Leeway) (missing : DecodeError) : Prop :=
  missing = .cutOff \/ missing = .malformed /\ leeway.unfinished

theorem Excuses.extends {leeway : Leeway} {missing : DecodeError} (h : Excuses leeway missing)
    (result : Except DecodeError (α × Text)) :
    Extends leeway text more (.error missing) result := by
  rcases h with rfl | ⟨rfl, hunfinished⟩
  · exact .cutOff _
  · exact .unfinished hunfinished _

section Numbers

variable {unfinished : Prop} {missing : DecodeError}

theorem digits_extends : ExtendsAt (.ofNumber unfinished) digits text more := by
  unfold ExtendsAt
  cases hdigits : digits text with
  | error error => cases hdigits
  | ok taken =>
      obtain ⟨taken, rest⟩ := taken
      obtain ⟨htaken, rfl, havoids⟩ := digits_ok_iff.1 hdigits
      cases rest with
      | nil => exact .ended trivial taken _
      | cons c rest =>
          have hmore : digits (taken ++ c :: rest ++ more) = .ok (taken, c :: rest ++ more) :=
            digits_ok_iff.2
              ⟨htaken, List.append_assoc _ _ _, havoids.append (List.cons_ne_nil c rest) more⟩
          rw [hmore]
          exact .value (List.suffix_append taken _)

theorem takeIf?_extends (wanted : Char -> Bool) :
    ExtendsAt (.ofNumber unfinished) (takeIf? wanted) text more := by
  unfold ExtendsAt
  cases text with
  | nil => exact .ended trivial none _
  | cons c rest =>
      simp only [takeIf?, List.cons_append]
      split
      · exact .value (List.suffix_cons c rest)
      · exact .value (List.suffix_refl _)

theorem digit_extends {leeway : Leeway} (hmissing : text = [] -> Excuses leeway missing) :
    ExtendsAt leeway (digit missing) text more := by
  unfold ExtendsAt
  cases text with
  | nil => exact (hmissing rfl).extends _
  | cons c rest =>
      simp only [digit, List.cons_append]
      split
      · exact .value (List.suffix_cons c rest)
      · exact .problem _

theorem someDigits_extends (hmissing : text = [] -> Excuses (.ofNumber unfinished) missing) :
    ExtendsAt (.ofNumber unfinished) (someDigits missing) text more := by
  refine (digit_extends hmissing).bind id id (fun _ _ _ => .ended trivial _ _) fun _ _ _ _ => ?_
  exact digits_extends.bind id id (fun _ _ _ => .ended trivial _ _) fun _ _ _ _ =>
    (Steady.pure _).extendsAt _ _

theorem fractionPart_extends (hmissing : text = ['.'] -> Excuses (.ofNumber unfinished) missing) :
    ExtendsAt (.ofNumber unfinished) (fractionPart missing) text more := by
  refine (takeIf?_extends _).bind id id (fun _ point hpoint => ?_) fun point rest hpoint _ => ?_
  · cases point with
    | none => exact .ended trivial _ _
    | some c =>
        obtain ⟨hc, rfl⟩ := takeIf?_some_iff.1 hpoint
        rw [beq_iff_eq.1 hc] at hmissing
        exact (hmissing rfl).extends _
  · cases point with
    | none => exact (Steady.pure _).extendsAt _ _
    | some c =>
        obtain ⟨hc, rfl⟩ := takeIf?_some_iff.1 hpoint
        refine someDigits_extends ?_
        rintro rfl
        exact hmissing (by rw [beq_iff_eq.1 hc])

theorem sign_of_takeIf? {sign : Option Char}
    (h : takeIf? (fun c => c == '+' || c == '-') text = .ok (sign, rest)) :
    exists taken, (taken = [] \/ taken = ['+'] \/ taken = ['-']) /\ text = taken ++ rest := by
  cases sign with
  | none =>
      obtain ⟨rfl, _⟩ := takeIf?_none_iff.1 h
      exact ⟨[], Or.inl rfl, rfl⟩
  | some c =>
      obtain ⟨hc, rfl⟩ := takeIf?_some_iff.1 h
      rw [Bool.or_eq_true, beq_iff_eq, beq_iff_eq] at hc
      rcases hc with rfl | rfl
      · exact ⟨['+'], Or.inr (Or.inl rfl), rfl⟩
      · exact ⟨['-'], Or.inr (Or.inr rfl), rfl⟩

theorem exponentPart_extends
    (hmissing : forall mark sign, (mark = 'e' \/ mark = 'E') ->
      (sign = [] \/ sign = ['+'] \/ sign = ['-']) -> text = mark :: sign ->
        Excuses (.ofNumber unfinished) missing) :
    ExtendsAt (.ofNumber unfinished) (exponentPart missing) text more := by
  refine (takeIf?_extends _).bind id id (fun _ mark hmark => ?_) fun mark between hmark _ => ?_
  · cases mark with
    | none => exact .ended trivial _ _
    | some c =>
        obtain ⟨hc, rfl⟩ := takeIf?_some_iff.1 hmark
        rw [Bool.or_eq_true, beq_iff_eq, beq_iff_eq] at hc
        exact (hmissing c [] hc (Or.inl rfl) rfl).extends _
  · cases mark with
    | none => exact (Steady.pure _).extendsAt _ _
    | some c =>
        obtain ⟨hc, rfl⟩ := takeIf?_some_iff.1 hmark
        rw [Bool.or_eq_true, beq_iff_eq, beq_iff_eq] at hc
        have hexcuse {sign : Option Char}
            (h : takeIf? (fun c => c == '+' || c == '-') between = .ok (sign, [])) :
            Excuses (.ofNumber unfinished) missing := by
          obtain ⟨taken, htaken, htext⟩ := sign_of_takeIf? h
          rw [List.append_nil] at htext
          exact hmissing c taken hc htaken (by rw [htext])
        refine (takeIf?_extends _).bind id id (fun _ _ hsign => (hexcuse hsign).extends _)
          fun sign behind hsign _ => ?_
        refine ExtendsAt.bind (someDigits_extends ?_) id id (fun _ _ _ => .ended trivial _ _)
          fun _ _ _ _ => (Steady.pure _).extendsAt _ _
        rintro rfl
        exact hexcuse hsign

/-- The digits of a number behind the first one, up to its point. -/
def wholeDigits (lead : Char) : Decoder Text := do
  let more <- digits
  require (lead != '0' || more.isEmpty)
  return more

theorem numeral_eq (missing : DecodeError) (first : Char) :
    Decoder.numeral missing first = (do
      let lead <- leadDigit missing first
      let more <- wholeDigits lead
      let fraction <- fractionPart missing
      let exponent <- exponentPart missing
      return ⟨first == '-', lead :: more, fraction, exponent⟩) := by
  simp only [Decoder.numeral, wholeDigits, bind_assoc, pure_bind]

theorem wholeDigits_zero_cons (c : Char) (rest : Text) :
    wholeDigits '0' (c :: rest) =
      if c.isDigit then .error .malformed else .ok ([], c :: rest) := by
  unfold wholeDigits
  split
  · rename_i hdigit
    have htaken : digits (c :: rest) =
        .ok (c :: rest.takeWhile Char.isDigit, rest.dropWhile Char.isDigit) := by
      simp [digits, hdigit]
    rw [bind_of_ok htaken]
    rfl
  · rename_i hdigit
    have htaken : digits (c :: rest) = .ok ([], c :: rest) := by
      simp [digits, hdigit]
    rw [bind_of_ok htaken]
    rfl

/-- Behind a zero no digit stands, and the text that goes on does not change that. -/
theorem wholeDigits_extends (lead : Char) :
    ExtendsAt (.ofNumber unfinished) (wholeDigits lead) text more := by
  by_cases hzero : lead = '0'
  · subst hzero
    unfold ExtendsAt
    cases text with
    | nil => exact .ended trivial [] _
    | cons c rest =>
        rw [List.cons_append, wholeDigits_zero_cons, wholeDigits_zero_cons]
        split
        · exact .problem _
        · exact .value (List.suffix_refl _)
  · have hwhole : wholeDigits lead = digits := by
      simp [wholeDigits, require, hzero]
    rw [hwhole]
    exact digits_extends

theorem wholeDigits_ok_iff {lead : Char} {taken : Text} (hlead : lead.isDigit = true) :
    wholeDigits lead text = .ok (taken, rest) <->
      IsWhole (lead :: taken) /\ text = taken ++ rest /\ Avoids Char.isDigit rest := by
  simp only [wholeDigits, bind_ok_iff, digits_ok_iff, require_ok_iff, pure_ok_iff,
    isWhole_cons_iff]
  constructor
  · rintro ⟨_, _, ⟨htaken, rfl, hrest⟩, _, _, ⟨hzero, rfl⟩, rfl, rfl⟩
    exact ⟨⟨hlead, htaken, hzero⟩, rfl, hrest⟩
  · rintro ⟨⟨-, htaken, hzero⟩, rfl, hrest⟩
    exact ⟨taken, rest, ⟨htaken, rfl, hrest⟩, (), rest, ⟨hzero, rfl⟩, rfl, rfl⟩

theorem areDigits_zero : AreDigits ['0'] :=
  ⟨nofun, List.forall_mem_singleton.2 rfl⟩

theorem isCutNumber_sign : IsCutNumber ['-'] :=
  ⟨⟨['0'], ['-'], ['0'], [], [], Or.inr rfl, ⟨areDigits_zero, fun _ => rfl⟩, Or.inl rfl,
    Or.inl rfl, rfl⟩, [], '-', rfl, by decide⟩

section Cut

variable {sign whole fraction : Text} (hsign : sign = [] \/ sign = ['-']) (hwhole : IsWhole whole)

include hsign hwhole

theorem isCutNumber_point : IsCutNumber (sign ++ (whole ++ ['.'])) := by
  refine ⟨⟨['0'], sign, whole, ['.', '0'], [], hsign, hwhole,
    Or.inr ⟨['0'], areDigits_zero, rfl⟩, Or.inl rfl, by simp⟩, sign ++ whole, '.', by simp,
    by decide⟩

theorem isCutNumber_exponent {mark : Char} {exponentSign : Text} (hfraction : IsFraction fraction)
    (hmark : mark = 'e' \/ mark = 'E')
    (hexponent : exponentSign = [] \/ exponentSign = ['+'] \/ exponentSign = ['-']) :
    IsCutNumber (sign ++ (whole ++ (fraction ++ mark :: exponentSign))) := by
  refine ⟨⟨['0'], sign, whole, fraction, mark :: (exponentSign ++ ['0']), hsign, hwhole, hfraction,
    Or.inr ⟨mark, exponentSign, ['0'], hmark, hexponent, areDigits_zero, rfl⟩, by simp⟩, ?_⟩
  rcases hexponent with rfl | rfl | rfl
  · refine ⟨sign ++ (whole ++ fraction), mark, by simp, ?_⟩
    rcases hmark with rfl | rfl <;> decide
  · exact ⟨sign ++ (whole ++ (fraction ++ [mark])), '+', by simp, by decide⟩
  · exact ⟨sign ++ (whole ++ (fraction ++ [mark])), '-', by simp, by decide⟩

end Cut

theorem leadDigit_extends {leeway : Leeway} {first : Char}
    (hmissing : first = '-' -> text = [] -> Excuses leeway missing) :
    ExtendsAt leeway (leadDigit missing first) text more := by
  unfold leadDigit
  split
  · rename_i hminus
    exact digit_extends (hmissing (beq_iff_eq.1 hminus))
  · exact (Steady.pure _).extendsAt _ _

/-- The last character of a text is a digit. -/
def EndsInDigit (text : Text) : Prop :=
  exists front c, text = front ++ [c] /\ c.isDigit = true

theorem EndsInDigit.of_isSuffix (h : EndsInDigit rest) (hrest : rest <:+ text) :
    EndsInDigit text := by
  obtain ⟨front, c, rfl, hc⟩ := h
  obtain ⟨before, rfl⟩ := hrest
  exact ⟨before ++ front, c, (List.append_assoc _ _ _).symm, hc⟩

theorem endsInDigit_of_areDigits (h : AreDigits text) : EndsInDigit text :=
  ⟨text.dropLast, text.getLast h.1, (List.dropLast_concat_getLast h.1).symm,
    h.2 _ (List.getLast_mem h.1)⟩

theorem endsInDigit_of_isNumber {number : Text} (h : IsNumber number) : EndsInDigit number := by
  obtain ⟨sign, whole, fraction, exponent, -, hwhole, hfraction, hexponent, rfl⟩ := h
  have hbehind {text : Text} (h : EndsInDigit text) (before : Text) :
      EndsInDigit (before ++ text) :=
    h.of_isSuffix (List.suffix_append before text)
  refine hbehind ?_ sign
  rcases hexponent with rfl | ⟨mark, exponentSign, digits, -, -, hdigits, rfl⟩
  · rcases hfraction with rfl | ⟨digits, hdigits, rfl⟩
    · rw [List.append_nil, List.append_nil]
      exact endsInDigit_of_areDigits hwhole.1
    · rw [List.append_nil]
      exact hbehind (hbehind (endsInDigit_of_areDigits hdigits) ['.']) whole
  · refine hbehind (hbehind ?_ fraction) whole
    exact hbehind (hbehind (endsInDigit_of_areDigits hdigits) exponentSign) [mark]

/-- A number that reaches the end may go on, and one that is unfinished may be completed. -/
theorem numeral_extends {first : Char} (hfirst : first = '-' \/ first.isDigit = true)
    (hmissing : IsCutNumber (first :: text) -> Excuses (.ofNumber unfinished) missing) :
    ExtendsAt (.ofNumber unfinished) (Decoder.numeral missing first) text more := by
  rw [numeral_eq]
  have hlead : ExtendsAt ⟨False, False, unfinished⟩ (leadDigit missing first) text more := by
    refine leadDigit_extends ?_
    rintro rfl rfl
    exact hmissing isCutNumber_sign
  refine hlead.bind False.elim id (fun h => h.elim) fun lead afterLead hlead _ => ?_
  obtain ⟨hdigit, sign, hsign, htext⟩ := (leadDigit_ok_iff hfirst).1 hlead
  refine (wholeDigits_extends lead).bind id id (fun _ _ _ => .ended trivial _ _)
    fun more afterWhole hmore _ => ?_
  obtain ⟨hwhole, rfl, -⟩ := (wholeDigits_ok_iff hdigit).1 hmore
  refine ExtendsAt.bind (fractionPart_extends ?_) id id (fun _ _ _ => .ended trivial _ _)
    fun fraction afterFraction hfraction _ => ?_
  · rintro rfl
    exact hmissing (htext ▸ isCutNumber_point hsign hwhole)
  obtain ⟨fraction, isFraction, rfl⟩ := fraction_of_fractionPart hfraction
  refine ExtendsAt.bind (exponentPart_extends ?_) id id (fun _ _ _ => .ended trivial _ _)
    fun exponent afterExponent _ _ => (Steady.pure _).extendsAt _ _
  rintro mark exponentSign hmark hexponent rfl
  exact hmissing (htext ▸ isCutNumber_exponent hsign hwhole isFraction hmark hexponent)

end Numbers

end Decoder

end TranslationKeys
