import TranslationKeys.Json.Decoder
import TranslationKeys.Proofs.Lexemes

/-!
# The grammar of JSON text

Strict JSON as relations that do not mention how a text is read.  A relation
between two texts says that the first begins with some form and that the second
is what follows it.  Numbers and strings are kept as they are written, so every
document of the grammar is one, whatever its numbers and escapes mean.
-/

namespace TranslationKeys

/-- A JSON document.  Numbers and the text between quotes are as they are written. -/
inductive RawJson where
  | null
  | boolean (value : Bool)
  | number (text : Text)
  | string (body : Text)
  | array (items : List RawJson)
  | object (members : List (Text × RawJson))

namespace RawJson

open Decoder (isJsonSpace shortEscape? hexUnit? isLeadUnit isTrailUnit pairedChar)
open Lexeme (Avoids)

/-! ## Lexemes -/

/-- A text begins with blank characters, as few or as many as the rest leaves. -/
def IsBlank (text rest : Text) : Prop :=
  exists blank, (∀ c ∈ blank, isJsonSpace c = true) /\ text = blank ++ rest

def AreDigits (text : Text) : Prop :=
  text ≠ [] /\ ∀ c ∈ text, c.isDigit = true

/-- The digits in front of a point.  A zero in front stands alone. -/
def IsWhole (text : Text) : Prop :=
  AreDigits text /\ (text.head? = some '0' -> text = ['0'])

def IsFraction (text : Text) : Prop :=
  text = [] \/ exists digits, AreDigits digits /\ text = '.' :: digits

def IsExponent (text : Text) : Prop :=
  text = [] \/ exists mark sign digits, (mark = 'e' \/ mark = 'E') /\
    (sign = [] \/ sign = ['+'] \/ sign = ['-']) /\ AreDigits digits /\
    text = mark :: (sign ++ digits)

def IsNumber (text : Text) : Prop :=
  exists sign whole fraction exponent, (sign = [] \/ sign = ['-']) /\ IsWhole whole /\
    IsFraction fraction /\ IsExponent exponent /\
    text = sign ++ (whole ++ (fraction ++ exponent))

/-- The text between the quotes of a string, with any code units among its escapes. -/
inductive IsBody : Text -> Prop where
  | nil : IsBody []
  | plain {c : Char} {rest : Text} (hquote : c ≠ '\x22') (hslash : c ≠ '\\')
      (hprinted : 0x20 <= c.toNat) (hrest : IsBody rest) : IsBody (c :: rest)
  | short {letter c : Char} {rest : Text} (hletter : shortEscape? letter = some c)
      (hrest : IsBody rest) : IsBody ('\\' :: letter :: rest)
  | unit {a b c d : Char} {unit : Nat} {rest : Text} (hunit : hexUnit? a b c d = some unit)
      (hrest : IsBody rest) : IsBody ('\\' :: 'u' :: a :: b :: c :: d :: rest)

/--
What the text between the quotes of a string stands for.  Two code units that
make up a pair stand for one character, and such a unit stands for nothing alone.
-/
inductive Unescapes : Text -> Text -> Prop where
  | nil : Unescapes [] []
  | plain {c : Char} {rest value : Text} (hquote : c ≠ '\x22') (hslash : c ≠ '\\')
      (hprinted : 0x20 <= c.toNat) (hrest : Unescapes rest value) :
      Unescapes (c :: rest) (c :: value)
  | short {letter c : Char} {rest value : Text} (hletter : shortEscape? letter = some c)
      (hrest : Unescapes rest value) : Unescapes ('\\' :: letter :: rest) (c :: value)
  | unit {a b c d : Char} {unit : Nat} {rest value : Text} (hunit : hexUnit? a b c d = some unit)
      (hlead : isLeadUnit unit = false) (htrail : isTrailUnit unit = false)
      (hrest : Unescapes rest value) :
      Unescapes ('\\' :: 'u' :: a :: b :: c :: d :: rest) (Char.ofNat unit :: value)
  | pair {a b c d e f g h : Char} {lead trail : Nat} {rest value : Text}
      (hunit : hexUnit? a b c d = some lead) (hlead : isLeadUnit lead = true)
      (hnext : hexUnit? e f g h = some trail) (htrail : isTrailUnit trail = true)
      (hrest : Unescapes rest value) :
      Unescapes ('\\' :: 'u' :: a :: b :: c :: d :: '\\' :: 'u' :: e :: f :: g :: h :: rest)
        (pairedChar lead trail :: value)

/-! ## Documents -/

/-- The key of a member and its colon, with blank characters in front of both. -/
def IsKey (key text rest : Text) : Prop :=
  exists after, IsBody key /\ IsBlank text ('\x22' :: (key ++ '\x22' :: after)) /\
    IsBlank after (':' :: rest)

def booleanWord : Bool -> Text
  | true => ['t', 'r', 'u', 'e']
  | false => ['f', 'a', 'l', 's', 'e']

mutual

/-- A text begins with a value. -/
inductive IsValue : RawJson -> Text -> Text -> Prop where
  | null {rest : Text} : IsValue .null ('n' :: 'u' :: 'l' :: 'l' :: rest) rest
  | boolean {rest : Text} (value : Bool) :
      IsValue (.boolean value) (booleanWord value ++ rest) rest
  | number {number rest : Text} (hnumber : IsNumber number) :
      IsValue (.number number) (number ++ rest) rest
  | string {body rest : Text} (hbody : IsBody body) :
      IsValue (.string body) ('\x22' :: (body ++ '\x22' :: rest)) rest
  | emptyArray {text rest : Text} (hend : IsBlank text (']' :: rest)) :
      IsValue (.array []) ('[' :: text) rest
  | array {text start next rest : Text} {item : RawJson} {items : List RawJson}
      (hblank : IsBlank text start) (hitem : IsValue item start next)
      (hitems : AreMoreItems items next rest) :
      IsValue (.array (item :: items)) ('[' :: text) rest
  | emptyObject {text rest : Text} (hend : IsBlank text ('}' :: rest)) :
      IsValue (.object []) ('{' :: text) rest
  | object {text after start next rest key : Text} {value : RawJson}
      {members : List (Text × RawJson)} (hkey : IsKey key text after)
      (hblank : IsBlank after start) (hvalue : IsValue value start next)
      (hmembers : AreMoreMembers members next rest) :
      IsValue (.object ((key, value) :: members)) ('{' :: text) rest

/-- A text begins with the items after the first one, each behind a comma, and the bracket. -/
inductive AreMoreItems : List RawJson -> Text -> Text -> Prop where
  | close {text rest : Text} (hend : IsBlank text (']' :: rest)) : AreMoreItems [] text rest
  | comma {text after start next rest : Text} {item : RawJson} {items : List RawJson}
      (hcomma : IsBlank text (',' :: after)) (hblank : IsBlank after start)
      (hitem : IsValue item start next) (hitems : AreMoreItems items next rest) :
      AreMoreItems (item :: items) text rest

/-- A text begins with the members after the first one, each behind a comma, and the brace. -/
inductive AreMoreMembers : List (Text × RawJson) -> Text -> Text -> Prop where
  | close {text rest : Text} (hend : IsBlank text ('}' :: rest)) : AreMoreMembers [] text rest
  | comma {text behind after start next rest key : Text} {value : RawJson}
      {members : List (Text × RawJson)} (hcomma : IsBlank text (',' :: behind))
      (hkey : IsKey key behind after) (hblank : IsBlank after start)
      (hvalue : IsValue value start next) (hmembers : AreMoreMembers members next rest) :
      AreMoreMembers ((key, value) :: members) text rest

end

/-- A text begins with blank characters and a value. -/
def Begins (document : RawJson) (text rest : Text) : Prop :=
  exists start, IsBlank text start /\ IsValue document start rest

/-- A text is a document, with blank characters around it. -/
def IsDocument (document : RawJson) (text : Text) : Prop :=
  exists rest, Begins document text rest /\ IsBlank rest []

/-! ## Blank characters -/

theorem IsBlank.refl (text : Text) : IsBlank text text :=
  ⟨[], nofun, rfl⟩

theorem IsBlank.trans {first second third : Text} (h : IsBlank first second)
    (hnext : IsBlank second third) : IsBlank first third := by
  obtain ⟨front, hfront, rfl⟩ := h
  obtain ⟨back, hback, rfl⟩ := hnext
  refine ⟨front ++ back, ?_, (List.append_assoc _ _ _).symm⟩
  rw [List.forall_mem_append]
  exact ⟨hfront, hback⟩

theorem isBlank_dropWhile (text : Text) : IsBlank text (text.dropWhile isJsonSpace) :=
  ⟨text.takeWhile isJsonSpace, fun c hc => List.all_eq_true.1 List.all_takeWhile c hc,
    List.takeWhile_append_dropWhile.symm⟩

theorem avoids_nil (member : Char -> Bool) : Avoids member [] := by
  intro c hc
  cases hc

theorem avoids_dropWhile (member : Char -> Bool) (text : Text) :
    Avoids member (text.dropWhile member) := by
  intro c hc
  have hhead := List.head?_dropWhile_not member text
  rw [hc] at hhead
  simpa using hhead

/-- Skipping blank characters leaves the same text wherever among them it starts. -/
theorem IsBlank.dropWhile_congr {text rest : Text} (h : IsBlank text rest) :
    text.dropWhile isJsonSpace = rest.dropWhile isJsonSpace := by
  obtain ⟨blank, hblank, rfl⟩ := h
  exact List.dropWhile_append_of_pos hblank

theorem dropWhile_of_avoids {member : Char -> Bool} {text : Text} (h : Avoids member text) :
    text.dropWhile member = text := by
  cases text with
  | nil => rfl
  | cons c rest => exact List.dropWhile_cons_of_neg (by simp [h c rfl])

/-- The blank characters in front of any other one are all that is skipped. -/
theorem isBlank_iff_dropWhile_eq {text rest : Text} (h : Avoids isJsonSpace rest) :
    IsBlank text rest <-> text.dropWhile isJsonSpace = rest := by
  constructor
  · intro hblank
    rw [hblank.dropWhile_congr, dropWhile_of_avoids h]
  · rintro rfl
    exact isBlank_dropWhile text

/-- It makes no difference where among the blank characters they are counted from. -/
theorem IsBlank.congr {text start rest : Text} (h : IsBlank text start)
    (hrest : Avoids isJsonSpace rest) : IsBlank text rest <-> IsBlank start rest := by
  rw [isBlank_iff_dropWhile_eq hrest, isBlank_iff_dropWhile_eq hrest, h.dropWhile_congr]

/-! ## First characters -/

theorem IsNumber.eq_cons {number : Text} (h : IsNumber number) :
    exists first more, number = first :: more /\ (first = '-' \/ first.isDigit = true) := by
  obtain ⟨sign, whole, fraction, exponent, hsign, hwhole, -, -, rfl⟩ := h
  obtain ⟨lead, more, rfl⟩ := List.exists_cons_of_ne_nil hwhole.1.1
  rcases hsign with rfl | rfl
  · exact ⟨lead, _, rfl, Or.inr (hwhole.1.2 lead List.mem_cons_self)⟩
  · exact ⟨'-', _, rfl, Or.inl rfl⟩

/-- The characters that a value may begin with. -/
def BeginsValue (c : Char) : Prop :=
  c ∈ ['n', 't', 'f', '\x22', '[', '{', '-'] \/ c.isDigit = true

theorem IsValue.eq_cons {document : RawJson} {text rest : Text} (h : IsValue document text rest) :
    exists c more, text = c :: more /\ BeginsValue c := by
  cases h with
  | null => exact ⟨_, _, rfl, Or.inl (by decide)⟩
  | boolean value => cases value <;> exact ⟨_, _, rfl, Or.inl (by decide)⟩
  | number hnumber =>
      obtain ⟨first, more, rfl, rfl | hdigit⟩ := hnumber.eq_cons
      · exact ⟨_, _, rfl, Or.inl (by decide)⟩
      · exact ⟨_, _, rfl, Or.inr hdigit⟩
  | string => exact ⟨_, _, rfl, Or.inl (by decide)⟩
  | emptyArray => exact ⟨_, _, rfl, Or.inl (by decide)⟩
  | array => exact ⟨_, _, rfl, Or.inl (by decide)⟩
  | emptyObject => exact ⟨_, _, rfl, Or.inl (by decide)⟩
  | object => exact ⟨_, _, rfl, Or.inl (by decide)⟩

theorem isJsonSpace_of_isDigit {c : Char} (h : c.isDigit = true) : isJsonSpace c = false := by
  by_contra hspace
  simp only [isJsonSpace, Bool.not_eq_false, Bool.or_eq_true, beq_iff_eq] at hspace
  rcases hspace with ((rfl | rfl) | rfl) | rfl <;> cases h

/-- No character that a value begins with is one that is skipped or that closes a bracket. -/
theorem BeginsValue.apart {c : Char} (h : BeginsValue c) :
    isJsonSpace c = false /\ c ≠ ']' /\ c ≠ '}' := by
  rcases h with hmember | hdigit
  · simp only [List.mem_cons, List.not_mem_nil, or_false] at hmember
    rcases hmember with rfl | rfl | rfl | rfl | rfl | rfl | rfl <;> decide
  · exact ⟨isJsonSpace_of_isDigit hdigit, Lexeme.ne_of_member hdigit rfl,
      Lexeme.ne_of_member hdigit rfl⟩

theorem IsValue.avoids_space {document : RawJson} {text rest : Text}
    (h : IsValue document text rest) : Avoids isJsonSpace text := by
  obtain ⟨c, more, rfl, hc⟩ := h.eq_cons
  intro d hd
  cases hd
  exact hc.apart.1

/-! ## What is left -/

theorem IsBlank.isSuffix {text rest : Text} (h : IsBlank text rest) : rest <:+ text := by
  obtain ⟨blank, -, rfl⟩ := h
  exact List.suffix_append blank rest

theorem IsBlank.mark_isSuffix {text rest : Text} {c : Char} (h : IsBlank text (c :: rest)) :
    rest <:+ text :=
  (List.suffix_cons c rest).trans h.isSuffix

theorem IsBlank.ne_nil {text rest : Text} {c : Char} (h : IsBlank text (c :: rest)) :
    text ≠ [] := by
  rintro rfl
  exact absurd h.isSuffix.length_le (Nat.not_succ_le_zero _)

theorem IsKey.isSuffix {key text rest : Text} (h : IsKey key text rest) : rest <:+ text := by
  obtain ⟨after, -, hquote, hcolon⟩ := h
  have hafter : after <:+ key ++ '\x22' :: after :=
    (List.suffix_cons _ _).trans (List.suffix_append key _)
  exact hcolon.mark_isSuffix.trans (hafter.trans hquote.mark_isSuffix)

mutual

/-- What is left behind a value is the end of the text. -/
theorem IsValue.isSuffix :
    forall {document : RawJson} {text rest : Text}, IsValue document text rest -> rest <:+ text
  | _, _, rest, .null => List.suffix_append ['n', 'u', 'l', 'l'] rest
  | _, _, rest, .boolean value => List.suffix_append (booleanWord value) rest
  | _, _, _, .number _ => List.suffix_append _ _
  | _, _, _, .string _ =>
      (List.suffix_cons _ _).trans ((List.suffix_append _ _).trans (List.suffix_cons _ _))
  | _, _, _, .emptyArray hend => hend.mark_isSuffix.trans (List.suffix_cons _ _)
  | _, _, _, .array hblank hitem hitems =>
      hitems.isSuffix.trans (hitem.isSuffix.trans (hblank.isSuffix.trans (List.suffix_cons _ _)))
  | _, _, _, .emptyObject hend => hend.mark_isSuffix.trans (List.suffix_cons _ _)
  | _, _, _, .object hkey hblank hvalue hmembers =>
      hmembers.isSuffix.trans (hvalue.isSuffix.trans
        (hblank.isSuffix.trans (hkey.isSuffix.trans (List.suffix_cons _ _))))

theorem AreMoreItems.isSuffix :
    forall {items : List RawJson} {text rest : Text}, AreMoreItems items text rest ->
      rest <:+ text
  | _, _, _, .close hend => hend.mark_isSuffix
  | _, _, _, .comma hcomma hblank hitem hitems =>
      hitems.isSuffix.trans (hitem.isSuffix.trans (hblank.isSuffix.trans hcomma.mark_isSuffix))

theorem AreMoreMembers.isSuffix :
    forall {members : List (Text × RawJson)} {text rest : Text},
      AreMoreMembers members text rest -> rest <:+ text
  | _, _, _, .close hend => hend.mark_isSuffix
  | _, _, _, .comma hcomma hkey hblank hvalue hmembers =>
      hmembers.isSuffix.trans (hvalue.isSuffix.trans
        (hblank.isSuffix.trans (hkey.isSuffix.trans hcomma.mark_isSuffix)))

end

theorem Begins.isSuffix {document : RawJson} {text rest : Text} (h : Begins document text rest) :
    rest <:+ text := by
  obtain ⟨start, hblank, hvalue⟩ := h
  exact hvalue.isSuffix.trans hblank.isSuffix

/-! ## Escapes of surrogates -/

theorem Unescapes.isBody {body value : Text} (h : Unescapes body value) : IsBody body := by
  induction h with
  | nil => exact .nil
  | plain hquote hslash hprinted _ ih => exact .plain hquote hslash hprinted ih
  | short hletter _ ih => exact .short hletter ih
  | unit hunit _ _ _ ih => exact .unit hunit ih
  | pair hunit _ hnext _ _ ih => exact .unit hunit (.unit hnext ih)

/-- Four digits of a code unit that is half of a pair. -/
def beginsSurrogate : Text -> Bool
  | a :: b :: c :: d :: _ =>
      (hexUnit? a b c d).any fun unit => isLeadUnit unit || isTrailUnit unit
  | _ => false

/-- A text holds the escape of half of a pair.  A backslash that is escaped itself begins none. -/
def hasSurrogate : Text -> Bool
  | '\\' :: letter :: rest => (letter == 'u' && beginsSurrogate rest) || hasSurrogate rest
  | _ :: rest => hasSurrogate rest
  | [] => false

theorem hasSurrogate_cons {c : Char} (hslash : c ≠ '\\') (rest : Text) :
    hasSurrogate (c :: rest) = hasSurrogate rest := by
  rw [hasSurrogate]
  rintro letter more rfl
  exact absurd rfl hslash

theorem hasSurrogate_append (front : Text) (hslash : '\\' ∉ front) (rest : Text) :
    hasSurrogate (front ++ rest) = hasSurrogate rest := by
  induction front with
  | nil => rfl
  | cons c front ih =>
      rw [List.mem_cons, not_or] at hslash
      rw [List.cons_append, hasSurrogate_cons (Ne.symm hslash.1), ih hslash.2]

theorem slash_not_mem_of_hexUnit? {a b c d : Char} {unit : Nat}
    (h : hexUnit? a b c d = some unit) : '\\' ∉ [a, b, c, d] := by
  have hnone : Decoder.hexValue? '\\' = none := by decide
  simp only [hexUnit?, Option.bind_eq_bind, Option.bind_eq_some_iff] at h
  obtain ⟨_, ha, _, hb, _, hc, _, hd, -⟩ := h
  intro hmember
  simp only [List.mem_cons, List.not_mem_nil, or_false] at hmember
  rcases hmember with rfl | rfl | rfl | rfl
  · exact absurd (hnone.symm.trans ha) nofun
  · exact absurd (hnone.symm.trans hb) nofun
  · exact absurd (hnone.symm.trans hc) nofun
  · exact absurd (hnone.symm.trans hd) nofun

/-- A string without escapes of surrogates stands for a text, and none are in front of its rest. -/
theorem IsBody.unescapes {body rest : Text} (h : IsBody body)
    (hnone : hasSurrogate (body ++ '\x22' :: rest) = false) :
    (exists value, Unescapes body value) /\ hasSurrogate rest = false := by
  induction h with
  | nil => exact ⟨⟨[], .nil⟩, hnone⟩
  | plain hquote hslash hprinted _ ih =>
      rw [List.cons_append, hasSurrogate_cons hslash] at hnone
      obtain ⟨⟨value, hvalue⟩, hrest⟩ := ih hnone
      exact ⟨⟨_, .plain hquote hslash hprinted hvalue⟩, hrest⟩
  | short hletter _ ih =>
      rw [List.cons_append, List.cons_append, hasSurrogate, Bool.or_eq_false_iff] at hnone
      obtain ⟨⟨value, hvalue⟩, hrest⟩ := ih hnone.2
      exact ⟨⟨_, .short hletter hvalue⟩, hrest⟩
  | @unit a b c d unit body hunit _ ih =>
      simp only [List.cons_append] at hnone
      rw [hasSurrogate, Bool.or_eq_false_iff] at hnone
      obtain ⟨hunpaired, hnone⟩ := hnone
      simp only [beq_self_eq_true, Bool.true_and, beginsSurrogate, hunit, Option.any_some,
        Bool.or_eq_false_iff] at hunpaired
      have hdigits := hasSurrogate_append [a, b, c, d] (slash_not_mem_of_hexUnit? hunit)
        (body ++ '\x22' :: rest)
      obtain ⟨⟨value, hvalue⟩, hrest⟩ := ih (hdigits.symm.trans hnone)
      exact ⟨⟨_, .unit hunit hunpaired.1 hunpaired.2 hvalue⟩, hrest⟩

theorem IsBlank.hasSurrogate_eq {text rest : Text} (h : IsBlank text rest) :
    hasSurrogate text = hasSurrogate rest := by
  obtain ⟨blank, hblank, rfl⟩ := h
  refine hasSurrogate_append blank ?_ rest
  intro hslash
  cases hblank _ hslash

theorem AreDigits.slash_not_mem {digits : Text} (h : AreDigits digits) : '\\' ∉ digits :=
  fun hslash => absurd (h.2 _ hslash) (by decide)

theorem IsNumber.slash_not_mem {number : Text} (h : IsNumber number) : '\\' ∉ number := by
  obtain ⟨sign, whole, fraction, exponent, hsign, hwhole, hfraction, hexponent, rfl⟩ := h
  simp only [List.mem_append, not_or]
  refine ⟨?_, hwhole.1.slash_not_mem, ?_, ?_⟩
  · rcases hsign with rfl | rfl <;> decide
  · rcases hfraction with rfl | ⟨digits, hdigits, rfl⟩
    · decide
    · rw [List.mem_cons, not_or]
      exact ⟨by decide, hdigits.slash_not_mem⟩
  · rcases hexponent with rfl | ⟨mark, mid, digits, hmark, hmid, hdigits, rfl⟩
    · decide
    · simp only [List.mem_cons, List.mem_append, not_or]
      refine ⟨?_, ?_, hdigits.slash_not_mem⟩
      · rcases hmark with rfl | rfl <;> decide
      · rcases hmid with rfl | rfl | rfl <;> decide

theorem IsKey.unescapes {key text rest : Text} (h : IsKey key text rest)
    (hnone : hasSurrogate text = false) :
    (exists name, Unescapes key name) /\ hasSurrogate rest = false := by
  obtain ⟨after, hbody, hquote, hcolon⟩ := h
  rw [hquote.hasSurrogate_eq, hasSurrogate_cons (by decide)] at hnone
  obtain ⟨hname, hafter⟩ := hbody.unescapes hnone
  rw [hcolon.hasSurrogate_eq, hasSurrogate_cons (by decide)] at hafter
  exact ⟨hname, hafter⟩

mutual

/-- A text without escapes of surrogates has none behind a value. -/
theorem IsValue.hasSurrogate_rest :
    forall {document : RawJson} {text rest : Text}, IsValue document text rest ->
      hasSurrogate text = false -> hasSurrogate rest = false
  | _, _, _, .null => fun hnone => hnone
  | _, _, _, .boolean true => fun hnone => hnone
  | _, _, _, .boolean false => fun hnone => hnone
  | _, _, rest, .number hnumber => fun hnone => by
      rw [← hasSurrogate_append _ hnumber.slash_not_mem rest]
      exact hnone
  | _, _, _, .string hbody => fun hnone => (hbody.unescapes hnone).2
  | _, _, _, .emptyArray hend => fun hnone => hend.hasSurrogate_eq.symm.trans hnone
  | _, _, _, .array hblank hitem hitems => fun hnone =>
      hitems.hasSurrogate_rest (hitem.hasSurrogate_rest (hblank.hasSurrogate_eq.symm.trans hnone))
  | _, _, _, .emptyObject hend => fun hnone => hend.hasSurrogate_eq.symm.trans hnone
  | _, _, _, .object hkey hblank hvalue hmembers => fun hnone =>
      hmembers.hasSurrogate_rest (hvalue.hasSurrogate_rest
        (hblank.hasSurrogate_eq.symm.trans (hkey.unescapes hnone).2))

theorem AreMoreItems.hasSurrogate_rest :
    forall {items : List RawJson} {text rest : Text}, AreMoreItems items text rest ->
      hasSurrogate text = false -> hasSurrogate rest = false
  | _, _, _, .close hend => fun hnone => hend.hasSurrogate_eq.symm.trans hnone
  | _, _, _, .comma hcomma hblank hitem hitems => fun hnone =>
      hitems.hasSurrogate_rest (hitem.hasSurrogate_rest
        (hblank.hasSurrogate_eq.symm.trans (hcomma.hasSurrogate_eq.symm.trans hnone)))

theorem AreMoreMembers.hasSurrogate_rest :
    forall {members : List (Text × RawJson)} {text rest : Text},
      AreMoreMembers members text rest -> hasSurrogate text = false -> hasSurrogate rest = false
  | _, _, _, .close hend => fun hnone => hend.hasSurrogate_eq.symm.trans hnone
  | _, _, _, .comma hcomma hkey hblank hvalue hmembers => fun hnone =>
      hmembers.hasSurrogate_rest (hvalue.hasSurrogate_rest (hblank.hasSurrogate_eq.symm.trans
        (hkey.unescapes (hcomma.hasSurrogate_eq.symm.trans hnone)).2))

end

/-- Every key of an object stands for a text. -/
def KeysUnescape : RawJson -> Prop
  | .object members => ∀ member ∈ members, exists name, Unescapes member.1 name
  | _ => True

theorem AreMoreMembers.keysUnescape {members : List (Text × RawJson)} {text rest : Text}
    (h : AreMoreMembers members text rest) (hnone : hasSurrogate text = false) :
    KeysUnescape (.object members) := by
  induction members generalizing text with
  | nil => exact nofun
  | cons member members ih =>
      cases h with
      | comma hcomma hkey hblank hvalue hmembers =>
          rw [hcomma.hasSurrogate_eq, hasSurrogate_cons (by decide)] at hnone
          obtain ⟨hname, hafter⟩ := hkey.unescapes hnone
          rw [hblank.hasSurrogate_eq] at hafter
          exact List.forall_mem_cons.2 ⟨hname, ih hmembers (hvalue.hasSurrogate_rest hafter)⟩

theorem IsDocument.keysUnescape {document : RawJson} {text : Text} (h : IsDocument document text)
    (hnone : hasSurrogate text = false) : document.KeysUnescape := by
  obtain ⟨rest, ⟨start, hstart, hvalue⟩, -⟩ := h
  rw [hstart.hasSurrogate_eq] at hnone
  cases hvalue with
  | emptyObject => exact nofun
  | object hkey hblank hvalue hmembers =>
      rw [hasSurrogate_cons (by decide)] at hnone
      obtain ⟨hname, hafter⟩ := hkey.unescapes hnone
      rw [hblank.hasSurrogate_eq] at hafter
      exact List.forall_mem_cons.2
        ⟨hname, hmembers.keysUnescape (hvalue.hasSurrogate_rest hafter)⟩
  | _ => trivial

end RawJson

end TranslationKeys
