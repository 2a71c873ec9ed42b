import Mathlib.Data.List.Basic
import TranslationKeys.Expr.Lexeme

/-!
# Classes of lexemes

A class of lexemes is described by the characters that its members are made of.
Reading at the start of a text finds the member that stands there, and finds
nothing only when none does.
-/

namespace TranslationKeys.Lexeme

/-! ## Classes -/

/-- A key is one or more key characters. -/
def IsKey (text : Text) : Prop :=
  text ≠ [] /\ ∀ c ∈ text, isKeyChar c = true

/-- A name is one or more name characters. -/
def IsName (text : Text) : Prop :=
  text ≠ [] /\ ∀ c ∈ text, isNameChar c = true

/-- Spacing may be empty. -/
def IsSpace (text : Text) : Prop :=
  ∀ c ∈ text, isSpacing c = true

/-- What stands in front of a value: its name, and a colon with spacing around it. -/
def IsHeader (name text : Text) : Prop :=
  IsName name /\ exists left right,
    IsSpace left /\ IsSpace right /\ text = name ++ (left ++ ':' :: right)

/-- What may stand behind a value: spacing and at most one comma. -/
def IsSeparator (text : Text) : Prop :=
  exists space, IsSpace space /\ (text = space \/ text = space ++ [','])

/-- What may stand between two quotes: a backslash takes any one character along. -/
inductive LiteralBody : Text -> Prop where
  | nil : LiteralBody []
  | plain {c : Char} {rest : Text} (hquote : c ≠ '\x22') (hslash : c ≠ '\\') :
      LiteralBody rest -> LiteralBody (c :: rest)
  | escaped (c : Char) {rest : Text} :
      LiteralBody rest -> LiteralBody ('\\' :: c :: rest)

def IsLiteral (raw : Text) : Prop :=
  exists body, LiteralBody body /\ raw = '\x22' :: (body ++ ['\x22'])

/-- True of a text that starts with the marker and a key character. -/
def BeginsCall (text : Text) : Prop :=
  exists c rest, isKeyChar c = true /\ text = marker ++ c :: rest

/-- No character of a class stands first. -/
def Avoids (member : Char -> Bool) (text : Text) : Prop :=
  forall c, text.head? = some c -> member c = false

/-- What stands first is still the first where more text follows. -/
theorem Avoids.append {member : Char -> Bool} {text : Text} (h : Avoids member text)
    (htext : text ≠ []) (more : Text) : Avoids member (text ++ more) := by
  obtain ⟨c, rest, rfl⟩ := List.exists_cons_of_ne_nil htext
  exact fun d hd => h d hd

instance (text : Text) : Decidable (IsKey text) :=
  decidable_of_iff (text ≠ [] /\ text.all isKeyChar = true) (by simp [IsKey])

instance (text : Text) : Decidable (IsName text) :=
  decidable_of_iff (text ≠ [] /\ text.all isNameChar = true) (by simp [IsName])

/-! ## Characters that cannot be confused -/

theorem toNat_of_isAlphanum {c : Char} (h : c.isAlphanum = true) :
    48 <= c.toNat /\ c.toNat <= 57 \/ 65 <= c.toNat /\ c.toNat <= 90 \/
      97 <= c.toNat /\ c.toNat <= 122 := by
  have hclass : ((decide (c.val >= 'A'.val /\ c.val <= 'Z'.val) ||
      c.val >= 'a'.val && c.val <= 'z'.val) ||
        c.val >= '0'.val && c.val <= '9'.val) = true := h
  simp [UInt32.le_iff_toNat_le] at hclass
  omega

theorem isSpacing_of_isNameChar {c : Char} (h : isNameChar c = true) :
    isSpacing c = false := by
  simp only [isNameChar, Bool.or_eq_true, beq_iff_eq] at h
  rcases h with halnum | rfl
  · have hrange := toNat_of_isAlphanum halnum
    simp only [isSpacing, Text.inRanges, spacingRanges, List.any_cons, List.any_nil,
      Bool.or_false, Bool.or_eq_false_iff, Bool.and_eq_false_iff,
      decide_eq_false_iff_not]
    omega
  · rfl

theorem ne_of_member {member : Char -> Bool} {c d : Char} (hc : member c = true)
    (hd : member d = false) : c ≠ d := by
  rintro rfl
  rw [hc] at hd
  cases hd

/-! ## Spacing and separators -/

theorem IsSpace.nil : IsSpace [] := by
  intro c hc
  cases hc

theorem IsSpace.blank : IsSpace [' '] := by
  intro c hc
  cases List.mem_singleton.1 hc
  rfl

theorem IsSeparator.nil : IsSeparator [] :=
  ⟨[], .nil, Or.inl rfl⟩

theorem IsSeparator.comma : IsSeparator [','] :=
  ⟨[], .nil, Or.inr rfl⟩

theorem skipSpacing_sound (text : Text) :
    exists space, IsSpace space /\ text = space ++ skipSpacing text :=
  ⟨_, fun c hc => List.all_eq_true.1 List.all_takeWhile c hc, (skipSpacing_eq text).symm⟩

theorem avoids_skipSpacing (text : Text) : Avoids isSpacing (skipSpacing text) :=
  fun _ hc => head?_skipSpacing hc

/-- Spacing that is already taken makes no difference. -/
@[simp]
theorem skipSpacing_append {space : Text} (hspace : IsSpace space) (text : Text) :
    skipSpacing (space ++ text) = skipSpacing text :=
  List.dropWhile_append_of_pos hspace

theorem skipSpacing_of_avoids {text : Text} (h : Avoids isSpacing text) :
    skipSpacing text = text := by
  cases text with
  | nil => rfl
  | cons c rest => simp [skipSpacing, h c rfl]

@[simp]
theorem skipSpacing_skipSpacing (text : Text) :
    skipSpacing (skipSpacing text) = skipSpacing text :=
  skipSpacing_of_avoids (avoids_skipSpacing text)

theorem skipSeparator_sound (text : Text) :
    exists separator, IsSeparator separator /\ text = separator ++ skipSeparator text := by
  obtain ⟨space, hspace, htext⟩ := skipSpacing_sound text
  unfold skipSeparator
  split
  · rename_i rest hcomma
    refine ⟨space ++ [','], ⟨space, hspace, Or.inr rfl⟩, ?_⟩
    rw [hcomma] at htext
    simpa using htext
  · exact ⟨space, ⟨space, hspace, Or.inl rfl⟩, htext⟩

/-- A whole separator is dropped, up to spacing, unless a comma comes after it. -/
theorem skipSpacing_skipSeparator {separator text : Text}
    (hseparator : IsSeparator separator)
    (htext : (skipSpacing text).head? ≠ some ',') :
    skipSpacing (skipSeparator (separator ++ text)) = skipSpacing text := by
  obtain ⟨space, hspace, rfl | rfl⟩ := hseparator
  · unfold skipSeparator
    rw [skipSpacing_append hspace]
    split
    · rename_i rest hcomma
      rw [hcomma] at htext
      exact absurd rfl htext
    · exact skipSpacing_skipSpacing text
  · have hcomma : skipSpacing (space ++ [','] ++ text) = ',' :: text := by
      rw [List.append_assoc, skipSpacing_append hspace]
      rfl
    simp only [skipSeparator, hcomma]

/-! ## Keys -/

/-- The key of a call is as long as it can be. -/
theorem callKey?_eq_some_iff {text key rest : Text} :
    callKey? text = some (key, rest) <->
      text = marker ++ (key ++ rest) /\ IsKey key /\ Avoids isKeyChar rest := by
  simp only [callKey?, Option.bind_eq_some_iff, List.isPrefixOf?_eq_some_iff_append_eq,
    run?_eq_some_iff]
  constructor
  · rintro ⟨_, rfl, rfl, hne, hkey, hrest⟩
    exact ⟨rfl, ⟨hne, hkey⟩, hrest⟩
  · rintro ⟨rfl, ⟨hne, hkey⟩, hrest⟩
    exact ⟨key ++ rest, rfl, rfl, hne, hkey, hrest⟩

theorem run?_eq_none_iff {member : Char -> Bool} {text : Text} :
    run? member text = none <-> Avoids member text := by
  unfold run? Avoids
  cases text with
  | nil => simp
  | cons c rest => cases hc : member c <;> simp [hc]

theorem callKey?_eq_none_iff {text : Text} :
    callKey? text = none <-> ¬ BeginsCall text := by
  simp only [callKey?, Option.bind_eq_none_iff, List.isPrefixOf?_eq_some_iff_append_eq,
    run?_eq_none_iff]
  constructor
  · rintro havoids ⟨c, rest, hc, rfl⟩
    have hnot := havoids (c :: rest) rfl c rfl
    rw [hc] at hnot
    cases hnot
  · rintro hnone body rfl c hc
    cases body with
    | nil => cases hc
    | cons first rest =>
        cases hc
        by_contra hmember
        exact hnone ⟨c, rest, by simpa using hmember, rfl⟩

instance (text : Text) : Decidable (BeginsCall text) :=
  decidable_of_iff (callKey? text ≠ none) (by simp [callKey?_eq_none_iff])

/-! ## Headers -/

theorem paramName?_sound {text name value : Text}
    (h : paramName? text = some (name, value)) :
    exists header, IsHeader name header /\ text = header ++ value := by
  unfold paramName? at h
  split at h
  · cases h
  · rename_i found rest hrun
    obtain ⟨rfl, hne, hname, _⟩ := run?_eq_some_iff.1 hrun
    split at h
    · rename_i after hcolon
      cases h
      obtain ⟨left, hleft, hrest⟩ := skipSpacing_sound rest
      obtain ⟨right, hright, hafter⟩ := skipSpacing_sound after
      refine ⟨_, ⟨⟨hne, hname⟩, left, right, hleft, hright, rfl⟩, ?_⟩
      rw [hcolon] at hrest
      simp only [List.append_assoc, List.cons_append, ← hafter, ← hrest]
    · cases h

/-- The name of a header is found, and all spacing after its colon is dropped. -/
theorem paramName?_header {name header : Text} (hheader : IsHeader name header)
    (value : Text) : paramName? (header ++ value) = some (name, skipSpacing value) := by
  obtain ⟨⟨hne, hname⟩, left, right, hleft, hright, rfl⟩ := hheader
  have hcolon : skipSpacing (left ++ ':' :: (right ++ value)) = ':' :: (right ++ value) := by
    rw [skipSpacing_append hleft]
    rfl
  have hrun : run? isNameChar (name ++ (left ++ ':' :: (right ++ value))) =
      some (name, left ++ ':' :: (right ++ value)) := by
    refine run?_eq_some_iff.2 ⟨rfl, hne, hname, ?_⟩
    intro c hc
    cases left with
    | nil =>
        cases hc
        rfl
    | cons first more =>
        cases hc
        by_contra hmember
        have hspacing := isSpacing_of_isNameChar (by simpa using hmember)
        rw [hleft c (by simp)] at hspacing
        cases hspacing
  simp only [paramName?, List.append_assoc, List.cons_append, hrun, hcolon,
    skipSpacing_append hright]

theorem IsName.isHeader {name : Text} (h : IsName name) :
    IsHeader name (name ++ [':', ' ']) :=
  ⟨h, [], [' '], .nil, .blank, rfl⟩

theorem IsHeader.eq_cons {name header : Text} (hheader : IsHeader name header) :
    exists c rest, isNameChar c = true /\ header = c :: rest := by
  obtain ⟨⟨hne, hname⟩, left, right, _, _, rfl⟩ := hheader
  cases name with
  | nil => exact absurd rfl hne
  | cons c rest => exact ⟨c, _, hname c (by simp), rfl⟩

theorem IsHeader.avoids_spacing {name header : Text} (hheader : IsHeader name header)
    (value : Text) : Avoids isSpacing (header ++ value) := by
  obtain ⟨c, rest, hc, rfl⟩ := hheader.eq_cons
  intro d hd
  cases hd
  exact isSpacing_of_isNameChar hc

/-- Spacing in front of a header is skipped, and no more than that. -/
theorem skipSpacing_entry {space name header front : Text} (hspace : IsSpace space)
    (hheader : IsHeader name header) :
    skipSpacing (space ++ (header ++ front)) = header ++ front := by
  rw [skipSpacing_append hspace, skipSpacing_of_avoids (hheader.avoids_spacing front)]

theorem IsHeader.head?_ne {name header : Text} (hheader : IsHeader name header) {c : Char}
    (hc : isNameChar c = false) (value : Text) : (header ++ value).head? ≠ some c := by
  obtain ⟨d, rest, hd, rfl⟩ := hheader.eq_cons
  simpa using ne_of_member hd hc

/-! ## String literals -/

theorem throughQuote?_body {body : Text} (hbody : LiteralBody body) (after : Text) :
    throughQuote? (body ++ '\x22' :: after) = some (body ++ ['\x22'], after) := by
  induction hbody with
  | nil => simp [throughQuote?]
  | plain hquote hslash _ ih => simp [throughQuote?, hslash, ih]
  | escaped c _ ih => simp [throughQuote?, ih]

/-- A character that starts no escape and does not break one off is no backslash. -/
theorem ne_backslash_of_no_escape {c : Char} {rest : Text} (hend : c = '\\' -> rest = [] -> False)
    (hslash : forall next more, c = '\\' -> rest = next :: more -> False) : c ≠ '\\' := by
  rintro rfl
  cases rest with
  | nil => exact hend rfl rfl
  | cons next more => exact hslash next more rfl rfl

theorem literalBody_of_throughQuote? {text through after : Text}
    (h : throughQuote? text = some (through, after)) :
    exists body, LiteralBody body /\ through = body ++ ['\x22'] := by
  fun_induction throughQuote? text generalizing through with
  | case1 => cases h
  | case2 rest =>
      cases h
      exact ⟨[], .nil, rfl⟩
  | case3 => cases h
  | case4 escaped rest ih =>
      obtain ⟨⟨inner, tail⟩, hinner, hthrough⟩ := Option.map_eq_some_iff.1 h
      cases hthrough
      obtain ⟨body, hbody, rfl⟩ := ih hinner
      exact ⟨_, .escaped escaped hbody, rfl⟩
  | case5 c rest hquote hend hslash ih =>
      obtain ⟨⟨inner, tail⟩, hinner, hthrough⟩ := Option.map_eq_some_iff.1 h
      cases hthrough
      obtain ⟨body, hbody, rfl⟩ := ih hinner
      have hne := ne_backslash_of_no_escape hend hslash
      exact ⟨_, .plain (fun heq => hquote heq) hne hbody, rfl⟩

/-- The literal that is found is the complete literal that stands first. -/
theorem stringLiteral?_eq_some_iff {text raw rest : Text} :
    stringLiteral? text = some (raw, rest) <-> text = raw ++ rest /\ IsLiteral raw := by
  constructor
  · intro h
    refine ⟨stringLiteral?_sound h, ?_⟩
    unfold stringLiteral? at h
    split at h
    · obtain ⟨⟨through, tail⟩, hthrough, heq⟩ := Option.map_eq_some_iff.1 h
      cases heq
      obtain ⟨body, hbody, rfl⟩ := literalBody_of_throughQuote? hthrough
      exact ⟨body, hbody, rfl⟩
    · cases h
  · rintro ⟨rfl, body, hbody, rfl⟩
    simp [stringLiteral?, throughQuote?_body hbody]

instance (raw : Text) : Decidable (IsLiteral raw) :=
  decidable_of_iff (stringLiteral? raw = some (raw, []))
    (by simp [stringLiteral?_eq_some_iff])

end TranslationKeys.Lexeme
