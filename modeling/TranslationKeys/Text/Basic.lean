/-!
# Text

A text is a list of characters.  Offsets into a text count the bytes of its
UTF-8 form, so a text can be cut only at the byte offsets where a character
ends.  Classes of characters are given by closed ranges of code points.
-/

namespace TranslationKeys

/-- A text is the list of its characters. -/
abbrev Text := List Char

namespace Text

/-! ## Byte offsets -/

/-- Number of bytes of a text in UTF-8. -/
def byteLength : Text -> Nat
  | [] => 0
  | c :: rest => c.utf8Size + byteLength rest

@[simp]
theorem byteLength_nil : byteLength [] = 0 :=
  rfl

@[simp]
theorem byteLength_cons (c : Char) (rest : Text) :
    byteLength (c :: rest) = c.utf8Size + byteLength rest :=
  rfl

@[simp]
theorem byteLength_append (front back : Text) :
    byteLength (front ++ back) = byteLength front + byteLength back := by
  induction front with
  | nil => simp
  | cons c rest ih => simp [ih, Nat.add_assoc]

theorem length_le_byteLength (text : Text) : text.length <= byteLength text := by
  induction text with
  | nil => simp
  | cons c rest ih =>
      have := c.utf8Size_pos
      simp only [List.length_cons, byteLength_cons]
      omega

@[simp]
theorem byteLength_eq_zero_iff {text : Text} : byteLength text = 0 <-> text = [] := by
  constructor
  · intro h
    have hlength := length_le_byteLength text
    exact List.eq_nil_of_length_eq_zero (by omega)
  · rintro rfl
    rfl

/--
Cut a text after a number of bytes.  There is no cut inside a character and
none beyond the end.
-/
def cut? : Text -> Nat -> Option (Text × Text)
  | rest, 0 => some ([], rest)
  | [], _ + 1 => none
  | c :: rest, offset + 1 =>
      if c.utf8Size <= offset + 1 then
        (cut? rest (offset + 1 - c.utf8Size)).map fun (before, after) =>
          (c :: before, after)
      else
        none

/-- Every cut puts the text back together and has the wanted number of bytes. -/
theorem cut?_sound {text before after : Text} {offset : Nat}
    (h : cut? text offset = some (before, after)) :
    text = before ++ after /\ byteLength before = offset := by
  fun_induction cut? text offset generalizing before with
  | case1 rest =>
      simp only [Option.some.injEq, Prod.mk.injEq] at h
      obtain ⟨rfl, rfl⟩ := h
      simp
  | case2 => simp at h
  | case3 c rest offset hsize ih =>
      simp only [Option.map_eq_some_iff, Prod.exists, Prod.mk.injEq] at h
      obtain ⟨front, back, hcut, rfl, rfl⟩ := h
      obtain ⟨hrest, hbytes⟩ := ih hcut
      simp only [hrest, List.cons_append, byteLength_cons, hbytes, true_and]
      omega
  | case4 => simp at h

theorem cut?_append (before after : Text) :
    cut? (before ++ after) (byteLength before) = some (before, after) := by
  induction before with
  | nil => cases after <;> rfl
  | cons c rest ih =>
      have hpos := c.utf8Size_pos
      obtain ⟨size, hsize⟩ : exists size, byteLength (c :: rest) = size + 1 :=
        ⟨byteLength (c :: rest) - 1, by simp only [byteLength_cons]; omega⟩
      rw [hsize, List.cons_append, cut?]
      have hle : c.utf8Size <= size + 1 := by
        simp only [byteLength_cons] at hsize
        omega
      have hrest : size + 1 - c.utf8Size = byteLength rest := by
        simp only [byteLength_cons] at hsize
        omega
      simp [hle, hrest, ih]

/-! ## Numbers and classes -/

def natural (n : Nat) : Text :=
  Nat.toDigits 10 n

def spaces (count : Nat) : Text :=
  List.replicate count ' '

/-- True when one of the closed ranges holds the code point of a character. -/
def inRanges (ranges : List (Nat × Nat)) (c : Char) : Bool :=
  ranges.any fun (first, last) => first <= c.toNat && c.toNat <= last

end Text

end TranslationKeys
