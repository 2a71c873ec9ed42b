import TranslationKeys.Expr.Printer

/-!
# Lexemes of the notation

Every lexeme is read at the start of a text and returned with the text after
it.  Keys and names are as long as they can be.  A string literal ends at the
first quote that no backslash takes along.
-/

namespace TranslationKeys.Lexeme

/-! ## Character classes -/

def isKeyChar (c : Char) : Bool :=
  c.isAlphanum || c == '_' || c == '.'

def isNameChar (c : Char) : Bool :=
  c.isAlphanum || c == '_'

def spacingRanges : List (Nat × Nat) :=
  [(0x09, 0x0D), (0x20, 0x20), (0xA0, 0xA0), (0x1680, 0x1680), (0x2000, 0x200A),
   (0x2028, 0x2029), (0x202F, 0x202F), (0x205F, 0x205F), (0x3000, 0x3000),
   (0xFEFF, 0xFEFF)]

def isSpacing (c : Char) : Bool :=
  Text.inRanges spacingRanges c

/-! ## Spacing -/

def skipSpacing (text : Text) : Text :=
  text.dropWhile isSpacing

theorem skipSpacing_eq (text : Text) :
    text.takeWhile isSpacing ++ skipSpacing text = text :=
  List.takeWhile_append_dropWhile

theorem head?_skipSpacing {text : Text} {c : Char}
    (h : (skipSpacing text).head? = some c) : isSpacing c = false := by
  have := List.head?_dropWhile_not isSpacing text
  unfold skipSpacing at h
  simpa [h] using this

/-- The text after the spacing and the comma that may follow a value. -/
def skipSeparator (text : Text) : Text :=
  match skipSpacing text with
  | ',' :: rest => rest
  | rest => rest

/-! ## Keys and names -/

/-- The longest run of characters of a class, if there is one, and the text after it. -/
def run? (member : Char -> Bool) (text : Text) : Option (Text × Text) :=
  match text.takeWhile member with
  | [] => none
  | first :: more => some (first :: more, text.dropWhile member)

/--
A run and the text after it make up the whole text.  The run is not empty, holds
members of the class only, and cannot be longer.
-/
theorem run?_eq_some_iff {member : Char -> Bool} {text run rest : Text} :
    run? member text = some (run, rest) <->
      text = run ++ rest /\ run ≠ [] /\ (∀ c ∈ run, member c = true) /\
        (∀ c, rest.head? = some c -> member c = false) := by
  unfold run?
  constructor
  · intro h
    split at h
    · exact absurd h (by simp)
    · rename_i first more htake
      simp only [Option.some.injEq, Prod.mk.injEq] at h
      obtain ⟨rfl, rfl⟩ := h
      refine ⟨?_, by simp, ?_, ?_⟩
      · rw [<- htake]
        exact List.takeWhile_append_dropWhile.symm
      · intro c hc
        rw [<- htake] at hc
        exact List.all_eq_true.1 List.all_takeWhile c hc
      · intro c hc
        have := List.head?_dropWhile_not member text
        simpa [hc] using this
  · rintro ⟨rfl, hrun, hmember, hrest⟩
    have htake : (run ++ rest).takeWhile member = run := by
      rw [List.takeWhile_append_of_pos hmember]
      cases rest with
      | nil => simp
      | cons c more => simp [hrest c rfl]
    have hdrop : (run ++ rest).dropWhile member = rest := by
      rw [List.dropWhile_append_of_pos hmember]
      cases rest with
      | nil => rfl
      | cons c more => simp [hrest c rfl]
    rw [htake, hdrop]
    cases run with
    | nil => exact absurd rfl hrun
    | cons first more => rfl

/-- The key of a call that starts here. -/
def callKey? (text : Text) : Option (Text × Text) :=
  (marker.isPrefixOf? text).bind (run? isKeyChar)

/-- The name of a parameter, and the text after its colon and the spacing around it. -/
def paramName? (text : Text) : Option (Text × Text) :=
  match run? isNameChar text with
  | none => none
  | some (name, rest) =>
      match skipSpacing rest with
      | ':' :: value => some (name, skipSpacing value)
      | _ => none

/-! ## String literals -/

/--
The text up to and including the first quote that is not escaped.  A backslash
takes the next character along, whatever it is.
-/
def throughQuote? : Text -> Option (Text × Text)
  | [] => none
  | '\x22' :: rest => some (['\x22'], rest)
  | ['\\'] => none
  | '\\' :: escaped :: rest =>
      (throughQuote? rest).map fun (body, after) => ('\\' :: escaped :: body, after)
  | c :: rest => (throughQuote? rest).map fun (body, after) => (c :: body, after)

theorem throughQuote?_sound {text body after : Text}
    (h : throughQuote? text = some (body, after)) : text = body ++ after := by
  fun_induction throughQuote? text generalizing body with
  | case1 => simp at h
  | case2 rest =>
      simp only [Option.some.injEq, Prod.mk.injEq] at h
      obtain ⟨rfl, rfl⟩ := h
      rfl
  | case3 => simp at h
  | case4 escaped rest ih =>
      simp only [Option.map_eq_some_iff, Prod.exists, Prod.mk.injEq] at h
      obtain ⟨inner, tail, hinner, rfl, rfl⟩ := h
      simp [ih hinner]
  | case5 c rest _ _ _ ih =>
      simp only [Option.map_eq_some_iff, Prod.exists, Prod.mk.injEq] at h
      obtain ⟨inner, tail, hinner, rfl, rfl⟩ := h
      simp [ih hinner]

/-- The string literal that starts here, with its quotes and escapes. -/
def stringLiteral? : Text -> Option (Text × Text)
  | '\x22' :: rest =>
      (throughQuote? rest).map fun (body, after) => ('\x22' :: body, after)
  | _ => none

theorem stringLiteral?_sound {text raw after : Text}
    (h : stringLiteral? text = some (raw, after)) : text = raw ++ after := by
  unfold stringLiteral? at h
  split at h
  · simp only [Option.map_eq_some_iff, Prod.exists, Prod.mk.injEq] at h
    obtain ⟨body, tail, hbody, rfl, rfl⟩ := h
    simp [throughQuote?_sound hbody]
  · exact absurd h (by simp)

end TranslationKeys.Lexeme
