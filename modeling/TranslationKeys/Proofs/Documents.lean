import TranslationKeys.Json.Printer
import TranslationKeys.Proofs.Decoders

/-!
# Reading documents back

A written document can be read back, whatever the blank characters of its layout
are.  Reading passes over the blank characters in front of every mark.  A number
needs a character behind it that is not a digit, and every mark is one.  So no
layout writes two documents as the same text.
-/

namespace TranslationKeys.Json

open Lexeme (Avoids run?)
open Decoder (isJsonSpace stringBody consResult)

/-! ## Strings -/

theorem hexUnit?_hexDigit {value : Nat} (h : value < 0x20) :
    Decoder.hexUnit? '0' '0' (hexDigit (value / 16)) (hexDigit value) = some value := by
  decide +revert

theorem isLeadUnit_eq_false {value : Nat} (h : value < 0x20) :
    Decoder.isLeadUnit value = false := by
  simp only [Decoder.isLeadUnit, Bool.and_eq_false_iff, decide_eq_false_iff_not]
  omega

theorem isTrailUnit_eq_false {value : Nat} (h : value < 0x20) :
    Decoder.isTrailUnit value = false := by
  simp only [Decoder.isTrailUnit, Bool.and_eq_false_iff, decide_eq_false_iff_not]
  omega

theorem stringBody_stringChar (c : Char) (rest : Text) :
    stringBody true (stringChar c ++ rest) = consResult c (stringBody true rest) := by
  unfold stringChar
  split
  -- The short escapes compute.  Any other character is escaped by its number or
  -- stands for itself.
  case h_8 c hquote hslash _ _ _ _ _ =>
    split
    · rename_i hcontrol
      have hunit := hexUnit?_hexDigit hcontrol
      simp only [List.cons_append, List.nil_append, stringBody, hunit,
        isTrailUnit_eq_false hcontrol, isLeadUnit_eq_false hcontrol, Char.ofNat_toNat,
        Bool.and_false, Bool.false_eq_true, if_false]
    · rename_i hprinted
      exact Decoder.stringBody_plain true hquote hslash (Nat.not_lt.1 hprinted) rest
  all_goals rfl

theorem stringBody_flatMap (value rest : Text) :
    stringBody true (value.flatMap stringChar ++ '\x22' :: rest) = .ok (value, rest) := by
  induction value with
  | nil => rfl
  | cons c more ih =>
      rw [List.flatMap_cons, List.append_assoc, stringBody_stringChar, ih]
      rfl

/-- The string that starts here, and the text after it. -/
def readString? : Text -> Option (Text × Text)
  | '\x22' :: rest => (stringBody true rest).toOption
  | _ => none

theorem readString?_stringForm (value rest : Text) :
    readString? (stringForm value ++ rest) = some (value, rest) := by
  have hform : stringForm value ++ rest =
      '\x22' :: (value.flatMap stringChar ++ '\x22' :: rest) := by
    simp [stringForm]
  rw [hform, readString?, stringBody_flatMap]
  rfl

/-! ## Numbers -/

/-- The number that starts here, and the text after it. -/
def readNumber? (text : Text) : Option (Nat × Text) :=
  (run? Char.isDigit text).map fun (digits, rest) => (Nat.ofDigitChars 10 digits 0, rest)

theorem ofDigitChars_natural (value : Nat) :
    Nat.ofDigitChars 10 (Text.natural value) 0 = value :=
  Nat.ofDigitChars_ten_toDigits

theorem isDigit_of_mem_natural {value : Nat} {c : Char} (h : c ∈ Text.natural value) :
    c.isDigit = true :=
  Nat.isDigit_of_mem_toDigits (by decide) (by decide) h

theorem readNumber?_natural (value : Nat) {rest : Text} (hrest : Avoids Char.isDigit rest) :
    readNumber? (Text.natural value ++ rest) = some (value, rest) := by
  have hrun : run? Char.isDigit (Text.natural value ++ rest) =
      some (Text.natural value, rest) :=
    Lexeme.run?_eq_some_iff.2
      ⟨rfl, Nat.toDigits_ne_nil, fun c hc => isDigit_of_mem_natural hc, hrest⟩
  simp only [readNumber?, hrun, Option.map_some, ofDigitChars_natural]

/-! ## Blank characters and marks -/

def skipBlank (text : Text) : Text :=
  text.dropWhile isJsonSpace

/-- Between marks a layout writes blank characters only. -/
structure Layout.IsBlank (layout : Layout) : Prop where
  lineBreak : forall depth, ∀ c ∈ layout.lineBreak depth, isJsonSpace c = true
  afterColon : ∀ c ∈ layout.afterColon, isJsonSpace c = true

theorem Layout.compact_isBlank : Layout.compact.IsBlank :=
  ⟨fun _ _ hc => absurd hc List.not_mem_nil, fun _ hc => absurd hc List.not_mem_nil⟩

theorem Layout.pretty_isBlank : Layout.pretty.IsBlank := by
  refine ⟨?_, ?_⟩
  · intro depth c hc
    rcases List.mem_cons.1 hc with rfl | hspace
    · rfl
    · rw [List.eq_of_mem_replicate hspace]
      rfl
  · intro c hc
    rw [List.mem_singleton.1 hc]
    rfl

theorem skipBlank_append {blank : Text} (hblank : ∀ c ∈ blank, isJsonSpace c = true)
    (text : Text) : skipBlank (blank ++ text) = skipBlank text :=
  List.dropWhile_append_of_pos hblank

theorem skipBlank_natural (value : Nat) (rest : Text) :
    skipBlank (Text.natural value ++ rest) = Text.natural value ++ rest := by
  cases hdigits : Text.natural value with
  | nil => exact absurd hdigits Nat.toDigits_ne_nil
  | cons first more =>
      have hfirst : first.isDigit = true :=
        isDigit_of_mem_natural (hdigits ▸ List.mem_cons_self)
      exact List.dropWhile_cons_of_neg (by simp [RawJson.isJsonSpace_of_isDigit hfirst])

/-- The text after a mark, which may have blank characters in front of it. -/
def mark? (mark : Char) (text : Text) : Option Text :=
  match skipBlank text with
  | [] => none
  | c :: rest => if c = mark then some rest else none

theorem mark?_append {blank : Text} (hblank : ∀ c ∈ blank, isJsonSpace c = true) (mark : Char)
    (text : Text) : mark? mark (blank ++ text) = mark? mark text := by
  rw [mark?, mark?, skipBlank_append hblank]

theorem mark?_cons {c : Char} (hc : isJsonSpace c = false) (mark : Char) (rest : Text) :
    mark? mark (c :: rest) = if c = mark then some rest else none := by
  rw [mark?, skipBlank, List.dropWhile_cons_of_neg (by simp [hc])]

theorem mark?_self {mark : Char} (hmark : isJsonSpace mark = false) (rest : Text) :
    mark? mark (mark :: rest) = some rest := by
  rw [mark?_cons hmark, if_pos rfl]

theorem avoids_isDigit_append {blank : Text} (hblank : ∀ c ∈ blank, isJsonSpace c = true)
    {text : Text} (htext : Avoids Char.isDigit text) : Avoids Char.isDigit (blank ++ text) := by
  cases blank with
  | nil => exact htext
  | cons first more =>
      intro c hc
      obtain rfl : first = c := Option.some.inj hc
      by_contra hdigit
      have hspace := RawJson.isJsonSpace_of_isDigit (Bool.not_eq_false _ ▸ hdigit)
      rw [hblank first List.mem_cons_self] at hspace
      cases hspace

/-! ## Brackets -/

section Brackets

variable {α : Type} (closing : Char)

/-- The entries of a bracket after the first, each behind its comma, and the closing mark. -/
def readMore? (readOne? : Text -> Option (α × Text)) : Nat -> Text -> Option (List α × Text)
  | 0, _ => none
  | bound + 1, text =>
      match mark? ',' text with
      | none => (mark? closing text).map fun rest => ([], rest)
      | some rest => do
          let (entry, rest) <- readOne? rest
          let (more, rest) <- readMore? readOne? bound rest
          return (entry :: more, rest)

/-- The entries of a bracket that was just opened, and the text after its closing mark. -/
def readEntries? (readOne? : Text -> Option (α × Text)) (bound : Nat) (text : Text) :
    Option (List α × Text) :=
  match readOne? text with
  | none => (mark? closing text).map fun rest => ([], rest)
  | some (entry, rest) =>
      (readMore? closing readOne? bound rest).map fun (more, rest) => (entry :: more, rest)

/-- The entries of a bracket after the first, each behind its comma. -/
def moreText (layout : Layout) (depth : Nat) (form : α -> Text) (entries : List α) : Text :=
  entries.flatMap fun entry => ',' :: (layout.lineBreak depth ++ form entry)

/-- The text of a bracket after its opening mark. -/
def entriesText (layout : Layout) (depth : Nat) (form : α -> Text) : List α -> Text
  | [] => [closing]
  | entry :: rest =>
      layout.lineBreak (depth + 1) ++
        (form entry ++ (moreText layout (depth + 1) form rest ++
          (layout.lineBreak depth ++ [closing])))

variable {closing} {layout : Layout} {form : α -> Text}
  {readOne? : Text -> Option (α × Text)}

theorem length_le_moreText (layout : Layout) (form : α -> Text) (depth : Nat)
    (entries : List α) :
    entries.length <= (moreText layout depth form entries).length := by
  induction entries with
  | nil => exact Nat.zero_le _
  | cons entry rest ih =>
      rw [moreText, List.flatMap_cons, ← moreText]
      simp only [List.length_cons, List.length_append]
      omega

/-- A bracket has a character for each of its entries. -/
theorem length_le_entriesText (depth : Nat) (entries : List α) :
    entries.length <= (entriesText closing layout depth form entries).length := by
  cases entries with
  | nil => exact Nat.zero_le _
  | cons entry rest =>
      have hmore := length_le_moreText layout form (depth + 1) rest
      simp only [entriesText, List.length_cons, List.length_append, List.length_nil]
      omega

/-- No entry of a bracket is longer than the bracket. -/
theorem form_le_entriesText (depth : Nat) {entries : List α} {entry : α}
    (hentry : entry ∈ entries) :
    (form entry).length <= (entriesText closing layout depth form entries).length := by
  cases entries with
  | nil => cases hentry
  | cons first rest =>
      simp only [entriesText, List.length_append]
      rcases List.mem_cons.1 hentry with rfl | hrest
      · omega
      · have hsum : (form entry).length <=
            (moreText layout (depth + 1) form rest).length := by
          obtain ⟨before, after, rfl⟩ := List.append_of_mem hrest
          simp only [moreText, List.flatMap_append, List.flatMap_cons, List.length_append,
            List.length_cons]
          omega
        omega

/-- A mark that can close a bracket: no digit, no blank character and no comma. -/
structure IsClosing (closing : Char) : Prop where
  not_digit : closing.isDigit = false
  not_blank : isJsonSpace closing = false
  ne_comma : closing ≠ ','

theorem isClosing_bracket : IsClosing ']' :=
  ⟨rfl, rfl, by decide⟩

theorem isClosing_brace : IsClosing '}' :=
  ⟨rfl, rfl, by decide⟩

/-- What follows an entry in its bracket does not start with a digit. -/
theorem avoids_isDigit_moreText (hlayout : layout.IsBlank) (hclosing : IsClosing closing)
    (form : α -> Text) (depth : Nat) (entries : List α) (rest : Text) :
    Avoids Char.isDigit
      (moreText layout (depth + 1) form entries ++
        (layout.lineBreak depth ++ closing :: rest)) := by
  cases entries with
  | nil =>
      refine avoids_isDigit_append (hlayout.lineBreak depth) ?_
      intro c hc
      obtain rfl : closing = c := Option.some.inj hc
      exact hclosing.not_digit
  | cons entry entries =>
      intro c hc
      obtain rfl : ',' = c := Option.some.inj hc
      rfl

/-- A reader reads an entry back behind its line break, if no digit follows the entry. -/
def Reads (readOne? : Text -> Option (α × Text)) (layout : Layout) (depth : Nat)
    (form : α -> Text) (entry : α) : Prop :=
  forall rest, Avoids Char.isDigit rest ->
    readOne? (layout.lineBreak depth ++ (form entry ++ rest)) = some (entry, rest)

theorem readMore?_moreText (hlayout : layout.IsBlank) (hclosing : IsClosing closing)
    (depth : Nat) {entries : List α}
    (hread : ∀ entry ∈ entries, Reads readOne? layout (depth + 1) form entry)
    {bound : Nat} (hbound : entries.length < bound) (rest : Text) :
    readMore? closing readOne? bound
        (moreText layout (depth + 1) form entries ++
          (layout.lineBreak depth ++ closing :: rest)) =
      some (entries, rest) := by
  induction entries generalizing bound with
  | nil =>
      obtain ⟨bound, rfl⟩ := Nat.exists_eq_add_one_of_ne_zero (Nat.ne_zero_of_lt hbound)
      have hend (mark : Char) :
          mark? mark (moreText layout (depth + 1) form [] ++
            (layout.lineBreak depth ++ closing :: rest)) =
          if closing = mark then some rest else none :=
        (mark?_append (hlayout.lineBreak depth) mark _).trans
          (mark?_cons hclosing.not_blank mark rest)
      rw [readMore?, hend, if_neg hclosing.ne_comma, hend, if_pos rfl]
      rfl
  | cons entry entries ih =>
      obtain ⟨bound, rfl⟩ := Nat.exists_eq_add_one_of_ne_zero (Nat.ne_zero_of_lt hbound)
      have hfirst := hread entry List.mem_cons_self _
        (avoids_isDigit_moreText hlayout hclosing form depth entries rest)
      have hmore := ih (fun other hother => hread other (List.mem_cons_of_mem entry hother))
        (Nat.lt_of_succ_lt_succ hbound)
      have htext : moreText layout (depth + 1) form (entry :: entries) ++
            (layout.lineBreak depth ++ closing :: rest) =
          ',' :: (layout.lineBreak (depth + 1) ++ (form entry ++
            (moreText layout (depth + 1) form entries ++
              (layout.lineBreak depth ++ closing :: rest)))) := by
        simp [moreText]
      rw [htext, readMore?, mark?_self rfl]
      simp only [hfirst, hmore, Option.bind_eq_bind, Option.bind_some]
      rfl

/-- A bracket whose entries can be read can be read. -/
theorem readEntries?_entriesText (hlayout : layout.IsBlank) (hclosing : IsClosing closing)
    (depth : Nat) {entries : List α}
    (hread : ∀ entry ∈ entries, Reads readOne? layout (depth + 1) form entry)
    (hempty : forall rest, readOne? (closing :: rest) = none)
    {bound : Nat} (hbound : entries.length <= bound) (rest : Text) :
    readEntries? closing readOne? bound
        (entriesText closing layout depth form entries ++ rest) =
      some (entries, rest) := by
  cases entries with
  | nil =>
      simp only [entriesText, List.singleton_append, readEntries?, hempty,
        mark?_self hclosing.not_blank, Option.map_some]
  | cons entry entries =>
      have hfirst := hread entry List.mem_cons_self _
        (avoids_isDigit_moreText hlayout hclosing form depth entries rest)
      have hmore := readMore?_moreText hlayout hclosing depth
        (fun other hother => hread other (List.mem_cons_of_mem entry hother)) hbound rest
      simp only [entriesText, List.append_assoc, List.singleton_append, readEntries?, hfirst,
        hmore, Option.map_some]

end Brackets

/-! ## Documents -/

/-- The named value that starts here, and the text after it. -/
def readField? (readValue? : Text -> Option (Json × Text)) (text : Text) :
    Option ((Text × Json) × Text) := do
  let (name, rest) <- readString? (skipBlank text)
  let rest <- mark? ':' rest
  let (value, rest) <- readValue? rest
  return ((name, value), rest)

/-- The document of a single word that starts here, and the text after it. -/
def readWord? : Text -> Option (Json × Text)
  | 'n' :: 'u' :: 'l' :: 'l' :: rest => some (.null, rest)
  | 't' :: 'r' :: 'u' :: 'e' :: rest => some (.boolean true, rest)
  | 'f' :: 'a' :: 'l' :: 's' :: 'e' :: rest => some (.boolean false, rest)
  | _ => none

/-- The document without brackets that starts here, and the text after it. -/
def readAtom? (text : Text) : Option (Json × Text) :=
  match readNumber? text, readString? text with
  | some (value, rest), _ => some (.number value, rest)
  | none, some (value, rest) => some (.string value, rest)
  | none, none => readWord? text

/--
The document that starts here, and the text after it.  The bound is larger than
the number of characters that are read.
-/
def readDocument? : Nat -> Text -> Option (Json × Text)
  | 0, _ => none
  | bound + 1, text =>
      match skipBlank text with
      | '[' :: rest =>
          (readEntries? ']' (readDocument? bound) bound rest).map fun (items, rest) =>
            (.array items, rest)
      | '{' :: rest =>
          (readEntries? '}' (readField? (readDocument? bound)) bound rest).map
            fun (fields, rest) => (.object fields, rest)
      | text => readAtom? text

/-- The document that is the whole of a text. -/
def ofText? (text : Text) : Option Json :=
  match readDocument? (text.length + 1) text with
  | some (document, []) => some document
  | _ => none

/-! ### Written documents -/

def fieldText (layout : Layout) (depth : Nat) (field : Text × Json) : Text :=
  stringForm field.1 ++ (':' :: (layout.afterColon ++ write layout depth field.2))

theorem write_le_fieldText (layout : Layout) (depth : Nat) (field : Text × Json) :
    (write layout depth field.2).length <= (fieldText layout depth field).length := by
  simp only [fieldText, List.length_append, List.length_cons]
  omega

theorem writeItems_eq (layout : Layout) (depth : Nat) (items : List Json) :
    writeItems layout depth items = moreText layout depth (write layout depth) items := by
  induction items with
  | nil => rfl
  | cons item rest ih => simp [writeItems, ih, moreText]

theorem writeFields_eq (layout : Layout) (depth : Nat) (fields : List (Text × Json)) :
    writeFields layout depth fields = moreText layout depth (fieldText layout depth) fields := by
  induction fields with
  | nil => rfl
  | cons field rest ih => simp [writeFields, ih, moreText, fieldText]

theorem write_array (layout : Layout) (depth : Nat) (items : List Json) :
    write layout depth (.array items) =
      '[' :: entriesText ']' layout depth (write layout (depth + 1)) items := by
  cases items with
  | nil => rfl
  | cons item rest => simp [write, entriesText, writeItems_eq]

theorem write_object (layout : Layout) (depth : Nat) (fields : List (Text × Json)) :
    write layout depth (.object fields) =
      '{' :: entriesText '}' layout depth (fieldText layout (depth + 1)) fields := by
  cases fields with
  | nil => rfl
  | cons field rest => simp [write, entriesText, writeFields_eq, fieldText]

theorem readDocument?_append {blank : Text} (hblank : ∀ c ∈ blank, isJsonSpace c = true)
    (bound : Nat) (text : Text) :
    readDocument? bound (blank ++ text) = readDocument? bound text := by
  cases bound with
  | zero => rfl
  | succ bound => rw [readDocument?, readDocument?, skipBlank_append hblank]

theorem readDocument?_bracket (bound : Nat) (text : Text) :
    readDocument? (bound + 1) ('[' :: text) =
      (readEntries? ']' (readDocument? bound) bound text).map fun (items, rest) =>
        (.array items, rest) :=
  rfl

theorem readDocument?_brace (bound : Nat) (text : Text) :
    readDocument? (bound + 1) ('{' :: text) =
      (readEntries? '}' (readField? (readDocument? bound)) bound text).map
        fun (fields, rest) => (.object fields, rest) :=
  rfl

theorem readAtom?_string (value rest : Text) :
    readAtom? (stringForm value ++ rest) = some (.string value, rest) := by
  have hnumber : readNumber? (stringForm value ++ rest) = none := rfl
  simp only [readAtom?, hnumber, readString?_stringForm]

theorem readDocument?_number (bound value : Nat) {rest : Text}
    (hrest : Avoids Char.isDigit rest) :
    readDocument? (bound + 1) (Text.natural value ++ rest) = some (.number value, rest) := by
  have hnumber := readNumber?_natural value hrest
  have hatom : readAtom? (Text.natural value ++ rest) = some (.number value, rest) := by
    simp only [readAtom?, hnumber]
  rw [readDocument?, skipBlank_natural]
  split
  · rename_i more hbracket
    rw [hbracket] at hnumber
    cases hnumber
  · rename_i more hbracket
    rw [hbracket] at hnumber
    cases hnumber
  · exact hatom

theorem reads_field {layout : Layout} (hlayout : layout.IsBlank) {bound depth : Nat}
    {field : Text × Json}
    (hvalue : forall rest, Avoids Char.isDigit rest ->
      readDocument? bound (write layout depth field.2 ++ rest) = some (field.2, rest)) :
    Reads (readField? (readDocument? bound)) layout depth (fieldText layout depth) field := by
  intro rest hrest
  have htext : fieldText layout depth field ++ rest =
      stringForm field.1 ++
        ':' :: (layout.afterColon ++ (write layout depth field.2 ++ rest)) := by
    simp [fieldText]
  have hname (more : Text) :
      readString? (skipBlank (stringForm field.1 ++ more)) = some (field.1, more) :=
    readString?_stringForm field.1 more
  have hcolon (more : Text) : mark? ':' (':' :: more) = some more := mark?_self rfl more
  rw [htext, readField?, skipBlank_append (hlayout.lineBreak depth), hname]
  simp only [Option.bind_eq_bind, Option.bind_some, hcolon,
    readDocument?_append hlayout.afterColon, hvalue rest hrest]
  rfl

/-- A document is read back from what is written, if no digit follows it. -/
theorem readDocument?_write {layout : Layout} (hlayout : layout.IsBlank) {document : Json}
    {bound depth : Nat} (hbound : (write layout depth document).length < bound) {rest : Text}
    (hrest : Avoids Char.isDigit rest) :
    readDocument? bound (write layout depth document ++ rest) = some (document, rest) := by
  -- The induction is on the bound: what stands inside a bracket is shorter than the bracket.
  induction bound generalizing document depth rest with
  | zero => exact absurd hbound (Nat.not_lt_zero _)
  | succ bound ih =>
      cases document with
      | null => rfl
      | boolean value => cases value <;> rfl
      | number value => exact readDocument?_number bound value hrest
      | string value => exact readAtom?_string value rest
      | array items =>
          rw [write_array, List.length_cons] at hbound
          have hlength := Nat.lt_of_succ_lt_succ hbound
          have hitems : ∀ item ∈ items,
              Reads (readDocument? bound) layout (depth + 1) (write layout (depth + 1)) item := by
            intro item hitem rest hrest
            rw [readDocument?_append (hlayout.lineBreak (depth + 1))]
            exact ih (Nat.lt_of_le_of_lt (form_le_entriesText depth hitem) hlength) hrest
          have hempty (rest : Text) : readDocument? bound (']' :: rest) = none := by
            cases bound <;> rfl
          have hread := readEntries?_entriesText hlayout isClosing_bracket depth hitems
            hempty (Nat.le_trans (length_le_entriesText depth items) (Nat.le_of_lt hlength)) rest
          rw [write_array, List.cons_append, readDocument?_bracket, hread]
          rfl
      | object fields =>
          rw [write_object, List.length_cons] at hbound
          have hlength := Nat.lt_of_succ_lt_succ hbound
          have hfields : ∀ field ∈ fields,
              Reads (readField? (readDocument? bound)) layout (depth + 1)
                (fieldText layout (depth + 1)) field := by
            intro field hfield
            refine reads_field hlayout fun rest hrest => ih ?_ hrest
            exact Nat.lt_of_le_of_lt
              (Nat.le_trans (write_le_fieldText layout (depth + 1) field)
                (form_le_entriesText depth hfield)) hlength
          have hread := readEntries?_entriesText hlayout isClosing_brace depth hfields
            (fun _ => rfl)
            (Nat.le_trans (length_le_entriesText depth fields) (Nat.le_of_lt hlength)) rest
          rw [write_object, List.cons_append, readDocument?_brace, hread]
          rfl

/-- Every written document is read back from its text. -/
theorem ofText?_write {layout : Layout} (hlayout : layout.IsBlank) (depth : Nat)
    (document : Json) : ofText? (write layout depth document) = some document := by
  have hread : readDocument? ((write layout depth document).length + 1)
      (write layout depth document ++ []) = some (document, []) :=
    readDocument?_write hlayout (Nat.lt_succ_self _) (fun c hc => nomatch hc)
  rw [List.append_nil] at hread
  simp only [ofText?, hread]

/-- No layout writes two documents as the same text. -/
theorem write_injective {layout : Layout} (hlayout : layout.IsBlank) (depth : Nat) :
    Function.Injective (write layout depth) := by
  intro first second hsame
  have hread := ofText?_write hlayout depth first
  rw [hsame, ofText?_write hlayout depth second] at hread
  exact (Option.some.inj hread).symm

theorem pretty_injective : Function.Injective pretty :=
  write_injective Layout.pretty_isBlank 0

end TranslationKeys.Json
