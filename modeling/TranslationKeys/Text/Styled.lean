import TranslationKeys.Text.Basic

/-!
# Styled text

Text for a terminal is made of pieces, and each piece has one style.  Shown
without colour a piece is its text.  Shown with colour it stands between the
sequence that opens its style and the sequence that resets every style.
-/

namespace TranslationKeys.Text

/-! ## Styles -/

inductive Colour where
  | red
  | green
  | yellow
  | blue
  | cyan
  deriving DecidableEq, Repr

def Colour.code : Colour -> Text
  | .red => ['3', '1']
  | .green => ['3', '2']
  | .yellow => ['3', '3']
  | .blue => ['3', '4']
  | .cyan => ['3', '6']

inductive Weight where
  | normal
  | bold
  | dim
  deriving DecidableEq, Repr

/-- The display code of a weight, for every weight but the normal one. -/
def Weight.code? : Weight -> Option Text
  | .normal => none
  | .bold => some ['1']
  | .dim => some ['2']

structure Style where
  weight : Weight
  colour : Option Colour
  deriving DecidableEq, Repr

namespace Style

def plain : Style :=
  ⟨.normal, none⟩

/-- The codes of a style: the weight comes before the colour. -/
def codes (style : Style) : List Text :=
  style.weight.code?.toList ++ (style.colour.map Colour.code).toList

def opening (style : Style) : Text :=
  ['\x1b', '['] ++ [';'].intercalate style.codes ++ ['m']

end Style

def reset : Text :=
  ['\x1b', '[', '0', 'm']

/-- Open a style again after each reset sequence inside a text. -/
def reopen (opening : Text) : Text -> Text
  | [] => []
  | '\x1b' :: '[' :: '0' :: 'm' :: rest => reset ++ opening ++ reopen opening rest
  | c :: rest => c :: reopen opening rest

/-! ## Pieces -/

structure Piece where
  style : Style
  text : Text
  deriving DecidableEq, Repr

namespace Piece

def plain (text : Text) : Piece :=
  ⟨.plain, text⟩

def coloured (colour : Colour) (text : Text) : Piece :=
  ⟨⟨.normal, some colour⟩, text⟩

def bold (text : Text) : Piece :=
  ⟨⟨.bold, none⟩, text⟩

def boldColoured (colour : Colour) (text : Text) : Piece :=
  ⟨⟨.bold, some colour⟩, text⟩

def dim (text : Text) : Piece :=
  ⟨⟨.dim, none⟩, text⟩

def dimColoured (colour : Colour) (text : Text) : Piece :=
  ⟨⟨.dim, some colour⟩, text⟩

def render (colour : Bool) (piece : Piece) : Text :=
  if colour && piece.style != .plain then
    piece.style.opening ++ reopen piece.style.opening piece.text ++ reset
  else
    piece.text

end Piece

/-- Styled text is a list of pieces, written one after the other. -/
abbrev Styled := List Piece

def Styled.render (colour : Bool) (styled : Styled) : Text :=
  styled.flatMap (Piece.render colour)

@[simp]
theorem Styled.render_append (colour : Bool) (front back : Styled) :
    Styled.render colour (front ++ back) =
      Styled.render colour front ++ Styled.render colour back :=
  List.flatMap_append

end TranslationKeys.Text
