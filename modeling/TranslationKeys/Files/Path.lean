import TranslationKeys.Text.Basic

/-!
# Paths

A path is kept as it is written.  Its segments stand between slashes.  Empty
segments and single dots name nothing, except for a single dot at the very start
of a relative path.  Going up drops the last segment that names something and
needs no files: two dots are dropped like any other name.
-/

namespace TranslationKeys

structure Path where
  text : Text
  deriving DecidableEq, Repr

namespace Path

/-- The parts of a text between slashes. -/
def split : Text -> List Text
  | [] => [[]]
  | '/' :: rest => [] :: split rest
  | c :: rest =>
      match split rest with
      | [] => [[c]]
      | first :: more => (c :: first) :: more

def isAbsolute (path : Path) : Bool :=
  path.text.head? == some '/'

def segments (path : Path) : List Text :=
  if path.isAbsolute then split path.text.tail else split path.text

def ofSegments (absolute : Bool) (segments : List Text) : Path :=
  ⟨(if absolute then ['/'] else []) ++ ['/'].intercalate segments⟩

def join (path : Path) (name : Text) : Path :=
  if path.text.isEmpty || path.text.getLast? == some '/' then ⟨path.text ++ name⟩
  else ⟨path.text ++ '/' :: name⟩

/--
Drop the segments at the end that name nothing, in a list that starts with the
last segment.  A dot at the start of a relative path stays.
-/
def dropNameless (absolute : Bool) : List Text -> List Text
  | [] => []
  | [start] =>
      if start == [] || (absolute && start == ['.']) then [] else [start]
  | segment :: above =>
      if segment == [] || segment == ['.'] then dropNameless absolute above
      else segment :: above

/-- The path without its last name.  Neither the root nor the empty path has one. -/
def parent? (path : Path) : Option Path :=
  match dropNameless path.isAbsolute path.segments.reverse with
  | [] => none
  | _ :: above =>
      some (ofSegments path.isAbsolute (dropNameless path.isAbsolute above).reverse)

/-- A path and at most so many of the paths above it, the nearest first. -/
def ancestorsWithin : Nat -> Path -> List Path
  | 0, path => [path]
  | bound + 1, path =>
      match path.parent? with
      | none => [path]
      | some above => path :: ancestorsWithin bound above

def ancestors (path : Path) : List Path :=
  ancestorsWithin path.text.length path

end Path

end TranslationKeys
