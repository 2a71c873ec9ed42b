import TranslationKeys.Files.Path
import TranslationKeys.Text.Bytes

/-!
# Files

A tree of files says what stands at each location.  A location is the list of
names from the root.  A path is followed one segment at a time, from the root
or from the directory that relative paths start in, and every step needs a
directory to stand in.

There are files and directories only.  The trees have no symbolic links, and no
entry that cannot be read for want of permission.
-/

namespace TranslationKeys

/-- The names from the root to a place. -/
abbrev Location := List Text

def Location.toPath (location : Location) : Path :=
  .ofSegments true location

inductive Entry where
  | file (content : ByteArray)
  | directory

structure Files where
  get? : Location -> Option Entry

inductive FileError where
  | notFound
  | notADirectory
  | isADirectory
  | nameTooLong
  | invalidName
  | invalidText
  deriving DecidableEq, Repr

def FileError.message : FileError -> Text
  | .notFound => "No such file or directory (os error 2)".toList
  | .notADirectory => "Not a directory (os error 20)".toList
  | .isADirectory => "Is a directory (os error 21)".toList
  | .nameTooLong => "File name too long (os error 36)".toList
  | .invalidName => "file name contained an unexpected NUL byte".toList
  | .invalidText => "stream did not contain valid UTF-8".toList

namespace Files

/-! ## Following paths -/

/-- Number of bytes that a name in a directory may have. -/
def longestName : Nat :=
  255

/-- Number of bytes that a path may have. -/
def longestPath : Nat :=
  4095

/-- Follow the segments of a path from a location.  Something must stand at the end. -/
def walk (files : Files) (here : Location) : List Text -> Except FileError Location
  | [] => if (files.get? here).isSome then .ok here else .error .notFound
  | segment :: rest =>
      match files.get? here with
      | none => .error .notFound
      | some (.file _) => .error .notADirectory
      | some .directory =>
          if segment == [] || segment == ['.'] then files.walk here rest
          else if segment == ['.', '.'] then files.walk here.dropLast rest
          else if Text.byteLength segment > longestName then .error .nameTooLong
          else files.walk (here ++ [segment]) rest

/-- The location that a path leads to.  Relative paths start at the given one. -/
def locate (files : Files) (base : Location) (path : Path) : Except FileError Location :=
  if path.text.contains '\x00' then .error .invalidName
  else if path.text.isEmpty then .error .notFound
  else if Text.byteLength path.text > longestPath then .error .nameTooLong
  else files.walk (if path.isAbsolute then [] else base) path.segments

def pathExists (files : Files) (base : Location) (path : Path) : Bool :=
  match files.locate base path with
  | .ok _ => true
  | .error _ => false

/-! ## Content -/

/-- The content of the file that a path leads to. -/
def read (files : Files) (base : Location) (path : Path) : Except FileError ByteArray := do
  let location <- files.locate base path
  match files.get? location with
  | some (.file content) => .ok content
  | some .directory => .error .isADirectory
  | none => .error .notFound

def readText (files : Files) (base : Location) (path : Path) : Except FileError Text := do
  let content <- files.read base path
  match Text.ofBytes? content with
  | some text => .ok text
  | none => .error .invalidText

def put (files : Files) (location : Location) (entry : Entry) : Files :=
  ⟨fun other => if other = location then some entry else files.get? other⟩

/--
The files with a new file at a path where nothing stands, in the directory that
the segments in front of its name lead to.
-/
def create (files : Files) (base : Location) (path : Path) (content : ByteArray) :
    Except FileError Files := do
  let directory <- files.walk (if path.isAbsolute then [] else base) path.segments.dropLast
  .ok (files.put (directory ++ path.segments.getLast?.toList) (.file content))

@[simp]
theorem get?_put_self (files : Files) (location : Location) (entry : Entry) :
    (files.put location entry).get? location = some entry := by
  simp [put]

@[simp]
theorem get?_put_of_ne (files : Files) {location other : Location} (entry : Entry)
    (h : other ≠ location) :
    (files.put location entry).get? other = files.get? other := by
  simp [put, h]

end Files

end TranslationKeys
