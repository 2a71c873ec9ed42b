import TranslationKeys.Config.Decoder
import TranslationKeys.Files.Basic

/-!
# Finding the configuration

The configuration of a directory is the nearest configuration file at or above
it.  The search ends at the first directory that holds the root of a repository.
A configuration file beside such a root still counts.
-/

namespace TranslationKeys.Config

def repositoryMark : Text :=
  ".git".toList

/-- The configuration file that is found first in some directories, nearest first. -/
def searchIn (files : Files) (base : Location) : List Path -> Option Path
  | [] => none
  | directory :: above =>
      if files.pathExists base (directory.join fileName) then
        some (directory.join fileName)
      else if files.pathExists base (directory.join repositoryMark) then
        none
      else
        searchIn files base above

/-- The configuration file of a directory, which need not exist itself. -/
def find? (files : Files) (base : Location) (start : Path) : Option Path :=
  searchIn files base start.ancestors

structure Loaded where
  config : Config
  fromFile : Bool
  deriving DecidableEq, Repr

inductive LoadError where
  | unreadable (path : Path) (cause : FileError)
  | undecodable (path : Path) (cause : DecodeError)
  deriving DecidableEq, Repr

/-- The settings of a directory: those of its configuration file, or the default ones. -/
def load (files : Files) (base : Location) (start : Path) : Except LoadError Loaded :=
  match find? files base start with
  | none => .ok ⟨default, false⟩
  | some path =>
      match files.readText base path with
      | .error cause => .error (.unreadable path cause)
      | .ok text =>
          match decode text with
          | .error cause => .error (.undecodable path cause)
          | .ok config => .ok ⟨config, true⟩

end TranslationKeys.Config
