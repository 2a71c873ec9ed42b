import TranslationKeys.Command.Ending

/-!
# The program

The program looks at the places of the file system that a run can see, carries
out the run, and shows how it ends.
-/

namespace TranslationKeys.Main

/-! ## Files -/

def observe (location : Location) : IO (Option Entry) := do
  let path := (<- IO.currentDir) / String.ofList location.toPath.text
  if <- path.isDir then
    return some .directory
  if <- path.pathExists then
    return some (.file (<- IO.FS.readBinFile path))
  return none

def upward (location : Location) : List Location :=
  (List.range (location.length + 1)).map fun count => location.take count

/-- The locations that are passed when some segments are followed. -/
def passed (here : Location) : List Text -> List Location
  | [] => [here]
  | segment :: rest =>
      if segment == [] || segment == ['.'] then here :: passed here rest
      else if segment == ['.', '.'] then here :: passed here.dropLast rest
      else here :: passed (here ++ [segment]) rest

/-- The locations that a run in some directory can see. -/
def visible (cwd : Location) (file : Option Path) : List Location :=
  let settings := (upward cwd).flatMap fun directory =>
    [directory, directory ++ [Config.fileName], directory ++ [Config.repositoryMark]]
  match file with
  | none => settings
  | some path => settings ++ passed (if path.isAbsolute then [] else cwd) path.segments

def snapshot (locations : List Location) : IO Files := do
  let mut files : Files := ⟨fun _ => none⟩
  for location in locations do
    if let some entry := <- observe location then
      files := files.put location entry
  return files

/-! ## Streams -/

partial def readAll (stream : IO.FS.Stream) (soFar : ByteArray) : IO ByteArray := do
  let more <- stream.read 65536
  if more.isEmpty then
    return soFar
  readAll stream (soFar ++ more)

def writeOut (text : Text) : IO Unit :=
  IO.print (String.ofList text)

def writeErr (text : Text) : IO Unit :=
  IO.eprint (String.ofList text)

/-! ## Endings -/

/-- The help, and the messages about settings of a wrong shape.  Other texts are left out. -/
def wording : Wording where
  usage
    | .displayHelp => ⟨helpText, []⟩
    | _ => ⟨[], []⟩
  undecodable
    | .wrongShape message => message
    | _ => []
  stopped := []

def showEnding (ending : Ending) : IO UInt32 := do
  let output := ending.output wording
  writeErr output.stderr
  writeOut output.stdout
  return ending.exitCode.toUInt32

/-- Carry out a run in the current directory. -/
def perform (arguments : List Text) : IO UInt32 := do
  let cwd : Location := (Path.segments ⟨(<- IO.currentDir).toString.toList⟩).filter (· != [])
  let options? :=
    match Arguments.read arguments with
    | .ok (some (.parse options)) => some options
    | _ => none
  let files <- snapshot (visible cwd ((options?.bind ParseOptions.file).map Path.mk))
  let stdin <-
    match options? with
    | some ⟨[], none, _, _, _, _⟩ => readAll (<- IO.getStdin) .empty
    | _ => pure .empty
  let colour <- (<- IO.getStdout).isTty
  let (ending, after) := run files ⟨arguments, stdin, cwd, colour⟩
  let settings : Location := cwd ++ [Config.fileName]
  if let (none, some (.file content)) := (files.get? settings, after.get? settings) then
    IO.FS.writeBinFile (String.ofList settings.toPath.text) content
  showEnding ending

end TranslationKeys.Main

def main (arguments : List String) : IO UInt32 :=
  TranslationKeys.Main.perform (arguments.map String.toList)
