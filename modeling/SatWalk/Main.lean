import SatWalk.CommandLine.Commands

/-! The program as it is run: its files are those of the working directory, and its exit code and
messages are those of the command. Other programs cannot be started from here. -/

namespace SatWalk.Main

def ofCode (code : UInt32) : Option Files.Error :=
  match min code.toNat (-code).toNat with
  | 2 => some .notFound
  | 13 => some .permission
  | 17 => some .exists
  | 20 => some .notDirectory
  | 21 => some .isDirectory
  | 36 => some .nameTooLong
  | _ => none

def causeOf (e : IO.Error) : Files.Error :=
  let known := match e with
    | .noFileOrDirectory _ code _ => ofCode code
    | .permissionDenied _ code _ => ofCode code
    | .alreadyExists _ code _ => ofCode code
    | .inappropriateType _ code _ => ofCode code
    | .invalidArgument _ code _ => ofCode code
    | _ => none
  known.getD (.other (toString e))

/-- Keeps the cause of a failed access as a value. -/
def access {α : Type} (path : String) (act : IO α) : IO (Except Files.Error α) := do
  if path.contains '\x00' then return .error .nulByte
  match ← act.toBaseIO with
  | .ok x => return .ok x
  | .error e => return .error (causeOf e)

def readBytes (path : String) : IO (Except Files.Error (List UInt8)) :=
  access path do return (← IO.FS.readBinFile path).toList

def kind? (e : IO.FS.DirEntry) : IO (Option IO.FS.FileType) := do
  match ← e.path.metadata.toBaseIO with
  | .ok data => return some data.type
  | .error _ => return none

/-- The names of the plain files in a directory. -/
def plainFiles (path : String) : IO (List String) := do
  let directory : IO.FS.DirEntry := ⟨path, "."⟩
  let entries ← directory.path.readDir
  let files ← entries.filterM fun e => return (← kind? e) == some .file
  return (files.map (·.fileName)).toList

/-- Makes a directory unless it is there. -/
def ensureDir (path : String) : IO (Except Files.Error Unit) := do
  match ← access path (IO.FS.createDir path) with
  | .ok () => return .ok ()
  | .error e =>
    if (← kind? ⟨path, "."⟩) == some .dir then return .ok () else return .error e

/-- Makes the first of some directories, and those after it only if its way is not there. -/
def ensureFrom : List String → IO (Except Files.Error Unit)
  | [] => return .ok ()
  | path :: above => do
    match ← ensureDir path with
    | .error .notFound =>
      match ← ensureFrom above with
      | .ok () => ensureDir path
      | .error e => return .error e
    | ensured => return ensured

def makeDirs (path : String) : IO (Except Files.Error Unit) :=
  if path = "" then return .ok ()
  else ensureFrom (path :: (Files.Path.ofText path).above.map Files.Path.text)

def host : Host IO where
  readFile := readBytes
  listFiles path := access path (plainFiles path)
  writeFile path content := access path (IO.FS.writeBinFile path ⟨content.toArray⟩)
  makeDirs := makeDirs
  readInput := do return (← (← IO.getStdin).readBinToEnd).toList
  print text := IO.print text
  consult name argument := do
    if name.contains '\x00' || argument.contains '\x00' then return .error .nulByte
    else return .error (.files .notFound)
  compress := Zlib.compress

end SatWalk.Main

def main (arguments : List String) : IO UInt32 := do
  let exit ← SatWalk.CommandLine.run SatWalk.Main.host arguments
  IO.eprint exit.message
  return .ofNat exit.code
