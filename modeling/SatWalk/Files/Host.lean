import SatWalk.Files.Disk
import SatWalk.Zlib.Stream

/-! What a program may ask of its surroundings. The requests are given as a record of actions in
any monad; a disk, with what was written to the console, is one of them. -/

namespace SatWalk

/-- What a program wrote and how long it needs for that. -/
structure Reply where
  output : List UInt8
  /-- None if the program does not end. -/
  milliseconds : Option Nat
  /-- The seconds that were measured. -/
  elapsedSecs : Float := 0
  deriving DecidableEq, Repr

/-- Whether a program is stopped after `limit` milliseconds. -/
def Reply.isLate (r : Reply) (limit : Nat) : Bool :=
  match r.milliseconds with
  | some needed => limit ≤ needed
  | none => true

/-- What a program replies to an argument, given what the file of that name holds. -/
abbrev Program := (file : Except Files.Error (List UInt8)) → (argument : String) → Reply

/-- Why a program does not start. -/
inductive StartError
  | nulByte
  | files (cause : Files.Error)
  deriving DecidableEq, Repr

def StartError.message : StartError → String
  | .nulByte => "nul byte found in provided data"
  | .files cause => cause.message

structure Host (m : Type → Type) where
  readFile : String → m (Except Files.Error (List UInt8))
  listFiles : String → m (Except Files.Error (List String))
  writeFile : String → List UInt8 → m (Except Files.Error Unit)
  makeDirs : String → m (Except Files.Error Unit)
  readInput : m (List UInt8)
  print : String → m Unit
  /-- Runs the program with the given name on one argument. -/
  consult : String → String → m (Except StartError Reply)
  /-- Makes a stream that is decompressed to the given bytes. -/
  compress : List UInt8 → List UInt8

/-- Surroundings as a value. -/
structure World where
  disk : Files.Disk := {}
  input : List UInt8 := []
  output : String := ""

namespace World

/-- Keeps a changed disk. -/
def change (act : Files.Disk → Except Files.Error Files.Disk) :
    StateM World (Except Files.Error Unit) := fun w =>
  match act w.disk with
  | .ok disk => (.ok (), { w with disk })
  | .error e => (.error e, w)

/-- Why a name is not that of a program. What has a slash is a path, and no file on the disk may
be run; other names are searched for in directories, where the points are directories too. -/
def startFailure (d : Files.Disk) (name : String) : Files.Error :=
  if name.contains '/' then
    match d.lookup name with
    | .ok _ => .permission
    | .error e => e
  else if name = "." ∨ name = ".." then .permission
  else if Files.nameLimit < name.utf8ByteSize then .nameTooLong
  else .notFound

/-- Runs one of the given programs, which are known by name. -/
def consult (programs : String → Option Program) (w : World) (name argument : String) :
    Except StartError Reply :=
  if name.contains '\x00' || argument.contains '\x00' then .error .nulByte
  else
    match programs name with
    | some run => .ok (run (w.disk.readFile argument) argument)
    | none => .error (.files (startFailure w.disk name))

/-- Requests answered from a value, in which the given programs are known by name. Streams are
made of stored blocks. -/
def host (programs : String → Option Program) : Host (StateM World) where
  readFile path := fun w => (w.disk.readFile path, w)
  listFiles path := fun w => (w.disk.listFiles path, w)
  writeFile path content := change fun disk => disk.writeFile path content
  makeDirs path := change fun disk => disk.makeDirs path
  readInput := fun w => (w.input, w)
  print text := fun w => ((), { w with output := w.output ++ text })
  consult name argument := fun w => (w.consult programs name argument, w)
  compress := Zlib.compress

end World

end SatWalk
