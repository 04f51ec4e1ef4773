import SatWalk.Files.Tree

/-! Files that are reached by paths. A place is told by the names that lead to it from the root.
Every step of a path starts from a directory, and only the last one may enter a name
that is not there yet. -/

namespace SatWalk.Files

structure Disk where
  root : Tree := .empty
  /-- The place of the working directory. -/
  here : List String := []
  deriving Repr

namespace Disk

def entriesAt (d : Disk) (place : List String) : Except Error (List (String × Tree)) := do
  (← d.root.find place).entries

def entry? (entries : List (String × Tree)) (name : String) : Except Error (Option Tree) :=
  if nameLimit < name.utf8ByteSize then .error .nameTooLong else .ok (Tree.child? name entries)

/-- The place one step further. Nothing is above the root but the root. -/
def advance (d : Disk) (place : List String) (s : Step) : Except Error (List String) := do
  let entries ← d.entriesAt place
  match s with
  | .stay => return place
  | .up => return place.dropLast
  | .enter name =>
    match ← entry? entries name with
    | some _ => return place ++ [name]
    | none => throw .notFound

def walk (d : Disk) (fromRoot : Bool) (steps : List Step) : Except Error (List String) :=
  steps.foldlM d.advance (if fromRoot then [] else d.here)

/-- What is at the end of a path. -/
def find (d : Disk) (p : Path) : Except Error Tree := do
  let place ← d.walk p.fromRoot (if p.closed then p.steps ++ [.stay] else p.steps)
  d.root.find place

def lookup (d : Disk) (path : String) : Except Error Tree := do
  d.find (← Path.read? path)

def readFile (d : Disk) (path : String) : Except Error (List UInt8) := do
  match ← d.lookup path with
  | .file content => return content
  | .directory _ => throw .isDirectory

def hasFile (d : Disk) (path : String) : Bool :=
  match d.lookup path with
  | .ok t => t.isFile
  | .error _ => false

/-- The names of the plain files in a directory. -/
def listFiles (d : Disk) (path : String) : Except Error (List String) := do
  let names := (← (← d.lookup path).entries).map (·.1)
  return names.filter fun name => d.hasFile (joinPath path name)

/-- The place before the last step of a path, its entries, and the name that is entered then. -/
def beforeLast (d : Disk) (p : Path) :
    Except Error (List String × List (String × Tree) × Option String) := do
  let place ← d.walk p.fromRoot p.steps.dropLast
  let entries ← d.entriesAt place
  match p.steps.getLast? with
  | some (.enter name) => return (place, entries, some name)
  | _ => return (place, entries, none)

def put (d : Disk) (place : List String) (t : Tree) : Except Error Disk := do
  return { d with root := ← Tree.put t place d.root }

def writeFile (d : Disk) (path : String) (content : List UInt8) : Except Error Disk := do
  let p ← Path.read? path
  match ← d.beforeLast p with
  | (_, _, none) => throw .isDirectory
  | (place, entries, some name) =>
    if p.closed then throw .isDirectory
    match ← entry? entries name with
    | some (.directory _) => throw .isDirectory
    | _ => d.put (place ++ [name]) (.file content)

/-- Makes one directory. -/
def makeDir (d : Disk) (p : Path) : Except Error Disk := do
  match ← d.beforeLast p with
  | (_, _, none) => throw .exists
  | (place, entries, some name) =>
    match ← entry? entries name with
    | some _ => throw .exists
    | none => d.put (place ++ [name]) .empty

/-- Makes a directory unless it is there. -/
def ensureDir (d : Disk) (p : Path) : Except Error Disk :=
  match d.makeDir p, d.find p with
  | .error _, .ok (.directory _) => .ok d
  | made, _ => made

/-- Makes the first of some directories, and those after it only if its way is not there. -/
def ensureFrom (d : Disk) : List Path → Except Error Disk
  | [] => .ok d
  | p :: above =>
    match d.ensureDir p with
    | .error .notFound => do (← d.ensureFrom above).ensureDir p
    | ensured => ensured

/-- Makes a directory, and those above it, where they are missing. -/
def makeDirs (d : Disk) (path : String) : Except Error Disk := do
  if path = "" then return d
  let p ← Path.read? path
  d.ensureFrom (p :: p.above)

end Disk

end SatWalk.Files
