import SatWalk.Dimacs.Reader
import SatWalk.Files.Host

/-! Loading formulas from files, and from all files of a directory whose names end in `.cnf`. -/

namespace SatWalk.Files

inductive LoadError
  | access (path : String) (cause : Error)
  /-- A directory can be opened, but no line can be read from it. -/
  | directory
  | content (cause : Dimacs.Error)
  deriving DecidableEq, Repr

def LoadError.message : LoadError → String
  | .access path cause => "failed to access '" ++ path ++ "': " ++ cause.message
  | .directory => "failed to read line 0: " ++ Error.message .isDirectory
  | .content cause => cause.message

variable {m : Type → Type} [Monad m]

def loadFile (h : Host m) (path : String) : ExceptT LoadError m Formula := do
  match ← h.readFile path with
  | .error .isDirectory => throw .directory
  | .error e => throw (.access path e)
  | .ok bytes =>
    match Dimacs.read bytes with
    | .ok f => return f
    | .error e => throw (.content e)

/-- Formula files among the names of a directory, in the order of their names. -/
def formulaNames (names : List String) : List String :=
  (names.filter fun name => extension? name = some "cnf").mergeSort (· ≤ ·)

def loadNamed (h : Host m) (directory : String) :
    List String → ExceptT LoadError m (List (String × Formula))
  | [] => return []
  | name :: rest => do
    let f ← loadFile h (joinPath directory name)
    return (name, f) :: (← loadNamed h directory rest)

/-- Loads every formula file of a directory. -/
def loadDir (h : Host m) (directory : String) :
    ExceptT LoadError m (List (String × Formula)) := do
  match ← h.listFiles directory with
  | .error e => throw (.access directory e)
  | .ok names => loadNamed h directory (formulaNames names)

end SatWalk.Files
