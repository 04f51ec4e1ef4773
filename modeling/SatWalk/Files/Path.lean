/-! Paths of files. The text of a path separates names by slashes. It is followed step by step,
from the root or from a working directory. -/

namespace SatWalk.Files

inductive Error
  | notFound
  | permission
  | exists
  | notDirectory
  | isDirectory
  | nameTooLong
  | nulByte
  /-- Any other refusal, in the words of the system. -/
  | other (words : String)
  deriving DecidableEq, Repr

def Error.message : Error → String
  | .notFound => "No such file or directory (os error 2)"
  | .permission => "Permission denied (os error 13)"
  | .exists => "File exists (os error 17)"
  | .notDirectory => "Not a directory (os error 20)"
  | .isDirectory => "Is a directory (os error 21)"
  | .nameTooLong => "File name too long (os error 36)"
  | .nulByte => "file name contained an unexpected NUL byte"
  | .other words => words

/-- The most bytes a name may have. -/
def nameLimit : Nat := 255

/-- The most bytes the text of a path may have. -/
def pathLimit : Nat := 4095

inductive Step
  | stay
  | up
  | enter (name : String)
  deriving DecidableEq, Repr

def Step.ofName (name : String) : Step :=
  if name = "." then .stay else if name = ".." then .up else .enter name

def Step.text : Step → String
  | .stay => "."
  | .up => ".."
  | .enter name => name

structure Path where
  fromRoot : Bool
  steps : List Step
  /-- Whether the text ends in a slash, which makes it that of a directory. -/
  closed : Bool := false
  deriving DecidableEq, Repr

def splitSlash : List Char → List (List Char)
  | [] => [[]]
  | c :: cs =>
    if c = '/' then [] :: splitSlash cs
    else
      match splitSlash cs with
      | [] => [[c]]
      | name :: names => (c :: name) :: names

namespace Path

/-- The steps of a text. Slashes side by side separate like a single one. -/
def ofText (text : String) : Path :=
  let names := splitSlash text.toList
  { fromRoot := text.toList.head? == some '/'
    steps := (names.filter (!·.isEmpty)).map fun name => .ofName (String.ofList name)
    closed := names.getLast? == some [] }

/-- The path of a text, if the text can be one. -/
def read? (text : String) : Except Error Path :=
  if text.contains '\x00' then .error .nulByte
  else if text = "" then .error .notFound
  else if pathLimit < text.utf8ByteSize then .error .nameTooLong
  else .ok (ofText text)

/-- A text of the path, which starts with a point if the path starts from a working directory. -/
def text (p : Path) : String :=
  (if p.fromRoot then "/" else "./") ++ "/".intercalate (p.steps.map Step.text) ++
    (if p.closed then "/" else "")

/-- The steps that move. -/
def moves (p : Path) : List Step :=
  p.steps.filter (· ≠ .stay)

/-- The name that the last move enters. -/
def name? (p : Path) : Option String :=
  match p.moves.getLast? with
  | some (.enter name) => some name
  | _ => none

/-- The paths of fewer moves on the same way, the longest first. -/
def above (p : Path) : List Path :=
  (List.range p.moves.length).reverse.map fun n => ⟨p.fromRoot, p.moves.take n, false⟩

end Path

/-- The last name of a path, unless the path ends at its start or goes up at its end. -/
def fileName? (path : String) : Option String :=
  (Path.ofText path).name?

/-- A path as seen from a directory. -/
def joinPath (directory path : String) : String :=
  if directory = "" ∨ (Path.ofText path).fromRoot then path
  else if directory.toList.getLast? = some '/' then directory ++ path
  else directory ++ "/" ++ path

/-- The part of a name after its last point, if something stands before the point. -/
def extension? (name : String) : Option String :=
  let reversed := name.toList.reverse
  let ending := reversed.takeWhile (· ≠ '.')
  match reversed.dropWhile (· ≠ '.') with
  | '.' :: _ :: _ => some (String.ofList ending.reverse)
  | _ => none

end SatWalk.Files
