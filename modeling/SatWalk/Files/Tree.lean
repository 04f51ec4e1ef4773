import SatWalk.Files.Path

/-! Files and directories as a value: a tree in which each entry of a directory has a name. -/

namespace SatWalk.Files

inductive Tree
  | file (content : List UInt8)
  | directory (entries : List (String × Tree))
  deriving Repr, Inhabited

namespace Tree

def empty : Tree := .directory []

def isFile : Tree → Bool
  | .file _ => true
  | .directory _ => false

def entries : Tree → Except Error (List (String × Tree))
  | .directory entries => .ok entries
  | .file _ => .error .notDirectory

def child? (name : String) (entries : List (String × Tree)) : Option Tree :=
  (entries.find? (·.1 = name)).map (·.2)

def putEntry (name : String) (t : Tree) : List (String × Tree) → List (String × Tree)
  | [] => [(name, t)]
  | (n, old) :: rest => if n = name then (n, t) :: rest else (n, old) :: putEntry name t rest

/-- What stands under a sequence of names. -/
def find : List String → Tree → Except Error Tree
  | [], t => .ok t
  | _ :: _, .file _ => .error .notDirectory
  | name :: rest, .directory entries =>
    match child? name entries with
    | none => .error .notFound
    | some t => find rest t

/-- Puts something under a sequence of names, the last of which may be new. -/
def put (new : Tree) : List String → Tree → Except Error Tree
  | [], _ => .ok new
  | _ :: _, .file _ => .error .notDirectory
  | name :: rest, .directory entries =>
    match child? name entries with
    | some t => do return .directory (putEntry name (← put new rest t) entries)
    | none =>
      if rest.isEmpty then .ok (.directory (putEntry name new entries)) else .error .notFound

end Tree

end SatWalk.Files
