import SatWalk.Decimal.Reading
import SatWalk.Walk.Config

/-! Arguments of a command: positional ones, all of them required, and options that start with
two dashes. An option may stand without a value; then not even its default holds. A value
follows in the next argument, unless that starts with a dash and is longer than the dash,
or behind an equals sign. Two dashes alone end the options. -/

namespace SatWalk.CommandLine

inductive Kind
  | flag
  | natural
  | float
  | text
  | path
  | tracker
  deriving DecidableEq, Repr

def Kind.accepts (k : Kind) (value : String) : Bool :=
  match k with
  | .flag => false
  | .natural => (Text.readNatural? Text.countBound value.toList).isSome
  | .float => (Decimal.read? value.toList).isSome
  | .text => true
  | .path => value ≠ ""
  | .tracker => (TrackerKind.ofName? value).isSome

structure Spec where
  positionals : List (String × Kind)
  /-- Name, kind and default of each option. -/
  options : List (String × Kind × Option String)

/-- The arguments by name. An option that stands without a value is given as none. -/
structure Given where
  positionals : List String := []
  options : List (String × Option String) := []
  deriving DecidableEq, Repr

def Spec.option? (s : Spec) (name : String) : Option Kind :=
  (s.options.find? (·.1 = name)).map (·.2.1)

def Given.has (g : Given) (name : String) : Bool :=
  g.options.any (·.1 = name)

/-- The part before the first equals sign, and what follows it. -/
def splitEquals (cs : List Char) : String × Option String :=
  (String.ofList (cs.takeWhile (· ≠ '=')),
    match cs.dropWhile (· ≠ '=') with
    | [] => none
    | _ :: value => some (String.ofList value))

/-- How an argument looks. -/
inductive Shape
  | word (text : String)
  | option (name : String) (attached : Option String)
  | separator
  /-- A single dash and more. -/
  | short
  deriving DecidableEq, Repr

def shapeOf (argument : String) : Shape :=
  match argument.toList with
  | ['-', '-'] => .separator
  | '-' :: '-' :: rest => let (name, attached) := splitEquals rest; .option name attached
  | ['-'] => .word argument
  | '-' :: _ => .short
  | _ => .word argument

/-- Takes the arguments up one by one. `waiting` is the option that would take the next value. -/
def Spec.takeUp (s : Spec) : (trailing : Bool) → (waiting : Option String) → Given →
    List String → Option Given
  | _, none, g, [] => some g
  | _, some name, g, [] => some { g with options := g.options ++ [(name, none)] }
  | true, some name, g, arguments =>
    some { g with
      options := g.options ++ [(name, none)]
      positionals := g.positionals ++ arguments }
  | true, none, g, arguments => some { g with positionals := g.positionals ++ arguments }
  | false, waiting, g, argument :: rest =>
    let settled := match waiting with
      | some name => { g with options := g.options ++ [(name, none)] }
      | none => g
    match shapeOf argument with
    | .separator => s.takeUp true waiting g rest
    | .short => none
    | .option name attached =>
      if settled.has name then none
      else
        match s.option? name, attached with
        | none, _ => none
        | some .flag, some _ => none
        | some .flag, none =>
          s.takeUp false none { settled with options := settled.options ++ [(name, none)] } rest
        | some _, some value =>
          s.takeUp false none
            { settled with options := settled.options ++ [(name, some value)] } rest
        | some _, none => s.takeUp false (some name) settled rest
    | .word value =>
      match waiting with
      | some name =>
        s.takeUp false none { g with options := g.options ++ [(name, some value)] } rest
      | none => s.takeUp false none { g with positionals := g.positionals ++ [value] } rest

/-- Whether the positional arguments are complete and every value is of its kind. -/
def Spec.admits (s : Spec) (g : Given) : Bool :=
  g.positionals.length = s.positionals.length &&
    (s.positionals.zip g.positionals).all (fun ((_, k), value) => k.accepts value) &&
    g.options.all fun (name, value) =>
      match s.option? name, value with
      | some k, some value => k.accepts value
      | some _, none => true
      | none, _ => false

/-- The arguments, if they are as the command wants them. -/
def Spec.parse (s : Spec) (arguments : List String) : Option Given := do
  let g ← s.takeUp false none {} arguments
  if s.admits g then some g else none

/-- The value of an argument: as given, or the default of an option that is not given. -/
def Spec.value? (s : Spec) (g : Given) (name : String) : Option String :=
  match ((s.positionals.map (·.1)).zip g.positionals).find? (·.1 = name) with
  | some (_, value) => some value
  | none =>
    match g.options.find? (·.1 = name) with
    | some (_, value) => value
    | none => (s.options.find? (·.1 = name)).bind (·.2.2)

end SatWalk.CommandLine
