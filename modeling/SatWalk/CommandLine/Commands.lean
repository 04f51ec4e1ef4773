import SatWalk.CommandLine.Arguments
import SatWalk.Experiment.Reference
import SatWalk.Experiment.Run
import SatWalk.Files.Loading
import SatWalk.Formula.Batch
import SatWalk.Zlib.Stream

/-! The commands of the program: generating formulas, solving one, verifying a solution, and
running experiments. What a command asks of its surroundings it asks of a host. -/

namespace SatWalk.CommandLine

inductive Error
  | missing (name : String)
  | generation (cause : Generation.Error)
  | batch (cause : Batch.Error)
  | load (cause : Files.LoadError)
  | search (cause : Config.Error)
  | write (cause : Files.Error)
  | solution (cause : Assignment.Rejection)
  | unreadable (what path : String) (cause : Files.Error)
  | notText (what path : String)
  | inputNotText (what : String)
  | unparsable (what : String) (cause : Json.Error)
  | noFormulas (directory : String)
  | experiment (cause : Experiment.Error)
  | reference (cause : Experiment.ReferenceError)
  | fault (cause : Fault)

def describeJson : Json.Error → String
  | .malformed => "malformed text"
  | .truncated => "unexpected end of text"
  | .mismatch cause => cause.message

def describeFault : Fault → String
  | .indexOutOfRange => "index out of range"
  | .arithmeticOverflow => "arithmetic overflow"
  | .capacityExceeded => "capacity exceeded"
  | .drawsExhausted => "no acceptable random word"
  | .badProbability => "probability out of range"

def Error.message : Error → String
  | .missing name => "Missing argument '" ++ name ++ "'"
  | .generation cause => cause.message
  | .batch cause => cause.message
  | .load cause => cause.message
  | .search cause => cause.message
  | .write cause => cause.message
  | .solution cause => "Invalid solution: " ++ cause.message
  | .unreadable what path cause =>
    "Failed to read " ++ what ++ " file '" ++ path ++ "': " ++ cause.message
  | .notText what path =>
    "Failed to read " ++ what ++ " file '" ++ path ++ "': stream did not contain valid UTF-8"
  | .inputNotText what =>
    "Failed to read " ++ what ++ " from stdin: stream did not contain valid UTF-8"
  | .unparsable what cause => "Failed to parse " ++ what ++ ": " ++ describeJson cause
  | .noFormulas directory => "No CNF files found in '" ++ directory ++ "'"
  | .experiment cause => cause.message
  | .reference cause => cause.message
  | .fault cause => describeFault cause

/-- A command in progress. -/
abbrev Action (m : Type → Type) := ExceptT Error m

variable {m : Type → Type} [Monad m]

def attempt {ε α : Type} (wrap : ε → Error) (a : Attempt ε α) : Action m α :=
  match a.run with
  | .error fault => throw (.fault fault)
  | .ok (.error e) => throw (wrap e)
  | .ok (.ok x) => return x

def print (h : Host m) (text : String) : Action m Unit :=
  ExceptT.lift (h.print text)

def writeText (h : Host m) (path text : String) : Action m Unit := do
  match ← h.writeFile path (Text.toBytes text) with
  | .error e => throw (.write e)
  | .ok () => return ()

/-! ### Values of arguments -/

/-- The arguments of one command. -/
structure Arguments where
  spec : Spec
  given : Given

namespace Arguments

def value? (a : Arguments) (name : String) : Option String :=
  a.spec.value? a.given name

def flag (a : Arguments) (name : String) : Bool :=
  a.given.has name

def required {α : Type} (a : Arguments) (name : String) (read : String → Option α) :
    Except Error α :=
  match (a.value? name).bind read with
  | some x => .ok x
  | none => .error (.missing name)

def text (a : Arguments) (name : String) : Except Error String :=
  a.required name some

def natural (a : Arguments) (name : String) : Except Error Nat :=
  a.required name fun s => Text.readNatural? Text.countBound s.toList

def float (a : Arguments) (name : String) : Except Error Float :=
  a.required name fun s => Decimal.read? s.toList

def tracker (a : Arguments) (name : String) : Except Error TrackerKind :=
  a.required name TrackerKind.ofName?

end Arguments

/-! ### Generating -/

def seedOption : String × Kind × Option String := ("seed", .text, some "0")

def generateSpec : Spec where
  positionals := [("NUM_VARIABLES", .natural), ("NUM_CLAUSES", .natural)]
  options := [("clause-length", .natural, some "3"), seedOption, ("planted", .flag, none),
    ("output", .path, none), ("model", .path, none)]

/-- The file of a generated formula starts with a comment that gives its seed. -/
def generatedText (seed : String) (f : Formula) (planted : Bool) : String :=
  "c generated by hsat, seed '" ++ seed ++ "'" ++ (if planted then ", planted" else "") ++ "\n" ++
    Dimacs.write f

def generateArguments (a : Arguments) : Except Error (Difficulty × String) := do
  let numVariables ← a.natural "NUM_VARIABLES"
  let numClauses ← a.natural "NUM_CLAUSES"
  let clauseLength ← a.natural "clause-length"
  let seed ← a.text "seed"
  return (⟨numVariables, numClauses, clauseLength⟩, seed)

def generate (h : Host m) (a : Arguments) : Action m Unit := do
  let (d, seed) ← ExceptT.mk (pure (generateArguments a))
  let (f, model) ← attempt .generation (Generation.ofText seed d (a.flag "planted"))
  let content := generatedText seed f model.isSome
  match a.value? "output" with
  | some path =>
    writeText h path content
    print h ("formula written to: " ++ Text.quote path ++ "\n")
  | none => print h content
  match model, a.value? "model" with
  | some model, some path =>
    writeText h path (Assignment.codec.write model)
    print h ("model written to: " ++ Text.quote path ++ "\n")
  | _, _ => return ()

def batchSpec : Spec where
  positionals := [("OUTPUT_DIR", .path)]
  options := [("num-instances", .natural, some "100"), ("num-vars-min", .natural, some "50"),
    ("num-vars-max", .natural, some "200"), ("num-clauses-min", .natural, some "200"),
    ("num-clauses-max", .natural, some "800"), ("clause-length", .natural, some "3"), seedOption,
    ("planted", .flag, none)]

def batchArguments (a : Arguments) : Except Error (Batch.Options × String) := do
  let numInstances ← a.natural "num-instances"
  let minVars ← a.natural "num-vars-min"
  let maxVars ← a.natural "num-vars-max"
  let minClauses ← a.natural "num-clauses-min"
  let maxClauses ← a.natural "num-clauses-max"
  let clauseLength ← a.natural "clause-length"
  let seed ← a.text "seed"
  let directory ← a.text "OUTPUT_DIR"
  return ({ numInstances, numVariables := (minVars, maxVars),
            numClauses := (minClauses, maxClauses), clauseLength,
            planted := a.flag "planted", seed }, directory)

def generateBatch (h : Host m) (a : Arguments) : Action m Unit := do
  let (o, directory) ← ExceptT.mk (pure (batchArguments a))
  match ← (Batch.write h o directory).adapt .batch with
  | .error fault => throw (.fault fault)
  | .ok paths =>
    print h (toString paths.length ++ " formulas written to: " ++ Text.quote directory ++ "\n")

/-! ### Solving -/

def searchOptions : List (String × Kind × Option String) :=
  [("max-flips", .natural, some "10000"), ("restart-frequency", .natural, some "1000"),
    ("no-restarts", .flag, none), ("adaptive", .flag, none),
    ("oracle", .tracker, some "incremental")]

def solveSpec : Spec where
  positionals := [("CNF", .path)]
  options := [("p", .float, some "0.5"), ("seed", .natural, some "0"), ("output", .path, none)] ++
    searchOptions

def searchArguments (a : Arguments) (p : Float) : Except Error Config := do
  let maxFlips ← a.natural "max-flips"
  let restartFrequency ← a.natural "restart-frequency"
  let tracker ← a.tracker "oracle"
  return { p, maxFlips, restartFrequency, restarts := !a.flag "no-restarts",
           adaptiveP := a.flag "adaptive", tracker }

def solveArguments (a : Arguments) : Except Error (Config × Nat) := do
  let p ← a.float "p"
  let c ← searchArguments a p
  let seed ← a.natural "seed"
  return (c, seed)

def solveFile (h : Host m) (a : Arguments) : Action m Unit := do
  let path ← ExceptT.mk (pure (a.text "CNF"))
  let f ← (Files.loadFile h path).adapt .load
  let (c, seed) ← ExceptT.mk (pure (solveArguments a))
  let r ← attempt .search (solve f c (ChaCha.ofSeed (.ofNat seed)))
  let content := RunResult.codec.writeIndented r
  match a.value? "output" with
  | some path =>
    writeText h path content
    print h ("result written to: " ++ Text.quote path ++ "\n")
  | none => print h (content ++ "\n")

/-! ### Verifying -/

/-- JSON text that is given as it is, in a file whose name ends in `.json`, or as the input. -/
def readJsonArgument (h : Host m) (what argument : String) : Action m String := do
  if argument = "-" then
    match Text.ofBytes? (← h.readInput) with
    | some text => return text
    | none => throw (.inputNotText what)
  else if ".json".toList.isSuffixOf argument.toList then
    match ← h.readFile argument with
    | .error e => throw (.unreadable what argument e)
    | .ok bytes =>
      match Text.ofBytes? bytes with
      | some text => return text
      | none => throw (.notText what argument)
  else return argument

def parseArgument {α : Type} (h : Host m) (c : Json.Codec α) (what argument : String) :
    Action m α := do
  match c.parse (← readJsonArgument h what argument) with
  | .ok x => return x
  | .error e => throw (.unparsable what e)

def verifySpec : Spec where
  positionals := [("CNF", .path), ("SOLUTION", .text)]
  options := []

def verify (h : Host m) (a : Arguments) : Action m Unit := do
  let path ← ExceptT.mk (pure (a.text "CNF"))
  let f ← (Files.loadFile h path).adapt .load
  let argument ← ExceptT.mk (pure (a.text "SOLUTION"))
  let solution ← parseArgument h Assignment.codec "solution" argument
  attempt .solution (solution.verify f)
  print h "Solution is valid\n"

/-! ### Experiments -/

def experimentSpec : Spec where
  positionals := [("CNF_DIR", .path)]
  options := [("config", .text, none), ("p-start", .float, some "0.0"),
    ("p-end", .float, some "1.0"), ("p-step", .float, some "0.1"), ("trials", .natural, some "1"),
    ("seed", .text, none), ("reference", .text, none),
    ("reference-timeout", .natural, some "300"), ("output", .path, none),
    ("compress", .flag, none)] ++ searchOptions

def experimentArguments (a : Arguments) : Except Error Experiment.Config := do
  let c ← searchArguments a 0
  let pStart ← a.float "p-start"
  let pEnd ← a.float "p-end"
  let pStep ← a.float "p-step"
  let trials ← a.natural "trials"
  return {
    pStart, pEnd, pStep, trials
    maxFlips := c.maxFlips
    restartFrequency := c.restartFrequency
    restarts := c.restarts
    adaptiveP := c.adaptiveP
    tracker := c.tracker
    seed := (a.value? "seed").getD ""
    referenceSolver := a.value? "reference"
    referenceTimeoutSecs :=
      (a.value? "reference-timeout").bind fun s => Text.readNatural? Text.countBound s.toList }

/-- The line about the best probability. -/
def bestLine (s : Experiment.PSummary) : String :=
  "best p = " ++ String.ofList (Decimal.fixed 2 s.p) ++ ": " ++
    String.ofList (Decimal.fixed 1 s.successRate) ++ "% solved, " ++
    String.ofList (Decimal.fixed 1 s.avgFlips) ++ " flips on average\n"

def referenceLine (r : Experiment.ReferenceReport) : String :=
  r.solver ++ ": " ++ String.ofList (Decimal.fixed 1 r.summary.successRate) ++ "% solved, " ++
    toString r.summary.unsatisfiable ++ " unsatisfiable, " ++ toString r.summary.timeouts ++
    " timeouts\n"

def consultReference (h : Host m) (c : Experiment.Config) (directory : String)
    (names : List String) : Action m (Option Experiment.ReferenceReport) := do
  match c.referenceSolver with
  | none => return none
  | some solver =>
    let paths := names.map (Files.joinPath directory)
    let r ← (Experiment.runReferences h solver paths (1000 * c.referenceTimeout)).adapt .reference
    return some r

def experiment (h : Host m) (a : Arguments) : Action m Unit := do
  let directory ← ExceptT.mk (pure (a.text "CNF_DIR"))
  let c ← match a.value? "config" with
    | some argument => parseArgument h Experiment.Config.codec "config" argument
    | none => ExceptT.mk (pure (experimentArguments a))
  let instances ← (Files.loadDir h directory).adapt .load
  if instances.isEmpty then throw (.noFormulas directory)
  let r ← attempt .experiment (Experiment.run ChaCha.ofSeed c (fun _ => 0) instances)
  let reference ← consultReference h c directory (instances.map (·.1))
  let r := { r with reference }
  match Experiment.best? r.summaries with
  | some best => print h (bestLine best)
  | none => pure ()
  match r.reference with
  | some reference => print h (referenceLine reference)
  | none => pure ()
  match a.value? "output" with
  | some path =>
    if a.flag "compress" then
      match ← h.writeFile path (Zlib.pack h.compress Experiment.Report.codec r) with
      | .error e => throw (.write e)
      | .ok () => pure ()
    else writeText h path (Experiment.Report.codec.writeIndented r)
    print h ("report written to: " ++ Text.quote path ++ "\n")
  | none => print h (Experiment.Report.codec.writeIndented r ++ "\n")

/-! ### The program -/

/-- The exit code, and what is written to the error output. -/
structure Exit where
  code : Nat
  message : String := ""
  deriving DecidableEq, Repr

def Exit.usage : Exit := { code := 2 }

def Exit.ofError : Error → Exit
  | .fault cause => { code := 101, message := describeFault cause ++ "\n" }
  | e => { code := 1, message := "Error: " ++ e.message ++ "\n" }

def commands (h : Host m) : List (String × Spec × (Arguments → Action m Unit)) :=
  [("generate", generateSpec, generate h), ("generate-batch", batchSpec, generateBatch h),
    ("solve", solveSpec, solveFile h), ("verify", verifySpec, verify h),
    ("experiment", experimentSpec, experiment h)]

/-- Runs the command that the first argument names on the other ones. -/
def run (h : Host m) (arguments : List String) : m Exit :=
  match arguments with
  | [] => return .usage
  | name :: rest =>
    match (commands h).find? (·.1 = name) with
    | none => return .usage
    | some (_, spec, command) =>
      match spec.parse rest with
      | none => return .usage
      | some given => do
        match ← (command ⟨spec, given⟩).run with
        | .ok () => return { code := 0 }
        | .error e => return .ofError e

end SatWalk.CommandLine
