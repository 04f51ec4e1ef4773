import SatWalk.Json.Canonical
import SatWalk.Json.Reader
import SatWalk.Json.Skip

/-! Typed JSON. A codec writes values of a type, decodes them from JSON values, and reads them
from text. Reading from text works from left to right, so a value that does not fit is
reported where it stands even if the text after it is malformed. Records are described once,
by the list of their fields. -/

namespace SatWalk.Json

structure Codec (α : Type) where
  encode : α → Value
  decode : Value → Except Mismatch α
  /-- Reads with at most the given number of levels of arrays and objects. -/
  read : (depth : Nat) → Reader α

def Codec.parse {α : Type} (c : Codec α) (text : String) : Except Error α :=
  c.read depthLimit text.toList >>= finish

def Codec.write {α : Type} (c : Codec α) (x : α) : String :=
  (c.encode x).canonical

def Codec.writeIndented {α : Type} (c : Codec α) (x : α) : String :=
  (c.encode x).canonicalIndented

/-- The error for a value that starts the text in the place of what is expected. Values other
than arrays and objects are read to their end first. -/
def unexpected (expected : String) (cs : List Char) : Error :=
  let found {β : Type} (what : Except Error (β × List Char)) (name : β → Found) : Error :=
    match what with
    | .ok (x, _) => .mismatch (.wrongType (name x) expected)
    | .error e => e
  match cs with
  | [] => .truncated
  | 'n' :: cs => found (expect "ull".toList cs) fun _ => .null
  | 't' :: cs => found (expect "rue".toList cs) fun _ => .boolean true
  | 'f' :: cs => found (expect "alse".toList cs) fun _ => .boolean false
  | '"' :: cs => found (readString cs) .string
  | '[' :: _ => .mismatch (.wrongType .sequence expected)
  | '\x7b' :: _ => .mismatch (.wrongType .map expected)
  | c :: cs =>
    if c = '-' ∨ c.isDigit then found (readNumber (c :: cs)) .number else .malformed

def startsNumber : List Char → Bool
  | c :: _ => c = '-' || c.isDigit
  | [] => false

/-- A mismatch found in text. -/
def located {α : Type} : Except Mismatch α → Except Error α
  | .ok x => .ok x
  | .error m => .error (.mismatch m)

/-- A codec for values written as numbers; `accept` decides which numbers fit. -/
def Codec.ofNumber {α : Type} (expected : String) (encode : α → Value)
    (accept : Number → Except Mismatch α) : Codec α where
  encode := encode
  decode
    | .number n => accept n
    | v => .error (.wrongType (.of v) expected)
  read _ cs :=
    let cs := skipSpace cs
    if startsNumber cs then do
      let (n, cs) ← readNumber cs
      let x ← located (accept n)
      return (x, cs)
    else .error (unexpected expected cs)

/-- Counts, under the name that messages give them. -/
def Codec.count (name : String) : Codec Nat :=
  .ofNumber name (fun n => .ofInt n) fun
    | .whole z =>
      if 0 ≤ z ∧ z < Text.countBound then .ok z.toNat
      else .error (.wrongValue (.number (.whole z)) name)
    | n => .error (.wrongType (.number n) name)

def Codec.literal : Codec Int :=
  .ofNumber "i32" .ofInt fun
    | .whole z =>
      if -(Text.literalBound : Int) ≤ z ∧ z < Text.literalBound then .ok z
      else .error (.wrongValue (.number (.whole z)) "i32")
    | n => .error (.wrongType (.number n) "i32")

def Number.toFloat : Number → Float
  | .whole z => .ofInt z
  | .real x _ => x

def Codec.float : Codec Float :=
  .ofNumber "f64" .ofFloat fun n => .ok n.toFloat

def Codec.boolean : Codec Bool where
  encode := .boolean
  decode
    | .boolean b => .ok b
    | v => .error (.wrongType (.of v) "a boolean")
  read _ cs :=
    match skipSpace cs with
    | 't' :: cs => do return (true, (← expect "rue".toList cs).2)
    | 'f' :: cs => do return (false, (← expect "alse".toList cs).2)
    | cs => .error (unexpected "a boolean" cs)

def Codec.string : Codec String where
  encode := .string
  decode
    | .string text => .ok text
    | v => .error (.wrongType (.of v) "a string")
  read _ cs :=
    match skipSpace cs with
    | '"' :: cs => readString cs
    | cs => .error (unexpected "a string" cs)

/-- Runs a reader one level deeper. -/
def deeper {α : Type} (reader : (depth : Nat) → Reader α) : (depth : Nat) → Reader α
  | 0 => tooDeep
  | depth + 1 => reader depth

def Codec.list {α : Type} (item : Codec α) : Codec (List α) where
  encode xs := .array (xs.map item.encode)
  decode
    | .array vs => vs.mapM item.decode
    | v => .error (.wrongType (.of v) "a sequence")
  read depth cs :=
    match skipSpace cs with
    | '[' :: cs =>
      deeper (fun depth cs => readItems (item.read depth) cs true [] cs) depth cs
    | cs => .error (unexpected "a sequence" cs)

/-- Members of an object, whatever their values are. -/
def Codec.members : Codec (List (String × Value)) where
  encode := .object
  decode
    | .object members => .ok members
    | v => .error (.wrongType (.of v) "a map")
  read depth cs :=
    match skipSpace cs with
    | '\x7b' :: cs =>
      deeper (fun depth cs => readMembers (readValue depth) cs true [] cs) depth cs
    | cs => .error (unexpected "a map" cs)

def Codec.optional {α : Type} (inner : Codec α) : Codec (Option α) where
  encode
    | some x => inner.encode x
    | none => .null
  decode
    | .null => .ok none
    | v => (inner.decode v).map some
  read depth cs :=
    match skipSpace cs with
    | [] => .error .truncated
    | 'n' :: cs => do return (none, (← expect "ull".toList cs).2)
    | cs => do
      let (x, cs) ← inner.read depth cs
      return (some x, cs)

/-- A codec for part of a type, or for the type seen in another form. -/
def Codec.refine {α β : Type} (c : Codec α) (encode : β → α) (accept : α → Except String β) :
    Codec β where
  encode x := c.encode (encode x)
  decode v := do
    match accept (← c.decode v) with
    | .ok x => .ok x
    | .error reason => .error (.refused reason)
  read depth cs := do
    let (a, cs) ← c.read depth cs
    match accept a with
    | .ok x => return (x, cs)
    | .error reason => .error (.mismatch (.refused reason))

/-! ### Choices

One of finitely many names. A name may also be the only key of an object, over null. -/

def chosen {α : Type} (names : List (String × α)) (name : String) : Except Mismatch α :=
  match names.find? (·.1 = name) with
  | some (_, x) => .ok x
  | none => .error (.unknownVariant name (names.map (·.1)))

def readChoiceName {α : Type} (names : List (String × α)) : Reader α := fun cs =>
  match skipSpace cs with
  | '"' :: cs => do
    let (name, cs) ← readString cs
    return (← located (chosen names name), cs)
  | cs => .error (unexpected "variant identifier" cs)

def readUnit : Reader Unit := fun cs =>
  match skipSpace cs with
  | 'n' :: cs => expect "ull".toList cs
  | cs => .error (unexpected "unit" cs)

def Codec.choice {α : Type} (names : List (String × α)) (nameOf : α → String) : Codec α where
  encode x := .string (nameOf x)
  decode
    | .string name => chosen names name
    | .object [(name, v)] => do
      let x ← chosen names name
      match v with
      | .null => .ok x
      | v => .error (.wrongType (.of v) "unit")
    | .object _ => .error (.wrongValue .map "map with a single key")
    | v => .error (.wrongType (.of v) "string or map")
  read depth cs :=
    match skipSpace cs with
    | [] => .error .truncated
    | '\x7b' :: cs =>
      deeper (fun _ cs => do
        let (x, cs) ← readChoiceName names cs
        let (_, cs) ← expectMark ':' cs
        let (_, cs) ← readUnit cs
        let (_, cs) ← expectMark '\x7d' cs
        return (x, cs)) depth cs
    | '"' :: cs => readChoiceName names ('"' :: cs)
    | _ => .error .malformed

/-! ### Records -/

/-- A field of a record. `absent` is its value where an object leaves it out, `short` its value
where an array ends before it. -/
structure Field (α : Type) where
  key : String
  codec : Codec α
  absent : Option α := none
  short : Option α := none

def Field.orElse {α : Type} (key : String) (codec : Codec α) (default : α) : Field α :=
  ⟨key, codec, some default, some default⟩

/-- The fields of a record in order. Their values form nested pairs; so do the slots that hold
what is known of them while an object is read. -/
inductive Fields : (values slots : Type) → Type 1
  | done : Fields Unit Unit
  | field {α τ δ : Type} (head : Field α) (rest : Fields τ δ) : Fields (α × τ) (Option α × δ)

namespace Fields

variable {τ δ : Type}

def keys : {τ δ : Type} → Fields τ δ → List String
  | _, _, .done => []
  | _, _, .field head rest => head.key :: rest.keys

def blank : {τ δ : Type} → Fields τ δ → δ
  | _, _, .done => ()
  | _, _, .field _ rest => (none, rest.blank)

def encode : {τ δ : Type} → Fields τ δ → τ → List (String × Value)
  | _, _, .done, _ => []
  | _, _, .field head rest, (x, xs) => (head.key, head.codec.encode x) :: rest.encode xs

/-- The record once its object is complete: absent fields take their value, if they have one. -/
def complete : {τ δ : Type} → Fields τ δ → δ → Except Mismatch τ
  | _, _, .done, _ => .ok ()
  | _, _, .field head rest, (slot, slots) =>
    match slot <|> head.absent with
    | none => .error (.missingField head.key)
    | some x => do return (x, ← rest.complete slots)

/-- Fills the field with the given key, if there is one. -/
def put (key : String) (v : Value) :
    {τ δ : Type} → Fields τ δ → δ → Except Mismatch (Option δ)
  | _, _, .done, _ => .ok none
  | _, _, .field head rest, (slot, slots) =>
    if head.key = key then
      if slot.isSome then .error (.duplicateField key)
      else do return some (some (← head.codec.decode v), slots)
    else do return (← rest.put key v slots).map fun slots => (slot, slots)

/-- As `put`, from the text after the key. -/
def readPut (key : String) (depth : Nat) :
    {τ δ : Type} → Fields τ δ → δ → Option (Reader δ)
  | _, _, .done, _ => none
  | _, _, .field head rest, (slot, slots) =>
    if head.key = key then
      some fun cs =>
        if slot.isSome then .error (.mismatch (.duplicateField key))
        else do
          let (_, cs) ← expectMark ':' cs
          let (x, cs) ← head.codec.read depth cs
          return ((some x, slots), cs)
    else
      (rest.readPut key depth slots).map fun reader => fun cs => do
        let (slots, cs) ← reader cs
        return ((slot, slots), cs)

/-- All members of an object, in their order. -/
def putAll (fs : Fields τ δ) (closed : Bool) : List (String × Value) → δ → Except Mismatch δ
  | [], slots => .ok slots
  | (key, v) :: rest, slots => do
    match ← fs.put key v slots with
    | some slots => fs.putAll closed rest slots
    | none =>
      if closed then .error (.unknownField key fs.keys) else fs.putAll closed rest slots

/-- All members of an object, up to and including its closing brace. -/
def readPutAll (fs : Fields τ δ) (closed : Bool) (depth : Nat) :
    (steps : List Char) → (first : Bool) → δ → Reader δ
  | [], _, _, _ => .error .truncated
  | _ :: steps, first, slots, cs => do
    match ← nextKey first cs with
    | none =>
      let (_, cs) ← expectMark '\x7d' cs
      return (slots, cs)
    | some cs =>
      let (key, cs) ← readString cs
      match fs.readPut key depth slots with
      | some reader =>
        let (slots, cs) ← reader cs
        readPutAll fs closed depth steps false slots cs
      | none =>
        if closed then .error (.mismatch (.unknownField key fs.keys))
        else
          let (_, cs) ← expectMark ':' cs
          let (_, cs) ← skipValue cs
          readPutAll fs closed depth steps false slots cs

/-- The fields from the items of an array, with what is left of it. -/
def ofItems (expected : String) :
    {τ δ : Type} → Fields τ δ → (index : Nat) → List Value → Except Mismatch (τ × List Value)
  | _, _, .done, _, vs => .ok ((), vs)
  | _, _, .field head rest, index, v :: vs => do
    let x ← head.codec.decode v
    let (xs, vs) ← rest.ofItems expected (index + 1) vs
    return ((x, xs), vs)
  | _, _, .field head rest, index, [] =>
    match head.short with
    | none => .error (.wrongLength index expected)
    | some x => do
      let (xs, vs) ← rest.ofItems expected (index + 1) []
      return ((x, xs), vs)

/-- As `ofItems`, from text; stops before the closing bracket or what stands in its place. -/
def readItemsInto (expected : String) (depth : Nat) :
    {τ δ : Type} → Fields τ δ → (index : Nat) → Reader τ
  | _, _, .done, _, cs => .ok ((), cs)
  | _, _, .field head rest, index, cs => do
    match ← nextItem (index == 0) cs with
    | some cs =>
      let (x, cs) ← head.codec.read depth cs
      let (xs, cs) ← rest.readItemsInto expected depth (index + 1) cs
      return ((x, xs), cs)
    | none =>
      match head.short with
      | none => .error (.mismatch (.wrongLength index expected))
      | some x =>
        let (xs, cs) ← rest.readItemsInto expected depth (index + 1) cs
        return ((x, xs), cs)

end Fields

/-- Name and size of a record, as messages about its array form give them. -/
def describeRecord (name : String) (size : Nat) : String :=
  "struct " ++ name ++ " with " ++ String.ofList (Text.writeNatural size) ++
    (if size = 1 then " element" else " elements")

/-- A record written as an object. An array of its fields in order is read as well. A closed
record refuses keys that it does not know. -/
def Codec.record {τ δ ρ : Type} (name : String) (closed : Bool) (fs : Fields τ δ)
    (build : τ → ρ) (parts : ρ → τ) : Codec ρ where
  encode r := .object (fs.encode (parts r))
  decode
    | .object members => do
      let draft ← fs.putAll closed members fs.blank
      return build (← fs.complete draft)
    | .array vs => do
      let (t, left) ← fs.ofItems (describeRecord name fs.keys.length) 0 vs
      if left = [] then return build t
      else .error (.wrongLength vs.length "fewer elements in array")
    | v => .error (.wrongType (.of v) ("struct " ++ name))
  read depth cs :=
    match skipSpace cs with
    | '\x7b' :: cs =>
      deeper (fun depth cs => do
        let (draft, cs) ← fs.readPutAll closed depth cs true fs.blank cs
        return (build (← located (fs.complete draft)), cs)) depth cs
    | '[' :: cs =>
      deeper (fun depth cs => do
        let (t, cs) ← fs.readItemsInto (describeRecord name fs.keys.length) depth 0 cs
        let (_, cs) ← expectMark ']' cs
        return (build t, cs)) depth cs
    | cs => .error (unexpected ("struct " ++ name) cs)

end SatWalk.Json
