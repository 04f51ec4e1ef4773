import SatWalk.Formula.Assignment
import SatWalk.Json.Codec

/-! JSON form of formulas and assignments. A formula that is read is validated; the values of an
assignment are ones and zeros, and truth values are read as well. -/

namespace SatWalk

open Json

def Formula.fields : Fields (Nat × List Clause × Unit) (Option Nat × Option (List Clause) × Unit) :=
  .field ⟨"num_variables", .count "usize", none, none⟩
    (.field ⟨"clauses", .list (.list .literal), none, none⟩ .done)

/-- Formulas as they are written, valid or not. -/
def Formula.rawCodec : Codec Formula :=
  .record "RawFormula" false Formula.fields
    (fun (numVariables, clauses, _) => ⟨numVariables, clauses.toArray⟩)
    (fun f => (f.numVariables, f.clauses.toList, ()))

def Formula.codec : Codec Formula :=
  Formula.rawCodec.refine id fun f =>
    match f.validate with
    | .ok () => .ok f
    | .error e => .error e.message

def bitOf : Value → Except Mismatch Bool
  | .number (.whole 1) => .ok true
  | .number (.whole 0) => .ok false
  | .boolean b => .ok b
  | _ => .error (.refused "expected 0, 1, true, or false")

def bitsExpected : String := "a sequence of booleans or integers 0/1"

/-- Truth values, written as ones and zeros. -/
def bitsCodec : Codec (List Bool) where
  encode bits := .array (bits.map fun b => .ofInt (if b then 1 else 0))
  decode
    | .array vs => vs.mapM bitOf
    | v => .error (.wrongType (.of v) bitsExpected)
  read depth cs :=
    match skipSpace cs with
    | '[' :: cs =>
      deeper (fun depth cs =>
        readItems (fun cs => do
          let (v, cs) ← readValue depth cs
          return (← located (bitOf v), cs)) cs true [] cs) depth cs
    | cs => .error (unexpected bitsExpected cs)

def Assignment.codec : Codec Assignment :=
  .record "Solution" false (.field ⟨"variables", bitsCodec, none, none⟩ .done)
    (fun (values, _) => ⟨values.toArray⟩) (fun a => (a.values.toList, ()))

/-- The assignment that an object with the given members is of. -/
def Assignment.ofMembers (members : List (String × Value)) : Except Mismatch Assignment :=
  codec.decode (.object members)

end SatWalk
