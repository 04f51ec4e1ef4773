import SatWalk.Json.Printer
import SatWalk.Text.Quoted

/-! What can be wrong with JSON input: the text is malformed, it ends too early, or a value does
not fit what is expected in its place. -/

namespace SatWalk.Json

/-- What stands in the place of an expected value. -/
inductive Found
  | null
  | boolean (value : Bool)
  | number (value : Number)
  | string (text : String)
  | sequence
  | map
  deriving DecidableEq, Repr

def Found.of : Value → Found
  | .null => .null
  | .boolean value => .boolean value
  | .number value => .number value
  | .string text => .string text
  | .array _ => .sequence
  | .object _ => .map

def Found.describe : Found → String
  | .null => "null"
  | .boolean value => "boolean `" ++ String.ofList (writeBoolean value) ++ "`"
  | .number (.whole z) => "integer `" ++ String.ofList (Text.writeInteger z) ++ "`"
  | .number (.real x _) => "floating point `" ++ String.ofList (numberLayout.write x) ++ "`"
  | .string text => "string " ++ Text.quote text
  | .sequence => "sequence"
  | .map => "map"

inductive Mismatch
  | missingField (name : String)
  | duplicateField (name : String)
  | unknownField (name : String) (known : List String)
  | unknownVariant (name : String) (known : List String)
  | wrongType (found : Found) (expected : String)
  | wrongValue (found : Found) (expected : String)
  | wrongLength (length : Nat) (expected : String)
  | refused (reason : String)
  deriving DecidableEq, Repr

inductive Error
  | malformed
  | truncated
  | mismatch (cause : Mismatch)
  deriving DecidableEq, Repr

def listNames : List String → String
  | [] => ""
  | [a] => "`" ++ a ++ "`"
  | [a, b] => "`" ++ a ++ "` or `" ++ b ++ "`"
  | names => "one of " ++ ", ".intercalate (names.map fun n => "`" ++ n ++ "`")

def Mismatch.message : Mismatch → String
  | .missingField name => "missing field `" ++ name ++ "`"
  | .duplicateField name => "duplicate field `" ++ name ++ "`"
  | .unknownField name known => "unknown field `" ++ name ++ "`, expected " ++ listNames known
  | .unknownVariant name known => "unknown variant `" ++ name ++ "`, expected " ++ listNames known
  | .wrongType found expected => "invalid type: " ++ found.describe ++ ", expected " ++ expected
  | .wrongValue found expected => "invalid value: " ++ found.describe ++ ", expected " ++ expected
  | .wrongLength length expected =>
    "invalid length " ++ String.ofList (Text.writeNatural length) ++ ", expected " ++ expected
  | .refused reason => reason

end SatWalk.Json
