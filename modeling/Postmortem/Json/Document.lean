import Postmortem.Json.Reader

/-!
# Documents

Values that have a JSON document. A record is written as an object with its fields in their
declared order. It is read from an object with its fields in any order, among fields nobody knows,
or from an array of its fields in their declared order; a field that is absent may have a default.
-/

namespace Postmortem

namespace Json

/-- Why a document is refused. -/
inductive Error where
  | malformed
  | mismatch (wanted : String)
  | missing (field : String)
  | repeated
  deriving DecidableEq, Repr

def Error.message : Error → String
  | malformed => "malformed JSON"
  | mismatch wanted => "expected " ++ wanted
  | missing field => "missing field " ++ field
  | repeated => "a field occurs twice"

/-- The fields of a record that are present, each under its name. -/
abbrev Fields := List (String × Json)

def memberName : Option String × Json → Except Error (String × Json)
  | (some k, v) => .ok (k, v)
  | (none, _) => .error (.mismatch "a field name")

def fields (names : List String) : Json → Except Error Fields
  | object members => do
    let known := (← members.mapM memberName).filter (·.1 ∈ names)
    if (known.map (·.1)).Nodup then .ok known else .error .repeated
  | array items =>
    if items.length ≤ names.length then .ok (names.zip items) else .error (.mismatch "fewer fields")
  | _ => .error (.mismatch "a record")

end Json

class Document (α : Type) where
  toJson : α → Json
  ofJson : Json → Except Json.Error α

namespace Document

def write {α : Type} [Document α] (a : α) : String := (toJson a).write

def read (α : Type) [Document α] (text : String) : Except Json.Error α :=
  match Json.read text with
  | some v => ofJson v
  | none => .error .malformed

end Document

namespace Json.Fields

def required {α : Type} [Document α] (fs : Fields) (name : String) : Except Error α :=
  match fs.lookup name with
  | some v => Document.ofJson v
  | none => .error (.missing name)

def optional {α : Type} [Document α] (fs : Fields) (name : String) (default : α) :
    Except Error α :=
  match fs.lookup name with
  | some v => Document.ofJson v
  | none => .ok default

end Json.Fields

namespace Json

def toInt (low high : Int) : Json → Except Error Int
  | number (some n) =>
    if low ≤ n ∧ n ≤ high then .ok n else .error (.mismatch "an integer in range")
  | _ => .error (.mismatch "an integer")

end Json

instance : Document Int32 where
  toJson n := .int n.toInt
  ofJson v := Int32.ofInt <$> v.toInt (-2147483648) 2147483647

instance : Document UInt32 where
  toJson n := .int n.toNat
  ofJson v := (UInt32.ofNat ·.toNat) <$> v.toInt 0 4294967295

instance : Document UInt64 where
  toJson n := .int n.toNat
  ofJson v := (UInt64.ofNat ·.toNat) <$> v.toInt 0 18446744073709551615

instance : Document Bool where
  toJson := .bool
  ofJson
    | .bool b => .ok b
    | _ => .error (.mismatch "a truth value")

instance : Document String where
  toJson := .text
  ofJson
    | .string (some s) => .ok s
    | _ => .error (.mismatch "a string")

instance {α : Type} [Document α] : Document (Option α) where
  toJson
    | some a => Document.toJson a
    | none => .null
  ofJson
    | .null => .ok none
    | v => some <$> Document.ofJson v

instance {α : Type} [Document α] : Document (List α) where
  toJson as := .array (as.map Document.toJson)
  ofJson
    | .array items => items.mapM Document.ofJson
    | _ => .error (.mismatch "an array")

end Postmortem
