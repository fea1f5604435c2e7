import Postmortem.Json.Lexer

/-!
# Reading JSON values

A machine that takes the tokens of a document from the left and keeps the containers that are
still open on a stack, so that a document may nest as deep as it likes.

* `Json.read` gives the value of a document. Blanks around tokens are allowed, nothing else is.
-/

namespace Postmortem.Json

/-- A container that is still open, its members newest first. -/
inductive Open where
  | array (items : List Json)
  /-- An object that waits for the value of `key`. -/
  | object (members : List (Option String × Json)) (key : Option String)

/-- What may come next. -/
inductive Reader where
  | value (outer : List Open)
  /-- The first item of an array, or its end. -/
  | firstItem (outer : List Open)
  /-- A key, or, right after the opening bracket, the end of the object. -/
  | key (first : Bool) (members : List (Option String × Json)) (outer : List Open)
  | colon (members : List (Option String × Json)) (key : Option String) (outer : List Open)
  /-- Whatever may follow the complete value `v`. -/
  | after (v : Json) (outer : List Open)

namespace Reader

/-- A token where a value must begin. -/
def begin (outer : List Open) : Token → Option Reader
  | .null => some (after .null outer)
  | .bool b => some (after (.bool b) outer)
  | .number n => some (after (.number n) outer)
  | .string s => some (after (.string s) outer)
  | .openArray => some (firstItem outer)
  | .openObject => some (key true [] outer)
  | _ => none

def step : Reader → Token → Option Reader
  | value outer, t => begin outer t
  | firstItem outer, .closeArray => some (after (.array []) outer)
  | firstItem outer, t => begin (.array [] :: outer) t
  | key _ members outer, .string k => some (colon members k outer)
  | key true _ outer, .closeObject => some (after (.object []) outer)
  | colon members k outer, .colon => some (value (.object members k :: outer))
  | after v (.array items :: outer), .comma => some (value (.array (v :: items) :: outer))
  | after v (.array items :: outer), .closeArray =>
    some (after (.array (v :: items).reverse) outer)
  | after v (.object members k :: outer), .comma => some (key false ((k, v) :: members) outer)
  | after v (.object members k :: outer), .closeObject =>
    some (after (.object ((k, v) :: members).reverse) outer)
  | _, _ => none

def finish : Reader → Option Json
  | after v [] => some v
  | _ => none

end Reader

def ofTokens (ts : List Token) : Option Json := do
  (← ts.foldlM Reader.step (.value [])).finish

def read (s : String) : Option Json := do ofTokens (← lex s.toList)

end Postmortem.Json
