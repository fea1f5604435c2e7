/-!
# JSON values

A JSON value, as far as the documents of this library look into it. A number that is no integer
literal and a string that is no text are values too: a document may hold them where nobody looks.
-/

namespace Postmortem

inductive Json where
  | null
  | bool (b : Bool)
  /-- `none` for a fraction, an exponent or a negative zero. -/
  | number (n : Option Int)
  /-- `none` where an escape leaves half of a surrogate pair alone. -/
  | string (s : Option String)
  | array (items : List Json)
  | object (members : List (Option String × Json))

namespace Json

def int (n : Int) : Json := number (some n)

def text (s : String) : Json := string (some s)

/-- The object with these members, in this order. -/
def record (members : List (String × Json)) : Json :=
  object (members.map fun m => (some m.1, m.2))

end Json

end Postmortem
