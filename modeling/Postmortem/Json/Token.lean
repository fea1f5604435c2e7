import Postmortem.Json.Value
import Postmortem.Text.Hex

/-!
# JSON tokens

The tokens of a document, their spelling, and the tokens of a value. A document is written
without blanks: the spelling of its tokens, one after the other.
-/

namespace Postmortem.Json

inductive Token where
  | openArray
  | closeArray
  | openObject
  | closeObject
  | comma
  | colon
  | null
  | bool (b : Bool)
  | number (n : Option Int)
  | string (s : Option String)
  deriving DecidableEq, Repr

/-- A character between quotes. Only the quote, the backslash and the controls are escaped. -/
def escaped (c : Char) : List Char :=
  if c = '"' then ['\\', '"']
  else if c = '\\' then ['\\', '\\']
  else if c = '\x08' then ['\\', 'b']
  else if c = '\t' then ['\\', 't']
  else if c = '\n' then ['\\', 'n']
  else if c = '\x0c' then ['\\', 'f']
  else if c = '\r' then ['\\', 'r']
  else if c.toNat < 0x20 then ['\\', 'u'] ++ (Text.hex 4 c.toNat).toList
  else [c]

def quoted (s : String) : List Char := '"' :: s.toList.flatMap escaped ++ ['"']

namespace Token

/-- The shortest literal stands for a number that is no integer, and for a string that is no
text. -/
def spelling : Token → List Char
  | openArray => ['[']
  | closeArray => [']']
  | openObject => ['\x7b']
  | closeObject => ['\x7d']
  | comma => [',']
  | colon => [':']
  | null => ['n', 'u', 'l', 'l']
  | bool true => ['t', 'r', 'u', 'e']
  | bool false => ['f', 'a', 'l', 's', 'e']
  | number (some n) => (toString n).toList
  | number none => ['-', '0']
  | string (some s) => quoted s
  | string none => ['"', '\\', 'u', 'd', '8', '0', '0', '"']

end Token

mutual

def tokens : Json → List Token
  | null => [.null]
  | bool b => [.bool b]
  | number n => [.number n]
  | string s => [.string s]
  | array items => .openArray :: itemTokens items
  | object members => .openObject :: memberTokens members

/-- The items of an array up to the bracket that closes it. -/
def itemTokens : List Json → List Token
  | [] => [.closeArray]
  | v :: rest => tokens v ++ moreItems rest

def moreItems : List Json → List Token
  | [] => [.closeArray]
  | v :: rest => .comma :: tokens v ++ moreItems rest

/-- The members of an object up to the bracket that closes it. -/
def memberTokens : List (Option String × Json) → List Token
  | [] => [.closeObject]
  | (k, v) :: rest => .string k :: .colon :: tokens v ++ moreMembers rest

def moreMembers : List (Option String × Json) → List Token
  | [] => [.closeObject]
  | (k, v) :: rest => .comma :: .string k :: .colon :: tokens v ++ moreMembers rest

end

/-- The document that holds `v`, without blanks. -/
def write (v : Json) : String := String.ofList (v.tokens.flatMap Token.spelling)

end Postmortem.Json
