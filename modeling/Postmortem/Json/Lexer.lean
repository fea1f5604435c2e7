import Postmortem.Json.Token
import Postmortem.Text.Decimal

/-!
# Reading JSON tokens

A machine that takes a document one character at a time, from the left. It refuses a character
that no token can hold there; two tokens in a row that do not belong together are left to the
reader of values.

* `Json.lex` gives the tokens of a document.
-/

namespace Postmortem.Json

/-- Where an escape in a string stands. -/
inductive Escape where
  | outside
  | begun
  /-- Hexadecimal digits still owed, and the value of those read. -/
  | unicode (owed value : Nat)
  deriving DecidableEq, Repr

/-- A string that has been opened. -/
structure Quoted where
  /-- The characters so far, newest first. -/
  chars : List Char
  /-- The leading half of a surrogate pair, if the last escape was one. -/
  leading : Option Nat
  /-- Half of a surrogate pair has stood alone. -/
  lone : Bool
  escape : Escape
  deriving DecidableEq, Repr

namespace Quoted

def opened : Quoted := ⟨[], none, false, .outside⟩

def push (q : Quoted) (c : Char) : Quoted :=
  ⟨c :: q.chars, none, q.lone || q.leading.isSome, .outside⟩

def isLeading (u : Nat) : Bool := 0xD800 ≤ u && u < 0xDC00

def isTrailing (u : Nat) : Bool := 0xDC00 ≤ u && u < 0xE000

/-- Adds an escaped unit of sixteen bits. Two halves of a pair that follow each other are one
character. -/
def pushUnit (q : Quoted) (u : Nat) : Quoted :=
  if isTrailing u then
    match q.leading with
    | some h =>
      { q.push (Char.ofNat (0x10000 + (h - 0xD800) * 0x400 + (u - 0xDC00))) with lone := q.lone }
    | none => { q with lone := true, escape := .outside }
  else if isLeading u then
    { q with leading := some u, lone := q.lone || q.leading.isSome, escape := .outside }
  else q.push (Char.ofNat u)

def hexDigit? (c : Char) : Option Nat :=
  if '0' ≤ c ∧ c ≤ '9' then some (c.toNat - 48)
  else if 'a' ≤ c ∧ c ≤ 'f' then some (c.toNat - 87)
  else if 'A' ≤ c ∧ c ≤ 'F' then some (c.toNat - 55)
  else none

/-- The character after a backslash. -/
def unescape (q : Quoted) : Char → Option Quoted
  | '"' => some (q.push '"')
  | '\\' => some (q.push '\\')
  | '/' => some (q.push '/')
  | 'b' => some (q.push '\x08')
  | 'f' => some (q.push '\x0c')
  | 'n' => some (q.push '\n')
  | 'r' => some (q.push '\r')
  | 't' => some (q.push '\t')
  | 'u' => some { q with escape := .unicode 4 0 }
  | _ => none

/-- One character that does not close the string. -/
def step (q : Quoted) (c : Char) : Option Quoted :=
  match q.escape with
  | .outside =>
    if c = '\\' then some { q with escape := .begun }
    else if c.toNat < 0x20 then none
    else some (q.push c)
  | .begun => q.unescape c
  | .unicode owed value => do
    let value := 16 * value + (← hexDigit? c)
    return if owed ≤ 1 then q.pushUnit value else { q with escape := .unicode (owed - 1) value }

def text? (q : Quoted) : Option String :=
  if q.lone || q.leading.isSome then none else some (String.ofList q.chars.reverse)

end Quoted

/-- The part of a numeral that was read last. -/
inductive Stage where
  | minus
  | zero
  | whole
  | point
  | fraction
  | power
  | powerSign
  | exponent
  deriving DecidableEq, Repr

structure Numeral where
  stage : Stage
  negative : Bool
  /-- The value of the digits before a point. -/
  value : Nat
  deriving DecidableEq, Repr

namespace Numeral

def begin? (c : Char) : Option Numeral :=
  if c = '-' then some ⟨.minus, true, 0⟩
  else if c = '0' then some ⟨.zero, false, 0⟩
  else (Text.digit? c).map fun d => ⟨.whole, false, d⟩

/-- The numeral with one more character, or `none` if the character is not part of it. -/
def step (n : Numeral) (c : Char) : Option Numeral :=
  let mark : Option Numeral :=
    if c = '.' then some { n with stage := .point }
    else if c = 'e' ∨ c = 'E' then some { n with stage := .power }
    else none
  match n.stage, Text.digit? c with
  | .minus, some d => some { n with stage := if d = 0 then .zero else .whole, value := d }
  | .whole, some d => some { n with value := 10 * n.value + d }
  | .zero, none | .whole, none => mark
  | .point, some _ | .fraction, some _ => some { n with stage := .fraction }
  | .fraction, none => if c = 'e' ∨ c = 'E' then some { n with stage := .power } else none
  | .power, none => if c = '+' ∨ c = '-' then some { n with stage := .powerSign } else none
  | .power, some _ | .powerSign, some _ | .exponent, some _ => some { n with stage := .exponent }
  | _, _ => none

/-- The token of a numeral that may end here. -/
def token? (n : Numeral) : Option Token :=
  match n.stage with
  | .zero => some (.number (if n.negative then none else some 0))
  | .whole => some (.number (some (if n.negative then -(n.value : Int) else n.value)))
  | .fraction | .exponent => some (.number none)
  | _ => none

end Numeral

inductive Mode where
  | between
  /-- The letters still owed of a word that spells a token. -/
  | word (owed : List Char) (token : Token)
  | string (q : Quoted)
  | numeral (n : Numeral)

structure Lexer where
  mode : Mode
  /-- The tokens so far, newest first. -/
  done : List Token

namespace Lexer

def start : Lexer := ⟨.between, []⟩

def emit (done : List Token) (t : Token) : Lexer := ⟨.between, t :: done⟩

/-- A character between tokens. -/
def begin (done : List Token) (c : Char) : Option Lexer :=
  match c with
  | ' ' | '\t' | '\n' | '\r' => some ⟨.between, done⟩
  | '[' => some (emit done .openArray)
  | ']' => some (emit done .closeArray)
  | '\x7b' => some (emit done .openObject)
  | '\x7d' => some (emit done .closeObject)
  | ',' => some (emit done .comma)
  | ':' => some (emit done .colon)
  | '"' => some ⟨.string .opened, done⟩
  | 'n' => some ⟨.word ['u', 'l', 'l'] .null, done⟩
  | 't' => some ⟨.word ['r', 'u', 'e'] (.bool true), done⟩
  | 'f' => some ⟨.word ['a', 'l', 's', 'e'] (.bool false), done⟩
  | c => (Numeral.begin? c).map fun n => ⟨.numeral n, done⟩

def step (l : Lexer) (c : Char) : Option Lexer :=
  match l.mode with
  | .between => begin l.done c
  | .word [] token => begin (token :: l.done) c
  | .word [d] token => if c = d then some (emit l.done token) else none
  | .word (d :: owed) token => if c = d then some ⟨.word owed token, l.done⟩ else none
  | .string q =>
    if q.escape = .outside ∧ c = '"' then some (emit l.done (.string q.text?))
    else (q.step c).map fun q => ⟨.string q, l.done⟩
  | .numeral n =>
    match n.step c with
    | some n => some ⟨.numeral n, l.done⟩
    | none => do begin ((← n.token?) :: l.done) c

/-- The tokens, if the document may end here. -/
def finish (l : Lexer) : Option (List Token) :=
  match l.mode with
  | .between => some l.done.reverse
  | .numeral n => do return ((← n.token?) :: l.done).reverse
  | _ => none

end Lexer

def lex (cs : List Char) : Option (List Token) := do (← cs.foldlM Lexer.step .start).finish

end Postmortem.Json
