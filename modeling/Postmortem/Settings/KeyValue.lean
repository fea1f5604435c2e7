import Postmortem.Settings.Basic
import Postmortem.Text.Decimal

/-!
# Settings as text

Settings in lines of the form `key value`. A line that is blank or starts with `#` says nothing,
a key without a value has the empty one, and of two lines with one key the later counts.

* `KeyValue.parse` reads such a text, `KeyValue.get` looks up a value of a given type.
* `KeyValue.settings` keeps the default of every key that is missing or malformed.
-/

namespace Postmortem

structure KeyValue where
  /-- Newest first. -/
  entries : List (String × String) := []
  deriving DecidableEq, Repr

namespace KeyValue

def insert (kv : KeyValue) (key value : String) : KeyValue := ⟨(key, value) :: kv.entries⟩

def raw? (kv : KeyValue) (key : String) : Option String := kv.entries.lookup key

/-- The key and the value in a line. -/
def entry? (line : List Char) : Option (String × String) :=
  match Text.trim line with
  | [] => none
  | '#' :: _ => none
  | cs =>
    let (key, value) := Text.splitFirst cs
    some (String.ofList key, String.ofList (Text.trim value))

def addLine (kv : KeyValue) (line : List Char) : KeyValue :=
  match entry? line with
  | some (key, value) => kv.insert key value
  | none => kv

def parse (text : String) : KeyValue :=
  (text.toList.splitOn '\n').foldl addLine {}

/-- Types whose values can be read from a setting. -/
class Value (α : Type) where
  /-- Reads a value that has been trimmed. -/
  read? : List Char → Option α

def flag? (cs : List Char) : Option Bool :=
  let word := String.ofList (cs.map Char.toLower)
  if word ∈ ["1", "true", "yes", "on"] then some true
  else if word ∈ ["0", "false", "no", "off"] then some false
  else none

def natIn? (high : Nat) (cs : List Char) : Option Nat :=
  (Text.unsigned? cs).filter (· ≤ high)

def intIn? (low high : Int) (cs : List Char) : Option Int :=
  (Text.signed? cs).filter fun n => low ≤ n ∧ n ≤ high

instance : Value Bool := ⟨flag?⟩

instance : Value String := ⟨fun cs => some (String.ofList cs)⟩

instance : Value Int32 := ⟨fun cs => (intIn? (-2147483648) 2147483647 cs).map Int32.ofInt⟩

instance : Value Int64 :=
  ⟨fun cs => (intIn? (-9223372036854775808) 9223372036854775807 cs).map Int64.ofInt⟩

instance : Value UInt32 := ⟨fun cs => (natIn? 4294967295 cs).map UInt32.ofNat⟩

instance : Value UInt64 := ⟨fun cs => (natIn? 18446744073709551615 cs).map UInt64.ofNat⟩

def get {α : Type} [Value α] (kv : KeyValue) (key : String) (default : α) : α :=
  ((kv.raw? key).bind fun v => Value.read? (Text.trim v.toList)).getD default

def searchDirs (kv : KeyValue) (default : List Path) : List Path :=
  match kv.raw? "search_dirs" with
  | some v => (Text.words v.toList).map String.ofList
  | none => default

/-- An empty value and the words `none` and `off` say that no index detaches. -/
def detachIndex (kv : KeyValue) (default : Option Int32) : Option Int32 :=
  match kv.raw? "detach_sentinel_index" with
  | none => default
  | some v =>
    let word := Text.trim v.toList
    if String.ofList word ∈ ["", "none", "off"] then none
    else (Value.read? word : Option Int32).or default

def settings (kv : KeyValue) : Settings :=
  let d : Settings := {}
  { dieOnError := kv.get "die_on_error" d.dieOnError
    runOnError := kv.get "run_on_error" d.runOnError
    searchDirs := kv.searchDirs d.searchDirs
    pathVariable := kv.get "script_path_env" d.pathVariable
    detachIndex := kv.detachIndex d.detachIndex
    marker := kv.get "log_prefix" d.marker }

end KeyValue

end Postmortem
