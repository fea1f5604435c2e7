import Postmortem.CallStack.Basic

/-!
# Histories of a call stack

Guards handed out one by one and given up in any order: dropped, which ends their call, or
forgotten, which leaves it open.

* `History.finish` drops the guards that are left, newest first.
-/

namespace Postmortem

structure History where
  stack : CallStack := {}
  /-- By number, in the order they were handed out; `none` once given up. -/
  guards : List (Option Guard) := []
  deriving DecidableEq, Repr

namespace History

inductive Step where
  | push (c : Call)
  | drop (guard : Nat)
  | forget (guard : Nat)
  deriving DecidableEq, Repr

/-- The guard of this number, while it is held. -/
def held? (h : History) (n : Nat) : Option Guard := (h.guards[n]?).join

def push (h : History) (c : Call) : History :=
  ⟨h.stack.push c, h.guards ++ [some (h.stack.guard c)]⟩

def forget (h : History) (n : Nat) : History := { h with guards := h.guards.set n none }

def drop (h : History) (n : Nat) : History :=
  match h.held? n with
  | some g => { h.forget n with stack := h.stack.drop g }
  | none => h

def step (h : History) : Step → History
  | .push c => h.push c
  | .drop n => h.drop n
  | .forget n => h.forget n

/-- The history with every guard dropped. -/
def finish (h : History) : History := (List.range h.guards.length).reverse.foldl drop h

end History

end Postmortem
