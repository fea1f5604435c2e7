import Postmortem.FileTree
import Postmortem.Machine
import Postmortem.Settings.Basic

/-!
# Hosts

What a host has that diagnostics look at: live views of its machines, which it may number as it
likes, its files and its environment. Two views may be of one machine.
-/

namespace Postmortem

structure Host where
  machine : Nat → Machine
  files : FileTree := {}
  environment : Environment := {}

namespace Host

def setMachine (h : Host) (view : Nat) (m : Machine) : Host :=
  { h with machine := fun n => if n = view then m else h.machine n }

end Host

end Postmortem
