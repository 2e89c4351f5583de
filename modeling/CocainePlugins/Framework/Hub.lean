import CocainePlugins.Framework.Text
import CocainePlugins.Framework.Word

/-!
# Counters by name

A hub has the unsigned 64-bit counters of a process by their names, so whoever asks for a name
counts with the others of that name. What the hub does with a counter when nobody points to it any
more is not known here: with `keeps` whoever asks next finds it as it was, otherwise it starts
from zero.
-/

namespace Cocaine.Framework

abbrev Hub := Str → Nat

namespace Hub

def store (hub : Hub) (name : Str) (value : Nat) : Hub :=
  fun n => if n = name then value else hub n

def fetchAdd (hub : Hub) (name : Str) (n : Nat) : Hub := hub.store name (u64 (hub name + n))

/-- Somebody points to the counter from now on. -/
def counter (keeps : Bool) (hub : Hub) (name : Str) : Hub :=
  if keeps then hub else hub.store name 0

variable {hub : Hub} {name n : Str} {value : Nat}

theorem store_self : (hub.store name value) name = value := if_pos rfl

theorem store_of_ne (h : n ≠ name) : (hub.store name value) n = hub n := if_neg h

theorem counter_of_ne {keeps : Bool} (h : n ≠ name) : (hub.counter keeps name) n = hub n := by
  unfold counter
  split
  · rfl
  · exact store_of_ne h

end Hub

end Cocaine.Framework
