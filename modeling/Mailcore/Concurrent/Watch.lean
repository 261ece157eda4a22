import Mathlib.Logic.Basic

/-!
# Watch channels

A watch channel holds one value and a version that every send raises.  A
receiver remembers the version it saw last: `changed` resolves when the channel
has moved on, and only the newest value can be read then.  What was sent in
between is gone.
-/

namespace Mailcore
namespace Concurrent

/-- A watch channel. -/
structure Watch (α : Type) where
  /-- The value sent last. -/
  value : α
  /-- The number of sends. -/
  version : Nat := 0
  /-- The sender is gone. -/
  closed : Bool := false
  deriving DecidableEq

/-- What waiting for a change gives a receiver. -/
inductive Change
  | pending
  | fresh
  | gone
  deriving DecidableEq

namespace Watch

variable {α : Type}

/-- Change the value in place and tell every receiver. -/
def sendModify (channel : Watch α) (change : α → α) : Watch α :=
  { channel with
    value := change channel.value
    version := channel.version + 1 }

/-- The sender goes away. -/
def close (channel : Watch α) : Watch α :=
  { channel with closed := true }

/-- What waiting for a change gives a receiver that saw version `seen`.  An
unseen send comes before the end of the channel. -/
def changed (channel : Watch α) (seen : Nat) : Change :=
  if seen ≠ channel.version then .fresh
  else if channel.closed then .gone
  else .pending

@[simp] theorem sendModify_value (channel : Watch α) (change : α → α) :
    (channel.sendModify change).value = change channel.value := rfl

@[simp] theorem sendModify_version (channel : Watch α) (change : α → α) :
    (channel.sendModify change).version = channel.version + 1 := rfl

@[simp] theorem close_value (channel : Watch α) :
    channel.close.value = channel.value := rfl

@[simp] theorem close_version (channel : Watch α) :
    channel.close.version = channel.version := rfl

theorem changed_of_unseen {channel : Watch α} {seen : Nat}
    (unseen : seen ≠ channel.version) : channel.changed seen = .fresh := by
  simp [changed, unseen]

end Watch
end Concurrent
end Mailcore
