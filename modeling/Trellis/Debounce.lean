/-!
# Gathering repeated requests

Requests that follow one another within a window count as one: every request pushes the deadline
back, and the request is served once its deadline has come. Times are milliseconds that the caller
reads off its own clock.

* `takeDue_request`: a request is not due before its window has passed, and due from then on.
-/
namespace Trellis

structure Debounce where
  window : Nat
  /-- When the request that is waiting is to be served. -/
  deadline : Option Nat
  deriving DecidableEq, Repr

namespace Debounce

def idle (window : Nat) : Debounce := ⟨window, none⟩

def request (d : Debounce) (now : Nat) : Debounce := { d with deadline := some (now + d.window) }

def isPending (d : Debounce) : Bool := d.deadline.isSome

def isDue (d : Debounce) (now : Nat) : Bool :=
  match d.deadline with
  | some deadline => deadline ≤ now
  | none => false

def cancel (d : Debounce) : Debounce := { d with deadline := none }

/-- Whether the waiting request is due, and what is left to wait for. -/
def takeDue (d : Debounce) (now : Nat) : Bool × Debounce :=
  if d.isDue now then (true, d.cancel) else (false, d)

theorem takeDue_request (d : Debounce) (start now : Nat) :
    ((d.request start).takeDue now).1 = decide (start + d.window ≤ now) := by
  unfold takeDue isDue request
  by_cases h : start + d.window ≤ now <;> simp [h]

end Debounce

end Trellis
