import Trellis.Length

/-!
# Notices about degraded settings

A setting that cannot be used as written falls back to a default, and a notice says so. A layout
runs on every resize, so the ledger of a session logs each notice once.

* `log_log`: noting the same thing again logs nothing.
* `Noted α`: a value together with the notices that reading it gave, in the order given.
* `Draft α`: the same for a computation that may be abandoned.
-/
namespace Trellis

/-- A remark about a setting, under the name of the part that read it. -/
structure Notice where
  topic : String
  message : String
  deriving DecidableEq, Repr

namespace Notice

/-- The line that is logged. -/
def text (n : Notice) : String := s!"[{n.topic}] {n.message}"

end Notice

/-- The lines logged so far, each one once, oldest first. -/
structure Ledger where
  lines : List String
  deriving DecidableEq, Repr

namespace Ledger

def empty : Ledger := ⟨[]⟩

/-- Whether `n` would say something new. -/
def isNews (l : Ledger) (n : Notice) : Bool := !l.lines.contains n.text

/-- Log `n` unless its line has been logged. -/
def log (l : Ledger) (n : Notice) : Ledger := if l.isNews n then ⟨l.lines ++ [n.text]⟩ else l

def logAll (l : Ledger) (ns : List Notice) : Ledger := ns.foldl log l

/-- The lines of `l` that were logged after `earlier`. -/
def since (l earlier : Ledger) : List String := l.lines.drop earlier.lines.length

theorem isNews_log (l : Ledger) (n : Notice) : (l.log n).isNews n = false := by
  unfold log
  split
  · simp [isNews]
  · next h => simpa using h

theorem log_log (l : Ledger) (n : Notice) : (l.log n).log n = l.log n := by
  rw [log, isNews_log]; rfl

end Ledger

/-- A value and the notices given while it was read. -/
structure Noted (α : Type) where
  value : α
  notices : List Notice
  deriving Repr

namespace Noted

instance : Monad Noted where
  pure a := ⟨a, []⟩
  bind x f := ⟨(f x.value).value, x.notices ++ (f x.value).notices⟩

/-- `value`, with one remark. -/
def remark {α : Type} (value : α) (n : Notice) : Noted α := ⟨value, [n]⟩

@[simp] theorem value_pure {α : Type} (a : α) : (pure a : Noted α).value = a := rfl

@[simp] theorem value_bind {α β : Type} (x : Noted α) (f : α → Noted β) :
    (x >>= f).value = (f x.value).value := rfl

@[simp] theorem notices_pure {α : Type} (a : α) : (pure a : Noted α).notices = [] := rfl

@[simp] theorem notices_bind {α β : Type} (x : Noted α) (f : α → Noted β) :
    (x >>= f).notices = x.notices ++ (f x.value).notices := rfl

instance : LawfulMonad Noted :=
  LawfulMonad.mk' Noted (fun x => by cases x; simp [Functor.map]) (fun a f => by simp [pure, bind])
    (fun x f g => by simp [bind, List.append_assoc])

end Noted

/-- A computation that gives notices and may be abandoned. -/
abbrev Draft := ExceptT Fault Noted

namespace Draft

instance : MonadLift Checked Draft where
  monadLift x := ExceptT.mk (pure x)

/-- `value`, with one remark. -/
def remark {α : Type} (value : α) (n : Notice) : Draft α := ExceptT.mk (.remark (.ok value) n)

end Draft

end Trellis
