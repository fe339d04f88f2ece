import Trellis.Box.Flex

/-!
# Taking up a shortfall

When children do not all fit but their least lengths do, those with a length of their own give way.
They are visited from the one with the least slack to the one with the most, in source order among
equals; each takes an even part of what is still short, rounded up, but no more than its slack.
Those visited later make up for what the earlier ones could not give.

* `length_shrink`: every child that is visited is granted a length.
-/
namespace Trellis.Box

/-- A child that can give way: its length now and the least it can have. -/
structure Shrinkable where
  index : Nat
  length : Int
  floor : Int
  deriving DecidableEq, Repr

namespace Shrinkable

def slack (s : Shrinkable) : Checked Int := Length.sub s.length s.floor

def grant (length : Int) (s : Shrinkable) : Grant := ⟨s.index, length⟩

end Shrinkable

/-- `n / d` rounded up, for positive `d`. -/
def ceilDiv (n d : Int) : Checked Int := do
  let padded ← Length.sub (← Length.add n d) 1
  return padded.tdiv d

/-- The lengths granted when the children, visited in this order, take up `short` together. -/
def shrink (short : Int) : List Shrinkable → Checked (List Grant)
  | [] => .ok []
  | s :: rest =>
    if short ≤ 0 then .ok ((s :: rest).map fun s => s.grant s.length)
    else do
      let part ← ceilDiv short (rest.length + 1)
      let length := max (← Length.sub s.length part) s.floor
      let given ← Length.sub s.length length
      let left ← Length.sub short given
      return s.grant length :: (← shrink left rest)

/-- The children in the order in which they give way. -/
def bySlack (children : List Shrinkable) : Checked (List Shrinkable) := do
  let slacks ← children.mapM Shrinkable.slack
  return ((slacks.zip children).mergeSort fun a b => a.1 ≤ b.1).map Prod.snd

theorem length_shrink {short : Int} {children : List Shrinkable} {grants : List Grant}
    (h : shrink short children = .ok grants) : grants.length = children.length := by
  induction children generalizing short grants with
  | nil => simp_all [shrink]
  | cons s rest ih =>
    unfold shrink at h
    split at h
    · cases h; simp
    · simp only [Length.bind_eq_ok] at h
      obtain ⟨_, _, _, _, _, _, _, _, grants', hrest, h⟩ := h
      cases h
      simp [ih hrest]

end Trellis.Box
