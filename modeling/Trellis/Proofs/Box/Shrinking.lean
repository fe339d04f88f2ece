import Mathlib.Algebra.Order.Group.Int
import Trellis.Box.Shrink
import Trellis.Proofs.Totals

/-!
# A shortfall is taken up exactly

Children give way in ascending order of slack. The invariant of the walk is that the slack of those
still to come covers what is still short: a child that gives all its slack takes as much off both,
and one that has slack to spare comes before children with at least as much of it.

* `Gives`: what every child is granted lies between its floor and its length.
* `sum_shrink`: together the children give exactly what is short.
-/
namespace Trellis.Box

theorem ceilDiv_eq_ok {n d q : Int} (hn : 0 < n) (hd : 0 < d) (h : ceilDiv n d = .ok q) :
    n ≤ d * q ∧ d * q < n + d ∧ 0 < q ∧ q ≤ n := by
  unfold ceilDiv at h
  obtain ⟨sum, hsum, h⟩ := Length.bind_eq_ok.1 h
  obtain ⟨padded, hpadded, h⟩ := Length.bind_eq_ok.1 h
  cases h
  rw [(Length.sub_eq_ok.1 hpadded).1, (Length.add_eq_ok.1 hsum).1,
    Int.tdiv_eq_ediv_of_nonneg (by omega)]
  have hle := Int.mul_ediv_self_le (x := n + d - 1) (k := d) (by omega)
  have hlt := Int.lt_mul_ediv_self_add (x := n + d - 1) hd
  have hpos : 0 < (n + d - 1) / d := by
    by_contra hcon
    have := Int.mul_le_mul_of_nonneg_left (show (n + d - 1) / d ≤ 0 by omega) (Int.le_of_lt hd)
    omega
  refine ⟨by omega, by omega, hpos, ?_⟩
  have := Int.mul_le_mul_of_nonneg_right (show 1 ≤ d by omega)
    (show 0 ≤ (n + d - 1) / d - 1 by omega)
  rw [Int.mul_sub d] at this
  omega

namespace Shrinkable

/-- What the child can give. -/
def room (s : Shrinkable) : Int := s.length - s.floor

theorem slack_eq_ok {s : Shrinkable} {n : Int} (h : s.slack = .ok n) : n = s.room :=
  (Length.sub_eq_ok.1 h).1

/-- The child at the grant's position gives way, but not below its floor. -/
structure Gives (s : Shrinkable) (g : Grant) : Prop where
  index : g.index = s.index
  floor : s.floor ≤ g.length
  length : g.length ≤ s.length

end Shrinkable

open Shrinkable (Gives room)

variable {short : Int} {s : Shrinkable} {rest children ordered : List Shrinkable}
  {grants : List Grant}

/-- One step of the walk: the child gives the smaller of its part and its slack. -/
theorem shrink_cons_eq_ok (hshort : 0 < short)
    (h : shrink short (s :: rest) = .ok grants) :
    ∃ part others, short ≤ (rest.length + 1) * part ∧
      (rest.length + 1) * part < short + (rest.length + 1) ∧ 0 < part ∧ part ≤ short ∧
      shrink (short - min part s.room) rest = .ok others ∧
      grants = s.grant (s.length - min part s.room) :: others := by
  unfold shrink at h
  rw [if_neg (by omega)] at h
  obtain ⟨part, hpart, h⟩ := Length.bind_eq_ok.1 h
  obtain ⟨cut, hcut, h⟩ := Length.bind_eq_ok.1 h
  obtain ⟨given, hgiven, h⟩ := Length.bind_eq_ok.1 h
  obtain ⟨left, hleft, h⟩ := Length.bind_eq_ok.1 h
  obtain ⟨others, hothers, h⟩ := Length.bind_eq_ok.1 h
  cases h
  obtain ⟨hge, hlt, hpos, hle⟩ := ceilDiv_eq_ok hshort (by omega) hpart
  have hcut' := (Length.sub_eq_ok.1 hcut).1
  have hgiven' := (Length.sub_eq_ok.1 hgiven).1
  have hleft' := (Length.sub_eq_ok.1 hleft).1
  have hlength : max cut s.floor = s.length - min part s.room := by
    unfold room; omega
  refine ⟨part, others, hge, hlt, hpos, hle, ?_, by rw [hlength]⟩
  rwa [show short - min part s.room = left by omega]

theorem gives_shrink (hroom : ∀ s ∈ children, 0 ≤ s.room) (h : shrink short children = .ok grants) :
    List.Forall₂ Gives children grants := by
  induction children generalizing short grants with
  | nil =>
    cases h
    exact .nil
  | cons s rest ih =>
    have hs := hroom s (by simp)
    by_cases hshort : short ≤ 0
    · rw [shrink, if_pos hshort] at h
      cases h
      rw [List.forall₂_map_right_iff, List.forall₂_same]
      intro t ht
      have := hroom t ht
      exact ⟨rfl, by unfold room at this; show t.floor ≤ t.length; omega, Int.le_refl _⟩
    · obtain ⟨part, others, -, -, hpos, -, hrest, rfl⟩ := shrink_cons_eq_ok (by omega) h
      refine .cons ⟨rfl, ?_, ?_⟩ (ih (fun t ht => hroom t (by simp [ht])) hrest)
      · show s.floor ≤ s.length - min part s.room
        unfold room; omega
      · show s.length - min part s.room ≤ s.length
        omega

theorem index_of_gives (h : List.Forall₂ Gives children grants) :
    grants.map Grant.index = children.map Shrinkable.index :=
  Length.map_of_forall₂ (fun _ _ hgives => hgives.index) h

/-- In ascending order of slack, children whose slack covers what is short give exactly that. -/
theorem sum_shrink (hroom : ∀ s ∈ children, 0 ≤ s.room)
    (hsorted : children.Pairwise fun s t => s.room ≤ t.room) (hshort : 0 ≤ short)
    (hcover : short ≤ (children.map room).sum) (h : shrink short children = .ok grants) :
    (grants.map Grant.length).sum = (children.map Shrinkable.length).sum - short := by
  induction children generalizing short grants with
  | nil =>
    cases h
    simp only [List.map_nil, List.sum_nil] at hcover ⊢
    omega
  | cons s rest ih =>
    have hs := hroom s (by simp)
    obtain ⟨hfirst, hsorted'⟩ := List.pairwise_cons.1 hsorted
    rw [List.map_cons, List.sum_cons] at hcover
    by_cases h0 : short = 0
    · rw [shrink, if_pos (by omega)] at h
      cases h
      rw [List.map_map, h0, Int.sub_zero]
      rfl
    · obtain ⟨part, others, hpart, -, hpos, hle, hrest, rfl⟩ := shrink_cons_eq_ok (by omega) h
      have hcover' : short - min part s.room ≤ (rest.map room).sum := by
        by_cases hall : s.room ≤ part
        · omega
        · -- everyone after `s` could take a whole part
          have hparts := (rest.map room).card_nsmul_le_sum part (List.forall_mem_map.2 fun t ht =>
            Int.le_trans (show part ≤ s.room by omega) (hfirst t ht))
          rw [List.length_map, nsmul_eq_mul] at hparts
          rw [Int.add_mul] at hpart
          omega
      have := ih (fun t ht => hroom t (by simp [ht])) hsorted' (by omega) hcover' hrest
      simp only [List.map_cons, List.sum_cons, Shrinkable.grant]
      omega

theorem zip_slacks {slacks : List Int} (h : children.mapM Shrinkable.slack = .ok slacks) :
    slacks.zip children = children.map fun s => (s.room, s) := by
  induction Length.mapM_eq_ok.1 h with
  | nil => rfl
  | cons hx _ ih =>
    obtain ⟨_, _, hy, hz, heq⟩ := Length.mapM_cons_eq_ok.1 h
    cases heq
    rw [List.zip_cons_cons, List.map_cons, Shrinkable.slack_eq_ok hx, ih hz]

/-- Children give way in the stable order of their slack. -/
theorem bySlack_eq_ok (h : bySlack children = .ok ordered) :
    ordered = children.mergeSort fun s t => s.room ≤ t.room := by
  obtain ⟨slacks, hslacks, hsort⟩ := Length.bind_eq_ok.1 h
  simp only [pure, Except.pure, Except.ok.injEq] at hsort
  have hsorted := List.map_mergeSort (f := fun s : Shrinkable => (s.room, s)) (l := children)
    (r := fun s t => s.room ≤ t.room) (s := fun a b => a.1 ≤ b.1) fun _ _ _ _ => rfl
  rw [← hsort, zip_slacks hslacks, ← hsorted, List.map_map]
  exact List.map_id _

theorem perm_bySlack (h : bySlack children = .ok ordered) : ordered.Perm children :=
  bySlack_eq_ok h ▸ List.mergeSort_perm _ _

theorem pairwise_bySlack (h : bySlack children = .ok ordered) :
    ordered.Pairwise fun s t => s.room ≤ t.room := by
  rw [bySlack_eq_ok h]
  refine (List.pairwise_mergeSort ?_ ?_ children).imp fun hle => by simpa using hle
  · intro a b c hab hbc
    simp only [decide_eq_true_eq] at hab hbc ⊢
    omega
  · intro a b
    simp only [Bool.or_eq_true, decide_eq_true_eq]
    omega

end Trellis.Box
