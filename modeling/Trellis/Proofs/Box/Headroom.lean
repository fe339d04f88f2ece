import Mathlib.Tactic.Ring
import Trellis.Proofs.Box.Evenness

/-!
# Lines with headroom never overflow

A line is abandoned if a sum leaves the range of lengths. Each sum that a line forms is made of at
most three lengths for each child, its own length and the margins on both sides, and of two more for
the space. So where no length is greater than `most`, and that many of them still make a length,
every line of children is laid out. Sharing has to be followed round by round: what is open is never
more than the pool, and no offer is more than that (`shareOut_ok`).

* `Length.foldlM_checked`, `Length.total_ok`: a running sum of terms that are all small enough.
* `shrink_ok`, `shareOut_ok`: a shortfall is taken up, and leftover space shared.
* `mains_ok`: every child is given a main length that is no greater than `most`.
* `solve_ok`: the line is laid out.
-/
namespace Trellis

/-! ## Sums in range -/

namespace Length

/-- Neither negative nor more than `most`. -/
def UpTo (most n : Int) : Prop := 0 ≤ n ∧ n ≤ most

instance (most n : Int) : Decidable (UpTo most n) := inferInstanceAs (Decidable (_ ∧ _))

theorem UpTo.abs {most n : Int} (h : UpTo most n) : -most ≤ n ∧ n ≤ most := by
  unfold UpTo at h
  omega

theorem fits_of_le {x : Int} (hlow : -greatest ≤ x) (hhigh : x ≤ greatest) : Fits x := by
  unfold Fits least
  unfold greatest at *
  omega

theorem checked_ok {x : Int} (hlow : -greatest ≤ x) (hhigh : x ≤ greatest) : checked x = .ok x :=
  checked_eq_ok.2 ⟨rfl, fits_of_le hlow hhigh⟩

theorem add_ok {a b : Int} (hlow : -greatest ≤ a + b) (hhigh : a + b ≤ greatest) :
    add a b = .ok (a + b) :=
  checked_ok hlow hhigh

theorem sub_ok {a b : Int} (hlow : -greatest ≤ a - b) (hhigh : a - b ≤ greatest) :
    sub a b = .ok (a - b) :=
  checked_ok hlow hhigh

variable {α : Type} {f : α → Checked Int} {g : α → Int} {xs : List α} {most start : Int}

/-- A running sum succeeds if it stays in range even with the greatest terms. -/
theorem foldlM_checked (hg : ∀ x ∈ xs, -most ≤ g x ∧ g x ≤ most)
    (hlow : -greatest ≤ start - xs.length * most) (hhigh : start + xs.length * most ≤ greatest) :
    xs.foldlM (fun acc x => checked (acc + g x)) start = .ok (start + (xs.map g).sum) := by
  induction xs generalizing start with
  | nil => simp [pure, Except.pure]
  | cons x xs ih =>
    obtain ⟨hge, hle⟩ := hg x (by simp)
    have hrest := Int.mul_nonneg (Int.natCast_nonneg xs.length) (show 0 ≤ most by omega)
    rw [List.length_cons, Int.natCast_add, Int.natCast_one, Int.add_mul] at hlow hhigh
    rw [List.foldlM_cons, checked_ok (by omega) (by omega), ok_bind,
      ih (fun y hy => hg y (by simp [hy])) (by omega) (by omega), List.map_cons, List.sum_cons,
      Int.add_assoc]

/-- A total succeeds if as many of the greatest terms still add up to a length. -/
theorem total_ok {count : Nat} (hf : ∀ x ∈ xs, f x = .ok (g x))
    (hg : ∀ x ∈ xs, -most ≤ g x ∧ g x ≤ most) (hmost : 0 ≤ most) (hcount : xs.length ≤ count)
    (hfit : count * most ≤ greatest) : total f xs = .ok (xs.map g).sum := by
  have hlength : (xs.length : Int) * most ≤ count * most :=
    Int.mul_le_mul_of_nonneg_right (by omega) hmost
  have hsum : xs.foldlM (fun acc x => checked (acc + g x)) 0 = .ok (0 + (xs.map g).sum) :=
    foldlM_checked hg (by omega) (by omega)
  rw [Int.zero_add] at hsum
  rw [total, ← hsum]
  exact foldlM_congr (fun x hx acc => by rw [hf x hx]; rfl) 0

/-- The largest of several lengths. -/
theorem foldlM_max_ok {step : Int → α → Checked Int}
    (hstep : ∀ x ∈ xs, ∃ n, n ≤ most ∧ ∀ acc, step acc x = .ok (max acc n))
    (hstart : UpTo most start) : ∃ n, xs.foldlM step start = .ok n ∧ UpTo most n := by
  induction xs generalizing start with
  | nil => exact ⟨start, rfl, hstart⟩
  | cons x xs ih =>
    obtain ⟨n, hle, hx⟩ := hstep x (by simp)
    rw [List.foldlM_cons, hx]
    refine ih (fun y hy => hstep y (by simp [hy])) ⟨?_, Int.max_le.2 ⟨hstart.2, hle⟩⟩
    exact Int.le_trans hstart.1 (Int.le_max_left ..)

/-- A checked list succeeds if every element does. -/
theorem exists_mapM_ok {β : Type} {f : α → Checked β} (hf : ∀ x ∈ xs, ∃ y, f x = .ok y) :
    ∃ ys, xs.mapM f = .ok ys := by
  induction xs with
  | nil => exact ⟨[], rfl⟩
  | cons x xs ih =>
    obtain ⟨y, hy⟩ := hf x (by simp)
    obtain ⟨ys, hys⟩ := ih fun z hz => hf z (by simp [hz])
    exact ⟨y :: ys, mapM_cons_eq_ok.2 ⟨y, ys, hy, hys, rfl⟩⟩

theorem sum_upTo (hg : ∀ x ∈ xs, UpTo most (g x)) : UpTo (xs.length * most) (xs.map g).sum := by
  induction xs with
  | nil => simp [UpTo]
  | cons x xs ih =>
    obtain ⟨hlow, hhigh⟩ := hg x (by simp)
    obtain ⟨hlow', hhigh'⟩ := ih fun y hy => hg y (by simp [hy])
    rw [List.length_cons, Int.natCast_add, Int.natCast_one, Int.add_mul, List.map_cons,
      List.sum_cons]
    exact ⟨by omega, by omega⟩

end Length

open Length (UpTo)

/-! ## Lengths of a line -/

def Sides.lengths (s : Sides) : List Int := [s.top, s.right, s.bottom, s.left]

def Bounds.lengths (b : Bounds) : List Int := b.least?.toList ++ b.greatest?.toList

/-- All lengths that a child asks for. -/
def Box.Request.lengths {ω : Type} (r : Box.Request ω) : List Int :=
  r.width.toList ++ r.height.toList ++ [r.natural.width, r.natural.height] ++
    r.widthBounds.lengths ++ r.heightBounds.lengths ++ r.margins.lengths

/-- All lengths of the space for a line. -/
def Box.Space.lengths (s : Box.Space) : List Int :=
  [s.available.width, s.available.height] ++ s.padding.lengths

variable {most : Int}

theorem Bounds.upTo_constrain {b : Bounds} (hb : ∀ n ∈ b.lengths, UpTo most n) {n : Int}
    (hn : UpTo most n) : UpTo most (b.constrain n) := by
  unfold UpTo at *
  rcases b with ⟨_ | lo, _ | hi⟩ <;> simp [lengths, constrain] at hb ⊢ <;> omega

namespace Axis

variable {s : Sides}

/-- The four sides, each on its axis. -/
theorem upTo_sides (h : ∀ n ∈ s.lengths, UpTo most n) (a : Axis) :
    (UpTo most (a.mainStart s) ∧ UpTo most (a.mainEnd s)) ∧
      UpTo most (a.crossStart s) ∧ UpTo most (a.crossEnd s) := by
  simp only [Sides.lengths, List.forall_mem_cons] at h
  obtain ⟨htop, hright, hbottom, hleft, -⟩ := h
  cases a
  · exact ⟨⟨hleft, hright⟩, htop, hbottom⟩
  · exact ⟨⟨htop, hbottom⟩, hleft, hright⟩

theorem mainSides_ok (h : ∀ n ∈ s.lengths, UpTo most n) (hroom : 2 * most ≤ Length.greatest)
    (a : Axis) : a.mainSides s = .ok (a.mainStart s + a.mainEnd s) := by
  obtain ⟨⟨⟨_, _⟩, _, _⟩, -⟩ := upTo_sides h a
  have hpositive : 0 ≤ Length.greatest := by decide
  have hadd : Length.add (a.mainStart s) (a.mainEnd s) = .ok _ :=
    Length.add_ok (by omega) (by omega)
  cases a <;> exact hadd

theorem crossSides_ok (h : ∀ n ∈ s.lengths, UpTo most n) (hroom : 2 * most ≤ Length.greatest)
    (a : Axis) : a.crossSides s = .ok (a.crossStart s + a.crossEnd s) := by
  obtain ⟨-, ⟨_, _⟩, _, _⟩ := upTo_sides h a
  have hpositive : 0 ≤ Length.greatest := by decide
  have hadd : Length.add (a.crossStart s) (a.crossEnd s) = .ok _ :=
    Length.add_ok (by omega) (by omega)
  cases a <;> exact hadd

end Axis

namespace Box

variable {ω : Type}

namespace Request

variable {r : Request ω}

theorem nonneg_of_upTo (h : ∀ n ∈ r.lengths, UpTo most n) : r.Nonneg := by
  have hnonneg : ∀ n ∈ r.lengths, 0 ≤ n := fun n hn => (h n hn).1
  simp only [lengths, Bounds.lengths, Sides.lengths, List.forall_mem_append, Option.mem_toList,
    List.forall_mem_cons] at hnonneg
  obtain ⟨⟨⟨⟨⟨hw, hh⟩, hnw, hnh, -⟩, hwb⟩, hhb⟩, ht, hr, hb, hl, -⟩ := hnonneg
  exact ⟨hw, hh, hnw, hnh, ⟨hwb.1, hwb.2⟩, ⟨hhb.1, hhb.2⟩, ⟨ht, hr, hb, hl⟩⟩

theorem upTo_margins (h : ∀ n ∈ r.lengths, UpTo most n) : ∀ n ∈ r.margins.lengths, UpTo most n :=
  fun n hn => h n (List.mem_append_right _ hn)

theorem upTo_mainBounds (h : ∀ n ∈ r.lengths, UpTo most n) (a : Axis) :
    ∀ n ∈ (r.mainBounds a).lengths, UpTo most n := by
  intro n hn
  refine h n ?_
  cases a <;> simp_all [lengths, mainBounds]

theorem upTo_crossBounds (h : ∀ n ∈ r.lengths, UpTo most n) (a : Axis) :
    ∀ n ∈ (r.crossBounds a).lengths, UpTo most n := by
  intro n hn
  refine h n ?_
  cases a <;> simp_all [lengths, crossBounds]

/-- A length that is configured, or the natural one. -/
theorem upTo_resolvedMain (h : ∀ n ∈ r.lengths, UpTo most n) (a : Axis) :
    UpTo most (r.resolvedMain a) := by
  refine Bounds.upTo_constrain (upTo_mainBounds h a) (h _ ?_)
  cases a
  · cases hw : r.width <;> simp [lengths, mainSize, Axis.main, hw]
  · cases hh : r.height <;> simp [lengths, mainSize, Axis.main, hh]

theorem upTo_resolvedCross (h : ∀ n ∈ r.lengths, UpTo most n) (a : Axis) :
    UpTo most (r.resolvedCross a) := by
  refine Bounds.upTo_constrain (upTo_crossBounds h a) (h _ ?_)
  cases a
  · cases hh : r.height <;> simp [lengths, crossSize, Axis.cross, hh]
  · cases hw : r.width <;> simp [lengths, crossSize, Axis.cross, hw]

/-- A lower bound, or else a length that is known to be small enough. -/
theorem upTo_least (h : ∀ n ∈ r.lengths, UpTo most n) (a : Axis) {otherwise : Int}
    (hother : UpTo most otherwise) : UpTo most ((r.mainBounds a).least?.getD otherwise) := by
  cases hl : (r.mainBounds a).least? with
  | none => exact hother
  | some lo => exact upTo_mainBounds h a lo (by simp [Bounds.lengths, hl])

theorem upTo_zero (h : ∀ n ∈ r.lengths, UpTo most n) : UpTo most 0 := by
  have hnatural := h r.natural.width (by simp [lengths])
  exact ⟨Int.le_refl 0, Int.le_trans hnatural.1 hnatural.2⟩

theorem upTo_mainMargin (h : ∀ n ∈ r.lengths, UpTo most n) (a : Axis) :
    UpTo (2 * most) (r.mainMargin a) := by
  obtain ⟨⟨⟨_, _⟩, _, _⟩, -⟩ := Axis.upTo_sides (upTo_margins h) a
  exact ⟨by unfold mainMargin; omega, by unfold mainMargin; omega⟩

theorem mainSides_ok (h : ∀ n ∈ r.lengths, UpTo most n) (hroom : 2 * most ≤ Length.greatest)
    (a : Axis) : a.mainSides r.margins = .ok (r.mainMargin a) :=
  Axis.mainSides_ok (upTo_margins h) hroom a

/-- A main length with the margins, added up in either order. -/
theorem outer_ok (h : ∀ n ∈ r.lengths, UpTo most n) (hroom : 3 * most ≤ Length.greatest) (a : Axis)
    {n : Int} (hn : UpTo most n) :
    (do Length.add (← a.mainSides r.margins) n) = Except.ok (r.mainMargin a + n) ∧
      (do Length.add n (← a.mainSides r.margins)) = Except.ok (n + r.mainMargin a) ∧
      UpTo (3 * most) (r.mainMargin a + n) := by
  obtain ⟨_, _⟩ := upTo_mainMargin h a
  obtain ⟨_, _⟩ := hn
  have hpositive : 0 ≤ Length.greatest := by decide
  rw [mainSides_ok h (by omega) a]
  exact ⟨Length.add_ok (by omega) (by omega), Length.add_ok (by omega) (by omega), by omega,
    by omega⟩

variable [Weight ω]

theorem upTo_floorMain (h : ∀ n ∈ r.lengths, UpTo most n) (a : Axis) :
    UpTo most (r.floorMain a) := by
  refine upTo_least h a ?_
  split
  · exact upTo_zero h
  · exact upTo_resolvedMain h a

theorem upTo_desiredMain (h : ∀ n ∈ r.lengths, UpTo most n) (a : Axis) :
    UpTo most (r.desiredMain a) := by
  unfold desiredMain
  split
  · exact upTo_least h a (upTo_zero h)
  · exact upTo_resolvedMain h a

end Request

/-! ## The totals -/

section

variable {space : Space}

/-- The space between the paddings. -/
theorem innerMain_ok (h : ∀ n ∈ space.lengths, UpTo most n) (hroom : 2 * most ≤ Length.greatest) :
    ∃ inner, space.innerMain = .ok inner ∧ UpTo most inner := by
  have hpadding : ∀ n ∈ space.padding.lengths, UpTo most n :=
    fun n hn => h n (List.mem_append_right _ hn)
  have havailable : UpTo most (space.axis.main space.available) := by
    refine h _ ?_
    cases space.axis <;> simp [Space.lengths, Axis.main]
  obtain ⟨⟨⟨_, _⟩, _, _⟩, -⟩ := Axis.upTo_sides hpadding space.axis
  obtain ⟨_, _⟩ := havailable
  have hpositive : 0 ≤ Length.greatest := by decide
  refine ⟨max (space.axis.main space.available - (space.axis.mainStart space.padding +
    space.axis.mainEnd space.padding)) 0, ?_, by omega, by omega⟩
  rw [Space.innerMain, Axis.mainSides_ok hpadding hroom, Length.ok_bind,
    Length.sub_ok (by omega) (by omega)]
  rfl

/-- Across the line, the space is that of a line along the other axis. -/
theorem innerCross_ok (h : ∀ n ∈ space.lengths, UpTo most n) (hroom : 2 * most ≤ Length.greatest) :
    ∃ inner, space.innerCross = .ok inner ∧ UpTo most inner := by
  have hturned : space.innerCross = ({ space with axis := space.axis.transpose }).innerMain := by
    unfold Space.innerCross Space.innerMain
    cases space.axis <;> rfl
  rw [hturned]
  exact innerMain_ok h hroom

end

variable [Weight ω] {a : Axis} {inner : Int} {boxes : List (Request ω)} {s : Summary}

omit [Weight ω] in
theorem maxCross_ok (hboxes : ∀ r ∈ boxes, ∀ n ∈ r.lengths, UpTo most n) (hmost : 0 ≤ most)
    (hroom : 3 * most ≤ Length.greatest) :
    ∃ cross, maxCross a boxes = .ok cross ∧ UpTo (3 * most) cross := by
  have hzero : UpTo (3 * most) 0 := ⟨Int.le_refl 0, by omega⟩
  refine Length.foldlM_max_ok (fun r hr => ?_) hzero
  have hmargins := Request.upTo_margins (hboxes r hr)
  obtain ⟨-, ⟨_, _⟩, _, _⟩ := Axis.upTo_sides hmargins a
  obtain ⟨_, _⟩ := Request.upTo_resolvedCross (hboxes r hr) a
  have hpositive : 0 ≤ Length.greatest := by decide
  refine ⟨r.resolvedCross a + (a.crossStart r.margins + a.crossEnd r.margins), by omega,
    fun acc => ?_⟩
  rw [Axis.crossSides_ok hmargins (by omega), Length.ok_bind, Length.add_ok (by omega) (by omega)]
  rfl

/-- All totals of a line are formed. It is short by no more than three lengths for each child. -/
theorem summarize_ok (hboxes : ∀ r ∈ boxes, ∀ n ∈ r.lengths, UpTo most n) (hinner : UpTo most inner)
    (hroom : 3 * most ≤ Length.greatest)
    (hfit : boxes.length * (3 * most) ≤ Length.greatest) :
    ∃ s, summarize a inner boxes = .ok s ∧ UpTo (3 * most) s.maxCross ∧
      s.shortfall ≤ boxes.length * (3 * most) := by
  have hmost : 0 ≤ most := Int.le_trans hinner.1 hinner.2
  have htotal : ∀ {f : Request ω → Checked Int} {g : Request ω → Int} {rs : List (Request ω)},
      rs.Sublist boxes → (∀ r ∈ boxes, f r = .ok (g r)) →
      (∀ r ∈ boxes, UpTo (3 * most) (g r)) → Length.total f rs = .ok (rs.map g).sum := by
    intro f g rs hsub hf hg
    exact Length.total_ok (fun r hr => hf r (hsub.subset hr))
      (fun r hr => (hg r (hsub.subset hr)).abs) (by omega) hsub.length_le hfit
  have houter := fun {n : Int} (r : Request ω) (hr : r ∈ boxes) (hn : UpTo most n) =>
    Request.outer_ok (hboxes r hr) hroom a hn
  have hresolved := fun r hr => houter r hr (Request.upTo_resolvedMain (hboxes r hr) a)
  have hdesired := fun r hr => houter r hr (Request.upTo_desiredMain (hboxes r hr) a)
  have hfloor := fun r hr => houter r hr (Request.upTo_floorMain (hboxes r hr) a)
  have hmargin : ∀ r ∈ boxes, UpTo (3 * most) (r.mainMargin a) := by
    intro r hr
    obtain ⟨_, _⟩ := Request.upTo_mainMargin (hboxes r hr) a
    exact ⟨by omega, by omega⟩
  obtain ⟨cross, hcross, hupTo⟩ := maxCross_ok (a := a) hboxes hmost hroom
  have hnonFlex := htotal (List.filter_sublist (p := fun r => !r.isFlexed a))
    (fun r hr => (hresolved r hr).1) fun r hr => (hresolved r hr).2.2
  have hflex := htotal (List.filter_sublist (p := fun r => r.isFlexed a))
    (fun r hr => Request.mainSides_ok (hboxes r hr) (by omega) a) hmargin
  have hwant := htotal (List.Sublist.refl boxes) (fun r hr => (hdesired r hr).1)
    fun r hr => (hdesired r hr).2.2
  have hleast : Length.total (fun r => r.outerFloor a) boxes =
      .ok (boxes.map fun r => r.floorMain a + r.mainMargin a).sum := by
    refine htotal (List.Sublist.refl boxes) (fun r hr => (hfloor r hr).2.1) fun r hr => ?_
    rw [Int.add_comm]
    exact (hfloor r hr).2.2
  obtain ⟨hwant_nonneg, hwant_le⟩ := Length.sum_upTo fun r hr => (hdesired r hr).2.2
  obtain ⟨_, _⟩ := hinner
  have hshort : Length.sub (boxes.map fun r => r.mainMargin a + r.desiredMain a).sum inner =
      .ok _ := Length.sub_ok (by omega) (by omega)
  unfold summarize nonFlexMain flexMargins
  simp only [hcross, hnonFlex, hflex, hwant, hleast, hshort, Length.ok_bind]
  refine ⟨_, rfl, hupTo, ?_⟩
  show _ - inner ≤ _
  omega

/-! ## Main lengths -/

section

omit [Weight ω]

variable {children : List Shrinkable} {short : Int}

theorem ceilDiv_ok {n d : Int} (hn : 0 < n) (hd : 0 < d) (hfit : n + d ≤ Length.greatest) :
    ∃ q, ceilDiv n d = .ok q := by
  unfold ceilDiv
  rw [Length.add_ok (by omega) hfit, Length.ok_bind, Length.sub_ok (by omega) (by omega)]
  exact ⟨_, rfl⟩

/-- The walk over the children never leaves the range: what is still short only goes down. -/
theorem shrink_ok (hchildren : ∀ c ∈ children, 0 ≤ c.floor ∧ c.floor ≤ c.length ∧ c.length ≤ most)
    (hmost : most ≤ Length.greatest) (hfit : short + children.length ≤ Length.greatest) :
    ∃ grants, shrink short children = .ok grants := by
  induction children generalizing short with
  | nil => exact ⟨[], rfl⟩
  | cons c rest ih =>
    rw [List.length_cons, Int.natCast_add, Int.natCast_one] at hfit
    by_cases hshort : short ≤ 0
    · exact ⟨_, by rw [shrink, if_pos hshort]⟩
    · obtain ⟨hfloor, hle, hlength⟩ := hchildren c (by simp)
      obtain ⟨part, hpart⟩ : ∃ part, ceilDiv short (rest.length + 1) = .ok part :=
        ceilDiv_ok (by omega) (by omega) hfit
      obtain ⟨-, -, hpos, hpart_le⟩ := ceilDiv_eq_ok (by omega) (by omega) hpart
      have hleft : short - (c.length - max (c.length - part) c.floor) + rest.length ≤
          Length.greatest := by omega
      obtain ⟨others, hothers⟩ := ih (fun d hd => hchildren d (by simp [hd])) hleft
      refine ⟨c.grant (max (c.length - part) c.floor) :: others, ?_⟩
      rw [shrink, if_neg hshort, hpart, Length.ok_bind, Length.sub_ok (by omega) (by omega),
        Length.ok_bind]
      dsimp only
      rw [Length.sub_ok (by omega) (by omega), Length.ok_bind,
        Length.sub_ok (by omega) (by omega), Length.ok_bind, hothers]
      rfl

theorem bySlack_ok (hchildren : ∀ c ∈ children, 0 ≤ c.floor ∧ c.floor ≤ c.length ∧ c.length ≤ most)
    (hmost : most ≤ Length.greatest) : ∃ ordered, bySlack children = .ok ordered := by
  obtain ⟨slacks, hslacks⟩ : ∃ slacks, children.mapM Shrinkable.slack = .ok slacks := by
    refine Length.exists_mapM_ok fun c hc => ?_
    obtain ⟨hfloor, hle, hlength⟩ := hchildren c hc
    exact ⟨_, Length.sub_ok (by omega) (by omega)⟩
  exact ⟨_, by rw [bySlack, hslacks]; rfl⟩

end

/-- A line that is short. -/
theorem tightMains_ok (hboxes : ∀ r ∈ boxes, ∀ n ∈ r.lengths, UpTo most n) {short : Int}
    (hmost : most ≤ Length.greatest) (hfit : short + boxes.length ≤ Length.greatest) :
    ∃ lengths, tightMains a short boxes = .ok lengths ∧
      ∀ e ∈ lengths.zip boxes, UpTo most e.1 := by
  have hchildren : ∀ c ∈ shrinkables a boxes,
      0 ≤ c.floor ∧ c.floor ≤ c.length ∧ c.length ≤ most := by
    intro c hc
    have hroom := room_shrinkables_nonneg hc
    obtain ⟨⟨r, i⟩, he, rfl⟩ := List.mem_map.1 hc
    have hr := hboxes r (List.fst_mem_of_mem_zipIdx (List.mem_filter.1 he).1)
    unfold Shrinkable.room at hroom
    exact ⟨(Request.upTo_floorMain hr a).1, by omega, (Request.upTo_resolvedMain hr a).2⟩
  obtain ⟨ordered, hordered⟩ := bySlack_ok hchildren hmost
  have hperm := perm_bySlack hordered
  have hcount : ordered.length ≤ boxes.length := by
    rw [hperm.length_eq, shrinkables, List.length_map]
    exact Nat.le_trans (List.length_filter_le ..) (Nat.le_of_eq List.length_zipIdx)
  have hwalk : short + ordered.length ≤ Length.greatest := by omega
  obtain ⟨grants, hgrants⟩ := shrink_ok (fun c hc => hchildren c (hperm.mem_iff.1 hc)) hmost hwalk
  obtain ⟨lengths, hlengths⟩ : ∃ lengths, tightMains a short boxes = .ok lengths :=
    ⟨_, by rw [tightMains, hordered, Length.ok_bind, hgrants]; rfl⟩
  have hgive := giveWay_tightMains hlengths
  refine ⟨lengths, hlengths, fun e he => ?_⟩
  have hr := hboxes e.2 (List.of_mem_zip he).2
  have hfloor := Request.upTo_floorMain hr a
  cases hflexed : e.2.isFlexed a with
  | true =>
    rw [hgive.flexed e he hflexed]
    exact hfloor
  | false =>
    obtain ⟨hge, hle⟩ := hgive.fixed e he hflexed
    exact ⟨Int.le_trans hfloor.1 hge, Int.le_trans hle (Request.upTo_resolvedMain hr a).2⟩

section

omit [Weight ω]

variable {pool : Int} {claims : List (Claim Nat)}

/-- An offer is no more than the pool, and what the bounds make of it no more than `most`. -/
theorem upTo_offer (hpay : Payable pool claims) (hpool : pool ≤ most)
    (hbounds : ∀ c ∈ claims, ∀ n ∈ c.bounds.lengths, UpTo most n) {c : Claim Nat}
    (hc : c ∈ claims) :
    UpTo most (c.offer pool (claimed claims)) ∧ UpTo most (c.bounded pool (claimed claims)) := by
  have hsum := sum_offer_le hpay.pool_nonneg claims
  have hsingle := List.single_le_sum (l := claims.map (Claim.offer pool (claimed claims)))
    (fun n hn => by
      obtain ⟨d, -, rfl⟩ := List.mem_map.1 hn
      exact offer_nonneg pool _ d) _ (List.mem_map_of_mem hc)
  have hoffer : UpTo most (c.offer pool (claimed claims)) :=
    ⟨offer_nonneg pool _ c, by omega⟩
  exact ⟨hoffer, Bounds.upTo_constrain (hbounds c hc) hoffer⟩

/-- One round of sharing: the corrections and what is settled stay in range. -/
theorem ofClaims_ok (hpay : Payable pool claims) (hpool : pool ≤ most)
    (hbounds : ∀ c ∈ claims, ∀ n ∈ c.bounds.lengths, UpTo most n)
    (hfit : claims.length * most + most ≤ Length.greatest) :
    ∃ round, Round.ofClaims pool (claimed claims) claims = .ok round := by
  have hoffer := fun c hc => upTo_offer (c := c) hpay hpool hbounds hc
  have hmost : 0 ≤ most := Int.le_trans hpay.pool_nonneg hpool
  have hcount : 0 ≤ claims.length * most := Int.mul_nonneg (by omega) hmost
  have hviolation : Length.total (Claim.correction pool (claimed claims)) claims =
      .ok (claims.map fun c =>
        c.bounded pool (claimed claims) - c.offer pool (claimed claims)).sum := by
    refine Length.total_ok (fun c hc => ?_) (fun c hc => ?_) hmost (Nat.le_refl _) (by omega)
    · obtain ⟨⟨_, _⟩, _, _⟩ := hoffer c hc
      exact Length.sub_ok (by omega) (by omega)
    · obtain ⟨⟨_, _⟩, _, _⟩ := hoffer c hc
      exact ⟨by omega, by omega⟩
  have hsettled : ∀ settled : List (Claim Nat), settled.Sublist claims →
      settled.foldlM (fun left c => Length.sub left (c.bounded pool (claimed claims))) pool =
        .ok (pool + (settled.map fun c => -c.bounded pool (claimed claims)).sum) := by
    intro settled hsub
    have hlength : (settled.length : Int) * most ≤ claims.length * most :=
      Int.mul_le_mul_of_nonneg_right (by have := hsub.length_le; omega) hmost
    have hpositive := hpay.pool_nonneg
    have hterms : ∀ c ∈ settled, -most ≤ -c.bounded pool (claimed claims) ∧
        -c.bounded pool (claimed claims) ≤ most := by
      intro c hc
      obtain ⟨-, _, _⟩ := hoffer c (hsub.subset hc)
      exact ⟨by omega, by omega⟩
    exact Length.foldlM_checked hterms (by omega) (by omega)
  unfold Round.ofClaims
  rw [hviolation, Length.ok_bind]
  split
  · exact ⟨_, rfl⟩
  · simp only [List.partition_eq_filter_filter]
    rw [hsettled _ List.filter_sublist]
    exact ⟨_, rfl⟩

/-- Leftover space is shared out, and no one is granted more than it. -/
theorem shareOut_ok (hpay : Payable pool claims) (hpool : pool ≤ most)
    (hbounds : ∀ c ∈ claims, ∀ n ∈ c.bounds.lengths, UpTo most n)
    (hfit : claims.length * most + most ≤ Length.greatest) :
    ∃ grants, shareOut pool (claimed claims) claims = .ok grants := by
  induction hn : claims.length using Nat.strongRecOn generalizing pool claims with
  | ind n ih =>
    obtain ⟨round, hround⟩ := ofClaims_ok hpay hpool hbounds hfit
    rw [shareOut_eq, hround]
    cases round with
    | complete grants => exact ⟨grants, rfl⟩
    | again settled left weights rest =>
      have hkeeps := Round.keeps_of_again hpay hround
      have hlt := Round.rest_length_lt hround
      obtain ⟨violation, -, -, hrest, -, -⟩ := Round.ofClaims_again hround
      have hsub : ∀ c ∈ rest, c ∈ claims := fun c hc => by
        rw [hrest] at hc
        exact (List.mem_filter.1 hc).1
      have hlength : (rest.length : Int) * most ≤ claims.length * most :=
        Int.mul_le_mul_of_nonneg_right (by omega) (Int.le_trans hpay.pool_nonneg hpool)
      obtain ⟨others, hothers⟩ := ih rest.length (by omega) hkeeps.payable
        (Int.le_trans hkeeps.left_le hpool) (fun c hc => hbounds c (hsub c hc)) (by omega) rfl
      rw [hkeeps.weights]
      exact ⟨settled ++ others, Length.map_eq_ok.2 ⟨others, hothers, rfl⟩⟩

/-- No one is granted more than the space. -/
theorem upTo_granted {grants : List Grant} (hpay : Payable pool claims) (hpool : pool ≤ most)
    (h : shareOut pool (claimed claims) claims = .ok grants) (i : Nat) :
    UpTo most (granted grants i 0) := by
  have hnonneg := nonneg_of_mem_shareOut exactShare_nonneg hpay.bounds h
  have hsum := sum_shareOut_le hpay h
  refine ⟨granted_nonneg hnonneg (Int.le_refl 0) i, ?_⟩
  unfold granted
  cases hfind : grants.find? fun g => g.index == i with
  | none => exact Int.le_trans hpay.pool_nonneg hpool
  | some g =>
    have hsingle := List.single_le_sum (l := grants.map Grant.length)
      (fun n hn => by
        obtain ⟨d, hd, rfl⟩ := List.mem_map.1 hn
        exact hnonneg d hd) _ (List.mem_map_of_mem (List.mem_of_find?_eq_some hfind))
    exact Int.le_trans hsingle (Int.le_trans hsum hpool)

end

/-- A line with room to spare. -/
theorem roomyMains_ok {weigh : Nat → ω} {count : ω → Nat} (ht : Totals a inner boxes s)
    (hboxes : ∀ r ∈ boxes, ∀ n ∈ r.lengths, UpTo most n) (hroomy : s.shortfall ≤ 0)
    (hinner : inner ≤ most) (hfit : boxes.length * most + most ≤ Length.greatest)
    (hweigh : ∀ r ∈ boxes, r.isFlexed a = true → weigh (count r.flex) = r.flex)
    (hw : Weight.Exact weigh (flexCount count a boxes) most) :
    ∃ lengths, roomyMains a inner s boxes = .ok lengths ∧
      ∀ e ∈ lengths.zip boxes, UpTo most e.1 := by
  have hnonneg : ∀ r ∈ boxes, r.Nonneg := fun r hr => Request.nonneg_of_upTo (hboxes r hr)
  have hpay := payable_counted count ht hnonneg hroomy
  have hpool := hpay.pool_nonneg
  have hunshared := unshared_nonneg ht hnonneg
  have hflex : 0 ≤ s.flexMargins := by
    rw [ht.flexMargins]
    refine List.sum_nonneg fun n hn => ?_
    obtain ⟨r, hr, rfl⟩ := List.mem_map.1 hn
    exact Request.mainMargin_nonneg (hnonneg r (List.mem_filter.1 hr).1) a
  have hnonFlex : 0 ≤ s.nonFlexMain := by
    rw [ht.nonFlexMain]
    refine List.sum_nonneg fun n hn => ?_
    obtain ⟨r, hr, rfl⟩ := List.mem_map.1 hn
    have hr := hnonneg r (List.mem_filter.1 hr).1
    exact Int.add_nonneg (Request.mainMargin_nonneg hr a) (Request.resolvedMain_nonneg hr a)
  have hmost : 0 ≤ most := by omega
  have hcount : 0 ≤ boxes.length * most := Int.mul_nonneg (by omega) hmost
  have hclaims : ((claims a boxes).map (Claim.counted count)).length ≤ boxes.length := by
    rw [List.length_map, claims, List.length_map]
    exact Nat.le_trans (List.length_filter_le ..) (Nat.le_of_eq List.length_zipIdx)
  have hlength : (((claims a boxes).map (Claim.counted count)).length : Int) * most ≤
      boxes.length * most := Int.mul_le_mul_of_nonneg_right (by omega) hmost
  have hbounds : ∀ c ∈ (claims a boxes).map (Claim.counted count), ∀ n ∈ c.bounds.lengths,
      UpTo most n := by
    intro c hc
    obtain ⟨_, hclaim, rfl⟩ := List.mem_map.1 hc
    obtain ⟨r, i, hmem, -, rfl⟩ := mem_claims_iff.1 hclaim
    exact Request.upTo_mainBounds (hboxes r (List.fst_mem_of_mem_zipIdx hmem)) a
  obtain ⟨grants, hgrants⟩ := shareOut_ok hpay (by omega) hbounds (by omega)
  have hgranted := upTo_granted hpay (show _ ≤ most by omega) hgrants
  rw [claimed_counted, ← shareOut_counted hweigh hw hpay (by omega)] at hgrants
  refine ⟨boxes.zipIdx.map fun e =>
    if e.1.isFlexed a then granted grants e.2 0 else e.1.resolvedMain a, ?_, fun e he => ?_⟩
  · rw [roomyMains, Length.sub_ok (by omega) (by omega), Length.ok_bind,
      Length.sub_ok (by omega) (by omega), Length.ok_bind, Int.max_eq_left hpool, hgrants]
    rfl
  · obtain ⟨i, hmem, heq⟩ := exists_of_mem_zip he
    rw [heq]
    dsimp only
    split
    · exact hgranted i
    · exact Request.upTo_resolvedMain (hboxes _ (List.fst_mem_of_mem_zipIdx hmem)) a

/-- Every child is given a main length, in whichever of the three ways. -/
theorem mains_ok {weigh : Nat → ω} {count : ω → Nat} (ht : Totals a inner boxes s)
    (hboxes : ∀ r ∈ boxes, ∀ n ∈ r.lengths, UpTo most n) (hinner : inner ≤ most)
    (hfit : boxes.length * most + most ≤ Length.greatest) (hmost : most ≤ Length.greatest)
    (hshort : s.shortfall + boxes.length ≤ Length.greatest)
    (hweigh : ∀ r ∈ boxes, r.isFlexed a = true → weigh (count r.flex) = r.flex)
    (hw : Weight.Exact weigh (flexCount count a boxes) most) :
    ∃ lengths, mains a inner s boxes = .ok lengths ∧ ∀ e ∈ lengths.zip boxes, UpTo most e.1 := by
  unfold mains
  split
  · refine ⟨_, rfl, fun e he => ?_⟩
    rw [← List.map_prod_right_eq_zip] at he
    obtain ⟨r, hr, rfl⟩ := List.mem_map.1 he
    exact Request.upTo_least (hboxes r hr) a (Request.upTo_resolvedMain (hboxes r hr) a)
  · split
    · exact tightMains_ok hboxes hmost hshort
    · exact roomyMains_ok ht hboxes (by omega) hinner hfit hweigh hw

/-! ## Placing -/

section

omit [Weight ω]

variable {space : Space} {innerCross maxCross offset : Int} {r : Request ω}

theorem alignCross_ok (hr : ∀ n ∈ r.lengths, UpTo most n)
    (hspace : ∀ n ∈ space.lengths, UpTo most n) (hinner : UpTo most innerCross)
    (hcross : UpTo (3 * most) maxCross) (hroom : 5 * most ≤ Length.greatest) :
    ∃ pos cross, alignCross space innerCross maxCross r = .ok (pos, cross) := by
  have hmargins := Request.upTo_margins hr
  obtain ⟨-, ⟨_, _⟩, _, _⟩ := Axis.upTo_sides hmargins space.axis
  obtain ⟨-, ⟨_, _⟩, -⟩ := Axis.upTo_sides
    (fun n hn => hspace n (List.mem_append_right _ hn) : ∀ n ∈ space.padding.lengths, _) space.axis
  obtain ⟨_, _⟩ := Request.upTo_resolvedCross hr space.axis
  obtain ⟨_, _⟩ := hinner
  obtain ⟨_, _⟩ := hcross
  unfold alignCross
  dsimp only
  rw [Axis.crossSides_ok hmargins (by omega), Length.ok_bind, Length.add_ok (by omega) (by omega),
    Length.ok_bind]
  cases space.align with
  | start => exact ⟨_, _, rfl⟩
  | middle =>
    dsimp only
    rw [Length.sub_ok (by omega) (by omega), Length.ok_bind, Length.sub_ok (by omega) (by omega),
      Length.ok_bind]
    split
    · next hspare =>
      rw [Int.tdiv_eq_ediv_of_nonneg (by omega), Length.add_ok (by omega) (by omega)]
      exact ⟨_, _, rfl⟩
    · exact ⟨_, _, rfl⟩
  | stretch =>
    dsimp only
    rw [Length.sub_ok (by omega) (by omega)]
    exact ⟨_, _, rfl⟩
  | stretchMax =>
    dsimp only
    rw [Length.sub_ok (by omega) (by omega)]
    exact ⟨_, _, rfl⟩

/-- Every child is placed, and moves the next one by three lengths at most. -/
theorem place_ok {items : List (Int × Request ω)}
    (hitems : ∀ e ∈ items, UpTo most e.1 ∧ ∀ n ∈ e.2.lengths, UpTo most n)
    (hspace : ∀ n ∈ space.lengths, UpTo most n) (hinner : UpTo most innerCross)
    (hcross : UpTo (3 * most) maxCross) (hroom : 5 * most ≤ Length.greatest) (hoffset : 0 ≤ offset)
    (hfit : offset + items.length * (3 * most) ≤ Length.greatest) :
    ∃ rects, place space innerCross maxCross offset items = .ok rects := by
  induction items generalizing offset with
  | nil => exact ⟨[], rfl⟩
  | cons item rest ih =>
    obtain ⟨main, r⟩ := item
    obtain ⟨_, _⟩ : UpTo most main := (hitems (main, r) (by simp)).1
    have hr : ∀ n ∈ r.lengths, UpTo most n := (hitems (main, r) (by simp)).2
    obtain ⟨⟨⟨_, _⟩, _, _⟩, -⟩ := Axis.upTo_sides (Request.upTo_margins hr) space.axis
    have hrest : 0 ≤ rest.length * (3 * most) := Int.mul_nonneg (by omega) (by omega)
    rw [List.length_cons, Int.natCast_add, Int.natCast_one, Int.add_mul] at hfit
    obtain ⟨pos, cross, halign⟩ := alignCross_ok hr hspace hinner hcross hroom
    have hnext : 0 ≤ offset + space.axis.mainStart r.margins +
        (main + space.axis.mainEnd r.margins) := by omega
    obtain ⟨others, hothers⟩ := ih (fun e he => hitems e (by simp [he])) hnext (by omega)
    refine ⟨space.axis.rect (offset + space.axis.mainStart r.margins) pos main cross :: others, ?_⟩
    rw [place, halign, Length.ok_bind]
    dsimp only
    rw [Length.add_ok (by omega) (by omega), Length.ok_bind, Length.add_ok (by omega) (by omega),
      Length.ok_bind, Length.add_ok (by omega) (by omega), Length.ok_bind, hothers]
    rfl

end

variable {space : Space}

omit [Weight ω] in
/-- Together, the children and their margins take three lengths each at most. -/
theorem used_ok {lengths : List Int} (hboxes : ∀ r ∈ boxes, ∀ n ∈ r.lengths, UpTo most n)
    (hlengths : ∀ e ∈ lengths.zip boxes, UpTo most e.1) (hmost : 0 ≤ most)
    (hroom : 3 * most ≤ Length.greatest) (hfit : boxes.length * (3 * most) ≤ Length.greatest) :
    ∃ n, used a boxes lengths = .ok n ∧ UpTo (boxes.length * (3 * most)) n := by
  have hzip : (lengths.zip boxes).length ≤ boxes.length := by
    rw [List.length_zip]
    exact Nat.min_le_right ..
  have houter := fun (e : Int × Request ω) (he : e ∈ lengths.zip boxes) =>
    Request.outer_ok (hboxes e.2 (List.of_mem_zip he).2) hroom a (hlengths e he)
  have hterm : ∀ e ∈ lengths.zip boxes, UpTo (3 * most) (e.1 + e.2.mainMargin a) := by
    intro e he
    rw [Int.add_comm]
    exact (houter e he).2.2
  have htotal : used a boxes lengths =
      .ok ((lengths.zip boxes).map fun e => e.1 + e.2.mainMargin a).sum :=
    Length.total_ok (fun e he => (houter e he).2.1) (fun e he => (hterm e he).abs) (by omega) hzip
      hfit
  obtain ⟨hnonneg, hle⟩ := Length.sum_upTo hterm
  have hcount : ((lengths.zip boxes).length : Int) * (3 * most) ≤ boxes.length * (3 * most) :=
    Int.mul_le_mul_of_nonneg_right (by omega) (by omega)
  exact ⟨_, htotal, hnonneg, Int.le_trans hle hcount⟩

/-- A line is laid out without leaving the range of lengths if no length of it is negative or
greater than `most`, three such lengths for each child and two more, and one more pixel for each
child, are still a length, and the weights are exact. -/
theorem solve_ok {weigh : Nat → ω} {count : ω → Nat}
    (hboxes : ∀ r ∈ boxes, ∀ n ∈ r.lengths, UpTo most n) (hspace : ∀ n ∈ space.lengths, UpTo most n)
    (hfit : (3 * boxes.length + 2) * most + boxes.length ≤ Length.greatest)
    (hweigh : ∀ r ∈ boxes, r.isFlexed space.axis = true → weigh (count r.flex) = r.flex)
    (hw : Weight.Exact weigh (flexCount count space.axis boxes) most) :
    ∃ solution, solve boxes space = .ok solution := by
  by_cases hne : boxes = []
  · exact ⟨.empty, by rw [hne]; rfl⟩
  · have hmost : 0 ≤ most := by
      have havailable := hspace space.available.width (by simp [Space.lengths])
      exact Int.le_trans havailable.1 havailable.2
    have hpositive : 1 ≤ boxes.length := List.length_pos_iff.2 hne
    have hone : 1 * most ≤ boxes.length * most :=
      Int.mul_le_mul_of_nonneg_right (by omega) hmost
    have hthree : boxes.length * (3 * most) = 3 * (boxes.length * most) := by ring
    have hroom : (3 * boxes.length + 2) * most = 3 * (boxes.length * most) + 2 * most := by ring
    obtain ⟨inner, hinner, hinner_upTo⟩ := innerMain_ok hspace (by omega)
    obtain ⟨innerCross, hinnerCross, hcross_upTo⟩ := innerCross_ok hspace (by omega)
    obtain ⟨s, hs, hmaxCross, hshort⟩ :=
      summarize_ok (a := space.axis) hboxes hinner_upTo (by omega) (by omega)
    obtain ⟨lengths, hlengths, hmains⟩ := mains_ok (totals_of_summarize hs) hboxes hinner_upTo.2
      (by omega) (by omega) (by omega) hweigh hw
    obtain ⟨taken, htaken, htaken_nonneg, htaken_le⟩ :=
      used_ok (a := space.axis) hboxes hmains hmost (by omega) (by omega)
    obtain ⟨_, _⟩ := hinner_upTo
    obtain ⟨⟨⟨_, _⟩, -⟩, -⟩ := Axis.upTo_sides (fun n hn =>
      hspace n (List.mem_append_right _ hn) : ∀ n ∈ space.padding.lengths, _) space.axis
    obtain ⟨_, _⟩ := packOffset_mem (show 0 ≤ max (inner - taken) 0 by omega) space.pack
    have hzip : ((lengths.zip boxes).length : Int) * (3 * most) ≤ boxes.length * (3 * most) := by
      refine Int.mul_le_mul_of_nonneg_right ?_ (by omega)
      rw [List.length_zip]
      omega
    obtain ⟨rects, hrects⟩ : ∃ rects, place space innerCross s.maxCross
        (space.axis.mainStart space.padding + packOffset (max (inner - taken) 0) space.pack)
        (lengths.zip boxes) = .ok rects :=
      place_ok (fun e he => ⟨hmains e he, hboxes e.2 (List.of_mem_zip he).2⟩) hspace hcross_upTo
        hmaxCross (by omega) (by omega) (by omega)
    refine ⟨⟨rects, s⟩, ?_⟩
    unfold solve
    dsimp only
    rw [if_neg (by simpa using hne), hinner, Length.ok_bind, hinnerCross, Length.ok_bind, hs,
      Length.ok_bind, hlengths, Length.ok_bind, htaken, Length.ok_bind,
      Length.sub_ok (by omega) (by omega), Length.ok_bind, Length.add_ok (by omega) (by omega),
      Length.ok_bind, hrects]
    rfl

/-- Three children with lengths of almost two hundred million pixels, one of which expands. -/
def vastLine : List (Request Nat) :=
  [⟨some 195225785, some 195225785, ⟨0, 0⟩, ⟨none, none⟩, ⟨none, none⟩, 0, .uniform 195225785⟩,
    ⟨none, none, ⟨20, 20⟩, ⟨some 195225785, none⟩, ⟨none, none⟩, 2, .uniform 195225785⟩,
    ⟨none, none, ⟨195225785, 20⟩, ⟨some 7, none⟩, ⟨none, none⟩, 0, .uniform 195225785⟩]

/-- Eleven times as much is still a length, and so the line is laid out. -/
theorem vastLine_ok :
    (∀ r ∈ vastLine, ∀ n ∈ r.lengths, UpTo 195225785 n) ∧
      (3 * vastLine.length + 2) * 195225785 + vastLine.length ≤ Length.greatest ∧
      ∃ solution, solve vastLine ⟨.vertical, ⟨20, 195225785⟩, .center, .stretchMax, .uniform 7⟩ =
        .ok solution := by
  have hboxes : ∀ r ∈ vastLine, ∀ n ∈ r.lengths, UpTo 195225785 n := by decide
  have hfit : (3 * vastLine.length + 2) * 195225785 + vastLine.length ≤ Length.greatest := by decide
  exact ⟨hboxes, hfit, @solve_ok 195225785 _ _ _ _ id id hboxes (by decide) hfit (fun _ _ _ => rfl)
    (Weight.exact_nat _ 195225785)⟩

end Box

end Trellis
