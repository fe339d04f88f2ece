import Trellis.Box.Solution
import Trellis.Proofs.Box.Sharing
import Trellis.Proofs.Box.Shrinking

/-!
# What the children of a line add up to

The totals of a line are sums over its children, and the three ways in which main lengths are found
are accounted for in terms of them.

* `Totals`: the totals of a line as plain sums.
* `sum_tightMains`: a line that is short takes up exactly what is short.
* `exists_shares`: with room to spare, who shares the leftover space has a share of it.
* `flexFloor_le_leftover`: the leftover space covers the lower bounds of the claims to it.
-/
namespace Trellis.Box

variable {ω : Type}

namespace Request

/-- No size, bound or margin of the request is negative. -/
structure Nonneg (r : Request ω) : Prop where
  width : ∀ n ∈ r.width, 0 ≤ n
  height : ∀ n ∈ r.height, 0 ≤ n
  naturalWidth : 0 ≤ r.natural.width
  naturalHeight : 0 ≤ r.natural.height
  widthBounds : r.widthBounds.Nonneg
  heightBounds : r.heightBounds.Nonneg
  margins : r.margins.Nonneg

instance (r : Request ω) : Decidable r.Nonneg :=
  decidable_of_iff ((∀ n ∈ r.width, 0 ≤ n) ∧ (∀ n ∈ r.height, 0 ≤ n) ∧ 0 ≤ r.natural.width ∧
      0 ≤ r.natural.height ∧ r.widthBounds.Nonneg ∧ r.heightBounds.Nonneg ∧ r.margins.Nonneg)
    ⟨fun ⟨w, h, nw, nh, wb, hb, m⟩ => ⟨w, h, nw, nh, wb, hb, m⟩,
      fun ⟨w, h, nw, nh, wb, hb, m⟩ => ⟨w, h, nw, nh, wb, hb, m⟩⟩

/-- Both main margins together. -/
def mainMargin (a : Axis) (r : Request ω) : Int := a.mainStart r.margins + a.mainEnd r.margins

theorem mainBounds_nonneg {r : Request ω} (h : r.Nonneg) (a : Axis) : (r.mainBounds a).Nonneg := by
  cases a
  · exact h.widthBounds
  · exact h.heightBounds

theorem mainMargin_nonneg {r : Request ω} (h : r.Nonneg) (a : Axis) : 0 ≤ r.mainMargin a :=
  Int.add_nonneg (Axis.mainStart_nonneg h.margins a) (Axis.mainEnd_nonneg h.margins a)

theorem resolvedMain_nonneg {r : Request ω} (h : r.Nonneg) (a : Axis) : 0 ≤ r.resolvedMain a := by
  refine Bounds.constrain_nonneg (mainBounds_nonneg h a) ?_
  cases a
  · show 0 ≤ r.width.getD r.natural.width
    cases hw : r.width with
    | none => exact h.naturalWidth
    | some n => exact h.width n hw
  · show 0 ≤ r.height.getD r.natural.height
    cases hh : r.height with
    | none => exact h.naturalHeight
    | some n => exact h.height n hh

variable [Weight ω]

theorem isPositive_of_isFlexed {r : Request ω} {a : Axis} (h : r.isFlexed a = true) :
    Weight.isPositive r.flex = true := by
  simp only [isFlexed, Bool.and_eq_true] at h
  exact h.1

theorem floorMain_of_isFlexed {r : Request ω} {a : Axis} (h : r.isFlexed a = true) :
    r.floorMain a = (r.mainBounds a).floor := by
  rw [floorMain, if_pos h]
  rfl

theorem desiredMain_of_isFlexed {r : Request ω} {a : Axis} (h : r.isFlexed a = true) :
    r.desiredMain a = (r.mainBounds a).floor := by
  rw [desiredMain, if_pos h]
  rfl

theorem desiredMain_of_not_isFlexed {r : Request ω} {a : Axis} (h : ¬ r.isFlexed a = true) :
    r.desiredMain a = r.resolvedMain a := by
  rw [desiredMain, if_neg h]

/-- A child with a length of its own is never below its floor. -/
theorem floorMain_le_resolvedMain {r : Request ω} {a : Axis} (h : ¬ r.isFlexed a = true) :
    r.floorMain a ≤ r.resolvedMain a := by
  rw [floorMain, if_neg h]
  cases hl : (r.mainBounds a).least? with
  | none => exact Int.le_refl _
  | some lo => exact Bounds.least_le_constrain hl _

theorem floorMain_nonneg {r : Request ω} (h : r.Nonneg) (a : Axis) : 0 ≤ r.floorMain a := by
  unfold floorMain
  cases hl : (r.mainBounds a).least? with
  | some lo => exact (mainBounds_nonneg h a).least lo hl
  | none =>
    show 0 ≤ if r.isFlexed a = true then 0 else r.resolvedMain a
    split
    · exact Int.le_refl 0
    · exact resolvedMain_nonneg h a

end Request

open Request (mainMargin)

/-! ## Totals -/

section

variable [Weight ω] {a : Axis} {innerMain : Int} {boxes : List (Request ω)} {s : Summary}

/-- The totals of a line as plain sums. -/
structure Totals (a : Axis) (innerMain : Int) (boxes : List (Request ω)) (s : Summary) : Prop where
  nonFlexMain : s.nonFlexMain =
    ((boxes.filter fun r => !r.isFlexed a).map fun r => r.mainMargin a + r.resolvedMain a).sum
  flexMargins : s.flexMargins = ((boxes.filter fun r => r.isFlexed a).map (mainMargin a)).sum
  minimumMain : s.minimumMain = (boxes.map fun r => r.floorMain a + r.mainMargin a).sum
  shortfall : s.shortfall = (boxes.map fun r => r.mainMargin a + r.desiredMain a).sum - innerMain
  tooNarrow : s.tooNarrow = decide (innerMain < s.minimumMain)

theorem totals_of_summarize (h : summarize a innerMain boxes = .ok s) :
    Totals a innerMain boxes s := by
  unfold summarize at h
  obtain ⟨maxCross, -, h⟩ := Length.bind_eq_ok.1 h
  obtain ⟨nonFlexMain, hnonFlex, h⟩ := Length.bind_eq_ok.1 h
  obtain ⟨flexMargins, hflex, h⟩ := Length.bind_eq_ok.1 h
  obtain ⟨desiredMain, hdesired, h⟩ := Length.bind_eq_ok.1 h
  obtain ⟨minimumMain, hminimum, h⟩ := Length.bind_eq_ok.1 h
  obtain ⟨shortfall, hshort, h⟩ := Length.bind_eq_ok.1 h
  cases h
  have hmargin : ∀ {r : Request ω} {f m n : Int}, a.mainSides r.margins = .ok m →
      Length.add m f = .ok n → n = r.mainMargin a + f := fun hm hn => by
    rw [(Length.add_eq_ok.1 hn).1, Axis.mainSides_eq_ok hm]
    rfl
  refine ⟨?_, ?_, ?_, ?_, rfl⟩
  · refine Length.total_eq_sum (fun r _ n hn => ?_) hnonFlex
    obtain ⟨m, hm, hn⟩ := Length.bind_eq_ok.1 hn
    exact hmargin hm hn
  · exact Length.total_eq_sum (fun r _ n hn => Axis.mainSides_eq_ok hn) hflex
  · refine Length.total_eq_sum (fun r _ n hn => ?_) hminimum
    obtain ⟨m, hm, hn⟩ := Length.bind_eq_ok.1 hn
    rw [(Length.add_eq_ok.1 hn).1, Axis.mainSides_eq_ok hm]
    rfl
  · have hsum : desiredMain = (boxes.map fun r => r.mainMargin a + r.desiredMain a).sum := by
      refine Length.total_eq_sum (fun r _ n hn => ?_) hdesired
      obtain ⟨m, hm, hn⟩ := Length.bind_eq_ok.1 hn
      exact hmargin hm hn
    rw [← hsum]
    exact (Length.sub_eq_ok.1 hshort).1

/-- The lengths of the children that share no leftover space. -/
def fixedMain (a : Axis) (boxes : List (Request ω)) : Int :=
  ((boxes.filter fun r => !r.isFlexed a).map fun r => r.resolvedMain a).sum

/-- The least lengths of the children that share leftover space. -/
def flexFloor (a : Axis) (boxes : List (Request ω)) : Int :=
  ((boxes.filter fun r => r.isFlexed a).map fun r => (r.mainBounds a).floor).sum

/-- The margins, and the lengths that are not shared. -/
theorem Totals.unshared_eq (h : Totals a innerMain boxes s) :
    s.nonFlexMain + s.flexMargins = (boxes.map (mainMargin a)).sum + fixedMain a boxes := by
  have hsplit := Length.sum_filter_add_sum_filter_not (fun r : Request ω => r.isFlexed a)
    (mainMargin a) boxes
  rw [h.nonFlexMain, h.flexMargins, List.sum_map_add]
  unfold fixedMain
  omega

/-- What the children want: the margins, what is not shared, and the least of what is. -/
theorem Totals.desired_eq (h : Totals a innerMain boxes s) :
    s.shortfall + innerMain =
      (boxes.map (mainMargin a)).sum + fixedMain a boxes + flexFloor a boxes := by
  have hsplit := Length.sum_filter_add_sum_filter_not (fun r : Request ω => r.isFlexed a)
    (fun r => r.desiredMain a) boxes
  have hflexed : ((boxes.filter fun r => r.isFlexed a).map fun r => r.desiredMain a) =
      (boxes.filter fun r => r.isFlexed a).map fun r => (r.mainBounds a).floor :=
    List.map_congr_left fun r hr => Request.desiredMain_of_isFlexed (List.mem_filter.1 hr).2
  have hfixed : ((boxes.filter fun r => !r.isFlexed a).map fun r => r.desiredMain a) =
      (boxes.filter fun r => !r.isFlexed a).map fun r => r.resolvedMain a :=
    List.map_congr_left fun r hr =>
      Request.desiredMain_of_not_isFlexed (by simpa using (List.mem_filter.1 hr).2)
  rw [hflexed, hfixed] at hsplit
  rw [h.shortfall, List.sum_map_add, ← hsplit]
  unfold fixedMain flexFloor
  omega

/-- What the children cannot do without: the margins and their floors. -/
theorem Totals.minimum_eq (h : Totals a innerMain boxes s) :
    s.minimumMain = (boxes.map (mainMargin a)).sum +
      ((boxes.filter fun r => !r.isFlexed a).map fun r => r.floorMain a).sum +
        flexFloor a boxes := by
  have hsplit := Length.sum_filter_add_sum_filter_not (fun r : Request ω => r.isFlexed a)
    (fun r => r.floorMain a) boxes
  have hflexed : ((boxes.filter fun r => r.isFlexed a).map fun r => r.floorMain a) =
      (boxes.filter fun r => r.isFlexed a).map fun r => (r.mainBounds a).floor :=
    List.map_congr_left fun r hr => Request.floorMain_of_isFlexed (List.mem_filter.1 hr).2
  rw [hflexed] at hsplit
  rw [h.minimumMain, List.sum_map_add, ← hsplit]
  unfold flexFloor
  omega

omit [Weight ω] in
/-- Main lengths paired with their children add up to the lengths and all the margins. -/
theorem sum_outer_zip {mains : List Int} (hlength : mains.length = boxes.length) :
    ((mains.zip boxes).map fun item => item.1 + item.2.mainMargin a).sum =
      mains.sum + (boxes.map (mainMargin a)).sum := by
  have hmains : (mains.zip boxes).map Prod.fst = mains := List.map_fst_zip (by omega)
  have hboxes : (mains.zip boxes).map Prod.snd = boxes := List.map_snd_zip (by omega)
  have hmargins : ((mains.zip boxes).map fun item => item.2.mainMargin a) =
      boxes.map (mainMargin a) := by
    rw [← congrArg (List.map (mainMargin a)) hboxes, List.map_map]
    rfl
  rw [List.sum_map_add, hmargins]
  exact congrArg (fun lengths : List Int => lengths.sum + _) hmains

omit [Weight ω] in
/-- A line takes the main lengths of its children and their margins. -/
theorem used_eq_ok {mains : List Int} {used : Int} (hlength : mains.length = boxes.length)
    (h : Box.used a boxes mains = .ok used) :
    used = mains.sum + (boxes.map (mainMargin a)).sum := by
  rw [← sum_outer_zip hlength]
  refine Length.total_eq_sum (fun item _ n hn => ?_) h
  obtain ⟨m, hm, hn⟩ := Length.bind_eq_ok.1 hn
  rw [(Length.add_eq_ok.1 hn).1, Axis.mainSides_eq_ok hm]
  rfl

end

/-! ## Granted lengths -/

section

variable {α : Type} {grants : List Grant}

theorem granted_of_mem (hnodup : (grants.map Grant.index).Nodup) {g : Grant} (hg : g ∈ grants)
    (otherwise : Int) : granted grants g.index otherwise = g.length := by
  induction grants with
  | nil => cases hg
  | cons f rest ih =>
    rw [List.map_cons, List.nodup_cons] at hnodup
    rcases List.mem_cons.1 hg with rfl | hg
    · simp [granted]
    · have hne : f.index ≠ g.index := fun heq => hnodup.1 (heq ▸ List.mem_map_of_mem hg)
      have hskip : granted (f :: rest) g.index otherwise = granted rest g.index otherwise := by
        simp [granted, hne]
      rw [hskip]
      exact ih hnodup.2 hg

theorem granted_nonneg (hgrants : ∀ g ∈ grants, 0 ≤ g.length) {otherwise : Int}
    (hother : 0 ≤ otherwise) (i : Nat) : 0 ≤ granted grants i otherwise := by
  unfold granted
  cases hfind : grants.find? fun g => g.index == i with
  | none => exact hother
  | some g => exact hgrants g (List.mem_of_find?_eq_some hfind)

/-- What a claim is granted is its share. -/
theorem Shared.granted_mem {ω : Type} [Weight ω] {pool : Int} {weights : ω}
    {claims : List (Claim ω)} {shares : List (Claim ω × Int)}
    (h : Shared pool weights claims shares) (hnodup : (claims.map Claim.index).Nodup)
    {c : Claim ω} (hc : c ∈ claims) (otherwise : Int) :
    (c, granted (shares.map fun s => s.1.grant s.2) c.index otherwise) ∈ shares := by
  obtain ⟨s, hs, rfl⟩ := List.mem_map.1 (h.perm.mem_iff.2 hc)
  have hindex : ((shares.map fun s => s.1.grant s.2).map Grant.index).Nodup := by
    rw [List.map_map]
    rwa [← (h.perm.map Claim.index).nodup_iff, List.map_map] at hnodup
  have hgranted : granted (shares.map fun s => s.1.grant s.2) s.1.index otherwise = s.2 :=
    granted_of_mem hindex (List.mem_map_of_mem hs) otherwise
  rw [hgranted]
  exact hs

/-- Looked up by position, the lengths granted add up to what was granted. -/
theorem sum_granted {items : List (α × Nat)} (otherwise : α → Int)
    (hperm : (grants.map Grant.index).Perm (items.map Prod.snd))
    (hnodup : (items.map Prod.snd).Nodup) :
    (items.map fun e => granted grants e.2 (otherwise e.1)).sum =
      (grants.map Grant.length).sum := by
  have hgrants : (grants.map Grant.index).Nodup := hperm.nodup_iff.2 hnodup
  have hlookup : (items.map fun e => granted grants e.2 (otherwise e.1)) =
      (items.map Prod.snd).map fun i => granted grants i 0 := by
    rw [List.map_map]
    refine List.map_congr_left fun e he => ?_
    obtain ⟨g, hg, hi⟩ := List.mem_map.1 (hperm.mem_iff.2 (List.mem_map_of_mem he))
    rw [Function.comp_apply, ← hi, granted_of_mem hgrants hg, granted_of_mem hgrants hg]
  rw [hlookup, ← (hperm.map _).sum_eq, List.map_map]
  exact congrArg List.sum (List.map_congr_left fun g hg => granted_of_mem hgrants hg 0)

theorem nodup_snd_filter_zipIdx (p : α × Nat → Bool) (xs : List α) :
    ((xs.zipIdx.filter p).map Prod.snd).Nodup := by
  refine List.Nodup.sublist (List.filter_sublist.map Prod.snd) ?_
  rw [List.zipIdx_map_snd]
  exact List.nodup_range'

/-- Lengths that are found for the elements by their positions, next to the elements. -/
theorem zip_zipIdx_map {β : Type} (f : α × Nat → β) (xs : List α) :
    (xs.zipIdx.map f).zip xs = xs.zipIdx.map fun e => (f e, e.1) := by
  have hxs : xs.zipIdx.map Prod.fst = xs := List.zipIdx_map_fst 0 xs
  rw [← congrArg (List.zip (xs.zipIdx.map f)) hxs, List.zip_map']

/-- A length that is found for each element by its position is next to that element. -/
theorem exists_of_mem_zip {β : Type} {f : α × Nat → β} {xs : List α} {e : β × α}
    (he : e ∈ (xs.zipIdx.map f).zip xs) : ∃ i, (e.2, i) ∈ xs.zipIdx ∧ e.1 = f (e.2, i) := by
  rw [zip_zipIdx_map] at he
  obtain ⟨⟨x, i⟩, hmem, rfl⟩ := List.mem_map.1 he
  exact ⟨i, hmem, rfl⟩

theorem map_fst_filter_zipIdx (p : α → Bool) (xs : List α) :
    (xs.zipIdx.filter fun e => p e.1).map Prod.fst = xs.filter p := by
  have := List.filter_map (p := p) (f := Prod.fst) (l := xs.zipIdx)
  rw [List.zipIdx_map_fst] at this
  exact this.symm

end

/-! ## Main lengths -/

section

variable [Weight ω] {a : Axis} {innerMain : Int} {boxes : List (Request ω)} {s : Summary}
  {lengths : List Int}

/-- A sum over the children by position, apart for those that share leftover space. -/
theorem sum_zipIdx_split (f g : Request ω × Nat → Int) (boxes : List (Request ω)) :
    (boxes.zipIdx.map fun e => if e.1.isFlexed a then f e else g e).sum =
      ((boxes.zipIdx.filter fun e => e.1.isFlexed a).map f).sum +
        ((boxes.zipIdx.filter fun e => !e.1.isFlexed a).map g).sum := by
  rw [← Length.sum_filter_add_sum_filter_not (fun e : Request ω × Nat => e.1.isFlexed a)]
  congr 2
  · exact List.map_congr_left fun e he => if_pos (List.mem_filter.1 he).2
  · exact List.map_congr_left fun e he => if_neg (by simpa using (List.mem_filter.1 he).2)

omit [Weight ω] in
theorem sum_filter_zipIdx (p : Request ω → Bool) (f : Request ω → Int) (boxes : List (Request ω)) :
    ((boxes.zipIdx.filter fun e => p e.1).map fun e => f e.1).sum =
      ((boxes.filter p).map f).sum := by
  rw [← map_fst_filter_zipIdx p boxes, List.map_map]
  rfl

theorem sum_filter_flexed_floorMain (boxes : List (Request ω)) :
    ((boxes.zipIdx.filter fun e => e.1.isFlexed a).map fun e => e.1.floorMain a).sum =
      flexFloor a boxes := by
  rw [sum_filter_zipIdx (fun r => r.isFlexed a) (fun r => r.floorMain a)]
  exact congrArg List.sum
    (List.map_congr_left fun r hr => Request.floorMain_of_isFlexed (List.mem_filter.1 hr).2)

/-- What children with a length of their own can give. -/
theorem room_shrinkables_nonneg {c : Shrinkable} (hc : c ∈ shrinkables a boxes) : 0 ≤ c.room := by
  obtain ⟨e, he, rfl⟩ := List.mem_map.1 hc
  have hfixed : ¬ e.1.isFlexed a = true := by simpa using (List.mem_filter.1 he).2
  have := Request.floorMain_le_resolvedMain hfixed
  show 0 ≤ e.1.resolvedMain a - e.1.floorMain a
  omega

theorem sum_shrinkables_length (boxes : List (Request ω)) :
    ((shrinkables a boxes).map Shrinkable.length).sum = fixedMain a boxes := by
  rw [shrinkables, List.map_map]
  exact sum_filter_zipIdx (fun r => !r.isFlexed a) (fun r => r.resolvedMain a) boxes

theorem sum_shrinkables_room (boxes : List (Request ω)) :
    ((shrinkables a boxes).map Shrinkable.room).sum = fixedMain a boxes -
      ((boxes.filter fun r => !r.isFlexed a).map fun r => r.floorMain a).sum := by
  have hroom := sum_filter_zipIdx (fun r => !r.isFlexed a)
    (fun r => r.resolvedMain a - r.floorMain a) boxes
  have hsum : ((boxes.filter fun r => !r.isFlexed a).map fun r => r.resolvedMain a).sum =
      ((boxes.filter fun r => !r.isFlexed a).map fun r => r.resolvedMain a - r.floorMain a).sum +
        ((boxes.filter fun r => !r.isFlexed a).map fun r => r.floorMain a).sum := by
    rw [← List.sum_map_add]
    exact congrArg List.sum (List.map_congr_left fun r _ => by omega)
  rw [shrinkables, List.map_map]
  show ((boxes.zipIdx.filter fun e => !e.1.isFlexed a).map fun e =>
    e.1.resolvedMain a - e.1.floorMain a).sum = _
  unfold fixedMain
  omega

/-- A line that is short, but not too narrow, takes up exactly what is short. -/
theorem sum_tightMains (ht : Totals a innerMain boxes s) (hfits : s.minimumMain ≤ innerMain)
    (hshort : 0 < s.shortfall) (h : tightMains a s.shortfall boxes = .ok lengths) :
    lengths.sum + (boxes.map (mainMargin a)).sum = innerMain := by
  obtain ⟨ordered, hordered, h⟩ := Length.bind_eq_ok.1 h
  obtain ⟨grants, hgrants, h⟩ := Length.bind_eq_ok.1 h
  cases h
  have hperm := perm_bySlack hordered
  have hroom : ∀ c ∈ ordered, 0 ≤ c.room := fun c hc =>
    room_shrinkables_nonneg (hperm.mem_iff.1 hc)
  have hdesired := ht.desired_eq
  have hcover : s.shortfall ≤ (ordered.map Shrinkable.room).sum := by
    rw [(hperm.map _).sum_eq, sum_shrinkables_room]
    have := ht.minimum_eq
    omega
  have hsum := sum_shrink hroom (pairwise_bySlack hordered) (by omega) hcover hgrants
  rw [(hperm.map _).sum_eq, sum_shrinkables_length] at hsum
  have hindex : (grants.map Grant.index).Perm
      ((boxes.zipIdx.filter fun e => !e.1.isFlexed a).map Prod.snd) := by
    rw [index_of_gives (gives_shrink hroom hgrants)]
    refine (hperm.map _).trans ?_
    rw [shrinkables, List.map_map]
    exact .refl _
  have hsplit := sum_zipIdx_split (a := a) (fun e => e.1.floorMain a)
    (fun e => granted grants e.2 (e.1.resolvedMain a)) boxes
  rw [sum_filter_flexed_floorMain, sum_granted (fun r => r.resolvedMain a) hindex
    (nodup_snd_filter_zipIdx _ boxes)] at hsplit
  show (boxes.zipIdx.map fun e => if e.1.isFlexed a then e.1.floorMain a
    else granted grants e.2 (e.1.resolvedMain a)).sum + _ = _
  omega

theorem tightMains_nonneg (hnonneg : ∀ r ∈ boxes, r.Nonneg) {shortfall : Int}
    (h : tightMains a shortfall boxes = .ok lengths) : ∀ n ∈ lengths, 0 ≤ n := by
  obtain ⟨ordered, hordered, h⟩ := Length.bind_eq_ok.1 h
  obtain ⟨grants, hgrants, h⟩ := Length.bind_eq_ok.1 h
  cases h
  have hperm := perm_bySlack hordered
  have hgrant : ∀ g ∈ grants, 0 ≤ g.length := by
    intro g hg
    obtain ⟨c, hc, hgives⟩ := Length.exists_of_forall₂
      (gives_shrink (fun c hc => room_shrinkables_nonneg (hperm.mem_iff.1 hc)) hgrants).flip hg
    obtain ⟨e, he, rfl⟩ := List.mem_map.1 (hperm.mem_iff.1 hc)
    have := Request.floorMain_nonneg (hnonneg e.1 (List.fst_mem_of_mem_zipIdx
      (List.mem_filter.1 he).1)) a
    exact Int.le_trans this hgives.floor
  intro n hn
  obtain ⟨⟨r, i⟩, he, rfl⟩ := List.mem_map.1 hn
  have hr := hnonneg r (List.fst_mem_of_mem_zipIdx he)
  show 0 ≤ if r.isFlexed a then r.floorMain a else granted grants i (r.resolvedMain a)
  split
  · exact Request.floorMain_nonneg hr a
  · exact granted_nonneg hgrant (Request.resolvedMain_nonneg hr a) i

/-- Claims are made by the children that share leftover space. -/
theorem mem_claims_iff {c : Claim ω} : c ∈ claims a boxes ↔
    ∃ r i, (r, i) ∈ boxes.zipIdx ∧ r.isFlexed a = true ∧ c = ⟨i, r.flex, r.mainBounds a⟩ := by
  simp only [claims, List.mem_map, List.mem_filter, Prod.exists]
  constructor
  · rintro ⟨r, i, ⟨hmem, hflexed⟩, rfl⟩
    exact ⟨r, i, hmem, hflexed, rfl⟩
  · rintro ⟨r, i, hmem, hflexed, rfl⟩
    exact ⟨r, i, ⟨hmem, hflexed⟩, rfl⟩

theorem bounds_claims_nonneg (hnonneg : ∀ r ∈ boxes, r.Nonneg) :
    ∀ c ∈ claims a boxes, c.bounds.Nonneg := by
  intro c hc
  obtain ⟨r, i, hmem, -, rfl⟩ := mem_claims_iff.1 hc
  exact Request.mainBounds_nonneg (hnonneg r (List.fst_mem_of_mem_zipIdx hmem)) a

theorem index_claims (a : Axis) (boxes : List (Request ω)) :
    (claims a boxes).map Claim.index =
      (boxes.zipIdx.filter fun e => e.1.isFlexed a).map Prod.snd := by
  rw [claims, List.map_map]
  rfl

theorem nodup_index_claims (a : Axis) (boxes : List (Request ω)) :
    ((claims a boxes).map Claim.index).Nodup := by
  rw [index_claims]
  exact nodup_snd_filter_zipIdx _ boxes

/-- The total weight of a line is that of its claims. -/
theorem totalWeight_eq_foldl (boxes : List (Request ω)) :
    totalWeight a boxes =
      (claims a boxes).foldl (fun sum c => Weight.add sum c.weight) Weight.zero := by
  rw [totalWeight, ← map_fst_filter_zipIdx (fun r => r.isFlexed a) boxes, claims, List.foldl_map,
    List.foldl_map]

theorem sum_floor_claims (boxes : List (Request ω)) :
    ((claims a boxes).map fun c => c.bounds.floor).sum = flexFloor a boxes := by
  rw [claims, List.map_map]
  exact sum_filter_zipIdx (fun r => r.isFlexed a) (fun r => (r.mainBounds a).floor) boxes

/-- With room to spare, the leftover space covers the lower bounds of the claims to it. -/
theorem flexFloor_le_leftover (ht : Totals a innerMain boxes s) (hroomy : s.shortfall ≤ 0) :
    flexFloor a boxes ≤ innerMain - s.nonFlexMain - s.flexMargins := by
  have hunshared := ht.unshared_eq
  have hdesired := ht.desired_eq
  omega

theorem flexFloor_nonneg (hnonneg : ∀ r ∈ boxes, r.Nonneg) : 0 ≤ flexFloor a boxes := by
  refine List.sum_nonneg fun n hn => ?_
  obtain ⟨r, hr, rfl⟩ := List.mem_map.1 hn
  exact Bounds.floor_nonneg (Request.mainBounds_nonneg (hnonneg r (List.mem_filter.1 hr).1) a)

/-- What is not shared is not negative. -/
theorem unshared_nonneg (ht : Totals a innerMain boxes s) (hnonneg : ∀ r ∈ boxes, r.Nonneg) :
    0 ≤ s.nonFlexMain + s.flexMargins := by
  have hmargins : 0 ≤ (boxes.map (mainMargin a)).sum := by
    refine List.sum_nonneg fun n hn => ?_
    obtain ⟨r, hr, rfl⟩ := List.mem_map.1 hn
    exact Request.mainMargin_nonneg (hnonneg r hr) a
  have hfixed : 0 ≤ fixedMain a boxes := by
    refine List.sum_nonneg fun n hn => ?_
    obtain ⟨r, hr, rfl⟩ := List.mem_map.1 hn
    exact Request.resolvedMain_nonneg (hnonneg r (List.mem_filter.1 hr).1) a
  rw [ht.unshared_eq]
  omega

/-- With room to spare, children that share leftover space get what they are granted out of it, and
all others have their own lengths. -/
theorem exists_grants (h : roomyMains a innerMain s boxes = .ok lengths) :
    ∃ grants, shareOut (max (innerMain - s.nonFlexMain - s.flexMargins) 0) (totalWeight a boxes)
        (claims a boxes) = .ok grants ∧
      lengths = boxes.zipIdx.map fun e =>
        if e.1.isFlexed a then granted grants e.2 0 else e.1.resolvedMain a := by
  obtain ⟨part, hpart, h⟩ := Length.bind_eq_ok.1 h
  obtain ⟨free, hfree, h⟩ := Length.bind_eq_ok.1 h
  obtain ⟨grants, hgrants, h⟩ := Length.bind_eq_ok.1 h
  cases h
  rw [(Length.sub_eq_ok.1 hfree).1, (Length.sub_eq_ok.1 hpart).1] at hgrants
  exact ⟨grants, hgrants, rfl⟩

/-- With room to spare, a child that shares leftover space has its share of it, and any other child
its own length. -/
theorem exists_shares (h : roomyMains a innerMain s boxes = .ok lengths) :
    ∃ shares, Shared (max (innerMain - s.nonFlexMain - s.flexMargins) 0) (totalWeight a boxes)
        (claims a boxes) shares ∧
      ∀ e ∈ lengths.zip boxes,
        (e.2.isFlexed a = true → ∃ i, (⟨i, e.2.flex, e.2.mainBounds a⟩, e.1) ∈ shares) ∧
        (e.2.isFlexed a = false → e.1 = e.2.resolvedMain a) := by
  obtain ⟨grants, hgrants, rfl⟩ := exists_grants h
  obtain ⟨shares, hshares, rfl⟩ := shared_of_shareOut hgrants
  refine ⟨shares, hshares, fun e he => ?_⟩
  obtain ⟨i, hmem, hlength⟩ := exists_of_mem_zip he
  dsimp only at hlength
  refine ⟨fun hflexed => ⟨i, ?_⟩, fun hfixed => ?_⟩
  · rw [hlength, if_pos hflexed]
    exact hshares.granted_mem (nodup_index_claims a boxes)
      (mem_claims_iff.2 ⟨_, _, hmem, hflexed, rfl⟩) 0
  · rw [hlength, if_neg (by simp [hfixed])]

/-- What children are granted and have of their own is not negative. -/
theorem nonneg_of_grants {grants : List Grant} (hnonneg : ∀ r ∈ boxes, r.Nonneg)
    (hgrant : ∀ g ∈ grants, 0 ≤ g.length) :
    ∀ n ∈ boxes.zipIdx.map (fun e =>
      if e.1.isFlexed a then granted grants e.2 0 else e.1.resolvedMain a), 0 ≤ n := by
  intro n hn
  obtain ⟨⟨r, i⟩, he, rfl⟩ := List.mem_map.1 hn
  show 0 ≤ if r.isFlexed a then granted grants i 0 else r.resolvedMain a
  split
  · exact granted_nonneg hgrant (Int.le_refl 0) i
  · exact Request.resolvedMain_nonneg (hnonneg r (List.fst_mem_of_mem_zipIdx he)) a

/-- With room to spare, no child gets a negative length, provided that shares are none. -/
theorem roomyMains_nonneg
    (hshare : ∀ (space : Int) (weight total : ω), 0 ≤ Weight.share space weight total)
    (hnonneg : ∀ r ∈ boxes, r.Nonneg) (h : roomyMains a innerMain s boxes = .ok lengths) :
    ∀ n ∈ lengths, 0 ≤ n := by
  obtain ⟨grants, hgrants, rfl⟩ := exists_grants h
  exact nonneg_of_grants hnonneg
    (nonneg_of_mem_shareOut hshare (bounds_claims_nonneg hnonneg) hgrants)

end

end Trellis.Box
