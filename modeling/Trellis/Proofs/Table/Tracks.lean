import Trellis.Proofs.Table.Growth

/-!
# Tracks that hold their cells

Tracks only ever grow, so what a cell has been given it keeps while the tracks grow for others, and
in the end every cell has what it needs.

* `Grows.met`: what a cell has it keeps while tracks grow.
* `growTracks_meets`: growing meets the demand.
* `fitTracks_meets`: the tracks that are found meet every demand.
* `sum_take_add_extent`, `sum_take_mono`: where a cell's tracks begin and end.
-/
namespace Trellis.Grid

/-- The tracks hold what the cell needs. -/
def Demand.Met (tracks : List Int) (d : Demand) : Prop := d.needed ≤ extent tracks d.start d.span

theorem Grows.trans {xs ys zs : List Int} (h : Grows xs ys) (h' : Grows ys zs) : Grows xs zs := by
  unfold Grows at *
  induction h generalizing zs with
  | nil => exact h'
  | cons hxy _ ih =>
    cases h' with
    | cons hyz hrest => exact .cons (Int.le_trans hxy hyz) (ih hrest)

theorem Grows.sum_le {xs ys : List Int} (h : Grows xs ys) : xs.sum ≤ ys.sum :=
  List.Forall₂.sum_le_sum h

theorem Grows.extent_le {tracks grown : List Int} (h : Grows tracks grown) (start span : Nat) :
    extent tracks start span ≤ extent grown start span :=
  Grows.sum_le (List.forall₂_take span (List.forall₂_drop start h))

theorem Grows.met {tracks grown : List Int} {d : Demand} (h : Grows tracks grown)
    (hmet : d.Met tracks) : d.Met grown :=
  Int.le_trans hmet (h.extent_le d.start d.span)

/-! ## Fitting -/

/-- Growing meets the demand, of a cell that has tracks. -/
theorem growTracks_meets {tracks grown : List Int} {d : Demand} (hstart : d.start < tracks.length)
    (hspan : 0 < d.span) (h : growTracks tracks d.start d.span d.needed = .ok grown) :
    d.Met grown := by
  have hsome : spanned tracks d.start d.span ≠ [] := by
    rw [← List.length_pos_iff, length_spanned]
    omega
  have hsum := (grownEvenly_of_growTracks h).sum hsome
  unfold Demand.Met
  omega

theorem growAll_meets {demands : List Demand} {tracks grown : List Int}
    (hdemands : ∀ d ∈ demands, d.start < tracks.length ∧ 0 < d.span)
    (h : demands.foldlM (fun tracks d => growTracks tracks d.start d.span d.needed) tracks =
      .ok grown) :
    Grows tracks grown ∧ ∀ d ∈ demands, d.Met grown := by
  induction demands generalizing tracks with
  | nil =>
    cases h
    exact ⟨.refl _, by simp⟩
  | cons d rest ih =>
    rw [List.foldlM_cons] at h
    obtain ⟨mid, hmid, hrest⟩ := Length.bind_eq_ok.1 h
    have hgrows := (grownEvenly_of_growTracks hmid).grows
    obtain ⟨hstart, hspan⟩ := hdemands d (by simp)
    have hlater : ∀ e ∈ rest, e.start < mid.length ∧ 0 < e.span := by
      rw [← hgrows.length_eq]
      exact fun e he => hdemands e (by simp [he])
    obtain ⟨hgrows', hmet⟩ := ih hlater hrest
    refine ⟨hgrows.trans hgrows', ?_⟩
    simp only [List.mem_cons]
    rintro e (rfl | he)
    · exact hgrows'.met (growTracks_meets hstart hspan hmid)
    · exact hmet e he

/-- The tracks that are found have no negative length, and hold what every cell needs. -/
theorem fitTracks_meets {count : Nat} {demands : List Demand} {tracks : List Int}
    (hdemands : ∀ d ∈ demands, d.start < count ∧ 0 < d.span)
    (h : fitTracks count demands = .ok tracks) :
    (∀ track ∈ tracks, 0 ≤ track) ∧ ∀ d ∈ demands, d.Met tracks := by
  have hmem : ∀ d, d ∈ demands.filter (fun d => d.span == 1) ++
      demands.filter (fun d => d.span != 1) ↔ d ∈ demands := by
    intro d
    by_cases hone : d.span = 1 <;> simp [hone]
  obtain ⟨hgrows, hmet⟩ := growAll_meets (fun d hd => by
    rw [List.length_replicate]
    exact hdemands d ((hmem d).1 hd)) h
  refine ⟨?_, fun d hd => hmet d ((hmem d).2 hd)⟩
  unfold Grows at hgrows
  clear h hmet
  generalize hstart : List.replicate count (0 : Int) = start at hgrows
  have hzero : ∀ x ∈ start, x = 0 := hstart ▸ fun x hx => List.eq_of_mem_replicate hx
  clear hstart
  induction hgrows with
  | nil => simp
  | cons hle _ ih =>
    simp only [List.mem_cons, forall_eq_or_imp] at hzero ⊢
    exact ⟨hzero.1 ▸ hle, ih hzero.2⟩

/-! ## Where tracks begin and end -/

/-- The tracks before a cell and those of the cell are the tracks before its end. -/
theorem sum_take_add_extent (tracks : List Int) (start span : Nat) :
    (tracks.take start).sum + extent tracks start span = (tracks.take (start + span)).sum := by
  rw [List.take_add, List.sum_append]
  rfl

theorem sum_take_mono {tracks : List Int} (hnonneg : ∀ track ∈ tracks, 0 ≤ track) {m n : Nat}
    (hle : m ≤ n) : (tracks.take m).sum ≤ (tracks.take n).sum :=
  (List.take_sublist_take_left hle).sum_le_sum fun track ht =>
    hnonneg track (List.mem_of_mem_take ht)

theorem trackStart_eq_ok {origin x : Int} {tracks : List Int} {index : Nat}
    (h : trackStart origin tracks index = .ok x) : x = origin + (tracks.take index).sum := by
  obtain ⟨before, hbefore, h⟩ := Length.bind_eq_ok.1 h
  rw [(Length.add_eq_ok.1 h).1, (Length.total_plain_eq_ok.1 hbefore).1]

end Trellis.Grid
