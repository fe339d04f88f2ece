import Mathlib.Algebra.Order.BigOperators.Group.List
import Trellis.Grid
import Trellis.Proofs.Totals

/-!
# Growing is exact and even

What a cell lacks is shared by the tracks that it spans: each of them takes an even share, and the
first ones what remains, a pixel each. Growths that are level in this sense are determined by how
many there are and what they come to, so there is one way only in which tracks can grow evenly, and
it is the one in which they grow.

* `Level.eq`: as many level growths that come to the same are the same.
* `eq_spread_iff`: tracks that share something evenly, told by their sum and their growths.
* `spanned_splice`, `getElem?_splice`: what a change of the spanned tracks changes.
* `grownEvenly_iff`: the one way in which tracks grow evenly.
* `growTracks_eq_ok`: growing, with every length on the way.
* `growTracks_grows_evenly`: both for all tracks.
-/
namespace Trellis.Grid

open Length (Fits)

/-- The `span` tracks from `start` on, those of them that there are. -/
def spanned (tracks : List Int) (start span : Nat) : List Int := (tracks.drop start).take span

/-- What the `span` tracks from `start` on hold together. -/
def extent (tracks : List Int) (start span : Nat) : Int := ((tracks.drop start).take span).sum

/-- No track of `grown` is shorter than it is in `tracks`. -/
def Grows (tracks grown : List Int) : Prop := List.Forall₂ (· ≤ ·) tracks grown

theorem length_spanned (tracks : List Int) (start span : Nat) :
    (spanned tracks start span).length = min span (tracks.length - start) := by
  rw [spanned, List.length_take, List.length_drop]

theorem extent_eq_sum (tracks : List Int) (start span : Nat) :
    extent tracks start span = (spanned tracks start span).sum :=
  rfl

theorem Grows.refl (tracks : List Int) : Grows tracks tracks :=
  List.forall₂_same.2 fun _ _ => Int.le_refl _

/-! ## Level growths -/

/-- By how much each track has grown. -/
def growths (tracks grown : List Int) : List Int :=
  List.zipWith (fun old new => new - old) tracks grown

/-- No growth is larger than an earlier one, nor smaller by more than one. -/
def Level (growths : List Int) : Prop :=
  growths.Pairwise fun earlier later => later ≤ earlier ∧ earlier ≤ later + 1

namespace Level

variable {x y : Int} {xs ys : List Int}

/-- Level growths that come to no more than as many others do not begin with a larger one. -/
theorem head_le (hx : Level (x :: xs)) (hy : Level (y :: ys)) (hlength : xs.length = ys.length)
    (hsum : x + xs.sum ≤ y + ys.sum) : x ≤ y := by
  obtain ⟨hxs, -⟩ := List.pairwise_cons.1 hx
  obtain ⟨hys, -⟩ := List.pairwise_cons.1 hy
  by_contra hlt
  -- otherwise none of `xs` is below `y`, and none of `ys` above it
  have hbelow : xs.length • y ≤ xs.sum := xs.card_nsmul_le_sum y fun z hz => by
    have := hxs z hz
    omega
  have habove : ys.sum ≤ ys.length • y := ys.sum_le_card_nsmul y fun z hz => (hys z hz).1
  rw [hlength] at hbelow
  omega

theorem eq (hx : Level xs) (hy : Level ys) (hlength : xs.length = ys.length)
    (hsum : xs.sum = ys.sum) : xs = ys := by
  induction xs generalizing ys with
  | nil => exact (List.length_eq_zero_iff.1 hlength.symm).symm
  | cons x xs ih =>
    cases ys with
    | nil => cases hlength
    | cons y ys =>
      rw [List.length_cons, List.length_cons, Nat.succ_inj] at hlength
      rw [List.sum_cons, List.sum_cons] at hsum
      have hhead : x = y := Int.le_antisymm (hx.head_le hy hlength (by omega))
        (hy.head_le hx hlength.symm (by omega))
      rw [hhead, ih (List.pairwise_cons.1 hx).2 (List.pairwise_cons.1 hy).2 hlength (by omega)]

end Level

/-! ## Even parts -/

/-- What the track at position `i` takes of `excess` when `count` tracks share it: an even share,
and one more at the first positions, as many as remain. -/
def part (excess : Int) (count i : Nat) : Int :=
  excess / count + if (i : Int) < excess % count then 1 else 0

/-- What each of `count` tracks takes. -/
def parts (excess : Int) (count : Nat) : List Int := (List.range count).map (part excess count)

theorem level_parts (excess : Int) (count : Nat) : Level (parts excess count) := by
  refine List.pairwise_map.2 (List.pairwise_lt_range.imp fun {i j} hij => ?_)
  unfold part
  split <;> split <;> omega

/-- The shares of `n` tracks, and one more for each position below the remainder. -/
theorem sum_shares (share : Int) {remainder : Int} (hremainder : 0 ≤ remainder) (n : Nat) :
    ((List.range n).map fun i : Nat => share + if (i : Int) < remainder then 1 else 0).sum =
      n * share + min remainder n := by
  induction n with
  | zero =>
    simp only [List.range_zero, List.map_nil, List.sum_nil]
    omega
  | succ n ih =>
    rw [List.range_succ, List.map_append, List.sum_append, ih, List.map_singleton,
      List.sum_singleton, Int.natCast_add, Int.add_mul]
    split <;> omega

/-- Nothing is lost in sharing. -/
theorem sum_parts {excess : Int} {count : Nat} (hcount : 0 < count) :
    (parts excess count).sum = excess := by
  have hremainder := Int.emod_nonneg excess (b := count) (by omega)
  have hlt := Int.emod_lt_of_pos excess (b := count) (by omega)
  unfold parts part
  rw [sum_shares _ hremainder, Int.min_eq_left (by omega), Int.mul_ediv_add_emod]

/-- No part is negative, and none is more than the whole. -/
theorem part_mem {excess : Int} (hexcess : 0 ≤ excess) {count i : Nat} (hi : i < count) :
    0 ≤ part excess count i ∧ part excess count i ≤ excess := by
  have hremainder := Int.emod_nonneg excess (b := count) (by omega)
  have hshare : 0 ≤ excess / count := Int.ediv_nonneg hexcess (by omega)
  have hshares : excess / count ≤ count * (excess / count) :=
    le_mul_of_one_le_left hshare (by omega)
  have hwhole := Int.mul_ediv_add_emod excess count
  unfold part
  split <;> omega

/-- The tracks when they have shared `excess`. -/
def spread (excess : Int) (tracks : List Int) : List Int :=
  List.zipWith (· + ·) tracks (parts excess tracks.length)

section

variable {excess : Int} {tracks grown : List Int}

theorem length_spread (excess : Int) (tracks : List Int) :
    (spread excess tracks).length = tracks.length := by
  simp [spread, parts]

theorem spread_zero (tracks : List Int) : spread 0 tracks = tracks := by
  refine List.ext_getElem (length_spread ..) fun i _ _ => ?_
  simp [spread, parts, part]

theorem growths_spread (excess : Int) (tracks : List Int) :
    growths tracks (spread excess tracks) = parts excess tracks.length := by
  refine List.ext_getElem (by simp [growths, spread, parts]) fun i _ _ => ?_
  simp only [growths, spread, List.getElem_zipWith]
  omega

theorem grows_spread (hexcess : 0 ≤ excess) : Grows tracks (spread excess tracks) := by
  refine List.forall₂_iff_get.2 ⟨(length_spread ..).symm, fun i hi _ => ?_⟩
  have := (part_mem hexcess hi).1
  simp only [spread, parts, List.get_eq_getElem, List.getElem_zipWith, List.getElem_map,
    List.getElem_range]
  omega

theorem zipWith_add_growths (hlength : grown.length = tracks.length) :
    List.zipWith (· + ·) tracks (growths tracks grown) = grown := by
  refine List.ext_getElem (by simp [growths, hlength]) fun i _ _ => ?_
  simp only [growths, List.getElem_zipWith]
  omega

theorem sum_growths (hlength : grown.length = tracks.length) :
    grown.sum = tracks.sum + (growths tracks grown).sum := by
  induction tracks generalizing grown with
  | nil => simp [growths, List.length_eq_zero_iff.1 hlength]
  | cons track rest ih =>
    cases grown with
    | nil => cases hlength
    | cons first others =>
      have := ih (Nat.succ_inj.1 hlength)
      simp only [growths, List.zipWith_cons_cons, List.sum_cons] at this ⊢
      omega

theorem sum_spread (hsome : 0 < tracks.length) :
    (spread excess tracks).sum = tracks.sum + excess := by
  rw [sum_growths (length_spread ..), growths_spread, sum_parts hsome]

/-- Tracks have shared `excess` if this is what they have grown by, and their growths are level. -/
theorem eq_spread_iff (hsome : 0 < tracks.length) (hlength : grown.length = tracks.length) :
    grown = spread excess tracks ↔
      grown.sum = tracks.sum + excess ∧ Level (growths tracks grown) := by
  constructor
  · rintro rfl
    exact ⟨sum_spread hsome, growths_spread excess tracks ▸ level_parts ..⟩
  · rintro ⟨hsum, hlevel⟩
    have hgrown := sum_growths hlength
    have hparts : growths tracks grown = parts excess tracks.length :=
      hlevel.eq (level_parts ..) (by simp [growths, parts, hlength])
        (by rw [sum_parts hsome]; omega)
    rw [spread, ← hparts, zipWith_add_growths hlength]

/-- A length is shared unless a track that has grown is none. -/
theorem addEvenly_eq_ok (hexcess : 0 ≤ excess) (hfits : Fits excess) :
    addEvenly (excess / tracks.length) (excess % tracks.length) tracks = .ok grown ↔
      grown = spread excess tracks ∧ ∀ track ∈ grown, Fits track := by
  have hspread : spread excess tracks =
      tracks.zipIdx.map fun e => e.1 + part excess tracks.length e.2 := by
    refine List.ext_getElem (by simp [spread, parts]) fun i _ _ => ?_
    simp [spread, parts]
  have hstep : ∀ e ∈ tracks.zipIdx, ∀ y, (do
      Length.add e.1 (← Length.add (excess / tracks.length)
        (if (e.2 : Int) < excess % tracks.length then 1 else 0))) = .ok y ↔
      y = e.1 + part excess tracks.length e.2 ∧ Fits (e.1 + part excess tracks.length e.2) := by
    intro e he y
    have hi : e.2 < tracks.length := by simpa using List.snd_lt_of_mem_zipIdx he
    have hpart := part_mem hexcess hi
    have hadd : Length.add (excess / tracks.length)
        (if (e.2 : Int) < excess % tracks.length then 1 else 0) =
          .ok (part excess tracks.length e.2) := by
      refine Length.add_eq_ok.2 ⟨rfl, ?_⟩
      change Fits (part excess tracks.length e.2)
      unfold Fits Length.least at *
      omega
    rw [hadd, Length.ok_bind, Length.add_eq_ok]
  rw [addEvenly, Length.mapM_eq_ok_iff_map hstep, ← hspread]
  refine and_congr_right fun heq => ?_
  rw [heq, hspread, List.forall_mem_map]

end

/-! ## Spanned tracks among the others -/

/-- The tracks with `within` in the place of those that are spanned. -/
def splice (tracks : List Int) (start span : Nat) (within : List Int) : List Int :=
  tracks.take start ++ within ++ (tracks.drop start).drop span

section

variable {tracks within grown : List Int} {start span : Nat}

theorem splice_spanned (tracks : List Int) (start span : Nat) :
    splice tracks start span (spanned tracks start span) = tracks := by
  rw [splice, spanned, List.append_assoc, List.take_append_drop, List.take_append_drop]

theorem grows_splice (h : Grows (spanned tracks start span) within) :
    Grows tracks (splice tracks start span within) := by
  unfold Grows
  conv => lhs; rw [← splice_spanned tracks start span]
  exact List.rel_append (List.rel_append (Grows.refl _) h) (Grows.refl _)

theorem length_splice (hlength : within.length = (spanned tracks start span).length) :
    (splice tracks start span within).length = tracks.length := by
  rw [length_spanned] at hlength
  simp only [splice, List.length_append, List.length_take, List.length_drop]
  omega

theorem spanned_splice (hlength : within.length = (spanned tracks start span).length) :
    spanned (splice tracks start span within) start span = within := by
  rw [length_spanned] at hlength
  rw [splice, spanned, List.append_assoc]
  by_cases hstart : start ≤ tracks.length
  · rw [List.drop_left' (by rw [List.length_take]; omega)]
    by_cases hclipped : tracks.length - start ≤ span
    · have hnone : (tracks.drop start).drop span = [] := by
        rw [List.drop_eq_nil_iff, List.length_drop]
        exact hclipped
      rw [hnone, List.append_nil, List.take_of_length_le (by omega)]
    · rw [List.take_left' (by omega)]
  · have hnone : within = [] := List.length_eq_zero_iff.1 (by omega)
    have hafter : tracks.drop (start + span) = [] := List.drop_eq_nil_of_le (by omega)
    rw [hnone, List.nil_append, List.drop_drop, hafter, List.append_nil,
      List.drop_eq_nil_of_le (by rw [List.length_take]; omega), List.take_nil]

theorem getElem?_splice (hlength : within.length = (spanned tracks start span).length) {i : Nat}
    (hi : i < start ∨ start + span ≤ i) : (splice tracks start span within)[i]? = tracks[i]? := by
  have htotal := length_splice hlength
  rw [length_spanned] at hlength
  by_cases hend : tracks.length ≤ i
  · rw [List.getElem?_eq_none hend, List.getElem?_eq_none (by omega)]
  rcases hi with hbefore | hafter
  · rw [splice, List.append_assoc, List.getElem?_append_left (by rw [List.length_take]; omega),
      List.getElem?_take_of_lt hbefore]
  · have hfront : (tracks.take start ++ within).length = start + span := by
      rw [List.length_append, List.length_take]
      omega
    rw [splice, List.getElem?_append_right (by omega), hfront, List.drop_drop, List.getElem?_drop,
      Nat.add_sub_cancel' hafter]

/-- Tracks that are the same apart from those that are spanned. -/
theorem eq_splice (h : ∀ i, i < start ∨ start + span ≤ i → grown[i]? = tracks[i]?) :
    grown = splice tracks start span (spanned grown start span) := by
  have hbefore : grown.take start = tracks.take start := by
    refine List.ext_getElem? fun i => ?_
    rw [List.getElem?_take, List.getElem?_take]
    split
    · next hi => exact h i (.inl hi)
    · rfl
  have hafter : (grown.drop start).drop span = (tracks.drop start).drop span := by
    refine List.ext_getElem? fun i => ?_
    rw [List.drop_drop, List.drop_drop, List.getElem?_drop, List.getElem?_drop]
    exact h _ (.inr (by omega))
  conv => lhs; rw [← splice_spanned grown start span]
  rw [splice, splice, hbefore, hafter]

end

/-! ## Growing -/

/-- `grown` are the tracks after those that are spanned have grown evenly, until together they hold
what is needed. -/
structure GrownEvenly (tracks : List Int) (start span : Nat) (needed : Int) (grown : List Int) :
    Prop where
  /-- The other tracks are as they were. -/
  outside : ∀ i, i < start ∨ start + span ≤ i → grown[i]? = tracks[i]?
  grows : Grows tracks grown
  /-- Together they hold exactly what is needed, or what they held before if that is more. -/
  sum : spanned tracks start span ≠ [] →
    extent grown start span = max (extent tracks start span) needed
  level : Level (growths (spanned tracks start span) (spanned grown start span))

/-- No length that is formed on the way leaves its range: no running total of the spanned tracks,
not what is missing, and, where something is, no track that has grown. -/
structure GrowthFits (tracks : List Int) (start span : Nat) (needed : Int) (grown : List Int) :
    Prop where
  totals : ∀ n ≤ span, Fits (extent tracks start n)
  missing : spanned tracks start span ≠ [] → Fits (needed - extent tracks start span)
  grown : extent tracks start span < needed → ∀ track ∈ spanned grown start span, Fits track

/-- The tracks after those that are spanned have shared what is missing. -/
def evened (tracks : List Int) (start span : Nat) (needed : Int) : List Int :=
  splice tracks start span
    (spread (max 0 (needed - extent tracks start span)) (spanned tracks start span))

section

variable {tracks grown : List Int} {start span : Nat} {needed : Int}

theorem spanned_evened (tracks : List Int) (start span : Nat) (needed : Int) :
    spanned (evened tracks start span needed) start span =
      spread (max 0 (needed - extent tracks start span)) (spanned tracks start span) :=
  spanned_splice (length_spread ..)

theorem evened_of_le (h : needed ≤ extent tracks start span) :
    evened tracks start span needed = tracks := by
  rw [evened, Int.max_eq_left (by omega), spread_zero, splice_spanned]

theorem evened_of_nil (h : spanned tracks start span = []) :
    evened tracks start span needed = tracks := by
  have hspread : ∀ excess, spread excess [] = [] := fun _ => rfl
  rw [evened, h, hspread, ← h, splice_spanned]

theorem grownEvenly_iff :
    GrownEvenly tracks start span needed grown ↔ grown = evened tracks start span needed := by
  constructor
  · intro h
    have hlength : (spanned grown start span).length = (spanned tracks start span).length := by
      rw [length_spanned, length_spanned, h.grows.length_eq]
    have hwithin : spanned grown start span =
        spread (max 0 (needed - extent tracks start span)) (spanned tracks start span) := by
      by_cases hnone : spanned tracks start span = []
      · rw [hnone, List.length_nil, List.length_eq_zero_iff] at hlength
        rw [hnone, hlength]
        rfl
      · refine (eq_spread_iff (List.length_pos_iff.2 hnone) hlength).2 ⟨?_, h.level⟩
        have hsum := h.sum hnone
        rw [extent_eq_sum, extent_eq_sum] at hsum
        rw [extent_eq_sum]
        omega
    rw [evened, ← hwithin]
    exact eq_splice h.outside
  · rintro rfl
    refine ⟨fun i hi => getElem?_splice (length_spread ..) hi,
      grows_splice (grows_spread (by omega)), fun hsome => ?sum, ?level⟩
    case sum =>
      rw [extent_eq_sum, spanned_evened, sum_spread (List.length_pos_iff.2 hsome), extent_eq_sum]
      omega
    case level =>
      rw [spanned_evened, growths_spread]
      exact level_parts ..

/-- What is missing, if anything is, is shared by the spanned tracks. -/
theorem addMissing_eq_ok (hfits : Fits (needed - extent tracks start span)) :
    (if needed - extent tracks start span ≤ 0 then .ok tracks else do
      let within ← addEvenly
        ((needed - extent tracks start span).tdiv (spanned tracks start span).length)
        ((needed - extent tracks start span).tmod (spanned tracks start span).length)
        (spanned tracks start span)
      return splice tracks start span within) = .ok grown ↔
      grown = evened tracks start span needed ∧
        (extent tracks start span < needed → ∀ track ∈ spanned grown start span, Fits track) := by
  by_cases henough : needed ≤ extent tracks start span
  · rw [if_pos (by omega), evened_of_le henough, Except.ok.injEq, eq_comm]
    exact ⟨fun h => ⟨h, fun hlt => absurd hlt (by omega)⟩, And.left⟩
  · have hpos : 0 ≤ needed - extent tracks start span := by omega
    have hevened := spanned_evened tracks start span needed
    rw [if_neg (by omega), Int.tdiv_eq_ediv_of_nonneg hpos, Int.tmod_eq_emod_of_nonneg hpos]
    rw [Int.max_eq_right hpos] at hevened
    simp only [Length.bind_eq_ok, addEvenly_eq_ok hpos hfits]
    constructor
    · rintro ⟨within, ⟨rfl, hwithin⟩, h⟩
      cases h
      rw [evened, Int.max_eq_right hpos, spanned_splice (length_spread ..)]
      exact ⟨rfl, fun _ => hwithin⟩
    · rintro ⟨rfl, hgrown⟩
      rw [hevened] at hgrown
      refine ⟨_, ⟨rfl, hgrown (by omega)⟩, ?_⟩
      rw [evened, Int.max_eq_right hpos]
      rfl

/-- The running totals of the spanned tracks are what shorter spans hold. -/
theorem fits_extents_iff :
    (∀ n ≤ span, Fits (extent tracks start n)) ↔
      ∀ n, Fits ((spanned tracks start span).take n).sum := by
  simp only [spanned, List.take_take]
  constructor
  · exact fun h n => h (min n span) (Nat.min_le_right ..)
  · intro h n hn
    have := h n
    rwa [Nat.min_eq_left hn] at this

/-- Spanned tracks share what is missing, unless a length leaves its range. -/
theorem growTracks_eq_ok :
    growTracks tracks start span needed = .ok grown ↔
      grown = evened tracks start span needed ∧ GrowthFits tracks start span needed grown := by
  unfold growTracks
  change (if ((spanned tracks start span).length : Int) = 0 then _ else _) = _ ↔ _
  split
  · next hnone =>
    have hnil : spanned tracks start span = [] := List.length_eq_zero_iff.1 (by omega)
    rw [evened_of_nil hnil]
    constructor
    · intro h
      cases h
      refine ⟨rfl, fits_extents_iff.2 fun n => ?_, fun h => absurd hnil h, fun _ => ?_⟩
      · rw [hnil, List.take_nil]
        decide
      · rw [hnil]
        simp
    · rintro ⟨rfl, -⟩
      rfl
  · next hsome =>
    have hne : spanned tracks start span ≠ [] := fun hnil => hsome (by rw [hnil]; rfl)
    simp only [Length.bind_eq_ok, Length.total_plain_eq_ok, Length.sub_eq_ok]
    constructor
    · rintro ⟨_, ⟨rfl, htotals⟩, _, ⟨rfl, hmissing⟩, h⟩
      obtain ⟨heq, hgrown⟩ := (addMissing_eq_ok hmissing).1 h
      exact ⟨heq, fits_extents_iff.2 htotals, fun _ => hmissing, hgrown⟩
    · rintro ⟨heq, hfits⟩
      have hmissing := hfits.missing hne
      exact ⟨_, ⟨rfl, fits_extents_iff.1 hfits.totals⟩, _, ⟨rfl, hmissing⟩,
        (addMissing_eq_ok hmissing).2 ⟨heq, hfits.grown⟩⟩

theorem grownEvenly_of_growTracks (h : growTracks tracks start span needed = .ok grown) :
    GrownEvenly tracks start span needed grown :=
  grownEvenly_iff.2 (growTracks_eq_ok.1 h).1

/-- Whatever is needed of whichever tracks, there is one way in which these grow evenly, and this is
how they grow, unless a length leaves its range on the way. -/
theorem growTracks_grows_evenly (tracks : List Int) (start span : Nat) (needed : Int) :
    (∃! grown, GrownEvenly tracks start span needed grown) ∧
      ∀ grown, growTracks tracks start span needed = .ok grown ↔
        GrownEvenly tracks start span needed grown ∧
          GrowthFits tracks start span needed grown := by
  refine ⟨⟨evened tracks start span needed, grownEvenly_iff.2 rfl, fun _ => grownEvenly_iff.1⟩,
    fun grown => ?_⟩
  rw [growTracks_eq_ok, grownEvenly_iff]

end

/-- Of a span of five tracks there are three, which lack five pixels. -/
example : growTracks [7, 10, 10, 0] 1 5 25 = .ok [7, 12, 12, 1] := by decide

end Trellis.Grid
