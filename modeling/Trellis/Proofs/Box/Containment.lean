import Trellis.Proofs.Box.Weights

/-!
# A line stays inside its container

Unless a line is too narrow, its children take no more than the space between the paddings, however
the space is shared out, and their margin boxes stand side by side from where the line is packed.

* `Abut`: spans that follow one another without gap or overlap.
* `abut_place`: children are placed margin box after margin box.
* `placed_of_place`: each with its main length, and aligned; `cross_of_alignCross`: how far across.
* `sum_mains_le`: the children fit, in a line that is tight as in one with room to spare.
* `solve_contained`: both for a whole line.
-/
namespace Trellis.Box

variable {ω : Type}

/-- Each span begins where the one before it ends, from `start` to `finish`. -/
def Abut : (start : Int) → List (Int × Int) → (finish : Int) → Prop
  | start, [], finish => start = finish
  | start, span :: rest, finish => span.1 = start ∧ span.1 ≤ span.2 ∧ Abut span.2 rest finish

/-- The margin box of a child on the main axis: where it begins and where it ends. -/
def outerSpan (a : Axis) (rect : Rect) (margins : Sides) : Int × Int :=
  (a.mainPos rect - a.mainStart margins, a.mainPos rect + a.main rect.size + a.mainEnd margins)

/-- The margin boxes of a line's children on the main axis, in source order. -/
def outerSpans (a : Axis) (rects : List Rect) (boxes : List (Request ω)) : List (Int × Int) :=
  (rects.zip boxes).map fun (rect, r) => outerSpan a rect r.margins

namespace Abut

variable {start finish : Int} {spans : List (Int × Int)}

theorem fst_head (h : Abut start spans finish) {span : Int × Int} (hspan : span ∈ spans.head?) :
    span.1 = start := by
  cases spans with
  | nil => cases hspan
  | cons first rest =>
    cases hspan
    exact h.1

theorem snd_getLast (h : Abut start spans finish) {span : Int × Int}
    (hspan : span ∈ spans.getLast?) : span.2 = finish := by
  induction spans generalizing start with
  | nil => cases hspan
  | cons first rest ih =>
    obtain ⟨-, -, hrest⟩ := h
    cases rest with
    | nil =>
      cases hspan
      exact hrest
    | cons second rest =>
      rw [List.getLast?_cons_cons] at hspan
      exact ih hrest hspan

/-- Spans that are moved together. -/
theorem shift (h : Abut start spans finish) (distance : Int) :
    Abut (start + distance) (spans.map fun span => (span.1 + distance, span.2 + distance))
      (finish + distance) := by
  induction spans generalizing start with
  | nil => exact congrArg (· + distance) h
  | cons first rest ih =>
    obtain ⟨rfl, hle, hrest⟩ := h
    exact ⟨rfl, Int.add_le_add_right hle distance, ih hrest⟩

end Abut

theorem abut_place {space : Space} {innerCross maxCross offset : Int}
    {items : List (Int × Request ω)} {rects : List Rect}
    (hnonneg : ∀ item ∈ items, 0 ≤ item.1 ∧ 0 ≤ item.2.mainMargin space.axis)
    (h : place space innerCross maxCross offset items = .ok rects) :
    Abut offset (outerSpans space.axis rects (items.map Prod.snd))
      (offset + (items.map fun item => item.1 + item.2.mainMargin space.axis).sum) := by
  induction items generalizing offset rects with
  | nil =>
    cases h
    show offset = offset + 0
    omega
  | cons item rest ih =>
    obtain ⟨main, r⟩ := item
    simp only [place, Length.bind_eq_ok] at h
    obtain ⟨⟨crossPos, cross⟩, -, mainPos, hpos, mainEnd, hend, next, hnext, others, hrest, h⟩ := h
    cases h
    have hpos' := (Length.add_eq_ok.1 hpos).1
    have hend' := (Length.add_eq_ok.1 hend).1
    have hnext' := (Length.add_eq_ok.1 hnext).1
    obtain ⟨hmain, hmargin⟩ := hnonneg (main, r) (by simp)
    have hrest' := ih (fun item hi => hnonneg item (by simp [hi])) hrest
    simp only [Request.mainMargin] at hmain hmargin
    have hspan : outerSpan space.axis (space.axis.rect mainPos crossPos main cross) r.margins =
        (offset, next) := by
      simp only [outerSpan, Axis.mainPos_rect, Axis.main_size_rect, Prod.mk.injEq]
      omega
    show Abut offset
      (outerSpan space.axis (space.axis.rect mainPos crossPos main cross) r.margins ::
        outerSpans space.axis others (rest.map Prod.snd)) _
    rw [hspan, List.map_cons, List.sum_cons]
    refine ⟨rfl, by show offset ≤ next; omega, ?_⟩
    have hfinish : offset + (main + r.mainMargin space.axis +
        (rest.map fun item => item.1 + item.2.mainMargin space.axis).sum) =
        next + (rest.map fun item => item.1 + item.2.mainMargin space.axis).sum := by
      simp only [Request.mainMargin]
      omega
    rw [hfinish]
    exact hrest'

/-- The main lengths of a line that is not too narrow, with the margins, stay within the line. -/
theorem sum_mains_le [Weight ω] {weigh : Nat → ω} {count : ω → Nat} {a : Axis} {innerMain : Int}
    {boxes : List (Request ω)} {s : Summary} {lengths : List Int} (ht : Totals a innerMain boxes s)
    (hnonneg : ∀ r ∈ boxes, r.Nonneg) (hfits : s.tooNarrow = false)
    (hweigh : ∀ r ∈ boxes, r.isFlexed a = true → weigh (count r.flex) = r.flex)
    (hw : Weight.Exact weigh (flexCount count a boxes) innerMain)
    (h : mains a innerMain s boxes = .ok lengths) :
    lengths.sum + (boxes.map (Request.mainMargin a)).sum ≤ innerMain ∧ ∀ n ∈ lengths, 0 ≤ n := by
  have hminimum : s.minimumMain ≤ innerMain := by
    have := ht.tooNarrow
    rw [hfits] at this
    simpa using this.symm
  unfold mains at h
  rw [if_neg (by simp [hfits])] at h
  split at h
  · next hshort =>
    exact ⟨Int.le_of_eq (sum_tightMains ht hminimum hshort h), tightMains_nonneg hnonneg h⟩
  · exact roomyMains_fit ht hnonneg (by omega) hweigh hw h

theorem packOffset_mem {free : Int} (hfree : 0 ≤ free) (p : Pack) :
    0 ≤ packOffset free p ∧ packOffset free p ≤ free := by
  cases p with
  | start => exact ⟨Int.le_refl 0, hfree⟩
  | center =>
    rw [packOffset, Int.tdiv_eq_ediv_of_nonneg hfree]
    omega
  | finish => exact ⟨hfree, Int.le_refl free⟩

theorem innerMain_nonneg {space : Space} {inner : Int} (h : space.innerMain = .ok inner) :
    0 ≤ inner := by
  simp only [Space.innerMain, Length.bind_eq_ok] at h
  obtain ⟨sides, -, length, -, h⟩ := h
  cases h
  exact Int.le_max_right ..

variable [Weight ω] {boxes : List (Request ω)} {space : Space} {solution : Solution}

/-- What a line that is laid out comes to, unless it has no children. -/
theorem solve_eq_ok (hne : boxes ≠ []) (h : solve boxes space = .ok solution) :
    ∃ innerMain innerCross lengths used start,
      space.innerMain = .ok innerMain ∧ space.innerCross = .ok innerCross ∧
      summarize space.axis innerMain boxes = .ok solution.summary ∧
      mains space.axis innerMain solution.summary boxes = .ok lengths ∧
      Box.used space.axis boxes lengths = .ok used ∧
      start = space.axis.mainStart space.padding + packOffset (max (innerMain - used) 0) space.pack ∧
      place space innerCross solution.summary.maxCross start (lengths.zip boxes) =
        .ok solution.rects := by
  unfold solve at h
  rw [if_neg (by simpa using hne)] at h
  obtain ⟨innerMain, hinner, h⟩ := Length.bind_eq_ok.1 h
  obtain ⟨innerCross, hcross, h⟩ := Length.bind_eq_ok.1 h
  obtain ⟨summary, hsummary, h⟩ := Length.bind_eq_ok.1 h
  obtain ⟨lengths, hlengths, h⟩ := Length.bind_eq_ok.1 h
  obtain ⟨used, hused, h⟩ := Length.bind_eq_ok.1 h
  obtain ⟨free, hfree, h⟩ := Length.bind_eq_ok.1 h
  obtain ⟨start, hstart, h⟩ := Length.bind_eq_ok.1 h
  obtain ⟨rects, hrects, h⟩ := Length.bind_eq_ok.1 h
  cases h
  refine ⟨innerMain, innerCross, lengths, used, start, hinner, hcross, hsummary, hlengths, hused,
    ?_, hrects⟩
  rw [(Length.add_eq_ok.1 hstart).1, (Length.sub_eq_ok.1 hfree).1]

section

omit [Weight ω]

variable {innerCross maxCross offset : Int} {items : List (Int × Request ω)} {rects : List Rect}

/-- However a child is aligned, its cross length is its own, or stretched within its bounds. -/
theorem cross_of_alignCross {crossPos cross : Int} {r : Request ω}
    (h : alignCross space innerCross maxCross r = .ok (crossPos, cross)) :
    cross = r.resolvedCross space.axis ∨
      ∃ n, cross = (r.crossBounds space.axis).grounded.constrain n := by
  simp only [alignCross] at h
  obtain ⟨margins, -, h⟩ := Length.bind_eq_ok.1 h
  obtain ⟨origin, -, h⟩ := Length.bind_eq_ok.1 h
  cases halign : space.align with
  | start =>
    rw [halign] at h
    cases h
    exact .inl rfl
  | middle =>
    rw [halign] at h
    obtain ⟨_, -, h⟩ := Length.bind_eq_ok.1 h
    obtain ⟨spare, -, h⟩ := Length.bind_eq_ok.1 h
    split at h
    · obtain ⟨_, -, h⟩ := Length.bind_eq_ok.1 h
      cases h
      exact .inl rfl
    · cases h
      exact .inl rfl
  | stretch | stretchMax =>
    rw [halign] at h
    obtain ⟨length, -, h⟩ := Length.bind_eq_ok.1 h
    cases h
    exact .inr ⟨_, rfl⟩

/-- The rectangle of a child with a main length: it has that length, and the child is aligned. -/
def Placed (space : Space) (innerCross maxCross : Int) (item : Int × Request ω) (rect : Rect) :
    Prop :=
  ∃ mainPos crossPos cross, alignCross space innerCross maxCross item.2 = .ok (crossPos, cross) ∧
    rect = space.axis.rect mainPos crossPos item.1 cross

theorem placed_of_place (h : place space innerCross maxCross offset items = .ok rects) :
    List.Forall₂ (Placed space innerCross maxCross) items rects := by
  induction items generalizing offset rects with
  | nil =>
    cases h
    exact .nil
  | cons item rest ih =>
    simp only [place, Length.bind_eq_ok] at h
    obtain ⟨⟨crossPos, cross⟩, halign, mainPos, -, _, -, _, -, others, hrest, h⟩ := h
    cases h
    exact .cons ⟨mainPos, crossPos, cross, halign, rfl⟩ (ih hrest)

/-- The children of a line have the main lengths they are placed with. -/
theorem map_main_place (h : place space innerCross maxCross offset items = .ok rects) :
    (rects.map fun rect => space.axis.main rect.size) = items.map Prod.fst := by
  replace h := placed_of_place h
  induction h with
  | nil => rfl
  | cons hplaced _ ih =>
    obtain ⟨_, _, _, -, rfl⟩ := hplaced
    rw [List.map_cons, List.map_cons, ih, Axis.main_size_rect]

end

/-- The children of a line have the main lengths that are found for it. -/
theorem mains_of_solve (hne : boxes ≠ []) (h : solve boxes space = .ok solution) :
    ∃ inner used, space.innerMain = .ok inner ∧
      summarize space.axis inner boxes = .ok solution.summary ∧
      mains space.axis inner solution.summary boxes =
        .ok (solution.rects.map fun rect => space.axis.main rect.size) ∧
      solution.usedMain space.axis boxes = .ok used := by
  obtain ⟨inner, _, lengths, used, _, hinner, -, hsummary, hlengths, hused, -, hrects⟩ :=
    solve_eq_ok hne h
  have hlength := length_mains hlengths
  have hmains : (solution.rects.map fun rect => space.axis.main rect.size) = lengths := by
    rw [map_main_place hrects]
    exact List.map_fst_zip (by omega)
  refine ⟨inner, used, hinner, hsummary, ?_, ?_⟩
  · rw [hmains]
    exact hlengths
  · rw [Solution.usedMain, hmains]
    exact hused

/-- The children of a line that is not too narrow stand side by side, and take no more than the
space between the paddings. -/
theorem contained_of_solve {weigh : Nat → ω} {count : ω → Nat} {inner : Int}
    (hnonneg : ∀ r ∈ boxes, r.Nonneg) (hinner : space.innerMain = .ok inner)
    (hweigh : ∀ r ∈ boxes, r.isFlexed space.axis = true → weigh (count r.flex) = r.flex)
    (hw : Weight.Exact weigh (flexCount count space.axis boxes) inner)
    (h : solve boxes space = .ok solution) (hfits : solution.summary.tooNarrow = false) :
    ∃ used, solution.usedMain space.axis boxes = .ok used ∧ used ≤ inner ∧
      solution.rects.length = boxes.length ∧
      Abut (space.axis.mainStart space.padding + packOffset (inner - used) space.pack)
        (outerSpans space.axis solution.rects boxes)
        (space.axis.mainStart space.padding + packOffset (inner - used) space.pack + used) := by
  have hinner_nonneg := innerMain_nonneg hinner
  by_cases hne : boxes = []
  · subst hne
    cases h
    exact ⟨0, rfl, hinner_nonneg, rfl, by simp [Abut, outerSpans, Solution.empty]⟩
  · obtain ⟨innerMain, innerCross, lengths, used, start, hinner', -, hsummary, hlengths, hused,
      rfl, hrects⟩ := solve_eq_ok hne h
    rw [hinner] at hinner'
    cases hinner'
    have hlength := length_mains hlengths
    obtain ⟨hsum, hmain⟩ :=
      sum_mains_le (totals_of_summarize hsummary) hnonneg hfits hweigh hw hlengths
    have hused' := used_eq_ok hlength hused
    have hsnd : (lengths.zip boxes).map Prod.snd = boxes := List.map_snd_zip (by omega)
    have hfst : (lengths.zip boxes).map Prod.fst = lengths := List.map_fst_zip (by omega)
    have hitems : ∀ item ∈ lengths.zip boxes, 0 ≤ item.1 ∧ 0 ≤ item.2.mainMargin space.axis :=
      fun item hi => ⟨hmain _ (List.of_mem_zip hi).1,
        Request.mainMargin_nonneg (hnonneg _ (List.of_mem_zip hi).2) _⟩
    have habut := abut_place hitems hrects
    rw [hsnd, sum_outer_zip hlength, ← hused'] at habut
    refine ⟨used, ?_, by omega, ?_, ?_⟩
    · rw [Solution.usedMain, map_main_place hrects, hfst]
      exact hused
    · rw [length_place hrects, List.length_zip]
      omega
    · rwa [show max (inner - used) 0 = inner - used by omega] at habut

/-- A line that is not too narrow stays inside its container: what its children take, margins
included, is at most the space between the paddings, and their margin boxes follow one another in
source order, from where the line is packed to the end of that space at the latest. -/
theorem solve_contained {weigh : Nat → ω} {count : ω → Nat} {inner : Int}
    (hnonneg : ∀ r ∈ boxes, r.Nonneg) (hinner : space.innerMain = .ok inner)
    (hweigh : ∀ r ∈ boxes, r.isFlexed space.axis = true → weigh (count r.flex) = r.flex)
    (hw : Weight.Exact weigh (flexCount count space.axis boxes) inner)
    (h : solve boxes space = .ok solution) (hfits : solution.summary.tooNarrow = false) :
    ∃ used finish, solution.usedMain space.axis boxes = .ok used ∧ used ≤ inner ∧
      solution.rects.length = boxes.length ∧
      Abut (space.axis.mainStart space.padding + packOffset (inner - used) space.pack)
        (outerSpans space.axis solution.rects boxes) finish ∧
      finish ≤ space.axis.mainStart space.padding + inner ∧
      (space.pack = .finish → finish = space.axis.mainStart space.padding + inner) := by
  obtain ⟨used, hused, hle, hlength, habut⟩ :=
    contained_of_solve hnonneg hinner hweigh hw h hfits
  have hoffset := (packOffset_mem (show 0 ≤ inner - used by omega) space.pack).2
  refine ⟨used, _, hused, hle, hlength, habut, by omega, fun hpack => ?_⟩
  rw [hpack, packOffset]
  omega

/-- Two children that share 100 pixels by weight up to their upper bounds, and one of 20 pixels. -/
def boundedLine : List (Request Nat) :=
  [⟨none, none, ⟨5, 5⟩, ⟨none, some 10⟩, ⟨none, none⟩, 1, ⟨0, 2, 0, 1⟩⟩,
    ⟨none, none, ⟨5, 5⟩, ⟨some 4, some 15⟩, ⟨none, none⟩, 3, .zero⟩,
    ⟨some 20, none, ⟨5, 5⟩, ⟨none, none⟩, ⟨none, none⟩, 0, .zero⟩]

/-- Packed at the end of 95 pixels, the line takes 48 and leaves 47 before its first child. -/
theorem boundedLine_contained :
    ∃ solution, solve boundedLine ⟨.horizontal, ⟨100, 20⟩, .finish, .stretch, ⟨0, 0, 0, 5⟩⟩ =
        .ok solution ∧
      solution.summary.tooNarrow = false ∧
      ∃ used finish, solution.usedMain .horizontal boundedLine = .ok used ∧
        used ≤ 95 ∧ solution.rects.length = 3 ∧
        Abut (5 + (95 - used)) (outerSpans .horizontal solution.rects boundedLine) finish ∧
        finish ≤ 5 + 95 ∧ (Pack.finish = .finish → finish = 5 + 95) :=
  have h : solve boundedLine ⟨.horizontal, ⟨100, 20⟩, .finish, .stretch, ⟨0, 0, 0, 5⟩⟩ =
      .ok ⟨[⟨53, 0, 10, 20⟩, ⟨65, 0, 15, 20⟩, ⟨80, 0, 20, 20⟩], ⟨5, 20, 3, 27, 27, -68, false⟩⟩ := by
    decide +kernel
  ⟨_, h, rfl, @solve_contained _ _ _ _ _ id id 95 (by decide) rfl (fun _ _ _ => rfl)
    (Weight.exact_nat _ 95) h rfl⟩

end Trellis.Box
