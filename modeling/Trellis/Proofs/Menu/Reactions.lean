import Trellis.Proofs.Relayout.Handlers

/-!
# How a menu reacts

A menu that meets a line does one of three things. It *rests* while it has hidden nothing and the
line fits. It *hides* the end of the line if the line does not fit, or does not fit beside the
trigger that the menu needs for what it has hidden already. Otherwise it *shows* the beginning of
what it has hidden, as much as fits.

Showing is greedy: a child is shown if it fits beside the trigger, and the last one if it fits
without. `Reacts.shows` says so for every child on the way.

* `countFitting_eq_ok`: how far showing goes.
* `reacts_of_hideTrailing`, `reacts_of_clear`: hiding, and what a line that fits allows.
* `Reacts`: the three reactions and what is known in each; `react_eq_ok`: there are no others.
-/
namespace Trellis.Box

namespace HiddenItem

/-- The least outer lengths together. -/
def total (items : List HiddenItem) : Int := (items.map HiddenItem.outer).sum

@[simp] theorem total_nil : total [] = 0 := rfl

@[simp] theorem total_cons (item : HiddenItem) (items : List HiddenItem) :
    total (item :: items) = item.outer + total items := rfl

@[simp] theorem total_append (items others : List HiddenItem) :
    total (items ++ others) = total items + total others := by
  simp [total]

theorem total_nonneg {items : List HiddenItem} (h : ∀ item ∈ items, 0 ≤ item.outer) :
    0 ≤ total items := by
  induction items with
  | nil => exact Int.le_refl 0
  | cons item items ih =>
    have hitem := h item (by simp)
    have hrest := ih fun other hother => h other (by simp [hother])
    rw [total_cons]
    omega

end HiddenItem

open HiddenItem (total)

/-- The main length between the paddings, without regard to the range of lengths. -/
def Space.innerLength (s : Space) : Int :=
  max (s.axis.main s.available - (s.axis.mainStart s.padding + s.axis.mainEnd s.padding)) 0

theorem Space.innerLength_nonneg (s : Space) : 0 ≤ s.innerLength := Int.le_max_right ..

theorem Space.innerMain_eq_ok {s : Space} {inner : Int} (h : s.innerMain = .ok inner) :
    inner = s.innerLength := by
  obtain ⟨sides, hsides, h⟩ := Length.bind_eq_ok.1 h
  obtain ⟨length, hlength, h⟩ := Length.bind_eq_ok.1 h
  cases h
  rw [(Length.sub_eq_ok.1 hlength).1, Axis.mainSides_eq_ok hsides]
  rfl

variable {ω : Type} [Weight ω] {boxes : List (Request ω)} {items : List ComponentId}
  {space : Space} {l : Line ω} {inner : Int}

namespace Line

/-- The inner length is read wherever a line holds children. -/
theorem eq_nil_of_innerMain (hl : Line.solve items boxes space = .ok l) {fault : Fault}
    (hinner : space.innerMain = .error fault) : boxes = [] := by
  by_contra hne
  obtain ⟨solution, hsolution, -⟩ := Length.bind_eq_ok.1 hl
  obtain ⟨_, _, _, _, _, hread, -⟩ := solve_eq_ok hne hsolution
  rw [hinner] at hread
  cases hread

/-- A line needs the floors of its children, and is too narrow if they exceed the inner length. -/
theorem measures (hl : Line.solve items boxes space = .ok l) :
    l.minimumMain = floors space.axis boxes ∧
      l.isTooNarrow = decide (space.innerLength < floors space.axis boxes) := by
  cases hinner : space.innerMain with
  | error fault =>
    obtain rfl := eq_nil_of_innerMain hl hinner
    cases hl
    exact ⟨rfl, (decide_eq_false (Int.not_lt.2 space.innerLength_nonneg)).symm⟩
  | ok inner =>
    obtain rfl := Space.innerMain_eq_ok hinner
    have hreads := Line.reads hl hinner
    exact ⟨hreads.minimumMain, hreads.isTooNarrow⟩

end Line

namespace Menu

theorem total_hide (a : Axis) (members : List (ComponentId × Request ω)) :
    total (members.map (hide a)) = floors a (members.map Prod.snd) := by
  simp only [total, floors, List.map_map]
  rfl

/-- What a menu would hide of a whole line is as long as the line's floors. -/
theorem total_line (a : Axis) {items : List ComponentId} {boxes : List (Request ω)}
    (hlength : items.length = boxes.length) :
    total ((items.zip boxes).map (hide a)) = floors a boxes := by
  rw [total_hide, List.map_snd_zip (Nat.le_of_eq hlength.symm)]

/-! ## Showing children -/

/-- As many children are shown as fit one after another. -/
theorem countFitting_eq_ok {trigger used : Int} {hidden : List HiddenItem} {k : Nat}
    (h : countFitting trigger inner used hidden = .ok k) :
    k ≤ hidden.length ∧
      (∀ j, 0 < j → j ≤ k → j < hidden.length →
        used + total (hidden.take j) + trigger ≤ inner) ∧
      (0 < k → k = hidden.length → used + total hidden ≤ inner) ∧
      ∀ first rest, hidden.drop k = first :: rest →
        inner < used + total (hidden.take k) + first.outer +
          if rest.isEmpty then 0 else trigger := by
  induction hidden generalizing used k with
  | nil =>
    cases h
    refine ⟨Nat.le_refl 0, ?_, ?_, ?_⟩
    · intro j _ _ hj
      exact absurd hj (Nat.not_lt_zero j)
    · intro hk
      exact absurd hk (Nat.lt_irrefl 0)
    · intro first rest hdrop
      cases hdrop
  | cons item rest ih =>
    simp only [countFitting, Length.bind_eq_ok] at h
    obtain ⟨withItem, hwith, needed, hneeded, h⟩ := h
    have hwith := (Length.add_eq_ok.1 hwith).1
    have hneeded := (Length.add_eq_ok.1 hneeded).1
    split at h
    · next hshort =>
      cases h
      refine ⟨Nat.zero_le _, ?_, ?_, ?_⟩
      · intro j hj hle
        omega
      · intro hk
        exact absurd hk (Nat.lt_irrefl 0)
      · rintro _ _ ⟨⟩
        rw [List.take_zero, HiddenItem.total_nil]
        omega
    · next hfits =>
      obtain ⟨count, hcount, h⟩ := Length.bind_eq_ok.1 h
      cases h
      obtain ⟨hle, hbeside, hwhole, hfirst⟩ := ih hcount
      refine ⟨Nat.succ_le_succ hle, ?_, ?_, ?_⟩
      · intro j hj hjk hlt
        obtain ⟨j, rfl⟩ := Nat.exists_eq_add_one_of_ne_zero (Nat.ne_of_gt hj)
        rw [List.length_cons, Nat.add_lt_add_iff_right] at hlt
        rw [List.take_succ_cons, HiddenItem.total_cons]
        by_cases hzero : j = 0
        · -- the first child fits beside the trigger, which another one still needs
          subst hzero
          have hmore : rest.isEmpty = false := by
            cases rest with
            | nil => exact absurd hlt (Nat.lt_irrefl 0)
            | cons => rfl
          rw [hmore] at hneeded
          simp only [Bool.false_eq_true, if_false] at hneeded
          rw [List.take_zero, HiddenItem.total_nil]
          omega
        · have hnext := hbeside j (Nat.pos_of_ne_zero hzero) (Nat.le_of_succ_le_succ hjk) hlt
          omega
      · intro _ hall
        rw [List.length_cons, Nat.add_right_cancel_iff] at hall
        rw [HiddenItem.total_cons]
        by_cases hzero : count = 0
        · have hnone : rest = [] := List.length_eq_zero_iff.1 (hall.symm.trans hzero)
          subst hnone
          simp only [List.isEmpty_nil, if_true] at hneeded
          rw [HiddenItem.total_nil]
          omega
        · have hnext := hwhole (Nat.pos_of_ne_zero hzero) hall
          omega
      · intro first others hdrop
        have hnext := hfirst first others hdrop
        rw [List.take_succ_cons, HiddenItem.total_cons]
        omega

/-! ## The three reactions -/

/-- What becomes of a menu that meets a line of which `inner` holds the children in `line`. -/
inductive Reacts (inner : Int) (m : Menu) (line : List HiddenItem) : Menu → Outcome → Prop
  | rests (none : m.hidden = []) (fits : total line ≤ inner) : Reacts inner m line m .nothing
  | hides (shown gone : List HiddenItem) (split : line = shown ++ gone)
      (cause : inner < total line ∨ (m.hidden ≠ [] ∧ inner < total line + m.triggerSize))
      (fits : shown = [] ∨ total shown + m.triggerSize ≤ inner)
      (needed : ∀ first rest, gone = first :: rest →
        inner < total shown + first.outer + m.triggerSize) :
      Reacts inner m line ⟨m.triggerSize, gone ++ m.hidden⟩
        ⟨!gone.isEmpty, gone.map HiddenItem.id, []⟩
  | shows (k : Nat) (some : m.hidden ≠ []) (le : k ≤ m.hidden.length)
      (beside : ∀ j ≤ k, j < m.hidden.length →
        total line + total (m.hidden.take j) + m.triggerSize ≤ inner)
      (whole : k = m.hidden.length → total line + total m.hidden ≤ inner)
      (needed : ∀ first rest, m.hidden.drop k = first :: rest →
        inner < total line + total (m.hidden.take k) + first.outer +
          if rest.isEmpty then 0 else m.triggerSize) :
      Reacts inner m line ⟨m.triggerSize, m.hidden.drop k⟩
        ⟨!(m.hidden.take k).isEmpty, [], (m.hidden.take k).map HiddenItem.id⟩

/-- A menu that asks for no other layout of the line has nothing to hide or show. -/
theorem Reacts.idle {m n : Menu} {line : List HiddenItem} {o : Outcome}
    (h : m.Reacts inner line n o) (hidle : o.recalculate = false) : o = .nothing := by
  cases h with
  | rests => rfl
  | hides shown gone split cause fits needed =>
    have hnone : gone = [] := by simpa using hidle
    rw [hnone]
    rfl
  | shows k some le beside whole needed =>
    have hnone : m.hidden.take k = [] := by simpa using hidle
    rw [hnone]
    rfl

theorem Reacts.triggerSize_eq {m n : Menu} {line : List HiddenItem} {o : Outcome}
    (h : m.Reacts inner line n o) : n.triggerSize = m.triggerSize := by
  cases h <;> rfl

/-- When all children fit, the menu shows them all exactly if it hides none, or if all but the last
one fit beside the trigger. -/
theorem Reacts.hidden_eq_nil_iff {m n : Menu} {line : List HiddenItem} {o : Outcome}
    (h : m.Reacts inner line n o) (hnonneg : ∀ item ∈ m.hidden, 0 ≤ item.outer)
    (hfits : total line + total m.hidden ≤ inner) :
    n.hidden = [] ↔ ∀ init last, m.hidden = init ++ [last] →
      total line + total init + m.triggerSize ≤ inner := by
  have hinit : ∀ {init last}, m.hidden = init ++ [last] → ∀ item ∈ init, 0 ≤ item.outer := by
    intro init last heq item hitem
    refine hnonneg item ?_
    rw [heq]
    exact List.mem_append_left _ hitem
  cases h with
  | rests none fits => simp [none]
  | hides shown gone split cause fits needed =>
    have htotal := HiddenItem.total_nonneg hnonneg
    rcases cause with hlong | ⟨hsome, hlong⟩
    · omega
    · -- some stay hidden, and even what was visible does not fit beside the trigger
      obtain hnone | ⟨init, last, heq⟩ := List.eq_nil_or_concat m.hidden
      · exact absurd hnone hsome
      · rw [List.concat_eq_append] at heq
        have hrest := HiddenItem.total_nonneg (hinit heq)
        refine iff_of_false (fun hnone => hsome (List.append_eq_nil_iff.1 hnone).2) fun hall => ?_
        have hshort := hall init last heq
        omega
  | shows k some le beside whole needed =>
    constructor
    · intro hnone init last heq
      have hall : k = m.hidden.length := Nat.le_antisymm le (List.drop_eq_nil_iff.1 hnone)
      have hcount : m.hidden.length = init.length + 1 := by rw [heq, List.length_append]; rfl
      have hfit := beside init.length (by omega) (by omega)
      rwa [heq, List.take_left' rfl] at hfit
    · intro hall
      by_contra hsome
      obtain ⟨first, rest, hdrop⟩ := List.exists_cons_of_ne_nil hsome
      change m.hidden.drop k = first :: rest at hdrop
      have hlong := needed first rest hdrop
      have hsplit : m.hidden = m.hidden.take k ++ first :: rest := by
        rw [← hdrop, List.take_append_drop]
      obtain rfl | ⟨mid, last, rfl⟩ := List.eq_nil_or_concat rest
      · -- the last one does not need the trigger
        have hparts := congrArg total hsplit
        rw [HiddenItem.total_append, HiddenItem.total_cons, HiddenItem.total_nil] at hparts
        simp only [List.isEmpty_nil, if_true] at hlong
        omega
      · have heq : m.hidden = (m.hidden.take k ++ first :: mid) ++ [last] := by
          rw [List.append_assoc, List.cons_append, ← List.concat_eq_append]
          exact hsplit
        have hshort := hall _ last heq
        have hmid : 0 ≤ total mid := HiddenItem.total_nonneg fun item hitem =>
          hinit heq item (by simp [hitem])
        rw [HiddenItem.total_append, HiddenItem.total_cons] at hshort
        rw [if_neg (by simp)] at hlong
        omega

theorem total_reverse_hide (a : Axis) (members : List (ComponentId × Request ω)) :
    total (members.reverse.map (hide a)) = total (members.map (hide a)) := by
  rw [List.map_reverse, total, List.map_reverse, List.sum_reverse]
  rfl

/-- Children are hidden from the end of the line until enough is freed. -/
theorem reacts_of_hideTrailing (hl : l.Reads items boxes space inner) {m n : Menu} {o : Outcome}
    {delta : Int}
    (hdelta : delta = total ((items.zip boxes).map (hide space.axis)) + m.triggerSize - inner)
    (hcause : inner < total ((items.zip boxes).map (hide space.axis)) ∨
      (m.hidden ≠ [] ∧
        inner < total ((items.zip boxes).map (hide space.axis)) + m.triggerSize))
    (h : m.hideTrailing l delta = .ok (n, o)) :
    m.Reacts inner ((items.zip boxes).map (hide space.axis)) n o := by
  obtain ⟨taken, htaken, h⟩ := Length.bind_eq_ok.1 h
  rw [hl.axis, hl.members] at htaken
  obtain ⟨pre, rest, hsplit, rfl, henough, hlast⟩ := takeUntilFreed_eq_ok htaken
  cases h
  have hline : (items.zip boxes).map (hide space.axis) =
      rest.reverse.map (hide space.axis) ++ pre.reverse.map (hide space.axis) := by
    rw [← List.map_append, ← List.reverse_append, ← hsplit, List.reverse_reverse]
  rw [hline, HiddenItem.total_append] at hdelta
  rw [← List.map_reverse]
  refine .hides _ _ hline hcause ?_ ?_
  · rcases henough with hnone | hfreed
    · left
      rw [hnone]
      rfl
    · right
      rw [← total_hide, ← total_reverse_hide] at hfreed
      omega
  · intro first others hgone
    obtain ⟨f, fs, hpre, rfl, rfl⟩ := List.map_eq_cons_iff.1 hgone
    have hshort := hlast fs.reverse f (by
      rw [← List.reverse_reverse pre, hpre, List.reverse_cons])
    rw [← total_hide, total_reverse_hide] at hshort
    rw [hpre, List.map_cons, HiddenItem.total_cons] at hdelta
    omega

/-- A line that fits lets the menu show what it has hidden, unless the trigger does not fit beside
the line any more. -/
theorem reacts_of_clear (hl : l.Reads items boxes space inner)
    (hlength : items.length = boxes.length) {m n : Menu} {o : Outcome}
    (hfits : total ((items.zip boxes).map (hide space.axis)) ≤ inner)
    (h : m.clear l = .ok (n, o)) :
    m.Reacts inner ((items.zip boxes).map (hide space.axis)) n o := by
  have htotal := total_line space.axis hlength
  unfold clear at h
  split at h
  · next hnone =>
    cases h
    exact .rests (by simpa using hnone) hfits
  · next hsome =>
    have hsome : m.hidden ≠ [] := by simpa using hsome
    obtain ⟨delta, hdelta, h⟩ := Length.bind_eq_ok.1 h
    have hdelta := excess_eq_ok hl hdelta
    rw [← htotal] at hdelta
    split at h
    · exact reacts_of_hideTrailing hl hdelta (.inr ⟨hsome, by omega⟩) h
    · next hroom =>
      rw [hl.innerMain, Length.ok_bind, hl.minimumMain, ← htotal] at h
      obtain ⟨k, hk, h⟩ := Length.bind_eq_ok.1 h
      cases h
      obtain ⟨hle, hbeside, hwhole, hneeded⟩ := countFitting_eq_ok hk
      refine .shows k hsome hle ?_ ?_ hneeded
      · intro j hjk hlt
        by_cases hzero : j = 0
        · subst hzero
          rw [List.take_zero, HiddenItem.total_nil]
          omega
        · exact hbeside j (Nat.pos_of_ne_zero hzero) hjk hlt
      · intro hall
        refine hwhole ?_ hall
        rw [hall]
        exact List.length_pos_iff.2 hsome

/-- A menu rests, hides or shows. -/
theorem react_eq_ok (hl : Line.solve items boxes space = .ok l)
    (hlength : items.length = boxes.length) {m : Menu} (htrigger : 0 ≤ m.triggerSize)
    {next : Handler} {o : Outcome} (h : (Handler.menu m).react l = .ok (next, o)) :
    ∃ n, next = .menu n ∧
      m.Reacts space.innerLength ((items.zip boxes).map (hide space.axis)) n o := by
  have htotal := total_line space.axis hlength
  cases hinner : space.innerMain with
  | error fault =>
    -- the inner length is also read wherever a menu has hidden some
    obtain rfl := Line.eq_nil_of_innerMain hl hinner
    cases hl
    change (m.clear _ >>= fun r => .ok (Handler.menu r.1, r.2)) = _ at h
    obtain ⟨⟨n, o'⟩, hclear, h⟩ := Length.bind_eq_ok.1 h
    cases h
    unfold clear at hclear
    split at hclear
    · next hhidden =>
      cases hclear
      refine ⟨_, rfl, .rests (by simpa using hhidden) ?_⟩
      rw [htotal]
      exact space.innerLength_nonneg
    · simp only [excess, hinner, Length.bind_eq_ok] at hclear
      obtain ⟨_, ⟨_, _, _, hread, _⟩, _⟩ := hclear
      cases hread
  | ok inner =>
    obtain rfl := Space.innerMain_eq_ok hinner
    have hreads := Line.reads hl hinner
    unfold Handler.react Handler.handle Handler.clear at h
    rw [hreads.isTooNarrow, ← htotal] at h
    split at h
    · next hnarrow =>
      have hnarrow := of_decide_eq_true hnarrow
      obtain ⟨⟨n, o'⟩, hhandle, h⟩ := Length.map_eq_ok.1 h
      cases h
      obtain ⟨delta, hdelta, hhandle⟩ := Length.bind_eq_ok.1 hhandle
      have hdelta := excess_eq_ok hreads hdelta
      rw [← htotal] at hdelta
      rw [if_neg (by omega)] at hhandle
      exact ⟨n, rfl, reacts_of_hideTrailing hreads hdelta (.inl hnarrow) hhandle⟩
    · next hfits =>
      have hfits : ¬ space.innerLength < _ := fun hnarrow => hfits (decide_eq_true hnarrow)
      obtain ⟨⟨n, o'⟩, hclear, h⟩ := Length.map_eq_ok.1 h
      cases h
      exact ⟨n, rfl, reacts_of_clear hreads hlength (by omega) hclear⟩

end Menu

end Trellis.Box
