import Trellis.Layout.Lines
import Trellis.Proofs.Relayout.Handlers
import Trellis.Proofs.Relayout.Settling

/-!
# Lines settle

A line without a handler places the same children again. A handler reacts to the line that its first
reaction left, and has nothing left to do (`Box.Handler.react_settles`), so that the line is laid
out in the same space as before.

* `run_linear_of_none`, `run_linear_of_handler`: what a pass over a line reads and leaves.
* `line_remaining`: a line that is laid out again with nothing kept free is the same.
* `settles_linear_of_none`, `settles_linear_of_handler`: what a line leaves is settled.
-/
namespace Trellis

/-- The space that a container offers its line. -/
def LayoutConfig.space (layout : LayoutConfig) (axis : Axis) (available : Size) : Box.Space :=
  { axis, available, pack := layout.pack, align := layout.align, padding := layout.paddingSides }

namespace Scene

variable {s s' t mid : Scene} {layout : LayoutConfig} {container : ComponentId} {axis : Axis}
  {available : Size} {l : Linear}

/-- The line of the visible children. -/
def line (s : Scene) (layout : LayoutConfig) (axis : Axis) (container : ComponentId)
    (available : Size) : Checked (Box.Line Float) := do
  let members ← s.members container
  Box.Line.solve (members.map Member.id) (members.map fun m => (m.request layout).value)
    (layout.space axis available)

/-- The scenes differ at most in what has been said. -/
structure Silent (s s' : Scene) : Prop where
  tree : s'.tree = s.tree
  host : s'.host = s.host
  kept : s'.kept = s.kept

theorem run_line_eq_ok {r : Except LayoutError (Box.Line Float)}
    (h : s.run (Lines.line layout axis container available) = .ok (r, s')) :
    ∃ first, s.line layout axis container available = .ok first ∧ r = .ok first ∧ Silent s s' ∧
      s'.events = s.events := by
  simp only [Lines.line, run_bind, run_members] at h
  cases hmembers : s.members container with
  | error fault =>
    rw [hmembers] at h
    cases h
  | ok members =>
    simp only [hmembers, Length.ok_bind, run_draft, Draft.value_noted, Noted.value_mapM,
      run_check] at h
    obtain ⟨first, hfirst, h⟩ := Length.bind_eq_ok.1 h
    cases h
    exact ⟨first, by rw [line, hmembers]; exact hfirst, rfl, ⟨rfl, rfl, rfl⟩, rfl⟩

/-- The line that is laid out at last: in what the handler leaves, if it keeps something free or has
changed something. -/
def finalLine (s : Scene) (layout : LayoutConfig) (axis : Axis) (container : ComponentId)
    (target : Size) (first : Box.Line Float) (recalculate : Bool) (reserved : Box.Reserved) :
    Checked (Box.Line Float) :=
  if recalculate || reserved ≠ .none then
    Lines.remaining axis target reserved >>= s.line layout axis container
  else .ok first

/-- The scene once a handler has reacted. -/
def reacted (s : Scene) (container : ComponentId) (l : Linear) (next : Box.Handler)
    (outcome : Box.Outcome) : Scene :=
  { s with
    kept := s.kept.insert container (.linear { l with overflow := some next })
    tree := Lines.reveal outcome s.tree }

/-- What the host is told of: the line begins or ceases to overflow. -/
def flips (container : ComponentId) (handler next : Box.Handler) : List (ComponentId × Event) :=
  if next.isOverflowing ≠ handler.isOverflowing then
    [(container, .overflowChange next.isOverflowing)]
  else []

/-- What a pass over a line with a handler reads and leaves. -/
structure Handles (layout : LayoutConfig) (container : ComponentId) (l : Linear)
    (handler : Box.Handler) (s s' : Scene) (target : Size) (first : Box.Line Float)
    (next : Box.Handler) (outcome : Box.Outcome) (offset : Int) (final : Box.Line Float)
    (placements : List Placement) : Prop where
  target_eq : s.host.targetSize s.tree container = .ok target
  first_eq : s.line layout l.axis container target = .ok first
  react_eq : (handler.retain (s.tree.children container)).react first = .ok (next, outcome)
  final_eq : (s.reacted container l next outcome).finalLine layout l.axis container target first
    outcome.recalculate next.reserved = .ok final
  offset_eq : Length.sub next.reserved.leading next.offset = .ok offset
  place_eq : Lines.place offset final = .ok placements
  places : (s.reacted container l next outcome).Places s' placements
  events_eq : s'.events = if s.host.listens then s.events ++ flips container handler next
    else s.events

theorem Silent.line_eq (h : Silent s t) :
    t.line layout axis container = s.line layout axis container := by
  funext available
  unfold line members member
  rw [h.tree, h.host]

theorem Silent.places {placements : List Placement} (h : Silent s t)
    (hplaces : t.Places s' placements) : s.Places s' placements :=
  ⟨by rw [hplaces.tree, h.tree], hplaces.host.trans h.host, hplaces.kept.trans h.kept⟩

theorem Silent.refl (s : Scene) : Silent s s := ⟨rfl, rfl, rfl⟩

theorem Silent.trans {u : Scene} (h : Silent s t) (h' : Silent t u) : Silent s u :=
  ⟨h'.tree.trans h.tree, h'.host.trans h.host, h'.kept.trans h.kept⟩

/-- The end of a pass: the host is told if the line begins or ceases to overflow, and the children
are placed. -/
def conclude (container : ComponentId) (handler next : Box.Handler) (final : Box.Line Float) :
    Step Unit := do
  let offset ← Step.check (Length.sub next.reserved.leading next.offset)
  if next.isOverflowing ≠ handler.isOverflowing then
    let _ ← Step.notify container (.overflowChange next.isOverflowing)
  Step.apply (← Step.check (Lines.place offset final))

theorem run_conclude_eq_ok {r : Except LayoutError Unit} {handler next : Box.Handler}
    {final : Box.Line Float} (h : s.run (conclude container handler next final) = .ok (r, s')) :
    ∃ offset placements, Length.sub next.reserved.leading next.offset = .ok offset ∧
      Lines.place offset final = .ok placements ∧ r = .ok () ∧ s.Places s' placements ∧
      s'.events = if s.host.listens then s.events ++ flips container handler next
        else s.events := by
  rw [conclude, run_bind, run_check, bind_assoc] at h
  obtain ⟨offset, hoffset, h⟩ := Length.bind_eq_ok.1 h
  simp only [Length.ok_bind] at h
  split at h
  · next hflips =>
    simp only [run_bind, run_notify, Length.ok_bind, run_check, bind_assoc, run_apply] at h
    obtain ⟨placements, hplace, h⟩ := Length.bind_eq_ok.1 h
    cases h
    refine ⟨offset, placements, hoffset, hplace, rfl, ?_, ?_⟩
    · split <;> exact ⟨rfl, rfl, rfl⟩
    · rw [flips, if_pos hflips]
      split <;> rfl
  · next hsame =>
    simp only [run_bind, run_check, bind_assoc, Length.ok_bind, run_apply] at h
    obtain ⟨placements, hplace, h⟩ := Length.bind_eq_ok.1 h
    cases h
    refine ⟨offset, placements, hoffset, hplace, rfl, ⟨rfl, rfl, rfl⟩, ?_⟩
    rw [flips, if_neg hsame, List.append_nil, ite_self]

theorem run_linear_of_handler {r : Except LayoutError Unit} {handler : Box.Handler}
    (hoverflow : l.overflow = some handler)
    (h : s.run (Lines.arrange layout container l) = .ok (r, s')) :
    r = .ok () ∧ ∃ target first next outcome offset final placements,
      Handles layout container l handler s s' target first next outcome offset final
        placements := by
  simp only [Lines.arrange, hoverflow, run_bind, run_targetSize] at h
  cases htarget : s.host.targetSize s.tree container with
  | error fault =>
    rw [htarget] at h
    cases h
  | ok target =>
    simp only [htarget, Length.ok_bind] at h
    obtain ⟨⟨_, s₁⟩, hline, h⟩ := Length.bind_eq_ok.1 h
    obtain ⟨first, hfirst, rfl, hsilent, hfirstEvents⟩ := run_line_eq_ok hline
    simp only [run_tree, run_check, run_keep, run_modifyTree, Length.ok_bind, bind_assoc] at h
    obtain ⟨⟨next, outcome⟩, hreact, h⟩ := Length.bind_eq_ok.1 h
    rw [hsilent.tree] at hreact
    have hreacted :
        Silent (s.reacted container l next outcome) (s₁.reacted container l next outcome) :=
      ⟨by simp only [reacted, hsilent.tree], hsilent.host, by simp only [reacted, hsilent.kept]⟩
    change (s₁.reacted container l next outcome).run
      (if (outcome.recalculate || decide (next.reserved ≠ .none)) = true then do
        let rest ← Step.check (Lines.remaining l.axis target next.reserved)
        let final ← Lines.line layout l.axis container rest
        conclude container handler next final
      else do
        let final ← pure first
        conclude container handler next final) = _ at h
    split at h
    · next hagain =>
      rw [run_bind, run_check, bind_assoc] at h
      obtain ⟨rest, hrest, h⟩ := Length.bind_eq_ok.1 h
      simp only [Length.ok_bind, run_bind] at h
      obtain ⟨⟨_, s₂⟩, hline', h⟩ := Length.bind_eq_ok.1 h
      obtain ⟨final, hfinal, rfl, hsilent', hfinalEvents⟩ := run_line_eq_ok hline'
      obtain ⟨offset, placements, hoffset, hplace, hr, hplaces, hevents⟩ := run_conclude_eq_ok h
      refine ⟨hr, target, first, next, outcome, offset, final, placements, htarget, hfirst, hreact,
        ?_, hoffset, hplace, (hreacted.trans hsilent').places hplaces, ?_⟩
      · rw [finalLine, if_pos (by simpa using hagain), hrest, Length.ok_bind, ← hreacted.line_eq]
        exact hfinal
      · rw [hevents, hfinalEvents, hsilent'.host]
        simp only [reacted, hfirstEvents, hsilent.host]
    · next honce =>
      rw [run_bind, run_pure, Length.ok_bind] at h
      obtain ⟨offset, placements, hoffset, hplace, hr, hplaces, hevents⟩ := run_conclude_eq_ok h
      refine ⟨hr, target, first, next, outcome, offset, first, placements, htarget, hfirst, hreact,
        ?_, hoffset, hplace, hreacted.places hplaces, ?_⟩
      · rw [finalLine, if_neg (by simpa using honce)]
      · rw [hevents]
        simp only [reacted, hfirstEvents, hsilent.host]

theorem run_linear_of_none {r : Except LayoutError Unit} (hoverflow : l.overflow = none)
    (h : s.run (Lines.arrange layout container l) = .ok (r, s')) :
    r = .ok () ∧ ∃ target first placements, s.host.targetSize s.tree container = .ok target ∧
      s.line layout l.axis container target = .ok first ∧ Lines.place 0 first = .ok placements ∧
      s.Places s' placements ∧ s'.events = s.events := by
  simp only [Lines.arrange, hoverflow, run_bind, run_targetSize] at h
  cases htarget : s.host.targetSize s.tree container with
  | error fault =>
    rw [htarget] at h
    cases h
  | ok target =>
    simp only [htarget, Length.ok_bind] at h
    obtain ⟨⟨_, s₁⟩, hline, h⟩ := Length.bind_eq_ok.1 h
    obtain ⟨first, hfirst, rfl, hsilent, hevents⟩ := run_line_eq_ok hline
    simp only [run_check, bind_assoc, Length.ok_bind, run_apply] at h
    obtain ⟨placements, hplace, h⟩ := Length.bind_eq_ok.1 h
    cases h
    exact ⟨rfl, target, first, placements, rfl, hfirst, hplace,
      hsilent.places ⟨rfl, rfl, rfl⟩, hevents⟩

/-! ## What a pass touches -/

theorem ids_place {offset : Int} {final : Box.Line Float} {placements : List Placement}
    (h : Lines.place offset final = .ok placements) :
    (placements.map Placement.id).Sublist final.items := by
  have hids :
      placements.map Placement.id = (final.items.zip final.solution.rects).map Prod.fst := by
    refine Length.map_of_mapM (fun item placement hplaced => ?_) h
    obtain ⟨rect, -, hplaced⟩ := Length.bind_eq_ok.1 hplaced
    cases hplaced
    rfl
  rw [hids]
  exact sublist_map_fst_zip _ _

/-- The line of a container holds its visible children. -/
theorem line_eq_ok {first : Box.Line Float}
    (h : s.line layout axis container available = .ok first) :
    ∃ members, s.members container = .ok members ∧
      Box.Line.solve (s.tree.visibleChildren container)
        (members.map fun m => (m.request layout).value) (layout.space axis available) = .ok first ∧
      first.items = s.tree.visibleChildren container := by
  obtain ⟨members, hmembers, h⟩ := Length.bind_eq_ok.1 h
  rw [ids_members hmembers] at h
  refine ⟨members, hmembers, h, ?_⟩
  obtain ⟨solution, -, h⟩ := Length.bind_eq_ok.1 h
  cases h
  rfl

theorem touches_reacted {next : Box.Handler} {outcome : Box.Outcome}
    (hhide : ∀ id ∈ outcome.hide, id ∈ s.tree.children container)
    (hreveal : ∀ id ∈ outcome.reveal, id ∈ s.tree.children container) :
    Touches container s (s.reacted container l next outcome) := by
  refine ⟨⟨rfl, ?_, fun i hi => ?_⟩, ?_⟩
  · have hhidden : s.tree.Agree (fun i => i ∉ s.tree.children container)
        (outcome.hide.foldl (fun t id => t.setHidden id true) s.tree) :=
      Tree.agree_setHiddens s.tree fun id hid hnot => hnot (hhide id hid)
    exact hhidden.trans (Tree.agree_setHiddens _ fun id hid hnot => hnot (hreveal id hid))
  · simp only [reacted, IdMap.get?_insert, if_neg hi]
  · show (Lines.reveal outcome s.tree).isRendered = _
    rw [Lines.reveal, Tree.isRendered_setHiddens _ _ fun _ => false,
      Tree.isRendered_setHiddens _ _ fun _ => true]

/-- A handler hides and shows children of the container. -/
theorem Handles.touches_reacted {handler next : Box.Handler} {target : Size}
    {first final : Box.Line Float} {outcome : Box.Outcome} {offset : Int}
    {placements : List Placement}
    (h : Handles layout container l handler s s' target first next outcome offset final
      placements) :
    Touches container s (s.reacted container l next outcome) := by
  obtain ⟨hhide, hreveal⟩ := Box.Handler.react_mem h.react_eq
  obtain ⟨_, -, -, hitems⟩ := line_eq_ok h.first_eq
  refine Scene.touches_reacted (fun id hid => ?_) fun id hid => ?_
  · have hvisible := hhide id hid
    rw [hitems] at hvisible
    exact mem_children_of_visible hvisible
  · exact (Box.Handler.mem_hiddenItems_retain.1 (hreveal id hid)).2

/-- What is placed at last are children, in source order. -/
theorem Handles.ids_sublist {handler next : Box.Handler} {target : Size}
    {first final : Box.Line Float} {outcome : Box.Outcome} {offset : Int}
    {placements : List Placement}
    (h : Handles layout container l handler s s' target first next outcome offset final
      placements) :
    (placements.map Placement.id).Sublist (s.tree.children container) := by
  have hids := ids_place h.place_eq
  have hfinal := h.final_eq
  unfold finalLine at hfinal
  split at hfinal
  · obtain ⟨rest, -, hfinal⟩ := Length.bind_eq_ok.1 hfinal
    obtain ⟨_, -, -, hitems⟩ := line_eq_ok hfinal
    rw [hitems] at hids
    rw [← h.touches_reacted.children_eq]
    exact hids.trans List.filter_sublist
  · cases hfinal
    obtain ⟨_, -, -, hitems⟩ := line_eq_ok h.first_eq
    rw [hitems] at hids
    exact hids.trans List.filter_sublist

theorem touches_linear {r : Except LayoutError Unit}
    (h : s.run (Lines.arrange layout container l) = .ok (r, s')) : Touches container s s' := by
  cases hoverflow : l.overflow with
  | none =>
    obtain ⟨-, target, first, placements, -, hfirst, hplace, hplaces, -⟩ :=
      run_linear_of_none hoverflow h
    obtain ⟨_, -, -, hitems⟩ := line_eq_ok hfirst
    refine hplaces.touches fun id hid => ?_
    have hvisible := (ids_place hplace).subset hid
    rw [hitems] at hvisible
    exact mem_children_of_visible hvisible
  | some handler =>
    obtain ⟨-, _, _, _, _, _, _, _, hhandles⟩ := run_linear_of_handler hoverflow h
    have hreacted := hhandles.touches_reacted
    refine hreacted.trans (hhandles.places.touches fun id hid => ?_)
    rw [hreacted.children_eq]
    exact hhandles.ids_sublist.subset hid

/-! ## The line once its end is hidden -/

/-- Components that are hidden, or shown, together. -/
theorem isVisible_setHiddens (t : Tree) (ids : List ComponentId) (hidden : Bool)
    (i : ComponentId) :
    (ids.foldl (fun t id => t.setHidden id hidden) t).isVisible i =
      if i ∈ ids then (t.get? i).isSome && !hidden else t.isVisible i := by
  induction ids generalizing t with
  | nil => simp
  | cons id ids ih =>
    have hsome : ((t.setHidden id hidden).get? i).isSome = (t.get? i).isSome := by
      rw [Tree.setHidden, Tree.get?_modifyState]
      split <;> simp
    have hfirst : (t.setHidden id hidden).isVisible i =
        if id = i then (t.get? i).isSome && !hidden else t.isVisible i := by
      unfold Tree.isVisible Tree.setHidden
      rw [Tree.get?_modifyState]
      by_cases heq : id = i
      · cases t.get? i <;> simp [heq]
      · simp [heq]
    rw [List.foldl_cons, ih, hsome, hfirst]
    by_cases hmem : i ∈ ids
    · simp [hmem]
    · by_cases heq : id = i
      · simp [heq]
      · simp [hmem, heq, Ne.symm heq]

theorem isVisible_hide (t : Tree) (ids : List ComponentId) (i : ComponentId) :
    (ids.foldl (fun t id => t.setHidden id true) t).isVisible i =
      (t.isVisible i && !ids.contains i) := by
  rw [isVisible_setHiddens]
  by_cases hmem : i ∈ ids <;> simp [hmem]

theorem filter_not_mem_drop {xs : List ComponentId} (hnodup : xs.Nodup) (k : Nat) :
    xs.filter (fun x => !(xs.drop k).contains x) = xs.take k := by
  have hapart := List.disjoint_take_drop hnodup (Nat.le_refl k)
  conv_lhs => rw [← List.take_append_drop k xs]
  rw [List.filter_append]
  have hkept : (xs.take k).filter (fun x => !((xs.take k ++ xs.drop k).drop k).contains x) =
      xs.take k := by
    rw [List.take_append_drop, List.filter_eq_self]
    intro x hx
    simpa using fun hmem => hapart hx hmem
  have hgone :
      (xs.drop k).filter (fun x => !((xs.take k ++ xs.drop k).drop k).contains x) = [] := by
    rw [List.take_append_drop, List.filter_eq_nil_iff]
    intro x hx
    simp [hx]
  rw [hkept, hgone, List.append_nil]

/-- Once the end of the line is hidden, the layout sees its beginning. -/
theorem members_reacted (hnested : s.tree.Nested) {next : Box.Handler} {outcome : Box.Outcome}
    {members : List Member} (hmembers : s.members container = .ok members) {k : Nat}
    (hhide : outcome.hide = (s.tree.visibleChildren container).drop k)
    (hreveal : outcome.reveal = [])
    (htouches : Touches container s (s.reacted container l next outcome)) :
    (s.reacted container l next outcome).tree.visibleChildren container =
        (s.tree.visibleChildren container).take k ∧
      (s.reacted container l next outcome).members container = .ok (members.take k) := by
  have hvisible : (s.reacted container l next outcome).tree.visibleChildren container =
      (s.tree.visibleChildren container).take k := by
    rw [← filter_not_mem_drop (hnested.linked.nodup_visibleChildren container) k, ← hhide]
    unfold Tree.visibleChildren
    rw [htouches.children_eq, List.filter_filter]
    refine List.filter_congr fun i _ => ?_
    show (Lines.reveal outcome s.tree).isVisible i = _
    rw [Lines.reveal, hreveal, List.foldl_nil, isVisible_hide, Bool.and_comm]
  refine ⟨hvisible, ?_⟩
  unfold Scene.members at hmembers ⊢
  rw [hvisible, ← member_congr htouches.host htouches.tree.toSameShape]
  exact Length.mapM_eq_ok.2 (List.forall₂_take k (Length.mapM_eq_ok.1 hmembers))

/-! ## Laying out the line again -/

/-- What is left of a length beside what is kept free, and nothing if there is too much of that. -/
theorem lengths_remaining {reserved : Box.Reserved} {target rest : Size}
    (h : Lines.remaining axis target reserved = .ok rest) :
    axis.main rest = max (axis.main target - (reserved.leading + reserved.trailing)) 0 ∧
      axis.cross rest = axis.cross target := by
  simp only [Lines.remaining, Length.bind_eq_ok] at h
  obtain ⟨total, htotal, length, hlength, h⟩ := h
  have htotal := (Length.add_eq_ok.1 htotal).1
  have hlength := (Length.sub_eq_ok.1 hlength).1
  cases h
  rw [← htotal, ← hlength]
  cases axis <;> exact ⟨rfl, rfl⟩

/-- A negative length has as little room inside the padding as none. -/
theorem innerMain_remaining {target rest : Size} {m n : Int}
    (hmain : axis.main rest = max (axis.main target) 0)
    (hm : (layout.space axis target).innerMain = .ok m)
    (hn : (layout.space axis rest).innerMain = .ok n) : m = n := by
  simp only [Box.Space.innerMain, LayoutConfig.space, Length.bind_eq_ok] at hm hn
  obtain ⟨sides, hsides, length, hlength, hm⟩ := hm
  obtain ⟨sides', hsides', length', hlength', hn⟩ := hn
  rw [hsides] at hsides'
  cases hsides'
  cases hm
  cases hn
  have hpadding : 0 ≤ sides := by
    have hnonneg := Spacing.nonneg_sidesOrZero layout.padding
    have hstart := Axis.mainStart_nonneg hnonneg axis
    have hend := Axis.mainEnd_nonneg hnonneg axis
    rw [Axis.mainSides_eq_ok hsides]
    exact Int.add_nonneg hstart hend
  have hlength := (Length.sub_eq_ok.1 hlength).1
  have hlength' := (Length.sub_eq_ok.1 hlength').1
  omega

theorem innerCross_remaining {target rest : Size} {m n : Int}
    (hcross : axis.cross rest = axis.cross target)
    (hm : (layout.space axis target).innerCross = .ok m)
    (hn : (layout.space axis rest).innerCross = .ok n) : m = n := by
  have hsame : (layout.space axis rest).innerCross = (layout.space axis target).innerCross := by
    simp only [Box.Space.innerCross, LayoutConfig.space, hcross]
  rw [hsame, hm] at hn
  exact Except.ok.inj hn

/-- Without anything kept free the line is what it was. -/
theorem line_remaining {target rest : Size} {first final : Box.Line Float}
    (hrest : Lines.remaining axis target .none = .ok rest)
    (hfirst : s.line layout axis container target = .ok first)
    (hfinal : s.line layout axis container rest = .ok final) :
    final.items = first.items ∧ final.solution = first.solution ∧
      final.space.axis = first.space.axis := by
  obtain ⟨hmain, hcross⟩ := lengths_remaining hrest
  rw [show (Box.Reserved.none.leading + Box.Reserved.none.trailing : Int) = 0 from rfl,
    Int.sub_zero] at hmain
  obtain ⟨members, hmembers, hfirst, hitems⟩ := line_eq_ok hfirst
  obtain ⟨members', hmembers', hfinal, hitems'⟩ := line_eq_ok hfinal
  rw [hmembers] at hmembers'
  cases hmembers'
  obtain ⟨solution, hsolution, hfirst⟩ := Length.bind_eq_ok.1 hfirst
  obtain ⟨solution', hsolution', hfinal⟩ := Length.bind_eq_ok.1 hfinal
  cases hfirst
  cases hfinal
  refine ⟨rfl, ?_, rfl⟩
  exact Box.solve_available (fun _ _ => innerMain_remaining hmain)
    (fun _ _ => innerCross_remaining hcross) hsolution hsolution'

theorem place_congr {offset : Int} {first final : Box.Line Float}
    (hitems : final.items = first.items) (hsolution : final.solution = first.solution)
    (haxis : final.space.axis = first.space.axis) :
    Lines.place offset final = Lines.place offset first := by
  unfold Lines.place
  rw [hitems, hsolution, haxis]

theorem settles_linear_of_none (hnested : s.tree.Nested)
    (hown : s.host.targetSize = Host.ownSize) {r : Except LayoutError Unit}
    (hoverflow : l.overflow = none) (h : s.run (Lines.arrange layout container l) = .ok (r, s')) :
    Settles container s' (Lines.arrange layout container l) := by
  intro t ht r' t' h'
  have htouches := touches_linear h
  obtain ⟨-, target, first, placements, htarget, hfirst, hplace, hplaces, -⟩ :=
    run_linear_of_none hoverflow h
  have hsees := (htouches.sees hnested hplaces.isVisible_eq).trans (.of_near ht)
  obtain ⟨hr, target', first', placements', htarget', hfirst', hplace', hplaces', -⟩ :=
    run_linear_of_none hoverflow h'
  rw [← hsees.targetSize_eq hown, htarget] at htarget'
  cases htarget'
  rw [line, ← hsees.members_eq, ← line, hfirst] at hfirst'
  cases hfirst'
  rw [hplace] at hplace'
  cases hplace'
  have hids := ids_place hplace
  obtain ⟨_, -, -, hitems⟩ := line_eq_ok hfirst
  rw [hitems] at hids
  have hnodup := hids.nodup (hnested.linked.nodup_visibleChildren container)
  refine ⟨hr, hplaces'.tree.trans (hplaces.again hnodup (fun id hid => ?_) ht)⟩
  rw [htouches.children_eq]
  exact mem_children_of_visible (hids.subset hid)

/-- The second line is laid out as the first one was at last. -/
theorem place_finalLine {target : Size} {first final first' final' : Box.Line Float}
    {recalculate : Bool} {reserved : Box.Reserved} {offset : Int}
    (hstill : recalculate = false → first' = first)
    (hmembers : mid.members container = t.members container)
    (hfinal : mid.finalLine layout axis container target first recalculate reserved = .ok final)
    (hfirst' : t.line layout axis container target = .ok first')
    (hfinal' : t.finalLine layout axis container target first' false reserved = .ok final') :
    Lines.place offset final' = Lines.place offset final := by
  have hline : t.line layout axis container = mid.line layout axis container := by
    funext available
    rw [line, ← hmembers, ← line]
  unfold finalLine at hfinal hfinal'
  rw [hline] at hfinal' hfirst'
  by_cases hreserved : reserved = .none
  · subst hreserved
    rw [if_neg (by simp)] at hfinal'
    cases hfinal'
    cases hrecalculate : recalculate with
    | false =>
      rw [hrecalculate, if_neg (by simp)] at hfinal
      cases hfinal
      rw [hstill hrecalculate]
    | true =>
      rw [hrecalculate, if_pos (by simp)] at hfinal
      obtain ⟨rest, hrest, hfinal⟩ := Length.bind_eq_ok.1 hfinal
      obtain ⟨hitems, hsolution, haxis⟩ := line_remaining hrest hfirst' hfinal
      exact (place_congr hitems hsolution haxis).symm
  · rw [if_pos (by simp [hreserved])] at hfinal hfinal'
    rw [hfinal] at hfinal'
    cases hfinal'
    rfl

/-- A handler that had hidden nothing has nothing left to do when the line comes back, and the line
is laid out as before. -/
theorem Handles.again (hnested : s.tree.Nested) (hown : s.host.targetSize = Host.ownSize)
    {handler next next' : Box.Handler} {target target' : Size}
    {first first' final final' : Box.Line Float} {outcome outcome' : Box.Outcome}
    {offset offset' : Int} {placements placements' : List Placement} {t' : Scene}
    (hnone : handler.hiddenItems = [])
    (hfirst : Handles layout container l handler s s' target first next outcome offset final
      placements)
    (hsees : Sees container (s.reacted container l next outcome) t)
    (hsecond : Handles layout container { l with overflow := some next } next t t' target' first'
      next' outcome' offset' final' placements') :
    outcome' = .nothing ∧ placements' = placements := by
  have hreacted := hfirst.touches_reacted
  have hchildren : t.tree.children container = s.tree.children container := by
    rw [← hsees.shape.children_eq, hreacted.children_eq]
  -- the handler finds the beginning of the line, and leaves it so
  obtain ⟨members, hmembers, hsolve, -⟩ := line_eq_ok hfirst.first_eq
  have hlength : (s.tree.visibleChildren container).length =
      (members.map fun m => (m.request layout).value).length := by
    rw [← ids_members hmembers, List.length_map, List.length_map]
  have hreact := hfirst.react_eq
  rw [Box.Handler.retain_eq_self (by simp [hnone])] at hreact
  obtain ⟨hreveal, hstill, hhidden, k, hhide, hagain⟩ :=
    Box.Handler.react_settles hnone hsolve hlength hreact
  obtain ⟨hvisible, hshown⟩ := members_reacted hnested hmembers hhide hreveal hreacted
  have htarget := hsecond.target_eq
  rw [← hsees.targetSize_eq (show s.host.targetSize = Host.ownSize from hown),
    ← hreacted.targetSize_eq hnested hown, hfirst.target_eq] at htarget
  cases htarget
  obtain ⟨members', hmembers', hsolve', -⟩ := line_eq_ok hsecond.first_eq
  rw [← hsees.members_eq, hshown] at hmembers'
  cases hmembers'
  rw [← hsees.visibleChildren_eq, hvisible, List.map_take] at hsolve'
  have hretain : next.retain (t.tree.children container) = next := by
    refine Box.Handler.retain_eq_self fun id hid => ?_
    rw [hhidden, hhide] at hid
    rw [hchildren]
    exact mem_children_of_visible (List.mem_of_mem_drop hid)
  have hreact' := hsecond.react_eq
  rw [hretain] at hreact'
  obtain ⟨rfl, rfl⟩ := hagain _ _ _ hsolve' hreact'
  refine ⟨rfl, ?_⟩
  -- so the line is laid out in the same space
  have hsame : Lines.place offset final' = Lines.place offset final := by
    refine place_finalLine (fun hrecalculate => ?_) hsees.members_eq hfirst.final_eq
      hsecond.first_eq hsecond.final_eq
    have hnothing := hstill hrecalculate
    rw [hhide, List.drop_eq_nil_iff] at hnothing
    rw [List.take_of_length_le hnothing, List.take_of_length_le (hlength ▸ hnothing), hsolve]
      at hsolve'
    exact (Except.ok.inj hsolve').symm
  have hoffset := hsecond.offset_eq
  rw [hfirst.offset_eq] at hoffset
  cases hoffset
  have hplace := hsecond.place_eq
  rw [hsame, hfirst.place_eq] at hplace
  cases hplace
  rfl

theorem settles_linear_of_handler (hnested : s.tree.Nested)
    (hown : s.host.targetSize = Host.ownSize) {r : Except LayoutError Unit} {handler : Box.Handler}
    (hoverflow : l.overflow = some handler) (hnone : handler.hiddenItems = [])
    (h : s.run (Lines.arrange layout container l) = .ok (r, s')) :
    ∃ next, s'.kept.get? container = some (.linear { l with overflow := some next }) ∧
      Settles container s' (Lines.arrange layout container { l with overflow := some next }) := by
  obtain ⟨-, target, first, next, outcome, offset, final, placements, hfirst⟩ :=
    run_linear_of_handler hoverflow h
  have hreacted := hfirst.touches_reacted
  refine ⟨next, ?_, fun t ht r' t' h' => ?_⟩
  · rw [hfirst.places.kept]
    simp [Scene.reacted]
  have htouches := touches_linear h
  have hids := hfirst.ids_sublist
  have hplaced : Touches container (s.reacted container l next outcome) s' := by
    refine hfirst.places.touches fun id hid => ?_
    rw [hreacted.children_eq]
    exact hids.subset hid
  have hsees := (hplaced.sees (hreacted.tree.toSameShape.nested hnested)
    hfirst.places.isVisible_eq).trans (.of_near ht)
  obtain ⟨hr, target', first', next', outcome', offset', final', placements', hsecond⟩ :=
    run_linear_of_handler (l := { l with overflow := some next }) rfl h'
  obtain ⟨rfl, rfl⟩ := hfirst.again hnested hown hnone hsees hsecond
  have hinside : ∀ id ∈ placements'.map Placement.id, id ∈ s'.tree.children container := by
    rw [htouches.children_eq]
    exact fun _ hid => hids.subset hid
  have hstays := hfirst.places.again (hids.nodup (hnested.nodup container)) hinside ht
  exact ⟨hr, hsecond.places.tree.trans hstays⟩

end Scene

end Trellis
