import Mathlib.Data.List.Find
import Trellis.Proofs.Hidden.Accounts
import Trellis.Proofs.Region.Refusals

/-!
# Children that stay hidden

Layouts hide children and keep account of them. Nobody else does: what is kept for a container is
thrown away with its kind of layout, and a child that leaves is forgotten, but the hidden flags stay
as they are. So a child is left hidden without an account if its container gets another kind of
layout, or if it is hidden when it is put into the container, and in no other way.

* `ChildTurn`: what may happen between passes and to children; `Loses`: what loses a child.
* `stranded_step`: a turn strands no child, unless it loses it.
* `hidden_children_accounted_or_lost`: what follows for histories.
-/
namespace Trellis

/-- What may happen to containers and to their children, when nothing but layouts hides any. -/
inductive ChildTurn where
  | layout (d : ComponentId)
  | resize (d : ComponentId) (rect : Rect)
  /-- The host measures, offers sizes or vetoes differently. -/
  | host (h : Host)
  /-- A component becomes the last child of another one. -/
  | append (parent child : ComponentId)
  | remove (parent child : ComponentId)
  /-- A component is added that is not attached to any other. -/
  | create (item : ItemConfig)
  /-- A component gets other layout settings, or none. -/
  | configure (d : ComponentId) (settings : Option LayoutConfig)

/-- The tree with other layout settings for one component. -/
def Tree.setLayout (t : Tree) (d : ComponentId) (settings : Option LayoutConfig) : Tree :=
  t.modify d fun c => { c with config := { c.config with layout := settings } }

def ChildTurn.step : ChildTurn → Step Unit
  | .layout d => Step.layout d
  | .resize d rect => Step.modifyTree fun t => t.applyRect d rect
  | .host h => modify fun s => { s with host := h }
  | .append parent child => Step.edit fun t => t.appendChild parent child
  | .remove parent child => Step.edit fun t => t.removeChild parent child
  | .create item => Step.modifyTree fun t => t.alloc item
  | .configure d settings => Step.modifyTree fun t => t.setLayout d settings

/-! ## The first child for a region -/

/-- What is found first in a list is found first without something else. -/
theorem find?_erase_of_ne {xs : List ComponentId} {p : ComponentId → Bool} {i x : ComponentId}
    (h : xs.find? p = some i) (hne : x ≠ i) : (xs.erase x).find? p = some i := by
  induction xs with
  | nil => cases h
  | cons y xs ih =>
    rw [List.find?_cons] at h
    rw [List.erase_cons]
    by_cases hy : p y = true
    · rw [hy] at h
      obtain rfl := Option.some.inj h
      rw [if_neg (by simpa using Ne.symm hne), List.find?_cons, hy]
    · rw [Bool.not_eq_true] at hy
      rw [hy] at h
      split
      · exact h
      · rw [List.find?_cons, hy]
        exact ih h

namespace Tree

variable {t u : Tree} {c d i p x : ComponentId} {name : RegionName}
  {settings : Option LayoutConfig}

/-- The children of a container may become fewer and others may follow them. -/
theorem holder_of_children (hchildren : ∃ others, u.children c = (t.children c).erase x ++ others)
    (hconfig : u.config? = t.config?) (hne : x ≠ i) (h : t.holder c name = some i) :
    u.holder c name = some i := by
  obtain ⟨others, hothers⟩ := hchildren
  unfold holder at h ⊢
  rw [hothers, hconfig, List.find?_append, find?_erase_of_ne h hne]
  rfl

/-! ## Other layout settings -/

theorem get?_setLayout (t : Tree) (d i : ComponentId) (settings : Option LayoutConfig) :
    (t.setLayout d settings).get? i = if d = i then (t.get? i).map fun c =>
      { c with config := { c.config with layout := settings } } else t.get? i :=
  get?_modify t d i _

/-- What does not depend on layout settings is the same. -/
theorem eq_at_setLayout {α : Type} {g : Option Component → α}
    (hg : ∀ c : Component,
      g (some { c with config := { c.config with layout := settings } }) = g (some c))
    (t : Tree) (d i : ComponentId) : g ((t.setLayout d settings).get? i) = g (t.get? i) := by
  rw [get?_setLayout]
  split
  · cases t.get? i with
    | none => rfl
    | some c => exact hg c
  · rfl

theorem children_setLayout (t : Tree) (d : ComponentId) (settings : Option LayoutConfig) :
    (t.setLayout d settings).children = t.children := by
  funext i
  exact eq_at_setLayout (g := fun o => o.elim [] (·.children)) (fun _ => rfl) t d i

theorem parent?_setLayout (t : Tree) (d : ComponentId) (settings : Option LayoutConfig) :
    (t.setLayout d settings).parent? = t.parent? := by
  funext i
  exact eq_at_setLayout (g := fun o => o.bind (·.parent)) (fun _ => rfl) t d i

theorem isHidden_setLayout (t : Tree) (d i : ComponentId) (settings : Option LayoutConfig) :
    (t.setLayout d settings).isHidden i = t.isHidden i :=
  eq_at_setLayout (g := fun o => o.any fun c : Component => c.state.hidden) (fun _ => rfl) t d i

theorem hiddenByConfig_setLayout (t : Tree) (d i : ComponentId) (settings : Option LayoutConfig) :
    (t.setLayout d settings).hiddenByConfig i = t.hiddenByConfig i :=
  eq_at_setLayout (g := fun o => (o.map Component.config).any ItemConfig.hidden) (fun _ => rfl)
    t d i

theorem holder_setLayout (t : Tree) (d c : ComponentId) (settings : Option LayoutConfig) :
    (t.setLayout d settings).holder c = t.holder c := by
  funext name
  unfold holder
  rw [children_setLayout]
  refine List.find?_congr fun i _ => ?_
  exact eq_at_setLayout (g := fun o => (o.map Component.config).bind ItemConfig.region == some name)
    (fun _ => rfl) t d i

theorem layout?_setLayout (t : Tree) (d i : ComponentId) (settings : Option LayoutConfig) :
    (t.setLayout d settings).layout? i =
      if d = i ∧ (t.get? i).isSome then settings else t.layout? i := by
  unfold layout?
  rw [get?_setLayout]
  by_cases heq : d = i <;> cases t.get? i <;> simp [heq]

end Tree

namespace Scene

variable {s₀ s s' t : Scene} {c d i x : ComponentId} {turn : ChildTurn} {turns : List ChildTurn}
  {r : Except LayoutError Unit}

theorem linked_turn (h : s.tree.Linked) (hrun : s.run turn.step = .ok (r, s')) :
    s'.tree.Linked := by
  cases turn with
  | layout d => exact robust_linked.preserved.of_layout trivial h hrun
  | resize d rect =>
    cases hrun
    exact (s.tree.sameShape_applyRect d rect).linked h
  | host g =>
    cases hrun
    exact h
  | append parent child => exact linked_move (m := .append parent child) h hrun
  | remove parent child => exact linked_move (m := .remove parent child) h hrun
  | create item => exact linked_move (m := .create item) h hrun
  | configure d settings =>
    cases hrun
    exact h.congr (s.tree.parent?_setLayout d settings) (s.tree.children_setLayout d settings)

/-- The turn leaves nothing to account for it that the child `i` of `c` is hidden: it puts `i` into
`c` while it is hidden, or gives `c` another kind of layout, or none, while `i` is a hidden
child. -/
def Loses (s : Scene) (c i : ComponentId) : ChildTurn → Prop
  | .append parent child => parent = c ∧ child = i ∧ s.tree.isHidden i = true
  | .configure d settings => d = c ∧ i ∈ s.tree.children c ∧ s.tree.isHidden i = true ∧
      settings.map LayoutConfig.kind ≠ (s.tree.layout? c).map LayoutConfig.kind
  | _ => False

/-- A change of the tree that concerns neither the child nor what tells why it is hidden. -/
theorem Stranded.of_tree {u : Tree} (h : Stranded { s with tree := u } c i)
    (hchild : i ∈ s.tree.children c) (hhidden : u.isHidden i = s.tree.isHidden i)
    (hconfig : u.hiddenByConfig i = s.tree.hiddenByConfig i)
    (hkind : (u.layout? c).map LayoutConfig.kind = (s.tree.layout? c).map LayoutConfig.kind)
    (hholder : ∀ name, s.tree.holder c name = some i → u.holder c name = some i) :
    s.Stranded c i :=
  ⟨hchild, hhidden ▸ h.hidden, hconfig ▸ h.unconfigured,
    fun hs => h.unaccounted (hs.congr rfl hkind hholder)⟩

/-- Another component is moved. -/
theorem Stranded.of_rearranged {u : Tree} (h : Stranded { s with tree := u } c i)
    (hsame : s.tree.Rearranged u) (hchild : i ∈ s.tree.children c) (hne : x ≠ i)
    (hchildren : ∃ others, u.children c = (s.tree.children c).erase x ++ others) :
    s.Stranded c i := by
  have hconfig := hsame.config?_eq
  refine h.of_tree hchild (by rw [hsame.isHidden_eq]) ?_ ?_ fun name => ?_
  · rw [Tree.hiddenByConfig, ← hconfig]
    rfl
  · rw [Tree.layout?_congr hconfig]
  · exact Tree.holder_of_children hchildren hconfig.symm hne

/-- A component is taken out of its container, which strands none of the others. -/
theorem Stranded.of_detach {parent child : ComponentId} (hlinked : s.tree.Linked)
    (h : Stranded { s with tree := s.tree.detach parent child } c i) : s.Stranded c i := by
  by_cases hmem : child ∈ s.tree.children parent
  · have hparent := ((hlinked.detach parent child).mem_children c i).1 h.child
    rw [Tree.parent?_detach] at hparent
    have hne : child ≠ i := by
      rintro rfl
      rw [if_pos ⟨rfl, hmem⟩] at hparent
      cases hparent
    rw [if_neg fun heq => hne heq.1] at hparent
    refine h.of_rearranged (s.tree.rearranged_detach parent child)
      ((hlinked.mem_children c i).2 hparent) hne ⟨[], ?_⟩
    rw [List.append_nil, Tree.children_detach]
    split
    · rfl
    · next hother =>
      refine (List.erase_of_not_mem fun hc => hother ?_).symm
      rw [hlinked.mem_children] at hc hmem
      exact Option.some.inj (hmem.symm.trans hc)
  · rwa [Tree.detach_eq_self hmem] at h

theorem Stranded.of_alloc {item : ItemConfig} (hlinked : s.tree.Linked)
    (h : Stranded { s with tree := s.tree.alloc item } c i) : s.Stranded c i := by
  have hchild : i ∈ s.tree.children c := by
    rw [← s.tree.children_alloc item]
    exact h.child
  have hcontainer : (s.tree.get? c).isSome := by
    unfold Tree.children at hchild
    cases hc : s.tree.get? c with
    | none => simp [hc] at hchild
    | some x => rfl
  have hsame : ∀ j ∈ s.tree.children c, (s.tree.alloc item).get? j = s.tree.get? j := by
    intro j hj
    obtain ⟨x, hx⟩ := hlinked.exists_child hj
    exact s.tree.get?_alloc_of_isSome item (by rw [hx]; rfl)
  refine h.of_tree hchild ?_ ?_ ?_ fun name hname => ?_
  · rw [Tree.isHidden, hsame i hchild]
    rfl
  · rw [Tree.hiddenByConfig, Tree.config?, hsame i hchild]
    rfl
  · rw [Tree.layout?, s.tree.get?_alloc_of_isSome item hcontainer]
    rfl
  · rw [← hname, Tree.holder, Tree.children_alloc]
    refine List.find?_congr fun j hj => ?_
    rw [Tree.config?, hsame j hj]
    rfl

/-- A turn strands no child, unless it loses it. -/
theorem stranded_step (hlinked : s.tree.Linked) (hrun : s.run turn.step = .ok (r, s'))
    (h : s'.Stranded c i) : s.Stranded c i ∨ s.Loses c i turn := by
  cases turn with
  | layout d => exact .inl (h.of_layout hlinked hrun)
  | resize d rect =>
    cases hrun
    have hshape := s.tree.sameShape_applyRect d rect
    refine .inl (h.of_same hshape rfl fun j _ => (hshape.isHidden_eq ?_).symm)
    rw [Tree.isVisible_applyRect]
  | host g =>
    cases hrun
    exact .inl (h.of_same (.refl s.tree) rfl fun _ _ => rfl)
  | append parent child =>
    obtain ⟨u, hu, rfl⟩ := run_edit_eq_ok hrun
    obtain ⟨hp, hx, rfl⟩ := Tree.appendChild_eq_ok hu
    have hsame := s.tree.rearranged_attach parent child
    have hparent := ((hlinked.attach hp hx).mem_children c i).1 h.child
    rw [hlinked.parent?_attach hx] at hparent
    by_cases heq : child = i
    · rw [if_pos heq, Option.some.injEq] at hparent
      refine .inr ⟨hparent, heq, ?_⟩
      rw [hsame.isHidden_eq]
      exact h.hidden
    · rw [if_neg heq] at hparent
      refine .inl (h.of_rearranged hsame ((hlinked.mem_children c i).2 hparent) heq ?_)
      rw [hlinked.children_attach hp]
      split
      · exact ⟨_, rfl⟩
      · exact ⟨[], (List.append_nil _).symm⟩
  | remove parent child =>
    obtain ⟨u, hu, rfl⟩ := run_edit_eq_ok hrun
    obtain rfl := Tree.removeChild_eq_ok hu
    exact .inl (h.of_detach hlinked)
  | create item =>
    cases hrun
    exact .inl (h.of_alloc hlinked)
  | configure d settings =>
    cases hrun
    have hchild : i ∈ s.tree.children c := by
      rw [← s.tree.children_setLayout d settings]
      exact h.child
    have hhidden := s.tree.isHidden_setLayout d i settings
    by_cases hkind : d = c ∧ settings.map LayoutConfig.kind ≠
        (s.tree.layout? c).map LayoutConfig.kind
    · refine .inr ⟨hkind.1, hchild, ?_, hkind.2⟩
      rw [← hhidden]
      exact h.hidden
    · refine .inl (h.of_tree hchild hhidden (s.tree.hiddenByConfig_setLayout d i settings) ?_
        fun name hname => ?_)
      · rw [Tree.layout?_setLayout]
        split
        · next heq => exact not_not.1 fun hne => hkind ⟨heq.1, hne⟩
        · rfl
      · rw [Tree.holder_setLayout]
        exact hname

/-- In the course of `turns`, from `s` on, the child `i` of `c` has been lost, and it has been
stranded ever since. -/
def Lost (s : Scene) (turns : List ChildTurn) (c i : ComponentId) : Prop :=
  ∃ before turn rest mid, turns = before ++ turn :: rest ∧
    s.after (before.map ChildTurn.step) = .ok mid ∧ mid.Loses c i turn ∧
    ∀ n t, mid.after ((turn :: rest.take n).map ChildTurn.step) = .ok t → t.Stranded c i

theorem Lost.later {mid : Scene} {rest : List ChildTurn} (h : mid.Lost rest c i)
    (hrun : s.run turn.step = .ok (r, mid)) : s.Lost (turn :: rest) c i := by
  obtain ⟨before, lost, others, u, rfl, hbefore, hloses, hsince⟩ := h
  refine ⟨turn :: before, lost, others, u, rfl, ?_, hloses, hsince⟩
  rw [List.map_cons, after, hrun]
  exact hbefore

/-- A child that is stranded after `turns` has been so all the time, or it has been lost. -/
theorem Stranded.since_or_lost (hlinked : s.tree.Linked)
    (hturns : s.after (turns.map ChildTurn.step) = .ok s') (h : s'.Stranded c i) :
    (∀ n t, s.after ((turns.take n).map ChildTurn.step) = .ok t → t.Stranded c i) ∨
      s.Lost turns c i := by
  induction turns generalizing s with
  | nil =>
    cases hturns
    refine .inl fun n t ht => ?_
    rw [List.take_nil] at ht
    cases ht
    exact h
  | cons turn rest ih =>
    obtain ⟨⟨r, mid⟩, hrun, hrest⟩ := Length.bind_eq_ok.1 hturns
    have hcons : ∀ n t, s.after ((turn :: rest.take n).map ChildTurn.step) = .ok t →
        mid.after ((rest.take n).map ChildTurn.step) = .ok t := by
      intro n t ht
      rwa [List.map_cons, after, hrun] at ht
    rcases ih (linked_turn hlinked hrun) hrest with hsince | hlost
    · rcases stranded_step hlinked hrun (hsince 0 mid rfl) with hstranded | hloses
      · refine .inl fun n t ht => ?_
        cases n with
        | zero =>
          cases ht
          exact hstranded
        | succ n => exact hsince n t (hcons n t ht)
      · exact .inr ⟨[], turn, rest, s, rfl, rfl, hloses, fun n t ht => hsince n t (hcons n t ht)⟩
    · exact .inr (hlost.later hrun)

end Scene

/-- No child is hidden without a reason, unless it has been lost. In `s₀` no component is hidden but
by its settings. Then any containers are laid out, components come, move and go, containers get
other settings, and sizes and hosts change. A child that is hidden at last, and not by its settings,
is accounted for: by what is kept for its container, as a card that is not active, as an item that
the overflow handler lists, or as the component of a collapsed region. Otherwise it was hidden when
it was put into the container, or was a hidden child when the container got another kind of layout,
and nothing has accounted for it since. -/
theorem hidden_children_accounted_or_lost {s₀ s : Scene} {turns : List ChildTurn}
    {c i : ComponentId} (hlinked : s₀.tree.Linked)
    (hflags : ∀ i, s₀.tree.isHidden i = true → s₀.tree.hiddenByConfig i = true)
    (hturns : s₀.after (turns.map ChildTurn.step) = .ok s) (hchild : i ∈ s.tree.children c)
    (hhidden : s.tree.isHidden i = true) (hconfig : s.tree.hiddenByConfig i = false) :
    s.Accounted c i ∨ s₀.Lost turns c i := by
  by_cases haccounted : s.Accounted c i
  · exact .inl haccounted
  · have hstranded : s.Stranded c i := ⟨hchild, hhidden, hconfig, haccounted⟩
    rcases hstranded.since_or_lost hlinked hturns with hsince | hlost
    · have hstart := hsince 0 s₀ rfl
      have hconfigured := hflags i hstart.hidden
      rw [hstart.unconfigured] at hconfigured
      cases hconfigured
    · exact .inr hlost

section

private def ribbonLayout : LayoutConfig :=
  { kind := .hbox, overflowHandler := some .menu, triggerSize := 20 }

private def ribbonButton : ItemConfig := { width := some 40, height := some 20 }

/-- Four buttons in a row with a menu. -/
private def ribbon : Scene :=
  .ofTree (.ofDescription (.node { layout := some ribbonLayout }
    [.node ribbonButton [], .node ribbonButton [], .node ribbonButton [],
      .node ribbonButton []])) .standard

/-- The ribbon is laid out in a width for two buttons, the last one is taken out, and the first one
is moved to the end. -/
private def ribbonTurns : List ChildTurn :=
  [.resize 0 ⟨0, 0, 100, 20⟩, .layout 0, .remove 0 4, .remove 0 1, .append 0 1, .layout 0]

theorem third_button_is_listed :
    ∃ s, ribbon.after (ribbonTurns.map ChildTurn.step) = .ok s ∧ 3 ∈ s.tree.children 0 ∧
      s.tree.isHidden 3 = true ∧ s.Accounted 0 3 := by
  obtain ⟨s, hs, hview⟩ := Scene.after_of_view
    (show (ribbon.after (ribbonTurns.map ChildTurn.step)).toOption.map (fun s =>
        decide (3 ∈ s.tree.children 0) && s.tree.isHidden 3 && !s.tree.hiddenByConfig 3) =
      some true by decide +kernel)
  simp only [Bool.and_eq_true, decide_eq_true_eq, Bool.not_eq_true'] at hview
  obtain ⟨⟨hchild, hhidden⟩, hconfig⟩ := hview
  refine ⟨s, hs, hchild, hhidden, ?_⟩
  refine (hidden_children_accounted_or_lost (Tree.nested_ofDescription _).linked
    (fun i hi => Tree.hiddenAsConfigured_ofDescription _ i ▸ hi) hs hchild hhidden
    hconfig).resolve_right ?_
  rintro ⟨before, turn, rest, mid, hsplit, -, hloses, -⟩
  have hmem : turn ∈ ribbonTurns := by
    rw [hsplit]
    simp
  simp only [ribbonTurns, List.mem_cons, List.not_mem_nil, or_false] at hmem
  rcases hmem with rfl | rfl | rfl | rfl | rfl | rfl <;> simp [Scene.Loses] at hloses

/-- A child of `c` is hidden, but not by its settings, and nothing that is kept for `c` tells
why. -/
def Scene.Unexplained (s : Scene) (c i : ComponentId) : Prop :=
  i ∈ s.tree.children c ∧ s.tree.isHidden i = true ∧ s.tree.hiddenByConfig i = false ∧
    ∀ a ∈ s.kept.get? c, ¬ a.AccountsFor i

instance (s : Scene) (c i : ComponentId) : Decidable (s.Unexplained c i) :=
  inferInstanceAs (Decidable (_ ∧ _ ∧ _ ∧ _))

/-- The ribbon is laid out in a width for two buttons. The last one is taken out, and is put back
after the next pass. -/
private def ribbonDetour : List ChildTurn :=
  [.resize 0 ⟨0, 0, 100, 20⟩, .layout 0, .remove 0 4, .layout 0, .append 0 4]

/-- After another pass, the ribbon is to stack its buttons. -/
private def ribbonSwitch : List ChildTurn :=
  ribbonDetour ++ [.layout 0, .configure 0 (some { kind := .auto })]

/-- After a pass that goes through, the button that was put back is hidden without a reason. When
the ribbon stacks its buttons, the one that the menu has hidden is, too. -/
theorem buttons_are_left_hidden :
    ∃ mid s mid' s', ribbon.after (ribbonDetour.map ChildTurn.step) = .ok mid ∧
      mid.run (Step.layout 0) = .ok (.ok (), s) ∧ s.Unexplained 0 4 ∧
      ribbon.after (ribbonSwitch.map ChildTurn.step) = .ok mid' ∧
      mid'.run (Step.layout 0) = .ok (.ok (), s') ∧ s'.Unexplained 0 3 := by
  obtain ⟨mid, r, s, hmid, hrun, hview⟩ := Scene.runs_of_viewLast
    (show ribbon.viewLast (ribbonDetour.map ChildTurn.step) (Step.layout 0)
        (fun _ r s => (r, decide (s.Unexplained 0 4))) = some (.ok (), true) by decide +kernel)
  obtain ⟨mid', r', s', hmid', hrun', hview'⟩ := Scene.runs_of_viewLast
    (show ribbon.viewLast (ribbonSwitch.map ChildTurn.step) (Step.layout 0)
        (fun _ r s => (r, decide (s.Unexplained 0 3))) = some (.ok (), true) by decide +kernel)
  simp only [Prod.mk.injEq, decide_eq_true_eq] at hview hview'
  obtain ⟨rfl, hfourth⟩ := hview
  obtain ⟨rfl, hthird⟩ := hview'
  exact ⟨mid, s, mid', s', hmid, hrun, hfourth, hmid', hrun', hthird⟩

end

end Trellis
