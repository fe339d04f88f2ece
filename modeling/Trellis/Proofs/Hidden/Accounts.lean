import Trellis.Proofs.Menu.Lines
import Trellis.Proofs.Region.Evolution
import Trellis.Proofs.Region.States

/-!
# Who accounts for hidden children

Cards, menus and collapsed regions hide children, and what a layout keeps for its container tells
which: the cards that are not active, the items that a handler lists, the components of collapsed
regions. A pass hides no child without keeping account of it, and as long as the container has the
same kind of layout, no pass loses the account of a child that it leaves hidden.

* `AccountsFor`: what is kept tells why a child is hidden; `Stranded`: nothing tells that.
* `isVisible_arrange`, `keepsAccount_cards`, `keepsAccount_linear`, `keepsAccount_border`: what each
  kind of layout does.
* `Stranded.of_layout`: a pass strands no child.
-/
namespace Trellis

/-- The hidden children that the handler of a line lists. -/
def Linear.hiddenItems (l : Linear) : List ComponentId :=
  l.overflow.elim [] Box.Handler.hiddenItems

/-- The region at an edge is collapsed, and `i` is its component. -/
def Border.Hides (b : Border) (e : Edge) (i : ComponentId) : Prop :=
  ∃ r, b.get e = some r ∧ r.component = i ∧ r.state = .collapsed

instance (b : Border) (e : Edge) (i : ComponentId) : Decidable (b.Hides e i) :=
  inferInstanceAs (Decidable (∃ r, r ∈ b.get e ∧ r.component = i ∧ r.state = .collapsed))

namespace Arrangement

variable {a : Arrangement} {i : ComponentId}

/-- What is kept for a container tells why its child `i` is hidden: the child is a card that is not
active, an overflow handler lists it, or it is the component of a collapsed region. -/
def AccountsFor (a : Arrangement) (i : ComponentId) : Prop :=
  match a with
  | .card active => active ≠ some i
  | .linear l => i ∈ l.hiddenItems
  | .border b => ∃ e, b.Hides e i
  | _ => False

instance (a : Arrangement) (i : ComponentId) : Decidable (a.AccountsFor i) :=
  match a with
  | .card active => inferInstanceAs (Decidable (active ≠ some i))
  | .linear l => inferInstanceAs (Decidable (i ∈ l.hiddenItems))
  | .border b => decidable_of_iff (∃ e ∈ Edge.all, b.Hides e i)
      ⟨fun ⟨e, _, h⟩ => ⟨e, h⟩, fun ⟨e, h⟩ => ⟨e, e.mem_all, h⟩⟩
  | .auto | .fit | .column | .table | .accordion _ | .anchored _ => .isFalse id

/-- The layout may hide children. -/
def hides : Arrangement → Bool
  | .card _ | .border _ => true
  | .linear l => l.overflow.isSome
  | _ => false

theorem not_accountsFor (h : a.hides = false) : ¬ a.AccountsFor i := by
  cases a with
  | card active => cases h
  | border b => cases h
  | linear l =>
    have hnone : l.overflow = none := by simpa [hides] using h
    simp [AccountsFor, Linear.hiddenItems, hnone]
  | _ => exact id

end Arrangement

namespace Border

variable {b b' : Border} {slots : List Slot} {e : Edge} {i : ComponentId}

theorem Hides.of_bare (h : b.Hides e i)
    (hbare : ∀ e, (b'.get e).map Region.bare = (b.get e).map Region.bare) : b'.Hides e i := by
  obtain ⟨r, hr, hcomponent, hstate⟩ := h
  obtain ⟨r', hr', hsame⟩ := get_of_bare (fun e => (hbare e).symm) hr
  obtain ⟨-, hcomponent', hstate', -⟩ := Region.bare_eq_iff.1 hsame
  exact ⟨r', hr', hcomponent'.symm.trans hcomponent, hstate'.symm.trans hstate⟩

/-- What picking up regions hides are the components of regions that are collapsed then. -/
theorem hides_of_mem_hiddenBySync (h : i ∈ b.hiddenBySync slots) :
    ∃ e, (b.sync slots).Hides e i ∧ (holder slots e.region).map Slot.id = some i := by
  obtain ⟨e, -, he⟩ := List.mem_filterMap.1 h
  unfold newlyHidden at he
  split at he
  · next slot hslot =>
    split at he
    · next hnew =>
      cases he
      obtain ⟨hcollapsed, hunknown⟩ : slot.collapsed = true ∧
          (b.get e).map Region.component ≠ some slot.id := by simpa using hnew
      refine ⟨e, ⟨.fresh e.region slot.id slot.collapsed, ?_, rfl, ?_⟩, by rw [hslot]; rfl⟩
      · rw [get_sync]
        unfold regionAt
        rw [hslot]
        cases hr : b.get e with
        | none => rfl
        | some r =>
          have hother : r.component ≠ slot.id := by simpa [hr] using hunknown
          exact if_neg hother
      · simp [Region.fresh, hcollapsed]
    · cases he
  · cases he

end Border

namespace Tree

variable {t u : Tree}

/-- The settings of a component hide it. -/
def hiddenByConfig (t : Tree) (i : ComponentId) : Bool := (t.config? i).any ItemConfig.hidden

/-! ## Trees that no layout has touched -/

/-- What is hidden is hidden by its settings. -/
def HiddenAsConfigured (t : Tree) : Prop := ∀ i, t.isHidden i = t.hiddenByConfig i

theorem HiddenAsConfigured.rearranged (h : t.HiddenAsConfigured) (hsame : t.Rearranged u) :
    u.HiddenAsConfigured := by
  intro i
  rw [← hsame.isHidden_eq, h i, hiddenByConfig, hiddenByConfig, hsame.config?_eq]

theorem HiddenAsConfigured.alloc (h : t.HiddenAsConfigured) (item : ItemConfig) :
    (t.alloc item).HiddenAsConfigured := by
  intro i
  have hi := h i
  unfold isHidden hiddenByConfig config? at hi ⊢
  rw [get?_alloc]
  split
  · rfl
  · exact hi

theorem hiddenAsConfigured_ofDescription (d : Description) :
    (ofDescription d).HiddenAsConfigured := by
  have hextends : Extends HiddenAsConfigured :=
    ⟨fun item h => h.alloc item,
      fun parent child h => h.rearranged (rearranged_attach _ parent child)⟩
  exact hextends.ofDescription (fun _ => rfl) d

end Tree

namespace Scene

variable {s s' t u mid : Scene} {layout : LayoutConfig} {c d i : ComponentId} {a : Arrangement}
  {r : Except LayoutError Unit}

/-- What is kept for `c` is of the kind of layout that `c` has, and tells why its child `i` is
hidden. If a region tells it, then `i` is the child that the region is for. -/
structure AccountedBy (s : Scene) (c i : ComponentId) (a : Arrangement) : Prop where
  kept : s.kept.get? c = some a
  kind : (s.tree.layout? c).map LayoutConfig.kind = some a.kind
  accounts : a.AccountsFor i
  holds : ∀ b, a = .border b → ∃ e, b.Hides e i ∧ s.tree.holder c e.region = some i

def Accounted (s : Scene) (c i : ComponentId) : Prop := ∃ a, s.AccountedBy c i a

/-- A child is hidden, neither by its settings nor on account of anything. -/
structure Stranded (s : Scene) (c i : ComponentId) : Prop where
  child : i ∈ s.tree.children c
  hidden : s.tree.isHidden i = true
  unconfigured : s.tree.hiddenByConfig i = false
  unaccounted : ¬ s.Accounted c i

theorem Accounted.congr (h : s.Accounted c i) (hkept : t.kept.get? c = s.kept.get? c)
    (hkind : (t.tree.layout? c).map LayoutConfig.kind = (s.tree.layout? c).map LayoutConfig.kind)
    (hholder : ∀ name, s.tree.holder c name = some i → t.tree.holder c name = some i) :
    t.Accounted c i := by
  obtain ⟨a, ha⟩ := h
  refine ⟨a, hkept.trans ha.kept, hkind.trans ha.kind, ha.accounts, fun b hb => ?_⟩
  obtain ⟨e, hhides, hholds⟩ := ha.holds b hb
  exact ⟨e, hhides, hholder e.region hholds⟩

/-- What is hidden in `t` without an account has been so in `s`. -/
def KeepsAccount (s t : Scene) (c : ComponentId) : Prop :=
  ∀ i ∈ s.tree.children c, t.tree.isHidden i = true → ¬ t.Accounted c i →
    s.tree.isHidden i = true ∧ ¬ s.Accounted c i

theorem KeepsAccount.stranded (h : KeepsAccount s t c) (hshape : s.tree.SameShape t.tree)
    (ht : t.Stranded c i) : s.Stranded c i := by
  have hchild : i ∈ s.tree.children c := hshape.children_eq ▸ ht.child
  obtain ⟨hhidden, hnot⟩ := h i hchild ht.hidden ht.unaccounted
  refine ⟨hchild, hhidden, ?_, hnot⟩
  rw [Tree.hiddenByConfig, hshape.config?_eq]
  exact ht.unconfigured

/-- Nothing happens that concerns `c`. -/
theorem keepsAccount_of_same (hshape : s.tree.SameShape t.tree)
    (hkept : t.kept.get? c = s.kept.get? c)
    (hflags : ∀ i ∈ s.tree.children c, t.tree.isHidden i = s.tree.isHidden i) :
    KeepsAccount s t c := by
  intro i hi hhidden hnot
  refine ⟨hflags i hi ▸ hhidden, fun h => hnot (h.congr hkept ?_ fun name hname => ?_)⟩
  · rw [hshape.layout?_eq]
  · rwa [Tree.holder_congr (congrFun hshape.children_eq.symm c) hshape.config?_eq.symm]

theorem Stranded.of_same (h : t.Stranded c i) (hshape : s.tree.SameShape t.tree)
    (hkept : t.kept.get? c = s.kept.get? c)
    (hflags : ∀ i ∈ s.tree.children c, t.tree.isHidden i = s.tree.isHidden i) : s.Stranded c i :=
  (keepsAccount_of_same hshape hkept hflags).stranded hshape h

/-! ## What single layouts do -/

/-- A layout that hides nothing shows nothing. -/
theorem isVisible_arrange (hnot : a.hides = false)
    (h : s.run (Step.arrange layout d a) = .ok (r, s')) : s'.tree.isVisible = s.tree.isVisible := by
  cases a with
  | auto => exact isVisible_placing h
  | table => exact isVisible_placing h
  | fit =>
    change s.run (Fill.arrange layout d) = _ at h
    rw [run_fit] at h
    split at h
    · cases h
      rfl
    · exact isVisible_fill h
  | column =>
    obtain ⟨mid, hfirst, ⟨-, rfl⟩ | hsecond⟩ := run_columns_rounds h
    · exact isVisible_placing hfirst
    · exact (isVisible_placing hsecond).trans (isVisible_placing hfirst)
  | accordion active =>
    obtain ⟨_, -, -, hplaces⟩ := run_accordion_eq_ok h
    exact hplaces.isVisible_eq
  | anchored a =>
    obtain ⟨-, b, mid, hfirst, rfl | ⟨b', hsecond⟩⟩ := run_anchored_rounds h
    · exact (touches_anchoredPass hfirst).2
    · exact (touches_anchoredPass hsecond).2.trans (touches_anchoredPass hfirst).2
  | linear l =>
    have hnone : l.overflow = none := by simpa [Arrangement.hides] using hnot
    obtain ⟨-, _, _, _, -, -, -, hplaces, -⟩ := run_linear_of_none hnone h
    exact hplaces.isVisible_eq
  | card active => cases hnot
  | border b => cases hnot

section

variable (hlinked : s.tree.Linked) (hlayout : s.tree.layout? d = some layout)

include hlinked hlayout

/-- Every card that a pass hides is not active. -/
theorem keepsAccount_cards {active : Option ComponentId} (hkind : layout.kind = .card)
    (h : s.run (Fill.arrangeCards layout d active) = .ok (r, s')) : KeepsAccount s s' d := by
  obtain ⟨card, hkept, hvisible⟩ : ∃ card, s'.kept.get? d = some (.card card) ∧
      s'.tree.isVisible = (s.dealt d card).tree.isVisible := by
    rw [run_cards] at h
    split at h
    · next card hcard =>
      obtain ⟨_, _, _, -, -, -, -, -, hplaces⟩ := run_fill_eq_ok h
      refine ⟨some card, ?_, hplaces.isVisible_eq⟩
      rw [hplaces.kept, dealt, IdMap.get?_insert, if_pos rfl]
    · cases h
      exact ⟨none, by rw [dealt, IdMap.get?_insert, if_pos rfl], rfl⟩
  have hshape := (touches_cards hlinked h).tree.toSameShape
  intro i hi hhidden hnot
  refine absurd ⟨.card card, hkept, ?_, ?_, by rintro _ ⟨⟩⟩ hnot
  · rw [← hshape.layout?_eq, hlayout, Option.map_some, hkind]
    rfl
  · have hdealt := (touches_dealt s d card).tree.toSameShape
    obtain ⟨x, hx⟩ := (hdealt.linked hlinked).exists_child (hdealt.children_eq ▸ hi)
    rw [(hshape.linked hlinked).isHidden_child (hshape.children_eq ▸ hi), hvisible,
      Tree.isVisible, hx] at hhidden
    have hinactive : x.state.hidden = true := by simpa using hhidden
    rw [hidden_dealt hlinked hi hx] at hinactive
    exact fun heq => by simp [heq] at hinactive

/-- A handler lists what it hides, and shows what it lists no more. -/
theorem keepsAccount_linear {l : Linear} (hkept : s.kept.get? d = some (.linear l))
    (hkind : Arrangement.kind (.linear l) = layout.kind)
    (h : s.run (Lines.arrange layout d l) = .ok (r, s')) : KeepsAccount s s' d := by
  have hshape := (touches_linear h).tree.toSameShape
  cases hoverflow : l.overflow with
  | none =>
    obtain ⟨-, _, _, _, -, -, -, hplaces, -⟩ := run_linear_of_none hoverflow h
    refine keepsAccount_of_same hshape (by rw [hplaces.kept]) fun i _ => ?_
    exact (hshape.isHidden_eq (by rw [hplaces.isVisible_eq])).symm
  | some handler =>
    obtain ⟨-, target, first, next, o, _, _, _, hhandles⟩ := run_linear_of_handler hoverflow h
    obtain ⟨hhides, hlists⟩ := Box.Handler.hiddenItems_react hhandles.react_eq
    have hplaces := hhandles.places
    have hkept' : s'.kept.get? d = some (.linear { l with overflow := some next }) := by
      rw [hplaces.kept, reacted, IdMap.get?_insert, if_pos rfl]
    intro i hi hhidden hnot
    have hunlisted : i ∉ next.hiddenItems := by
      refine fun hmem => hnot ⟨_, hkept', ?_, hmem, by rintro _ ⟨⟩⟩
      rw [← hshape.layout?_eq, hlayout, Option.map_some, ← hkind]
      rfl
    obtain ⟨x, hx⟩ := hlinked.exists_child hi
    rw [(hshape.linked hlinked).isHidden_child (hshape.children_eq ▸ hi), hplaces.isVisible_eq,
      show (s.reacted d l next o).tree = Lines.reveal o s.tree from rfl, isVisible_reveal,
      hx] at hhidden
    by_cases hreveal : i ∈ o.reveal
    · simp [hreveal] at hhidden
    · have hshown : i ∉ o.hide := fun hmem => hunlisted (hhides i hmem)
      rw [if_neg hreveal, if_neg hshown] at hhidden
      refine ⟨by rw [hlinked.isHidden_child hi, hhidden], ?_⟩
      rintro ⟨a, ha⟩
      obtain rfl := Option.some.inj (hkept.symm.trans ha.kept)
      have hlisted : i ∈ handler.hiddenItems := by
        simpa [Arrangement.AccountsFor, Linear.hiddenItems, hoverflow] using ha.accounts
      exact hunlisted (hlists i (Box.Handler.mem_hiddenItems_retain.2 ⟨hlisted, hi⟩) hreveal)

/-- A region that hides its component is collapsed, and stays so as long as the component is the
child that it is for. -/
theorem keepsAccount_border {b : Border} (hkept : s.kept.get? d = some (.border b))
    (hkind : layout.kind = .border)
    (h : s.run (Step.arrangeBorder layout d b) = .ok (r, s')) : KeepsAccount s s' d := by
  have hshape := (touches_border h).tree.toSameShape
  obtain ⟨slots, mid, hslots, hsync, hlays⟩ := run_arrangeBorder_eq_ok h
  obtain ⟨after, hkept', hbare, hvisible⟩ : ∃ after, s'.kept.get? d = some (.border after) ∧
      (∀ e, (after.get e).map Region.bare = ((b.sync slots).get e).map Region.bare) ∧
      s'.tree.isVisible = mid.tree.isVisible := by
    rcases hlays with ⟨-, -, rfl⟩ | ⟨-, after, placements, hlays⟩
    · exact ⟨b.sync slots, by rw [hsync.kept, IdMap.get?_insert, if_pos rfl], fun _ => rfl, rfl⟩
    · obtain ⟨center, content, -, -, hplace⟩ := hlays.laid
      refine ⟨after, by rw [hlays.kept, IdMap.get?_insert, if_pos rfl], ?_, ?_⟩
      · exact Border.bare_place hplace
      · rw [hlays.tree, Tree.isVisible_applyPlacements]
  intro i hi hhidden hnot
  have hunheld : ∀ e, (b.sync slots).Hides e i → s.tree.holder d e.region ≠ some i := by
    intro e hhides hholds
    have hhides := hhides.of_bare hbare
    refine hnot ⟨.border after, hkept', ?_, ⟨e, hhides⟩, ?_⟩
    · rw [← hshape.layout?_eq, hlayout, Option.map_some, hkind]
      rfl
    · rintro _ ⟨⟩
      refine ⟨e, hhides, ?_⟩
      rwa [Tree.holder_congr (congrFun hshape.children_eq.symm d) hshape.config?_eq.symm]
  refine ⟨?_, ?_⟩
  · have hold : i ∉ b.hiddenBySync slots := by
      intro hmem
      obtain ⟨e, hhides, hholds⟩ := Border.hides_of_mem_hiddenBySync hmem
      exact hunheld e hhides (by rw [← id_holder hslots, hholds])
    rw [(hshape.linked hlinked).isHidden_child (hshape.children_eq ▸ hi), hvisible, hsync.tree,
      isVisible_hide] at hhidden
    rw [hlinked.isHidden_child hi]
    simpa [hold] using hhidden
  · rintro ⟨a, ha⟩
    obtain rfl := Option.some.inj (hkept.symm.trans ha.kept)
    obtain ⟨e, ⟨q, hq, rfl, hstate⟩, hholds⟩ := ha.holds b rfl
    exact hunheld e ⟨q, (get_sync_of_held hslots hq hholds).1, rfl, hstate⟩ hholds

/-- Whatever kind of layout the container has. -/
theorem keepsAccount_arrange (hkept : s.kept.get? d = some a) (hkind : a.kind = layout.kind)
    (h : s.run (Step.arrange layout d a) = .ok (r, s')) : KeepsAccount s s' d := by
  by_cases hhides : a.hides = false
  · have hshape := (touches_arrange hlinked h).tree.toSameShape
    intro i _ hhidden _
    refine ⟨?_, ?_⟩
    · rwa [hshape.isHidden_eq (by rw [isVisible_arrange hhides h])]
    · rintro ⟨a', ha⟩
      obtain rfl := Option.some.inj (hkept.symm.trans ha.kept)
      exact Arrangement.not_accountsFor hhides ha.accounts
  · cases a with
    | card active => exact keepsAccount_cards hlinked hlayout hkind.symm h
    | border b => exact keepsAccount_border hlinked hlayout hkept hkind.symm h
    | linear l => exact keepsAccount_linear hlinked hlayout hkept hkind h
    | _ => exact absurd rfl hhides

end

/-! ## What passes do -/

theorem Stranded.of_arrange (hlinked : s.tree.Linked) (hlayout : s.tree.layoutOf d = .ok layout)
    (hkept : s.kept.get? d = some a) (hkind : a.kind = layout.kind)
    (hrun : s.run (Step.arrange layout d a) = .ok (r, s')) (h : s'.Stranded c i) :
    s.Stranded c i := by
  have htouches := touches_arrange hlinked hrun
  have hshape := htouches.tree.toSameShape
  by_cases heq : c = d
  · subst heq
    have hsettings := Tree.layout?_of_layoutOf hlayout
    exact (keepsAccount_arrange hlinked hsettings hkept hkind hrun).stranded hshape h
  · refine h.of_same hshape (htouches.kept c heq).symm fun j hj => ?_
    refine (htouches.tree.isHidden_eq fun hmem => ?_).symm
    exact hlinked.not_mem_children hmem (Ne.symm heq) hj

theorem Stranded.of_ready (hlayout : s.tree.layoutOf d = .ok layout)
    (h : (s.ready layout d).Stranded c i) : s.Stranded c i := by
  have hshape := (s.tree.agree_renderChildren d).toSameShape
  have hflags : ∀ j, (s.ready layout d).tree.isHidden j = s.tree.isHidden j := fun j =>
    (hshape.isHidden_eq (by rw [Tree.isVisible_renderChildren])).symm
  by_cases heq : c = d
  · subst heq
    refine KeepsAccount.stranded (fun j _ hhidden hnot => ?_) hshape h
    refine ⟨hflags j ▸ hhidden, fun hj => hnot ?_⟩
    -- what accounts for a child is of the right kind, so that it stays in use
    obtain ⟨a, ha⟩ := hj
    have hkind := ha.kind
    rw [Tree.layout?_of_layoutOf hlayout, Option.map_some, Option.some.injEq] at hkind
    have hsame : s.arrangement layout c = a := arrangement_of_kept ha.kept hkind.symm
    refine Accounted.congr ⟨a, ha⟩ ?_ (by rw [hshape.layout?_eq]; rfl) fun name hname => ?_
    · rw [kept_ready_self, hsame, ha.kept]
    · exact (congrFun (Tree.holder_congr (congrFun hshape.children_eq c) hshape.config?_eq)
        name).symm.trans hname
  · refine h.of_same hshape ?_ fun j _ => hflags j
    rw [kept_ready (.refl s), if_neg heq]

/-- A pass strands no child, however it ends. -/
theorem Stranded.of_layout (hlinked : s.tree.Linked) (hrun : s.run (Step.layout d) = .ok (r, s'))
    (h : s'.Stranded c i) : s.Stranded c i := by
  have hpreserved : Preserved (fun _ => True) fun t =>
      t.tree.Linked ∧ ∀ c i, t.Stranded c i → s.Stranded c i := by
    refine ⟨?_, fun _ _ _ _ => trivial, ?_, ?_⟩
    · intro t u hsilent ht
      obtain ⟨htree, -, hkept⟩ := hsilent
      refine ⟨htree ▸ ht.1, fun c i hu => ht.2 c i (hu.of_same ?_ (by rw [hkept]) ?_)⟩
      · rw [htree]
        exact .refl t.tree
      · rw [htree]
        exact fun _ _ => rfl
    · intro t e layout ht _ hlayout
      refine ⟨(t.tree.agree_renderChildren e).toSameShape.linked ht.1, fun c i hu => ?_⟩
      exact ht.2 c i (hu.of_ready hlayout)
    · intro t u e layout a r ht _ hlayout hkept hkind hrun
      refine ⟨(touches_arrange ht.1 hrun).tree.toSameShape.linked ht.1, fun c i hu => ?_⟩
      exact ht.2 c i (hu.of_arrange ht.1 hlayout hkept hkind hrun)
  exact (hpreserved.of_layout trivial ⟨hlinked, fun _ _ => id⟩ hrun).2 c i h

end Scene

end Trellis
