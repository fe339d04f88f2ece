import Trellis.Proofs.Passes.Traces

/-!
# What a listening host is told is the trace

A pass that goes through has told the host the trace of its container, read off the tree that it
leaves: the children that are visible after a container's own layout are visible at the end, since
the passes over the containers in it do not touch the list that is being walked.

* `Records`: what a pass has told; `RecordsAll`: what passes over several children have told.
* `records_passWithin`: one level of a pass, from the passes below it.
* `meets_cases`: a pass inside another one begins once its container is placed.
* `Meets.opened`: what its layout makes of the container and the children is there at the end.
* `PassTrace`: all of that for a whole pass; `layout_records_trace`: it holds of every layout that
  goes through.
-/
namespace Trellis.Scene

variable {s s' t u v mid laid : Scene} {c x y : ComponentId} {n : Nat}
  {xs : List ComponentId} {layout : LayoutConfig}

/-- Whether the host vetoes that the container is laid out. -/
def vetoes (s : Scene) (x : ComponentId) : Bool := s.host.vetoed x .beforeLayout

theorem Undisturbed.vetoes_eq (h : Undisturbed s t) : t.vetoes = s.vetoes := by
  unfold vetoes
  rw [h.host]

/-- The pass over `x` begins in `u`. -/
def At (u : Scene) (x : ComponentId) (v : Scene) (y : ComponentId) : Prop := v = u ∧ y = x

/-- What a pass over `c` with `n` levels, which goes through, has told the host. -/
structure Records (n : Nat) (c : ComponentId) (s s' : Scene)
    (recorded : List (ComponentId × Event)) : Prop where
  events_eq : s'.events = s.events ++ recorded
  trace_eq : (recorded.filter fun e => e.2.isLayout) = s'.tree.traceWithin s.vetoes n c
  /-- Nothing is said of a container before its pass has begun. -/
  heard : ∀ y e, (y, e) ∈ recorded → (y, .beforeLayout) ∈ recorded ∧
    (s.vetoes y = true → e = .beforeLayout)
  begun : ∀ x, (x, .beforeLayout) ∈ recorded ↔ s.Reaches x n c
  /-- What is visible after a container's own layout is visible at the end. -/
  shown : ∀ u x, s.Meets (At u x) n c → s.vetoes x = false →
    ∃ layout laid, u.Opens layout x (.ok ()) laid ∧
      s'.tree.innerContainers x = laid.tree.innerContainers x

/-- What the passes over `xs` have told the host. -/
structure RecordsAll (n : Nat) (xs : List ComponentId) (s s' : Scene)
    (recorded : List (ComponentId × Event)) : Prop where
  events_eq : s'.events = s.events ++ recorded
  trace_eq : (recorded.filter fun e => e.2.isLayout) =
    (xs.filter fun y => (s'.tree.layout? y).isSome).flatMap (s'.tree.traceWithin s.vetoes n)
  heard : ∀ y e, (y, e) ∈ recorded → (y, .beforeLayout) ∈ recorded ∧
    (s.vetoes y = true → e = .beforeLayout)
  begun : ∀ x, (x, .beforeLayout) ∈ recorded ↔ s.Comes (Step.passOver n)
    (fun mid y => (mid.tree.layout? y).isSome ∧ mid.Reaches x n y) xs
  shown : ∀ u x, s.Comes (Step.passOver n)
      (fun mid y => (mid.tree.layout? y).isSome ∧ mid.Meets (At u x) n y) xs →
    s.vetoes x = false → ∃ layout laid, u.Opens layout x (.ok ()) laid ∧
      s'.tree.innerContainers x = laid.tree.innerContainers x

theorem Meets.mono {P Q : Scene → ComponentId → Prop} (hPQ : ∀ v y, P v y → Q v y)
    (h : s.Meets P n c) : s.Meets Q n c := by
  induction n generalizing s c with
  | zero => exact hPQ s c h
  | succ n ih =>
    rcases h with h | ⟨layout, laid, hopens, hcomes⟩
    · exact .inl (hPQ s c h)
    · obtain ⟨front, y, back, mid, hchildren, hfront, hsome, hmeets⟩ := hcomes.exists
      exact .inr ⟨layout, laid, hopens, .intro hchildren hfront ⟨hsome, ih hmeets⟩⟩

theorem Meets.exists {P : Scene → ComponentId → Prop} (h : s.Meets P n c) :
    ∃ u x, P u x ∧ s.Meets (At u x) n c := by
  induction n generalizing s c with
  | zero => exact ⟨s, c, h, rfl, rfl⟩
  | succ n ih =>
    rcases h with h | ⟨layout, laid, hopens, hcomes⟩
    · exact ⟨s, c, h, .inl ⟨rfl, rfl⟩⟩
    · obtain ⟨front, y, back, mid, hchildren, hfront, hsome, hmeets⟩ := hcomes.exists
      obtain ⟨u, x, hP, hmeets⟩ := ih hmeets
      exact ⟨u, x, hP, .inr ⟨layout, laid, hopens, .intro hchildren hfront ⟨hsome, hmeets⟩⟩⟩

theorem reaches_of_meets (h : s.Meets (At u x) n c) : s.Reaches x n c :=
  h.mono fun _ _ hat => hat.2

/-- A container's own layout ends in one way. -/
theorem Opens.unique {layout' : LayoutConfig} {laid' : Scene} {r r' : Except LayoutError Unit}
    (h : s.Opens layout c r laid) (h' : s.Opens layout' c r' laid') :
    layout' = layout ∧ r' = r ∧ laid' = laid := by
  have hlayout := h'.layout_eq
  rw [h.layout_eq] at hlayout
  cases hlayout
  have hrun := h'.arranged
  rw [h.arranged] at hrun
  cases hrun
  exact ⟨rfl, rfl, rfl⟩

/-- What is inside a container, but not the container, is out of reach of the passes over its
siblings. -/
theorem StaysInside.spares_sibling (hforest : s.tree.Forest)
    (hparents : ∀ z ∈ y :: xs, s.tree.parent? z = some c) (hy : y ∉ xs)
    (h : StaysInside xs s s') {i : ComponentId} (hi : s.tree.Inside y i) :
    s'.tree.get? i = s.tree.get? i := by
  refine h.tree.same i fun z hz hin => ?_
  have heq := hforest.apart (hparents y (by simp)) (hparents z (by simp [hz])) hi hin
  exact absurd (heq ▸ hz) hy

theorem isVisible_congr {t u : Tree} {i : ComponentId} (h : u.get? i = t.get? i) :
    u.isVisible i = t.isVisible i := by
  unfold Tree.isVisible
  rw [h]

/-- The pass over one child. -/
theorem recordsAll_singleton
    (hone : s.run (Step.passWithin n y) = .ok (.ok (), s') → ∃ recorded, Records n y s s' recorded)
    (h : s.run ([y].forM (Step.passOver n)) = .ok (.ok (), s')) :
    ∃ recorded, RecordsAll n [y] s s' recorded := by
  rcases run_forM_cons_eq_ok h with ⟨e, -, herror⟩ | ⟨mid, hfirst, hrest⟩
  · cases herror
  cases hrest
  have hlayout : s'.tree.layout? y = s.tree.layout? y :=
    congrFun (undisturbed_passOver hfirst).shape.layout?_eq.symm y
  rw [run_passOver] at hfirst
  split at hfirst
  · next hcontainer =>
    obtain ⟨recorded, hrecords⟩ := hone hfirst
    refine ⟨recorded, hrecords.events_eq, ?_, hrecords.heard, fun x => ?_,
      fun u x h hheard => ?_⟩
    · rw [hrecords.trace_eq, List.filter_cons_of_pos (by rw [hlayout]; exact hcontainer)]
      simp
    · rw [hrecords.begun]
      simp [Comes, hcontainer]
    · refine hrecords.shown u x ?_ hheard
      simpa [Comes, hcontainer] using h
  · next hleaf =>
    cases hfirst
    refine ⟨[], by simp, ?_, by simp, fun x => ?_, fun u x h _ => ?_⟩
    · simp [hleaf]
    · simp [Comes, hleaf]
    · simp [Comes, hleaf] at h

/-- The pass over one child, and then the passes over its younger siblings. -/
theorem RecordsAll.cons {first later : List (ComponentId × Event)} (hforest : s.tree.Forest)
    (hparents : ∀ z ∈ y :: xs, s.tree.parent? z = some c) (hy : y ∉ xs)
    (hfirstRun : s.run ([y].forM (Step.passOver n)) = .ok (.ok (), mid))
    (hlaterRun : mid.run (xs.forM (Step.passOver n)) = .ok (.ok (), s'))
    (hfirst : RecordsAll n [y] s mid first) (hlater : RecordsAll n xs mid s' later) :
    RecordsAll n (y :: xs) s s' (first ++ later) := by
  have hundisturbed := undisturbed_below hfirstRun
  have hshape := hundisturbed.shape
  have hmidForest := hshape.forest hforest
  have hstays := staysInside_forM hmidForest hlaterRun
  -- what comes later does not touch what is inside `y`
  have hvisible : ∀ z i, mid.tree.Inside y z → mid.tree.parent? i = some z →
      s'.tree.isVisible i = mid.tree.isVisible i := by
    intro z i hz hi
    refine isVisible_congr (hstays.spares_sibling (c := c) hmidForest ?_ hy (.head hi hz))
    rw [← hshape.parent?_eq]
    exact hparents
  obtain ⟨hlaterEvents, hlaterTrace, hlaterHeard, hlaterBegun, hlaterShown⟩ := hlater
  rw [hundisturbed.vetoes_eq] at hlaterTrace hlaterHeard hlaterShown
  have hcomes : ∀ {P : Scene → ComponentId → Prop}, s.Comes (Step.passOver n) P (y :: xs) ↔
      s.Comes (Step.passOver n) P [y] ∨ mid.Comes (Step.passOver n) P xs := by
    intro P
    rw [← List.singleton_append, comes_append, hfirstRun]
    simp
  refine ⟨?_, ?_, fun z e he => ?_, fun x => ?_, fun u x hmeets hheard => ?_⟩
  · rw [hlaterEvents, hfirst.events_eq, List.append_assoc]
  · have hsame : ∀ z ∈ [y],
        s'.tree.traceWithin s.vetoes n z = mid.tree.traceWithin s.vetoes n z := by
      intro z hz
      rw [List.mem_singleton.1 hz]
      exact Tree.traceWithin_congr hstays.tree.toSameShape hmidForest.toLinked hvisible
    have hhead : ([y].filter fun z => (mid.tree.layout? z).isSome).flatMap
          (mid.tree.traceWithin s.vetoes n) =
        ([y].filter fun z => (s'.tree.layout? z).isSome).flatMap
          (s'.tree.traceWithin s.vetoes n) := by
      rw [hstays.tree.toSameShape.layout?_eq]
      exact List.flatMap_congr fun z hz => (hsame z (List.mem_filter.1 hz).1).symm
    rw [List.filter_append, hfirst.trace_eq, hlaterTrace, hhead, ← List.flatMap_append,
      ← List.filter_append, List.singleton_append]
  · rcases List.mem_append.1 he with he | he
    · obtain ⟨hbefore, hveto⟩ := hfirst.heard z e he
      exact ⟨List.mem_append_left _ hbefore, hveto⟩
    · obtain ⟨hbefore, hveto⟩ := hlaterHeard z e he
      exact ⟨List.mem_append_right _ hbefore, hveto⟩
  · rw [List.mem_append, hfirst.begun, hlaterBegun, hcomes]
  · rcases hcomes.1 hmeets with hmeets | hmeets
    · obtain ⟨layout, laid, hopens, hinner⟩ := hfirst.shown u x hmeets hheard
      have hin : s.tree.Inside y x := by
        simp only [Comes, and_false, exists_false, or_false] at hmeets
        exact (reaches_of_meets hmeets.2).inside hforest.toLinked
      rw [hshape.inside_eq] at hin
      refine ⟨layout, laid, hopens, ?_⟩
      rw [← hinner]
      refine hstays.tree.toSameShape.innerContainers_eq fun i hi => hvisible x i hin ?_
      exact (hmidForest.mem_children x i).1 hi
    · exact hlaterShown u x hmeets hheard

/-- The passes over children, if passes over single containers are as they should be. -/
theorem recordsAll_of
    (hone : ∀ {s s' : Scene} {y : ComponentId}, s.tree.Forest → s.host.listens = true →
      s.run (Step.passWithin n y) = .ok (.ok (), s') → ∃ recorded, Records n y s s' recorded)
    (hforest : s.tree.Forest) (hlistens : s.host.listens = true)
    (hparents : ∀ y ∈ xs, s.tree.parent? y = some c) (hnodup : xs.Nodup)
    (h : s.run (xs.forM (Step.passOver n)) = .ok (.ok (), s')) :
    ∃ recorded, RecordsAll n xs s s' recorded := by
  induction xs generalizing s with
  | nil =>
    cases h
    exact ⟨[], by simp, rfl, by simp, by simp [Comes], by simp [Comes]⟩
  | cons y rest ih =>
    obtain ⟨hy, hrestNodup⟩ := List.nodup_cons.1 hnodup
    rw [← List.singleton_append, run_forM_append, Length.bind_eq_ok] at h
    obtain ⟨⟨_ | _, mid⟩, hfirstRun, hlaterRun⟩ := h
    · cases hlaterRun
    have hmid := undisturbed_below hfirstRun
    obtain ⟨first, hfirst⟩ := recordsAll_singleton (hone hforest hlistens) hfirstRun
    obtain ⟨later, hlater⟩ := ih (hmid.shape.forest hforest) (hmid.host ▸ hlistens)
      (fun z hz => by rw [← hmid.shape.parent?_eq]; exact hparents z (by simp [hz]))
      hrestNodup hlaterRun
    exact ⟨_, hfirst.cons hforest hparents hy hfirstRun hlaterRun hlater⟩

/-! ## One level -/

theorem records_vetoed (hlistens : s.host.listens = true)
    (hvetoed : s.host.vetoed c .beforeLayout = true) :
    Records (n + 1) c s (s.told c .beforeLayout) [(c, .beforeLayout)] := by
  have hnever : ∀ {layout laid}, ¬ s.Opens layout c (.ok ()) laid := by
    intro layout laid hopens
    rw [hopens.heard] at hvetoed
    cases hvetoed
  refine ⟨events_told hlistens c .beforeLayout, ?_, fun y e he => ?_, fun x => ?_,
    fun u x hmeets hheard => ?_⟩
  · rw [Tree.traceWithin, if_pos (show s.vetoes c = true from hvetoed)]
    rfl
  · rw [List.mem_singleton, Prod.mk.injEq] at he
    obtain ⟨rfl, rfl⟩ := he
    exact ⟨by simp, fun _ => rfl⟩
  · rw [List.mem_singleton, Prod.mk.injEq]
    constructor
    · intro hx
      exact .inl hx.1.symm
    · intro h
      rcases h with h | ⟨layout, laid, hopens, -⟩
      · exact ⟨h.symm, rfl⟩
      · exact absurd hopens hnever
  · rcases hmeets with ⟨rfl, rfl⟩ | ⟨layout, laid, hopens, -⟩
    · rw [vetoes, hvetoed] at hheard
      cases hheard
    · exact absurd hopens hnever

/-- A container's own layout tells the host that the container is about to be laid out, and of
overflow. -/
theorem Opens.events_eq {r : Except LayoutError Unit} (h : s.Opens layout c r laid)
    (hlistens : s.host.listens = true) : ∃ flips : List Bool, laid.events =
      s.events ++ (c, .beforeLayout) :: flips.map fun b => (c, .overflowChange b) := by
  obtain ⟨flips, hflips⟩ := (Step.writesOnly_arrange layout _ h.arranged).flips
  refine ⟨flips, ?_⟩
  have hbegun : (s.begun layout c).events = s.events ++ [(c, .beforeLayout)] :=
    events_told hlistens c .beforeLayout
  rw [hflips, hbegun, List.append_assoc, List.singleton_append]

/-- What the host is told of one level of a pass, with what the passes below tell it. -/
def levelEvents (c : ComponentId) (flips : List Bool) (below : List (ComponentId × Event)) :
    List (ComponentId × Event) :=
  (c, .beforeLayout) :: (flips.map fun b => (c, .overflowChange b)) ++ below ++
    [(c, .afterLayout)]

section

variable {flips : List Bool} {below : List (ComponentId × Event)}

theorem filter_levelEvents : ((levelEvents c flips below).filter fun e => e.2.isLayout) =
    (c, .beforeLayout) :: (below.filter fun e => e.2.isLayout) ++ [(c, .afterLayout)] := by
  have hquiet : (flips.map fun b => (c, Event.overflowChange b)).filter
      (fun e => e.2.isLayout) = [] := by
    refine List.filter_eq_nil_iff.2 fun e he => ?_
    obtain ⟨b, -, rfl⟩ := List.mem_map.1 he
    exact Bool.false_ne_true
  rw [levelEvents, List.filter_append, List.filter_append, List.filter_cons_of_pos (by rfl), hquiet]
  rfl

theorem of_mem_levelEvents {e : Event} (h : (y, e) ∈ levelEvents c flips below) :
    y = c ∨ (y, e) ∈ below := by
  simp only [levelEvents, List.mem_append, List.mem_cons, List.mem_map, Prod.mk.injEq,
    List.not_mem_nil, or_false] at h
  rcases h with ((⟨hc, -⟩ | ⟨b, -, hc, -⟩) | h) | ⟨hc, -⟩
  · exact .inl hc
  · exact .inl hc.symm
  · exact .inr h
  · exact .inl hc

theorem beforeLayout_mem_levelEvents : (x, .beforeLayout) ∈ levelEvents c flips below ↔
    c = x ∨ (x, .beforeLayout) ∈ below := by
  simp [levelEvents, eq_comm]

end

/-- The passes over the children do not touch the list of children that is walked. -/
theorem StaysInside.isVisible_child (hforest : s.tree.Forest)
    (h : StaysInside (s.tree.visibleChildren c) s s') {i : ComponentId}
    (hi : i ∈ s.tree.children c) : s'.tree.isVisible i = s.tree.isVisible i := by
  refine isVisible_congr (h.tree.same i fun z hz hin => ?_)
  exact hforest.apart ((hforest.mem_children c i).1 hi) (hforest.parent?_of_visible z hz)
    (s.tree.inside_self i) hin

theorem records_finished {after : Scene} {below : List (ComponentId × Event)}
    (hforest : s.tree.Forest) (hlistens : s.host.listens = true)
    (hopens : s.Opens layout c (.ok ()) laid)
    (hbelowRun : laid.run ((laid.tree.visibleChildren c).forM (Step.passOver n)) =
      .ok (.ok (), after))
    (hbelow : RecordsAll n (laid.tree.visibleChildren c) laid after below) :
    ∃ recorded, Records (n + 1) c s (after.told c .afterLayout) recorded := by
  have hlaid := hopens.undisturbed
  have hafter := undisturbed_below hbelowRun
  have hlaidForest := hlaid.shape.forest hforest
  have hstays := staysInside_forM hlaidForest hbelowRun
  obtain ⟨flips, hflips⟩ := hopens.events_eq hlistens
  obtain ⟨hbelowEvents, hbelowTrace, hbelowHeard, hbelowBegun, hbelowShown⟩ := hbelow
  rw [hlaid.vetoes_eq] at hbelowTrace hbelowHeard hbelowShown
  have hvisible := fun i hi => hstays.isVisible_child hlaidForest (i := i) hi
  have hchildren := hstays.tree.toSameShape.visibleChildren_eq hvisible
  have hinner := hstays.tree.toSameShape.innerContainers_eq hvisible
  refine ⟨levelEvents c flips below, ?_, ?_, fun y e he => ?_, fun x => ?_, ?_⟩
  · rw [events_told (by rw [hafter.host, hlaid.host, hlistens]), hbelowEvents, hflips]
    simp [levelEvents]
  · rw [filter_levelEvents, hbelowTrace, Tree.traceWithin,
      if_neg (by simp [vetoes, hopens.heard]), tree_told, Tree.innerContainers, hchildren]
  · rw [beforeLayout_mem_levelEvents]
    rcases of_mem_levelEvents he with rfl | he
    · refine ⟨.inl rfl, fun hvetoed => ?_⟩
      rw [vetoes, hopens.heard] at hvetoed
      cases hvetoed
    · obtain ⟨hbefore, hveto⟩ := hbelowHeard y e he
      exact ⟨.inr hbefore, hveto⟩
  · rw [beforeLayout_mem_levelEvents, hbelowBegun]
    refine or_congr_right ⟨fun h => ⟨layout, laid, hopens, h⟩, fun h => ?_⟩
    obtain ⟨layout', laid', hopens', h⟩ := h
    obtain ⟨-, -, rfl⟩ := hopens.unique hopens'
    exact h
  · intro u x hmeets hheard
    rw [tree_told]
    rcases hmeets with ⟨rfl, rfl⟩ | ⟨layout', laid', hopens', hmeets⟩
    · exact ⟨layout, laid, hopens, hinner⟩
    · obtain ⟨-, -, rfl⟩ := hopens.unique hopens'
      exact hbelowShown u x hmeets hheard

theorem records_passWithin (hforest : s.tree.Forest) (hlistens : s.host.listens = true)
    (h : s.run (Step.passWithin n c) = .ok (.ok (), s')) :
    ∃ recorded, Records n c s s' recorded := by
  induction n generalizing s s' c with
  | zero => cases h
  | succ n ih =>
    cases level_of_run h with
    | vetoed _ hvetoed => exact ⟨_, records_vetoed hlistens hvetoed⟩
    | finished hopens hbelowRun =>
      have hlaid := hopens.undisturbed
      have hlaidForest := hlaid.shape.forest hforest
      obtain ⟨below, hbelow⟩ := recordsAll_of (fun hf hl hrun => ih hf hl hrun) hlaidForest
        (by rw [hlaid.host, hlistens])
        hlaidForest.parent?_of_visible (hlaidForest.nodup_visibleChildren c) hbelowRun
      exact records_finished hforest hlistens hopens hbelowRun hbelow

/-! ## Whole layouts -/

/-- The pass over `x` begins in `u`, and its container, which has been laid out in the same pass
over `c`, has left `x` visible and in its place. -/
def Placed (n : Nat) (c : ComponentId) (s u : Scene) (x : ComponentId) : Prop :=
  ∃ p v layout laid, s.tree.parent? x = some p ∧ s.Meets (At v p) n c ∧
    v.Opens layout p (.ok ()) laid ∧ x ∈ laid.tree.visibleChildren p ∧
      u.tree.get? x = laid.tree.get? x

/-- A pass inside another one begins once its container is laid out; the passes over the siblings in
front of it have not moved it since. -/
theorem meets_cases (hforest : s.tree.Forest) (h : s.Meets (At u x) n c) :
    (u = s ∧ x = c) ∨ Placed n c s u x := by
  induction n generalizing s c with
  | zero => exact .inl ⟨h.1.symm, h.2.symm⟩
  | succ n ih =>
    rcases h with h | ⟨layout, laid, hopens, hcomes⟩
    · exact .inl ⟨h.1.symm, h.2.symm⟩
    · right
      obtain ⟨front, y, back, mid, hchildren, hfront, hsome, hmeets⟩ := hcomes.exists
      have hlaidForest := hopens.undisturbed.shape.forest hforest
      have hshape := hopens.undisturbed.shape.trans
        (undisturbed_below hfront).shape
      have hvisible : ∀ z ∈ front ++ y :: back, laid.tree.parent? z = some c := by
        rw [← hchildren]
        exact hlaidForest.parent?_of_visible
      rcases ih (hshape.forest hforest) hmeets with ⟨rfl, rfl⟩ | hplaced
      · refine ⟨c, s, layout, laid, ?_, .self ⟨rfl, rfl⟩ _, hopens, ?_, ?_⟩
        · rw [hopens.undisturbed.shape.parent?_eq]
          exact hvisible x (by simp)
        · rw [hchildren]
          simp
        · refine (staysInside_forM hlaidForest hfront).tree.same x fun z hz hin => ?_
          exact hlaidForest.apart (hvisible x (by simp)) (hvisible z (by simp [hz]))
            (laid.tree.inside_self x) hin
      · obtain ⟨p, v, layout', laid', hparent, hmeets', hplacing⟩ := hplaced
        rw [← hshape.parent?_eq] at hparent
        exact ⟨p, v, layout', laid', hparent,
          .inr ⟨layout, laid, hopens, .intro hchildren hfront ⟨hsome, hmeets'⟩⟩, hplacing⟩

/-- The passes over the siblings that come after a child do not touch what is inside the child. -/
theorem agree_siblings {r : Except LayoutError Unit} (hforest : s.tree.Forest)
    (hparents : ∀ z ∈ y :: xs, s.tree.parent? z = some c) (hnodup : (y :: xs).Nodup)
    (hin : s.tree.Inside y x) (h : s.run (xs.forM (Step.passOver n)) = .ok (r, s')) :
    s.Agree (s.tree.Near x) (· = x) s' :=
  (staysInside_forM hforest h).agree_near hforest (undisturbed_below h) fun ⟨z, hz, hinz⟩ =>
    (List.nodup_cons.1 hnodup).1 (hforest.apart (hparents y (by simp))
      (hparents z (List.mem_cons_of_mem y hz)) hin hinz ▸ hz)

/-- A pass that begins in the course of another one has the layout of its container run, and what
that leaves of the container and its children is there at the end. -/
theorem Meets.opened {r : Except LayoutError Unit} (hforest : s.tree.Forest)
    (h : s.Meets (At u x) n c) (hlayout : u.tree.layoutOf x = .ok layout)
    (hheard : u.vetoes x = false) (hrun : s.run (Step.passWithin n c) = .ok (r, s')) :
    ∃ r₁ laid, u.Opens layout x r₁ laid ∧ laid.Agree (laid.tree.Near x) (· = x) s' := by
  induction n generalizing s s' c r with
  | zero => cases hrun
  | succ n ih =>
    rcases h with ⟨rfl, rfl⟩ | ⟨other, laid, hopens, hcomes⟩
    · obtain ⟨r₁, laid, hopens, hends⟩ := opens_of_run hlayout hheard hrun
      refine ⟨r₁, laid, hopens, ?_⟩
      rcases hends with ⟨-, rfl⟩ | ⟨-, r₂, after, hbelow, hafter⟩
      · exact .refl _ _ _
      · exact (agree_forM (hopens.undisturbed.shape.forest hforest) hbelow).trans
          (hafter.agree _ _)
    · -- the pass over the child that the inner pass is in ends before those over its siblings
      obtain ⟨r₁, laid', hopens', hends⟩ := opens_of_run hopens.layout_eq hopens.heard hrun
      obtain ⟨-, rfl, rfl⟩ := hopens'.unique hopens
      rcases hends with ⟨⟨_, herror⟩, -⟩ | ⟨-, r₂, after, hbelow, hafter⟩
      · cases herror
      obtain ⟨front, y, back, mid, hchildren, hfront, hsome, hmeets⟩ := hcomes.exists
      have hlaidForest := hopens.undisturbed.shape.forest hforest
      have hmid := undisturbed_below hfront
      have hmidForest := hmid.shape.forest hlaidForest
      have hone : ∀ {r : Except LayoutError Unit} {last : Scene},
          mid.run (Step.passOver n y) = .ok (r, last) →
          ∃ r₁ laid, u.Opens layout x r₁ laid ∧ laid.Agree (laid.tree.Near x) (· = x) last := by
        intro r last hrun
        rw [run_passOver, if_pos hsome] at hrun
        exact ih hmidForest hmeets hrun
      rw [hchildren, run_forM_append, hfront, Length.ok_bind] at hbelow
      rcases run_forM_cons_eq_ok hbelow with ⟨e, hfirst, -⟩ | ⟨last, hfirst, hback⟩
      · obtain ⟨r₁, laid, hopens, hagree⟩ := hone hfirst
        exact ⟨r₁, laid, hopens, hagree.trans (hafter.agree _ _)⟩
      · obtain ⟨r₁, laid', hopens', hagree⟩ := hone hfirst
        refine ⟨r₁, laid', hopens', (hagree.trans ?_).trans (hafter.agree _ _)⟩
        have hlast := undisturbed_passOver hfirst
        have hparents := hlaidForest.parent?_of_visible (c := c)
        have hnodup := hlaidForest.nodup_visibleChildren c
        rw [hchildren, hmid.shape.parent?_eq, hlast.shape.parent?_eq] at hparents
        rw [hchildren] at hnodup
        have hx := (reaches_of_meets hmeets).inside hmidForest.toLinked
        rw [hlast.shape.inside_eq] at hx
        have hnear : laid'.tree.Near x = last.tree.Near x := by
          unfold Tree.Near
          rw [hagree.tree.children_eq]
        rw [hnear]
        exact agree_siblings (hlast.shape.forest hmidForest)
          (fun z hz => hparents z (List.mem_append_right front hz))
          (List.nodup_append.1 hnodup).2.1 hx hback

/-- In the course of a pass over `c`, the pass over `x` begins in `u`. -/
def Begins (c : ComponentId) (s u : Scene) (x : ComponentId) : Prop :=
  s.Meets (At u x) s.tree.size c

theorem Begins.undisturbed (h : s.Begins c u x) : Undisturbed s u := by
  obtain ⟨_, _, ⟨rfl, rfl⟩, hu⟩ := (lasting_undisturbed s).meets (.refl s) h
  exact hu

/-- The layout that the container has when the pass over it begins is the one that it always has. -/
theorem Begins.laidOut {r : Except LayoutError Unit} (hforest : s.tree.Forest) (h : s.Begins c u x)
    (hlayout : s.tree.layout? x = some layout) (hheard : u.vetoes x = false)
    (hrun : s.run (Step.pass c) = .ok (r, s')) :
    ∃ r₁ laid, u.Opens layout x r₁ laid ∧ laid.Agree (laid.tree.Near x) (· = x) s' := by
  rw [run_pass] at hrun
  refine Meets.opened hforest h (Tree.layoutOf_of_layout? ?_) hheard hrun
  rw [← h.undisturbed.shape.layout?_eq, hlayout]

/-- `recorded` is what a pass over `c` has told the host, and `trace` what it is to be told. -/
structure PassTrace (c : ComponentId) (s s' : Scene)
    (trace : ComponentId → List (ComponentId × Event)) (recorded : List (ComponentId × Event)) :
    Prop where
  events_eq : s'.events = s.events ++ recorded
  trace_eq : (recorded.filter fun e => e.2.isLayout) = trace c
  vetoed : ∀ x, s.vetoes x = true → trace x = [(x, .beforeLayout)]
  /-- A pass that is not vetoed has its container's layout run, and goes on with the containers that
  are visible then. -/
  opened : ∀ u x, s.Begins c u x → s.vetoes x = false →
    ∃ layout laid, u.Opens layout x (.ok ()) laid ∧
      trace x = (x, .beforeLayout) :: (laid.tree.innerContainers x).flatMap trace ++
        [(x, .afterLayout)]
  begun : ∀ x, (x, .beforeLayout) ∈ recorded ↔ ∃ u, s.Begins c u x
  once : (recorded.filter fun e => e.2.isLayout).Nodup
  placed : ∀ u x, s.Begins c u x → x ≠ c → Placed s.tree.size c s u x
  /-- All is silent in what is vetoed or hidden. -/
  silent : ∀ y e, (y, e) ∈ recorded → s.tree.Inside c y ∧
    ∀ x, s.tree.Inside c x → s.tree.Inside x y →
      (s.vetoes x = true → y = x ∧ e = .beforeLayout) ∧ (x ≠ c → s'.tree.isVisible x = true)

/-- A pass that goes through is over a container. -/
theorem lt_size_of_passWithin (h : s.run (Step.passWithin n c) = .ok (.ok (), s')) :
    c < s.tree.size := by
  cases n with
  | zero => cases h
  | succ n =>
    cases level_of_run h with
    | vetoed hlayout => exact Tree.lt_size_of_layoutOf hlayout
    | finished hopens => exact Tree.lt_size_of_layoutOf hopens.layout_eq

theorem pass_records_trace (hforest : s.tree.Forest) (hlistens : s.host.listens = true)
    (h : s.run (Step.pass c) = .ok (.ok (), s')) :
    ∃ recorded, PassTrace c s s' (s'.tree.trace s.vetoes) recorded := by
  rw [run_pass] at h
  have hshape := (undisturbed_passWithin h).shape
  have hafter := hshape.forest hforest
  obtain ⟨recorded, hevents, htrace, hheard, hbegun, hshown⟩ :=
    records_passWithin hforest hlistens h
  -- the pass has as many levels as the tree has components, which is enough
  have hbound : s'.tree.trace s.vetoes c = s'.tree.traceWithin s.vetoes s.tree.size c := by
    have hc := lt_size_of_passWithin h
    rw [hshape.size_eq] at hc ⊢
    exact hafter.traceWithin_of_le hc (s'.tree.population_le_size c) (Nat.le_succ _)
  refine ⟨recorded, hevents, ?_, fun x hvetoed => ?_,
    fun u x hbegins hopen => ?_, fun x => ?_, ?_, fun u x hbegins hne => ?_, fun y e he => ?_⟩
  · rw [hbound, htrace]
  · rw [hafter.trace_eq, if_pos hvetoed]
  · obtain ⟨layout, laid, hopens, hinner⟩ := hshown u x hbegins hopen
    refine ⟨layout, laid, hopens, ?_⟩
    rw [hafter.trace_eq, if_neg (by simp [hopen]), hinner]
  · rw [hbegun]
    constructor
    · intro hreaches
      obtain ⟨u, y, rfl, hmeets⟩ := Meets.exists hreaches
      exact ⟨u, hmeets⟩
    · exact fun ⟨u, hbegins⟩ => reaches_of_meets hbegins
  · rw [htrace]
    exact hafter.nodup_traceWithin
  · exact (meets_cases hforest hbegins).resolve_left fun heq => hne heq.2
  · obtain ⟨hbefore, hveto⟩ := hheard y e he
    have hmem : (y, Event.beforeLayout) ∈ recorded.filter fun e => e.2.isLayout :=
      List.mem_filter.2 ⟨hbefore, rfl⟩
    rw [htrace] at hmem
    obtain ⟨hin, -, hway⟩ := hafter.of_mem_traceWithin hmem
    rw [hshape.inside_eq]
    refine ⟨hin, fun x hcx hxy => ⟨fun hvetoed => ?_, (hway x hcx hxy).2⟩⟩
    by_cases heq : x = y
    · subst heq
      exact ⟨rfl, hveto hvetoed⟩
    · have hheard := (hway x hcx hxy).1 heq
      rw [hvetoed] at hheard
      cases hheard

/-- What a listening host is told of a layout that goes through is the trace of its container:
before and after each pass, in between the traces of the containers that are visible once the layout
has run, and of what is vetoed no more than that it is about to be laid out. -/
theorem layout_records_trace (hforest : s.tree.Forest) (hlistens : s.host.listens = true)
    (h : s.run (Step.layout c) = .ok (.ok (), s')) :
    ∃ recorded, PassTrace c (s.relieved c) s' (s'.tree.trace s.vetoes) recorded := by
  rw [run_layout] at h
  exact pass_records_trace (s := s.relieved c) hforest hlistens h

/-- Two cards, and a host that vetoes the first of the two panes of the front one. -/
private def deck : Scene :=
  let container (kind : LayoutKind) (children : List Description) : Description :=
    .node { layout := some { kind } } children
  let front := container .auto [container .auto [container .fit []], container .fit []]
  let back := container .auto [container .fit []]
  .ofTree (.ofDescription (container .card [front, back]))
    { Host.standard with listens := true, vetoes := [(some 2, .beforeLayout)] }

/-- Nothing is said of the card in the back, and no more of what is in the vetoed pane. -/
theorem deck_records_front_card :
    ∃ s', deck.run (Step.layout 0) = .ok (.ok (), s') ∧ s'.tree.trace deck.vetoes 0 =
      [(0, .beforeLayout), (1, .beforeLayout), (2, .beforeLayout), (4, .beforeLayout),
        (4, .afterLayout), (1, .afterLayout), (0, .afterLayout)] := by
  obtain ⟨s, r, s', hs, hrun, hview⟩ := runs_of_viewLast
    (show deck.viewLast [] (Step.layout 0) (fun _ r s' => (r, s'.events)) =
      some (.ok (), [(0, .beforeLayout), (1, .beforeLayout), (2, .beforeLayout),
        (4, .beforeLayout), (4, .afterLayout), (1, .afterLayout), (0, .afterLayout)])
      by decide +kernel)
  cases hs
  obtain ⟨rfl, hevents⟩ := Prod.mk.inj hview
  have hnested : deck.tree.Nested := Tree.nested_ofDescription _
  obtain ⟨recorded, htrace⟩ := layout_records_trace hnested.forest rfl hrun
  have hrecorded : s'.events = recorded := htrace.events_eq
  refine ⟨s', hrun, ?_⟩
  rw [← htrace.trace_eq, ← hrecorded, hevents]
  rfl

end Trellis.Scene
