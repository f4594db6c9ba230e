/-
Labelling by depth-first traversal.  A visit labels a node and goes on to the
adjacent nodes that have no label yet; closed nodes are never entered.  When
adjacency is symmetric, visiting the unlabelled nodes one after the other, each
with a label of its own, labels two nodes alike exactly when they are connected.
-/
import Mathlib.Data.Finset.Card
import Mathlib.Logic.Function.Basic
import Mathlib.Logic.Relation

namespace Supernova

namespace DepthFirst

variable {α β : Type*}

/-- Visit a node unless it is closed or has a label. -/
def enter (closed : α → Bool)
    (visitFrom : (α → Option β) → α → Option (α → Option β)) (labels : α → Option β) (w : α) :
    Option (α → Option β) :=
  if (labels w).isNone && !closed w then visitFrom labels w else some labels

/-- Visit a node; `none` when the traversal gets deeper than `fuel`. -/
def visit [DecidableEq α] (next : α → List α) (closed : α → Bool) (b : β) :
    Nat → (α → Option β) → α → Option (α → Option β)
  | 0, _, _ => none
  | fuel + 1, labels, v =>
      (next v).foldlM (enter closed (visit next closed b fuel))
        (Function.update labels v (some b))

/-- An edge from one of the nodes to another, where both may be entered. -/
structure Adjacent (nodes : Finset α) (next : α → List α) (closed : α → Bool) (v w : α) :
    Prop where
  mem : v ∈ nodes
  next : w ∈ next v
  left_open : closed v = false
  right_open : closed w = false

def Connected (nodes : Finset α) (next : α → List α) (closed : α → Bool) : α → α → Prop :=
  Relation.ReflTransGen (Adjacent nodes next closed)

theorem Connected.symm {nodes : Finset α} {next : α → List α} {closed : α → Bool} {v w : α}
    (h : Connected nodes next closed v w)
    (hsymm : ∀ v w, Adjacent nodes next closed v w → Adjacent nodes next closed w v) :
    Connected nodes next closed w v := by
  induction h with
  | refl => exact .refl
  | tail _ hadjacent ih => exact .head (hsymm _ _ hadjacent) ih

/-- The nodes that a visit could still enter. -/
def openNodes (closed : α → Bool) (nodes : Finset α) (labels : α → Option β) : Finset α :=
  nodes.filter fun w => (labels w).isNone && !closed w

/-- What visits from some of the `roots` do to the labels: none is taken back,
new ones are `b`, and a newly labelled node has no unlabelled neighbour left. -/
structure Grown (nodes : Finset α) (next : α → List α) (closed : α → Bool) (b : β)
    (roots : List α) (labels labels' : α → Option β) : Prop where
  fresh : ∀ w, labels' w = labels w ∨
    labels w = none ∧ labels' w = some b ∧ ∃ v ∈ roots, Connected nodes next closed v w
  done : ∀ w, labels' w = labels w ∨
    ∀ u ∈ next w, closed u = false → (labels' u).isSome

section

variable {nodes : Finset α} {next : α → List α} {closed : α → Bool} {b : β}
  {labels labels' labels'' : α → Option β}

theorem Grown.kept {roots : List α} (h : Grown nodes next closed b roots labels labels') {w : α}
    (hw : (labels w).isSome) : labels' w = labels w := by
  rcases h.fresh w with heq | ⟨hnone, -⟩
  · exact heq
  · simp [hnone] at hw

theorem Grown.isSome {roots : List α} (h : Grown nodes next closed b roots labels labels') {w : α}
    (hw : (labels w).isSome) : (labels' w).isSome := by
  rwa [h.kept hw]

theorem Grown.refl (roots : List α) : Grown nodes next closed b roots labels labels :=
  ⟨fun _ => .inl rfl, fun _ => .inl rfl⟩

theorem Grown.trans {roots roots' : List α} (h : Grown nodes next closed b roots labels labels')
    (h' : Grown nodes next closed b roots' labels' labels'') :
    Grown nodes next closed b (roots ++ roots') labels labels'' := by
  constructor
  · intro w
    rcases h.fresh w with heq | ⟨hnone, hb, v, hv, hconnected⟩
    · rcases h'.fresh w with heq' | ⟨hnone', hb', v', hv', hconnected'⟩
      · exact .inl (heq'.trans heq)
      · exact .inr ⟨heq ▸ hnone', hb', v', List.mem_append_right _ hv', hconnected'⟩
    · have hkept := h'.kept (w := w) (by simp [hb])
      exact .inr ⟨hnone, hkept.trans hb, v, List.mem_append_left _ hv, hconnected⟩
  · intro w
    rcases h'.done w with heq' | hdone'
    · rcases h.done w with heq | hdone
      · exact .inl (heq'.trans heq)
      · exact .inr fun u hu hopen => h'.isSome (hdone u hu hopen)
    · exact .inr hdone'

theorem Grown.card_openNodes_le {roots : List α}
    (h : Grown nodes next closed b roots labels labels') :
    (openNodes closed nodes labels').card ≤ (openNodes closed nodes labels).card := by
  apply Finset.card_le_card
  intro w hw
  obtain ⟨hmem, hw⟩ := Finset.mem_filter.mp hw
  refine Finset.mem_filter.mpr ⟨hmem, ?_⟩
  rcases h.fresh w with heq | ⟨-, hb, -⟩
  · rwa [heq] at hw
  · simp [hb] at hw

/-- The loop over the neighbours of a node, given what a visit does. -/
theorem foldlM_enter_grown {fuel : Nat}
    {visitFrom : (α → Option β) → α → Option (α → Option β)}
    (hvisit : ∀ (labels : α → Option β) (v : α), v ∈ nodes → labels v = none →
      closed v = false → (openNodes closed nodes labels).card ≤ fuel →
      ∃ labels', visitFrom labels v = some labels' ∧
        Grown nodes next closed b [v] labels labels' ∧ labels' v = some b) :
    ∀ (ws : List α) (labels : α → Option β), (∀ w ∈ ws, w ∈ nodes) →
      (openNodes closed nodes labels).card ≤ fuel →
      ∃ labels', ws.foldlM (enter closed visitFrom) labels = some labels' ∧
        Grown nodes next closed b (ws.filter fun w => !closed w) labels labels' ∧
        ∀ w ∈ ws, closed w = false → (labels' w).isSome := by
  intro ws
  induction ws with
  | nil =>
      intro labels _ _
      exact ⟨labels, rfl, .refl _, fun w hw => by cases hw⟩
  | cons w ws ih =>
      intro labels hws hcard
      have hhead : ∃ labels₁, enter closed visitFrom labels w = some labels₁ ∧
          Grown nodes next closed b ([w].filter fun w => !closed w) labels labels₁ ∧
          (closed w = false → (labels₁ w).isSome) := by
        by_cases hw : ((labels w).isNone && !closed w) = true
        · obtain ⟨hnone, hopen⟩ : labels w = none ∧ closed w = false := by
            simpa using hw
          obtain ⟨labels₁, henter, hgrown, hb⟩ :=
            hvisit labels w (hws w List.mem_cons_self) hnone hopen hcard
          refine ⟨labels₁, ?_, ?_, ?_⟩
          · rw [enter, if_pos hw, henter]
          · simpa [hopen] using hgrown
          · simp [hb]
        · refine ⟨labels, if_neg hw, .refl _, ?_⟩
          intro hopen
          simpa [hopen, Option.isSome_iff_ne_none] using hw
      obtain ⟨labels₁, henter, hgrown, hsome⟩ := hhead
      obtain ⟨labels₂, htail, hgrown', hsome'⟩ := ih labels₁
        (fun u hu => hws u (List.mem_cons_of_mem _ hu))
        (hgrown.card_openNodes_le.trans hcard)
      refine ⟨labels₂, ?_, ?_, ?_⟩
      · rw [List.foldlM_cons, henter]
        exact htail
      · have htrans := hgrown.trans hgrown'
        rwa [← List.filter_append] at htrans
      · rw [List.forall_mem_cons]
        exact ⟨fun hopen => hgrown'.isSome (hsome hopen), hsome'⟩

section Visit

variable [DecidableEq α]

/-- A visit that starts at a neighbour of `v` and ends is a part of one that
starts at `v`. -/
theorem Grown.of_neighbours {v : α} {roots : List α} (hmem : v ∈ nodes) (hv : closed v = false)
    (hlabel : labels v = none) (hroots : ∀ w ∈ roots, w ∈ next v ∧ closed w = false)
    (h : Grown nodes next closed b roots (Function.update labels v (some b)) labels')
    (hdone : ∀ u ∈ next v, closed u = false → (labels' u).isSome) :
    Grown nodes next closed b [v] labels labels' := by
  have hkept : labels' v = some b := by
    have := h.kept (w := v) (by simp)
    simpa using this
  constructor
  · intro w
    by_cases hw : w = v
    · subst hw
      exact .inr ⟨hlabel, hkept, w, List.mem_cons_self, .refl⟩
    · rcases h.fresh w with heq | ⟨hnone, hb, u, hu, hconnected⟩
      · rw [Function.update_of_ne hw] at heq
        exact .inl heq
      · rw [Function.update_of_ne hw] at hnone
        refine .inr ⟨hnone, hb, v, List.mem_cons_self, ?_⟩
        exact .head ⟨hmem, (hroots u hu).1, hv, (hroots u hu).2⟩ hconnected
  · intro w
    by_cases hw : w = v
    · subst hw
      exact .inr hdone
    · rcases h.done w with heq | hdone'
      · rw [Function.update_of_ne hw] at heq
        exact .inl heq
      · exact .inr hdone'

theorem card_openNodes_update {v : α} (hv : v ∈ nodes)
    (hopen : ((labels v).isNone && !closed v) = true) :
    (openNodes closed nodes (Function.update labels v (some b))).card <
      (openNodes closed nodes labels).card := by
  apply Finset.card_lt_card
  refine Finset.ssubset_iff_of_subset ?_ |>.mpr ⟨v, ?_, ?_⟩
  · intro w hw
    obtain ⟨hmem, hw⟩ := Finset.mem_filter.mp hw
    refine Finset.mem_filter.mpr ⟨hmem, ?_⟩
    by_cases hwv : w = v
    · simpa [hwv] using hopen
    · rwa [Function.update_of_ne hwv] at hw
  · exact Finset.mem_filter.mpr ⟨hv, hopen⟩
  · simp [openNodes]

/-- A visit with enough fuel for the nodes that are still open ends, and labels
what it can get to. -/
theorem visit_grown (hnodes : ∀ v ∈ nodes, ∀ w ∈ next v, w ∈ nodes) :
    ∀ (fuel : Nat) (labels : α → Option β) (v : α), v ∈ nodes → labels v = none →
      closed v = false → (openNodes closed nodes labels).card ≤ fuel →
      ∃ labels', visit next closed b fuel labels v = some labels' ∧
        Grown nodes next closed b [v] labels labels' ∧ labels' v = some b := by
  intro fuel
  induction fuel with
  | zero =>
      intro labels v hv hlabel hopen hcard
      have hmem : v ∈ openNodes closed nodes labels :=
        Finset.mem_filter.mpr ⟨hv, by simp [hlabel, hopen]⟩
      have hpositive := Finset.card_pos.mpr ⟨v, hmem⟩
      omega
  | succ fuel ih =>
      intro labels v hv hlabel hopen hcard
      have hless : (openNodes closed nodes (Function.update labels v (some b))).card <
          (openNodes closed nodes labels).card :=
        card_openNodes_update hv (by simp [hlabel, hopen])
      obtain ⟨labels', hfold, hgrown, hdone⟩ := foldlM_enter_grown ih (next v)
        (Function.update labels v (some b)) (hnodes v hv) (by omega)
      refine ⟨labels', hfold, ?_, ?_⟩
      · apply Grown.of_neighbours hv hopen hlabel ?_ hgrown hdone
        intro w hw
        obtain ⟨hmem, hwopen⟩ := List.mem_filter.mp hw
        exact ⟨hmem, by simpa using hwopen⟩
      · have hkept := hgrown.kept (w := v) (by simp)
        simpa using hkept

/-- Labelling the start of a visit beforehand makes no difference. -/
theorem visit_update (fuel : Nat) (v : α) :
    visit next closed b fuel (Function.update labels v (some b)) v =
      visit next closed b fuel labels v := by
  rcases fuel with _ | fuel
  · rfl
  · rw [visit, visit, Function.update_idem]

end Visit

end

section Partition

variable {nodes : Finset α} {next : α → List α} {closed : α → Bool} {b : β}
  {labels labels' : α → Option β}

/-- Nodes with a label are labelled as their neighbours are, and nodes with the
same label are connected. -/
structure Partitions (nodes : Finset α) (next : α → List α) (closed : α → Bool)
    (labels : α → Option β) : Prop where
  spread : ∀ v w, Adjacent nodes next closed v w → (labels v).isSome → labels w = labels v
  connected : ∀ v w c, labels v = some c → labels w = some c → Connected nodes next closed v w

theorem Partitions.empty : Partitions nodes next closed (fun _ => (none : Option β)) := by
  constructor
  · intro v w _ h
    cases h
  · intro v w c h
    cases h

theorem Partitions.eq_of_connected (h : Partitions nodes next closed labels) {v w : α}
    (hconnected : Connected nodes next closed v w) (hv : (labels v).isSome) :
    labels w = labels v := by
  induction hconnected with
  | refl => rfl
  | tail _ hadjacent ih =>
      rw [← ih]
      exact h.spread _ _ hadjacent (ih ▸ hv)

/-- A visit with a label of its own extends a partition by one component. -/
theorem Partitions.grown (h : Partitions nodes next closed labels)
    (hsymm : ∀ v w, Adjacent nodes next closed v w → Adjacent nodes next closed w v)
    (hfresh : ∀ w, labels w ≠ some b) {v : α}
    (hgrown : Grown nodes next closed b [v] labels labels') :
    Partitions nodes next closed labels' := by
  have hv : ∀ w, labels w = none → (labels' w).isSome →
      labels' w = some b ∧ Connected nodes next closed v w := by
    intro w hnone hsome
    rcases hgrown.fresh w with heq | ⟨-, hb, v', hv', hconnected⟩
    · simp [heq, hnone] at hsome
    · rw [List.mem_singleton] at hv'
      exact ⟨hb, hv' ▸ hconnected⟩
  constructor
  · intro x y hadjacent hx
    rcases hlabel : labels x with _ | c
    · have hdone : (labels' y).isSome := by
        rcases hgrown.done x with heq | hdone
        · simp [heq, hlabel] at hx
        · exact hdone y hadjacent.next hadjacent.right_open
      rcases hlabely : labels y with _ | d
      · rw [(hv x hlabel hx).1, (hv y hlabely hdone).1]
      · -- a neighbour from an earlier component would have labelled `x` then
        have := h.spread y x (hsymm x y hadjacent) (by simp [hlabely])
        simp [hlabel, hlabely] at this
    · have hy := h.spread x y hadjacent (by simp [hlabel])
      rw [hgrown.kept (w := x) (by simp [hlabel]),
        hgrown.kept (w := y) (by simp [hy, hlabel]), hy]
  · intro x y c hx hy
    rcases hlabelx : labels x with _ | d <;> rcases hlabely : labels y with _ | d'
    · have hx' := (hv x hlabelx (by simp [hx])).2
      have hy' := (hv y hlabely (by simp [hy])).2
      exact (hx'.symm hsymm).trans hy'
    · have hc : some b = some c := (hv x hlabelx (by simp [hx])).1.symm.trans hx
      rw [hgrown.kept (w := y) (by simp [hlabely]), ← hc] at hy
      exact absurd hy (hfresh y)
    · have hc : some b = some c := (hv y hlabely (by simp [hy])).1.symm.trans hy
      rw [hgrown.kept (w := x) (by simp [hlabelx]), ← hc] at hx
      exact absurd hx (hfresh x)
    · rw [hgrown.kept (w := x) (by simp [hlabelx])] at hx
      rw [hgrown.kept (w := y) (by simp [hlabely])] at hy
      exact h.connected x y c hx hy

end Partition

end DepthFirst

end Supernova
