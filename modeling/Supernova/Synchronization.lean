/-
Which parser variables share a synchronizer after the start-up.  The traversal
partitions the graph that `optimize` has left, so the inputs of a calculated
variable whose own parser variable was optimized out are not joined by it.
-/
import Mathlib.Data.Finset.Dedup
import Supernova.CalculationGraph
import Supernova.DepthFirst

namespace Supernova

attribute [local semireducible] ByteArray.toList.loop

namespace CalculatedVariables

namespace Engine

/-- A write to the parser variable makes the calculated variable recalculate,
directly or through the listeners on other calculated variables. -/
inductive Triggers (e : Engine) (p : Nat) : Nat → Prop
  | notifies {v : Nat} (h : v ∈ (e.parserVariable p).notifiedVariables) : Triggers e p v
  | chain {u q v : Nat} (h : Triggers e p u)
      (hlistens : .parserVariable q ∈ e.changeListeners u)
      (hnotifies : v ∈ (e.parserVariable q).notifiedVariables) : Triggers e p v

theorem Triggers.congr {e e' : Engine} (hparser : e'.parserVariable = e.parserVariable)
    (hlisteners : e'.changeListeners = e.changeListeners) {p v : Nat} (h : e.Triggers p v) :
    e'.Triggers p v := by
  induction h with
  | notifies h => exact .notifies (hparser ▸ h)
  | chain _ hlistens hnotifies ih => exact .chain ih (hlisteners ▸ hlistens) (hparser ▸ hnotifies)

/-- Whatever can make one calculated variable recalculate is written under one
and the same synchronizer. -/
def Synchronized (e : Engine) : Prop :=
  ∀ p ∈ e.parserVariables, ∀ q ∈ e.parserVariables,
    (e.parserVariable p).isConstant = false → (e.parserVariable q).isConstant = false →
    ∀ v, e.Triggers p v → e.Triggers q v →
      ∃ synchronizer, e.synchronizer p = some synchronizer ∧
        e.synchronizer q = some synchronizer

/-- `p` is an input of the calculated variable that notifies `q`, and `q` is
not optimized out. -/
def Linked (e : Engine) (p q : Nat) : Prop :=
  ∃ v cv, e.calculatedVariable v = some cv ∧ cv.notifiedVariable = some q ∧
    e.isUnused q = false ∧ p ∈ cv.inputs ∧ (e.parserVariable p).isConstant = false

def LinkedEitherWay (e : Engine) (p q : Nat) : Prop :=
  e.Linked p q ∨ e.Linked q p

/-- The inputs of a calculated variable whose parser variable is optimized out
are linked through others that are kept. -/
def UnusedInputsConnected (e : Engine) : Prop :=
  ∀ v cv q, e.calculatedVariable v = some cv → cv.notifiedVariable = some q →
    e.isUnused q = true → ∀ p ∈ cv.inputs, ∀ p' ∈ cv.inputs,
      (e.parserVariable p).isConstant = false → (e.parserVariable p').isConstant = false →
      Relation.ReflTransGen e.LinkedEitherWay p p'

section Optimize

/-- The engine after the turns of `optimize` for some parser variables. -/
structure Optimized (e : Engine) (ps : List Nat) (e' : Engine) : Prop where
  mem_iff : ∀ p, p ∈ e'.parserVariables ↔
    p ∈ e.parserVariables ∧ ¬ (p ∈ ps ∧ e.isUnused p = true)
  parserVariable : e'.parserVariable = e.parserVariable
  changeListeners : ∀ v, e'.changeListeners v =
    if v ∈ ps ∧ e.isUnused v = true then [] else e.changeListeners v
  calculatedVariable : ∀ v, e'.calculatedVariable v =
    if v ∈ ps ∧ e.isUnused v = true then
      (e.calculatedVariable v).map fun cv => { cv with notifiedVariable := none }
    else e.calculatedVariable v
  synchronizer : e'.synchronizer = e.synchronizer
  numSynchronizers : e'.numSynchronizers = e.numSynchronizers

theorem Optimized.optimizeOut {e e' : Engine} {ps : List Nat} {p : Nat} (he : e.Wired)
    (h : e.Optimized ps e') (hp : p < e.numParserVariables) (hps : p ∉ ps) :
    e.Optimized (ps ++ [p]) (e'.optimizeOut p) := by
  have hnotifying : (e'.parserVariable p).notifyingVariable = p := by
    rw [h.parserVariable]
    exact he.notifyingVariable_eq p hp
  have hunused : e'.isUnused p = e.isUnused p := by
    have hlisteners : e'.changeListeners p = e.changeListeners p := by
      rw [h.changeListeners, if_neg (fun hmem => hps hmem.1)]
    rw [isUnused, isUnused, hnotifying, hlisteners, h.parserVariable,
      he.notifyingVariable_eq p hp]
  -- only what belongs to `p` changes, and only if `p` is unused
  have hmem : ∀ q, q ∈ ps ++ [p] ∧ e.isUnused q = true ↔
      (q ∈ ps ∧ e.isUnused q = true) ∨ q = p ∧ e.isUnused p = true := by
    intro q
    rw [List.mem_append, List.mem_singleton, or_and_right]
    constructor
    · rintro (hq | ⟨rfl, hq⟩)
      · exact .inl hq
      · exact .inr ⟨rfl, hq⟩
    · rintro (hq | ⟨rfl, hq⟩)
      · exact .inl hq
      · exact .inr ⟨rfl, hq⟩
  rw [Engine.optimizeOut, hunused, hnotifying]
  by_cases hgone : e.isUnused p = true
  · rw [if_pos hgone]
    refine ⟨?_, h.parserVariable, ?_, ?_, h.synchronizer, h.numSynchronizers⟩
    · intro q
      rw [suppress, List.mem_filter, h.mem_iff, hmem]
      simp only [hgone, and_true, ne_eq, decide_not, Bool.not_eq_true', decide_eq_false_iff_not]
      tauto
    · intro v
      by_cases hv : v = p
      · simp only [hv, if_pos ((hmem p).mpr (.inr ⟨rfl, hgone⟩)), suppress,
          Function.update_self]
      · simp only [suppress, Function.update_of_ne hv, h.changeListeners, hmem, hv, false_and, or_false]
    · intro v
      by_cases hv : v = p
      · simp only [hv, if_pos ((hmem p).mpr (.inr ⟨rfl, hgone⟩)), suppress,
          Function.update_self, h.calculatedVariable, if_neg (fun hmem => hps (And.left hmem))]
      · simp only [suppress, Function.update_of_ne hv, h.calculatedVariable, hmem, hv, false_and, or_false]
  · rw [Bool.not_eq_true] at hgone
    rw [hgone, if_neg Bool.false_ne_true]
    refine ⟨?_, h.parserVariable, ?_, ?_, h.synchronizer, h.numSynchronizers⟩
    · intro q
      simp only [h.mem_iff, hmem, hgone, Bool.false_eq_true, and_false, or_false]
    · intro v
      simp only [h.changeListeners, hmem, hgone, Bool.false_eq_true, and_false, or_false]
    · intro v
      simp only [h.calculatedVariable, hmem, hgone, Bool.false_eq_true, and_false, or_false]

theorem Wired.optimized {e : Engine} (he : e.Wired) :
    e.Optimized (List.range e.numParserVariables) e.optimize := by
  have hloop : ∀ n ≤ e.numParserVariables,
      e.Optimized (List.range n) ((List.range n).foldl Engine.optimizeOut e) := by
    intro n
    induction n with
    | zero =>
        intro _
        refine ⟨?_, rfl, ?_, ?_, rfl, rfl⟩
        all_goals simp
    | succ n ih =>
        intro hn
        rw [List.range_succ, List.foldl_append]
        exact (ih (by omega)).optimizeOut he (by omega) (by simp)
  rw [optimize, he.parserVariables_eq]
  exact hloop _ le_rfl

end Optimize

section Traversal

/-- Where the traversal goes on from a parser variable: to the inputs of its
own calculated variable, and to the outputs of those that it notifies. -/
def adjacent (e : Engine) (p : Nat) : List Nat :=
  (match e.calculatedVariable (e.parserVariable p).notifyingVariable with
    | none => []
    | some cv => cv.inputs) ++
  (e.parserVariable p).notifiedVariables.filterMap fun v =>
    (e.calculatedVariable v).bind fun cv => cv.notifiedVariable

/-- The parser variables that are left for the traversal. -/
def remaining (e : Engine) : Finset Nat :=
  e.parserVariables.toFinset

def closed (e : Engine) (p : Nat) : Bool :=
  (e.parserVariable p).isConstant

theorem foldlM_filterMap_option {σ : Type*} (output : Nat → Option Nat)
    (f : σ → Nat → Option σ) (vs : List Nat) (s : σ) :
    (vs.filterMap output).foldlM f s =
      vs.foldlM (fun s v =>
        match output v with
        | none => some s
        | some q => f s q) s := by
  rw [List.foldlM_filterMap]
  congr 1
  funext s v
  rcases output v with _ | q
  · rfl
  · rfl

theorem dfsAndSetSynchronizer_eq_visit (e : Engine) (new depth : Nat)
    (synchronizer : Nat → Option Nat) (p : Nat) :
    e.dfsAndSetSynchronizer new depth synchronizer p =
      DepthFirst.visit e.adjacent e.closed new depth synchronizer p := by
  induction depth generalizing synchronizer p with
  | zero => rfl
  | succ depth ih =>
      have hrec : e.dfsAndSetSynchronizer new depth =
          DepthFirst.visit e.adjacent e.closed new depth := by
        funext synchronizer p
        exact ih synchronizer p
      have henter : e.unlessSynchronized (e.dfsAndSetSynchronizer new depth) =
          DepthFirst.enter e.closed (DepthFirst.visit e.adjacent e.closed new depth) := by
        rw [hrec]
        rfl
      rw [dfsAndSetSynchronizer, DepthFirst.visit, henter, adjacent]
      rcases e.calculatedVariable (e.parserVariable p).notifyingVariable with _ | cv
      · simp only [List.nil_append, foldlM_filterMap_option]
        rfl
      · simp only [CalculatedVariable.inputs, List.foldlM_append, foldlM_filterMap_option,
          bind_assoc] <;> rfl

variable {e : Engine}

theorem Configured.mem_remaining (he : e.Configured) (p : Nat) :
    p ∈ e.optimize.remaining ↔ p < e.numParserVariables ∧ e.isUnused p = false := by
  rw [remaining, List.mem_toFinset, he.toWired.optimized.mem_iff, he.parserVariables_eq,
    List.mem_range]
  simp only [not_and, Bool.not_eq_true]
  tauto

theorem Configured.parserVariable_optimize (he : e.Configured) :
    e.optimize.parserVariable = e.parserVariable :=
  he.toWired.optimized.parserVariable

/-- A parser variable that is an input of something is kept. -/
theorem Configured.input_mem_remaining (he : e.Configured) {v p : Nat}
    {cv : CalculatedVariable} (hcv : e.calculatedVariable v = some cv) (hp : p ∈ cv.inputs) :
    p ∈ e.optimize.remaining := by
  refine (he.mem_remaining p).mpr ⟨he.inputs_lt v cv hcv p hp, ?_⟩
  have hmem := (he.notified_iff p v).mpr ⟨cv, hcv, hp⟩
  have hne := List.length_pos_of_mem hmem
  have : ¬ (e.parserVariable p).notifiedVariables.length = 0 := by omega
  simp [isUnused, this]

theorem Configured.calculatedVariable_optimize (he : e.Configured) (v : Nat) :
    e.optimize.calculatedVariable v =
      if e.isUnused v = true then
        (e.calculatedVariable v).map fun cv => { cv with notifiedVariable := none }
      else e.calculatedVariable v := by
  rw [he.toWired.optimized.calculatedVariable]
  by_cases hv : v < e.numParserVariables
  · simp only [List.mem_range, hv, true_and]
  · have hnone : e.calculatedVariable v = none := by
      by_contra hsome
      obtain ⟨cv, hcv⟩ := Option.ne_none_iff_exists'.mp hsome
      exact hv (he.calculated_lt v cv hcv)
    simp [hnone]

/-- The inputs of a variable stay what they are. -/
theorem Configured.exists_optimize_iff (he : e.Configured) (v p : Nat) :
    (∃ cv, e.optimize.calculatedVariable v = some cv ∧ p ∈ cv.inputs) ↔
      ∃ cv, e.calculatedVariable v = some cv ∧ p ∈ cv.inputs := by
  rw [he.calculatedVariable_optimize]
  split
  · rcases e.calculatedVariable v with _ | cv
    · simp
    · simp [CalculatedVariable.inputs]
  · rfl

/-- One step of the traversal follows a link between parser variables that are
kept, in either direction. -/
theorem Configured.mem_adjacent_iff (he : e.Configured) {p : Nat}
    (hp : p ∈ e.optimize.remaining) (q : Nat) :
    q ∈ e.optimize.adjacent p ↔
      (∃ cv, e.calculatedVariable p = some cv ∧ q ∈ cv.inputs) ∨
      ∃ cv, e.calculatedVariable q = some cv ∧ p ∈ cv.inputs ∧ e.isUnused q = false := by
  have hlt := ((he.mem_remaining p).mp hp).1
  rw [adjacent, List.mem_append, he.parserVariable_optimize, he.notifyingVariable_eq p hlt]
  refine or_congr ?_ ?_
  · rw [← he.exists_optimize_iff]
    rcases e.optimize.calculatedVariable p with _ | cv
    · simp
    · simp
  · rw [List.mem_filterMap]
    constructor
    · rintro ⟨v, hv, hq⟩
      obtain ⟨cv, hcv, hinput⟩ := (he.notified_iff p v).mp hv
      rw [he.calculatedVariable_optimize, hcv] at hq
      by_cases hunused : e.isUnused v = true
      · simp [hunused] at hq
      · rw [if_neg hunused, Option.bind_some, he.notifiedVariable_eq v cv hcv,
          Option.some.injEq] at hq
        rw [← hq]
        exact ⟨cv, hcv, hinput, by simpa using hunused⟩
    · rintro ⟨cv, hcv, hinput, hunused⟩
      refine ⟨q, (he.notified_iff p q).mpr ⟨cv, hcv, hinput⟩, ?_⟩
      rw [he.calculatedVariable_optimize, hunused, if_neg Bool.false_ne_true, hcv,
        Option.bind_some, he.notifiedVariable_eq q cv hcv]

theorem Configured.adjacent_mem_remaining (he : e.Configured) :
    ∀ p ∈ e.optimize.remaining, ∀ q ∈ e.optimize.adjacent p, q ∈ e.optimize.remaining := by
  intro p hp q hq
  rcases (he.mem_adjacent_iff hp q).mp hq with ⟨cv, hcv, hinput⟩ | ⟨cv, hcv, -, hunused⟩
  · exact he.input_mem_remaining hcv hinput
  · exact (he.mem_remaining q).mpr ⟨he.calculated_lt q cv hcv, hunused⟩

theorem Configured.isConstant_of_input (he : e.Configured) {v p : Nat} {cv : CalculatedVariable}
    (hcv : e.calculatedVariable v = some cv) (hp : p ∈ cv.inputs) :
    (e.parserVariable v).isConstant = false := by
  rw [Bool.eq_false_iff]
  intro hconstant
  obtain ⟨cv', hcv', hempty⟩ :=
    (he.isConstant_iff v (he.calculated_lt v cv hcv)).mp hconstant
  obtain rfl : cv = cv' := Option.some.inj (hcv.symm.trans hcv')
  simp [hempty] at hp

/-- Links are the edges that the traversal can follow. -/
theorem Configured.adjacent_iff_linked (he : e.Configured) (p q : Nat) :
    DepthFirst.Adjacent e.optimize.remaining e.optimize.adjacent e.optimize.closed p q ↔
      e.LinkedEitherWay p q := by
  have hlinked : ∀ p q, e.Linked p q ↔ ∃ cv, e.calculatedVariable q = some cv ∧
      e.isUnused q = false ∧ p ∈ cv.inputs ∧ (e.parserVariable p).isConstant = false := by
    intro p q
    constructor
    · rintro ⟨v, cv, hcv, hq, hrest⟩
      rw [he.notifiedVariable_eq v cv hcv, Option.some.injEq] at hq
      exact ⟨cv, hq ▸ hcv, hrest⟩
    · rintro ⟨cv, hcv, hrest⟩
      exact ⟨q, cv, hcv, he.notifiedVariable_eq q cv hcv, hrest⟩
  rw [LinkedEitherWay, hlinked, hlinked]
  constructor
  · rintro ⟨hp, hq, hpopen, hqopen⟩
    rw [closed, he.parserVariable_optimize] at hpopen hqopen
    rcases (he.mem_adjacent_iff hp q).mp hq with ⟨cv, hcv, hinput⟩ | ⟨cv, hcv, hinput, hunused⟩
    · exact .inr ⟨cv, hcv, ((he.mem_remaining p).mp hp).2, hinput, hqopen⟩
    · exact .inl ⟨cv, hcv, hunused, hinput, hpopen⟩
  · rintro (⟨cv, hcv, hunused, hinput, hopen⟩ | ⟨cv, hcv, hunused, hinput, hopen⟩)
    · have hp := he.input_mem_remaining hcv hinput
      refine ⟨hp, (he.mem_adjacent_iff hp q).mpr (.inr ⟨cv, hcv, hinput, hunused⟩), ?_, ?_⟩
      · rwa [closed, he.parserVariable_optimize]
      · rw [closed, he.parserVariable_optimize]
        exact he.isConstant_of_input hcv hinput
    · have hp := (he.mem_remaining p).mpr ⟨he.calculated_lt p cv hcv, hunused⟩
      refine ⟨hp, (he.mem_adjacent_iff hp q).mpr (.inl ⟨cv, hcv, hinput⟩), ?_, ?_⟩
      · rw [closed, he.parserVariable_optimize]
        exact he.isConstant_of_input hcv hinput
      · rwa [closed, he.parserVariable_optimize]

end Traversal

section Setup

variable {e : Engine}

/-- The engine in the loop of `setupSynchronization`, behind the turns for `ps`:
the synchronizers partition the graph, and what notifies anything has one. -/
structure Labelled (e : Engine) (ps : List Nat) (s : Engine) : Prop where
  same : s = { e with
    synchronizer := s.synchronizer, numSynchronizers := s.numSynchronizers }
  partitions : DepthFirst.Partitions e.remaining e.adjacent e.closed s.synchronizer
  fresh : ∀ p k, s.synchronizer p = some k → k < s.numSynchronizers
  covered : ∀ p ∈ ps, (e.parserVariable p).notifiedVariables ≠ [] → e.closed p = false →
    (s.synchronizer p).isSome

theorem Labelled.setup {ps : List Nat} {s : Engine} {p : Nat} (h : e.Labelled ps s)
    (hnodes : ∀ p ∈ e.remaining, ∀ q ∈ e.adjacent p, q ∈ e.remaining)
    (hsymm : ∀ p q, DepthFirst.Adjacent e.remaining e.adjacent e.closed p q →
      DepthFirst.Adjacent e.remaining e.adjacent e.closed q p)
    (hp : p ∈ e.remaining) :
    ∃ s', s.setupSynchronizer p = some s' ∧ e.Labelled (p :: ps) s' := by
  have hgraph : s.parserVariable = e.parserVariable ∧ s.parserVariables = e.parserVariables ∧
      s.adjacent = e.adjacent ∧ s.closed = e.closed := by
    rw [h.same]
    exact ⟨rfl, rfl, rfl, rfl⟩
  obtain ⟨hparser, hvariables, hadjacent, hclosed⟩ := hgraph
  -- a turn that leaves the engine as it is needs no new synchronizer for `p`
  have hskip : ((s.parserVariable p).notifiedVariables ≠ [] →
      (s.parserVariable p).isConstant = false → (s.synchronizer p).isSome) →
      e.Labelled (p :: ps) s := by
    rw [hparser]
    intro hcovered
    refine ⟨h.same, h.partitions, h.fresh, ?_⟩
    rw [List.forall_mem_cons]
    exact ⟨hcovered, h.covered⟩
  rw [setupSynchronizer]
  split
  · rename_i hnone
    exact ⟨s, rfl, hskip fun hne => absurd (List.length_pos_of_ne_nil hne) (by omega)⟩
  split
  · rename_i hsome
    exact ⟨s, rfl, hskip fun _ _ => hsome⟩
  split
  · rename_i hconstant
    exact ⟨s, rfl, hskip fun _ hopen => absurd hconstant (by simp [hopen])⟩
  rename_i hunlabelled hopen
  rw [Bool.not_eq_true, Option.isSome_eq_false_iff, Option.isNone_iff_eq_none] at hunlabelled
  rw [Bool.not_eq_true, hparser] at hopen
  have hcard : (DepthFirst.openNodes e.closed e.remaining s.synchronizer).card ≤
      e.parserVariables.length :=
    (Finset.card_filter_le _ _).trans (List.toFinset_card_le _)
  obtain ⟨labels, hvisit, hgrown, hlabel⟩ :=
    DepthFirst.visit_grown (b := s.numSynchronizers) hnodes e.parserVariables.length
      s.synchronizer p hp hunlabelled hopen hcard
  refine ⟨{ s with synchronizer := labels, numSynchronizers := s.numSynchronizers + 1 }, ?_, ?_⟩
  · simp only [dfsAndSetSynchronizer_eq_visit, DepthFirst.visit_update, hadjacent, hclosed,
      hvariables, hvisit]
    rfl
  · refine ⟨?_, ?_, ?_, ?_⟩
    · rw [h.same]
    · apply h.partitions.grown hsymm ?_ hgrown
      intro q hq
      exact lt_irrefl _ (h.fresh q _ hq)
    · intro q k hk
      change labels q = some k at hk
      rcases hgrown.fresh q with heq | ⟨-, hb, -⟩
      · rw [heq] at hk
        exact Nat.lt_succ_of_lt (h.fresh q k hk)
      · have hk' : some s.numSynchronizers = some k := hb.symm.trans hk
        rw [Option.some.injEq] at hk'
        exact hk' ▸ Nat.lt_succ_self _
    · rw [List.forall_mem_cons]
      refine ⟨fun _ _ => by simp [hlabel], ?_⟩
      intro q hq hnotifies hqopen
      exact hgrown.isSome (h.covered q hq hnotifies hqopen)

/-- The setup ends, and gives a synchronizer to all that notifies anything. -/
theorem exists_setupSynchronization
    (hnodes : ∀ p ∈ e.remaining, ∀ q ∈ e.adjacent p, q ∈ e.remaining)
    (hsymm : ∀ p q, DepthFirst.Adjacent e.remaining e.adjacent e.closed p q →
      DepthFirst.Adjacent e.remaining e.adjacent e.closed q p)
    (hunsynchronized : ∀ p, e.synchronizer p = none) :
    ∃ s ps, e.setupSynchronization = some s ∧ e.Labelled ps s ∧
      ∀ p ∈ e.parserVariables, p ∈ ps := by
  have hloop : ∀ (todo ps : List Nat) (s : Engine), (∀ p ∈ todo, p ∈ e.remaining) →
      e.Labelled ps s →
      ∃ s', todo.foldlM setupSynchronizer s = some s' ∧ e.Labelled (todo.reverse ++ ps) s' := by
    intro todo
    induction todo with
    | nil =>
        intro ps s _ hs
        exact ⟨s, rfl, hs⟩
    | cons p todo ih =>
        intro ps s htodo hs
        obtain ⟨s₁, hstep, hs₁⟩ := hs.setup hnodes hsymm (htodo p List.mem_cons_self)
        obtain ⟨s', hrest, hs'⟩ := ih (p :: ps) s₁
          (fun q hq => htodo q (List.mem_cons_of_mem _ hq)) hs₁
        refine ⟨s', ?_, ?_⟩
        · rw [List.foldlM_cons, hstep]
          exact hrest
        · simpa using hs'
  have hstart : e.Labelled [] e := by
    refine ⟨rfl, ?_, ?_, ?_⟩
    · rw [show e.synchronizer = fun _ => none from funext hunsynchronized]
      exact DepthFirst.Partitions.empty
    · intro p k hk
      rw [hunsynchronized] at hk
      cases hk
    · intro p hp
      cases hp
  obtain ⟨s, hs, hlabelled⟩ := hloop e.parserVariables.reverse [] e
    (fun p hp => List.mem_toFinset.mpr (List.mem_reverse.mp hp)) hstart
  refine ⟨s, _, hs, hlabelled, fun p hp => ?_⟩
  simpa using hp

end Setup

section Synchronized

variable {e : Engine}

/-- What triggers a calculated variable is linked to one of its inputs. -/
theorem Configured.connected_of_triggers (he : e.Configured) {p : Nat}
    (hpopen : (e.parserVariable p).isConstant = false) {v : Nat}
    (h : e.optimize.Triggers p v) :
    p ∈ e.optimize.remaining ∧ (e.parserVariable p).notifiedVariables ≠ [] ∧
      ∃ q cv, e.calculatedVariable v = some cv ∧ q ∈ cv.inputs ∧
        (e.parserVariable q).isConstant = false ∧
        Relation.ReflTransGen e.LinkedEitherWay p q := by
  induction h with
  | @notifies v hnotifies =>
      rw [he.parserVariable_optimize] at hnotifies
      obtain ⟨cv, hcv, hinput⟩ := (he.notified_iff p v).mp hnotifies
      exact ⟨he.input_mem_remaining hcv hinput, List.ne_nil_of_mem hnotifies, p, cv, hcv,
        hinput, hpopen, .refl⟩
  | @chain u q v _ hlistens hnotifies ih =>
      obtain ⟨hmem, hne, r, cv, hcv, hr, hropen, hconnected⟩ := ih
      rw [he.parserVariable_optimize] at hnotifies
      obtain ⟨cv', hcv', hinput⟩ := (he.notified_iff q v).mp hnotifies
      have hq : u = q := by
        rw [he.toWired.optimized.changeListeners] at hlistens
        split at hlistens
        · cases hlistens
        · exact ((he.listens_iff u q).mp hlistens).1
      subst hq
      -- `u` is used by `v`, so it is kept and links its inputs to itself
      have hunused := ((he.mem_remaining u).mp (he.input_mem_remaining hcv' hinput)).2
      refine ⟨hmem, hne, u, cv', hcv', hinput, he.isConstant_of_input hcv hr, ?_⟩
      exact hconnected.tail (.inl ⟨u, cv, hcv, he.notifiedVariable_eq u cv hcv, hunused, hr,
        hropen⟩)

/-- After a start-up the synchronizers are sound exactly when the inputs of
every calculated variable that was optimized out are linked otherwise. -/
theorem synchronized_iff {declarations : List Declaration} {e : Engine}
    (h : configure declarations = .ok e) :
    ∃ s, e.startUp = some s ∧ (s.Synchronized ↔ e.UnusedInputsConnected) := by
  have he := configured_of_configure h
  have hsymm : ∀ p q,
      DepthFirst.Adjacent e.optimize.remaining e.optimize.adjacent e.optimize.closed p q →
      DepthFirst.Adjacent e.optimize.remaining e.optimize.adjacent e.optimize.closed q p := by
    intro p q hadjacent
    exact (he.adjacent_iff_linked q p).mpr ((he.adjacent_iff_linked p q).mp hadjacent).symm
  have hconnected : ∀ p q,
      DepthFirst.Connected e.optimize.remaining e.optimize.adjacent e.optimize.closed p q ↔
        Relation.ReflTransGen e.LinkedEitherWay p q := by
    intro p q
    constructor
    · exact Relation.ReflTransGen.mono (fun a b => (he.adjacent_iff_linked a b).mp) p q
    · exact Relation.ReflTransGen.mono (fun a b => (he.adjacent_iff_linked a b).mpr) p q
  have hunsynchronized : ∀ p, e.optimize.synchronizer p = none := by
    rw [he.toWired.optimized.synchronizer]
    exact he.unsynchronized
  obtain ⟨s, ps, hs, hlabelled, hps⟩ :=
    exists_setupSynchronization he.adjacent_mem_remaining hsymm hunsynchronized
  refine ⟨s, hs, ?_⟩
  have hparser : s.parserVariable = e.parserVariable := by
    rw [hlabelled.same]
    exact he.parserVariable_optimize
  have hvariables : s.parserVariables = e.optimize.parserVariables := by
    rw [hlabelled.same]
  have htriggers : ∀ p v, s.Triggers p v → e.optimize.Triggers p v := by
    intro p v ht
    have hparser' : e.optimize.parserVariable = s.parserVariable := by
      rw [hlabelled.same]
    have hlisteners : e.optimize.changeListeners = s.changeListeners := by
      rw [hlabelled.same]
    exact ht.congr hparser' hlisteners
  constructor
  · intro hsound v cv q hcv hq hunused p hp p' hp' hopen hopen'
    have hfacts : ∀ r ∈ cv.inputs, r ∈ s.parserVariables ∧ s.Triggers r v := by
      intro r hr
      rw [hvariables]
      refine ⟨List.mem_toFinset.mp (he.input_mem_remaining hcv hr), .notifies ?_⟩
      rw [hparser]
      exact (he.notified_iff r v).mpr ⟨cv, hcv, hr⟩
    obtain ⟨k, hk, hk'⟩ := hsound p (hfacts p hp).1 p' (hfacts p' hp').1
      (by rwa [hparser]) (by rwa [hparser]) v (hfacts p hp).2 (hfacts p' hp').2
    exact (hconnected p p').mp (hlabelled.partitions.connected p p' k hk hk')
  · intro hunusedInputs p hp q hq hpopen hqopen v hpv hqv
    rw [hparser] at hpopen hqopen
    obtain ⟨hpmem, hpne, p₀, cv, hcv, hp₀, hp₀open, hpp₀⟩ :=
      he.connected_of_triggers hpopen (htriggers p v hpv)
    obtain ⟨hqmem, hqne, q₀, cv', hcv', hq₀, hq₀open, hqq₀⟩ :=
      he.connected_of_triggers hqopen (htriggers q v hqv)
    obtain rfl : cv = cv' := Option.some.inj (hcv.symm.trans hcv')
    have hown := he.notifiedVariable_eq v cv hcv
    -- the two inputs are linked by `v` itself, or by assumption
    have hinputs : Relation.ReflTransGen e.LinkedEitherWay p₀ q₀ := by
      by_cases hunused : e.isUnused v = true
      · exact hunusedInputs v cv v hcv hown hunused p₀ hp₀ q₀ hq₀ hp₀open hq₀open
      · rw [Bool.not_eq_true] at hunused
        have hp₀v : e.LinkedEitherWay p₀ v := .inl ⟨v, cv, hcv, hown, hunused, hp₀, hp₀open⟩
        have hvq₀ : e.LinkedEitherWay v q₀ := .inr ⟨v, cv, hcv, hown, hunused, hq₀, hq₀open⟩
        exact .tail (.single hp₀v) hvq₀
    have hpq := ((hconnected p p₀).mpr hpp₀).trans (((hconnected p₀ q₀).mpr hinputs).trans
      (((hconnected q q₀).mpr hqq₀).symm hsymm))
    have hsome : (s.synchronizer p).isSome := by
      refine hlabelled.covered p (hps p (List.mem_toFinset.mp hpmem)) ?_ ?_
      · rwa [he.parserVariable_optimize]
      · rwa [closed, he.parserVariable_optimize]
    obtain ⟨k, hk⟩ := Option.isSome_iff_exists.mp hsome
    exact ⟨k, hk, (hlabelled.partitions.eq_of_connected hpq hsome).trans hk⟩

/-- Two variables and a calculated variable over them that no formula uses. -/
def unusedSum : List Declaration :=
  [.notifyingVariable (text "a"), .notifyingVariable (text "b"),
    .calculatedVariable (text "c") [text "a", text "b"] []]

theorem exists_configure_unusedSum : ∃ e, configure unusedSum = .ok e := by
  have hok : (configure unusedSum).toOption.isSome = true := by
    decide
  rcases hconfigure : configure unusedSum with error | e
  · rw [hconfigure] at hok
    cases hok
  · exact ⟨e, rfl⟩

theorem synchronized_iff_unusedSum :
    ∃ e s, configure unusedSum = .ok e ∧ e.startUp = some s ∧
      (s.Synchronized ↔ e.UnusedInputsConnected) := by
  obtain ⟨e, he⟩ := exists_configure_unusedSum
  obtain ⟨s, hs, hiff⟩ := synchronized_iff he
  exact ⟨e, s, he, hs, hiff⟩

/-- Both inputs make the sum recalculate, under two synchronizers. -/
theorem unusedSum_not_synchronized :
    ∃ e s, configure unusedSum = .ok e ∧ e.startUp = some s ∧ ¬ s.Synchronized := by
  have hrun : ((configure unusedSum).toOption.bind startUp).map (fun s =>
      (s.parserVariables, [s.parserVariable 0, s.parserVariable 1],
        [s.synchronizer 0, s.synchronizer 1])) =
      some ([0, 1], [⟨0, text "a", [2], false⟩, ⟨1, text "b", [2], false⟩],
        [some 1, some 0]) := by
    decide
  obtain ⟨e, he⟩ := exists_configure_unusedSum
  rw [he] at hrun
  obtain ⟨s, hs, hobserved⟩ := Option.map_eq_some_iff.mp hrun
  simp only [Prod.mk.injEq, List.cons.injEq] at hobserved
  obtain ⟨hvariables, ⟨h₀, h₁, -⟩, hs₀, hs₁, -⟩ := hobserved
  refine ⟨e, s, he, hs, fun hsound => ?_⟩
  obtain ⟨k, hk₀, hk₁⟩ := hsound 0 (by simp [hvariables]) 1 (by simp [hvariables])
    (by simp [h₀]) (by simp [h₁]) 2 (.notifies (by simp [h₀])) (.notifies (by simp [h₁]))
  rw [hs₀] at hk₀
  rw [hs₁] at hk₁
  exact absurd (hk₀.trans hk₁.symm) (by decide)

end Synchronized

end Engine

end CalculatedVariables

end Supernova
