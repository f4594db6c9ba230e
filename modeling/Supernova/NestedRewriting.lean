/-
Rewriting of a text by repeated insertion.  Every symbol carries the sources
that it was inserted from.  As long as no source is nested in itself beyond a
bound, the insertions come to an end: a symbol outweighs any insertion in its
place, which lies one level deeper.
-/
import Mathlib.Algebra.BigOperators.Group.Finset.Basic
import Mathlib.Algebra.Order.BigOperators.Group.Finset
import Mathlib.Data.List.MinMax
import Mathlib.Logic.Relation
import Mathlib.Tactic.Ring

namespace Supernova

variable {α σ : Type*}

/-- One replacement in a text, and the source of the inserted text. -/
structure Rewriting (α σ : Type*) where
  before : List α
  matched : List α
  after : List α
  source : σ
  replacement : List α

def Rewriting.result (r : Rewriting α σ) : List α :=
  r.before ++ (r.replacement ++ r.after)

/-- At most `n` replacements can be made from the text on. -/
def EndsWithin (rule : List α → Option (Rewriting α σ)) : Nat → List α → Prop
  | 0, t => rule t = none
  | n + 1, t => ∀ r, rule t = some r → EndsWithin rule n r.result

/-- A text whose symbols carry the sources they were inserted from, the
innermost one first. -/
abbrev Layered (α σ : Type*) := List (α × List σ)

def Layered.erase (t : Layered α σ) : List α :=
  t.map Prod.fst

/-- A text that nothing was inserted into yet. -/
def Layered.original (t : List α) : Layered α σ :=
  t.map fun a => (a, [])

/-- The sources of the symbol that lies least deep. -/
def Layered.enclosing (t : Layered α σ) : List σ :=
  ((t.argmin fun c => c.2.length).map Prod.snd).getD []

def Layered.insertion (matched : Layered α σ) (source : σ) (replacement : List α) :
    Layered α σ :=
  replacement.map fun a => (a, source :: matched.enclosing)

/-- The replacement that the rule makes in the erased text. -/
def layeredStep (rule : List α → Option (Rewriting α σ)) (t : Layered α σ) :
    Option (Layered α σ) :=
  (rule t.erase).map fun r =>
    t.take r.before.length ++
      (Layered.insertion ((t.drop r.before.length).take r.matched.length) r.source r.replacement ++
        (t.drop r.before.length).drop r.matched.length)

/-- The layered text is met when the text `t` is rewritten. -/
def LayersReached (rule : List α → Option (Rewriting α σ)) (t : List α) :
    Layered α σ → Prop :=
  Relation.ReflTransGen (fun u u' => layeredStep rule u = some u') (Layered.original t)

/-- No symbol lies within more than `bound` insertions from one source. -/
def Layered.NestedWithin [DecidableEq σ] (bound : Nat) (t : Layered α σ) : Prop :=
  ∀ c ∈ t, ∀ s, c.2.count s ≤ bound

/-- No symbol lies deeper than `depth` insertions. -/
def Layered.DepthLE (depth : Nat) (t : Layered α σ) : Prop :=
  ∀ c ∈ t, c.2.length ≤ depth

/-- What a rule keeps to: it matches some part of the text, and takes what it
inserts from finitely many sources, in pieces shorter than `size`. -/
structure LawfulRule (rule : List α → Option (Rewriting α σ)) (sources : List σ)
    (size : Nat) : Prop where
  splits : ∀ t r, rule t = some r → t = r.before ++ (r.matched ++ r.after)
  nonempty : ∀ t r, rule t = some r → r.matched ≠ []
  source_mem : ∀ t r, rule t = some r → r.source ∈ sources
  replacement_lt : ∀ t r, rule t = some r → r.replacement.length < size

@[simp]
theorem Layered.erase_original (t : List α) : (Layered.original t : Layered α σ).erase = t := by
  simp [Layered.erase, Layered.original, Function.comp_def]

@[simp]
theorem Layered.erase_insertion (m : Layered α σ) (source : σ) (replacement : List α) :
    (m.insertion source replacement).erase = replacement := by
  simp [Layered.erase, Layered.insertion, Function.comp_def]

theorem Layered.exists_enclosing {t : Layered α σ} (ht : t ≠ []) :
    ∃ c ∈ t, c.2 = t.enclosing := by
  rcases hmin : t.argmin (fun c => c.2.length) with _ | c
  · exact absurd (List.argmin_eq_none.mp hmin) ht
  · refine ⟨c, List.argmin_mem hmin, ?_⟩
    simp [Layered.enclosing, hmin]

section Weight

/-- A symbol weighs more than any insertion in its place. -/
def Layered.weight (size depth : Nat) (t : Layered α σ) : Nat :=
  (t.map fun c => size ^ (depth - c.2.length)).sum

variable {size depth : Nat}

@[simp]
theorem Layered.weight_append (t u : Layered α σ) :
    (t ++ u : Layered α σ).weight size depth = t.weight size depth + u.weight size depth := by
  simp [Layered.weight]

theorem Layered.le_weight_of_mem {t : Layered α σ} {c : α × List σ} (h : c ∈ t) :
    size ^ (depth - c.2.length) ≤ t.weight size depth :=
  List.le_sum_of_mem (List.mem_map_of_mem h)

theorem Layered.weight_insertion (m : Layered α σ) (source : σ) (replacement : List α) :
    (m.insertion source replacement).weight size depth =
      replacement.length * size ^ (depth - (m.enclosing.length + 1)) := by
  simp [Layered.weight, Layered.insertion, Function.comp_def]

/-- Replacing a part of the text by an insertion lowers the weight. -/
theorem Layered.weight_insertion_lt {m : Layered α σ} (hm : m ≠ []) {source : σ}
    {replacement : List α} (hsize : replacement.length < size)
    (hdepth : (m.insertion source replacement).DepthLE depth) :
    (m.insertion source replacement).weight size depth < m.weight size depth := by
  obtain ⟨c, hc, henclosing⟩ := Layered.exists_enclosing hm
  have hle : size ^ (depth - m.enclosing.length) ≤ m.weight size depth := by
    rw [← henclosing]
    exact Layered.le_weight_of_mem hc
  have hpositive : 0 < size := by omega
  rcases replacement with _ | ⟨a, replacement⟩
  · calc (m.insertion source []).weight size depth = 0 := by
          simp [Layered.insertion, Layered.weight]
      _ < size ^ (depth - m.enclosing.length) := Nat.pow_pos hpositive
      _ ≤ m.weight size depth := hle
  · have hlevel : m.enclosing.length + 1 ≤ depth := by
      have := hdepth (a, source :: m.enclosing) (by simp [Layered.insertion])
      simpa using this
    have hpower : size ^ (depth - m.enclosing.length) =
        size * size ^ (depth - (m.enclosing.length + 1)) := by
      rw [← Nat.pow_succ']
      congr 1
      omega
    calc (m.insertion source (a :: replacement)).weight size depth
        = (a :: replacement).length * size ^ (depth - (m.enclosing.length + 1)) :=
          Layered.weight_insertion _ _ _
      _ < size * size ^ (depth - (m.enclosing.length + 1)) :=
          Nat.mul_lt_mul_of_pos_right hsize (Nat.pow_pos hpositive)
      _ = size ^ (depth - m.enclosing.length) := hpower.symm
      _ ≤ m.weight size depth := hle

end Weight

section Rule

variable {rule : List α → Option (Rewriting α σ)} {sources : List σ} {size : Nat}

/-- A layered step, with the text cut at the match. -/
theorem layeredStep_eq_some (hrule : LawfulRule rule sources size) {t t' : Layered α σ}
    (h : layeredStep rule t = some t') :
    ∃ r before matched after, rule t.erase = some r ∧
      t = before ++ (matched ++ after) ∧ matched ≠ [] ∧
      t' = before ++ (matched.insertion r.source r.replacement ++ after) ∧
      t'.erase = r.result := by
  obtain ⟨r, hr, rfl⟩ := Option.map_eq_some_iff.mp h
  have hsplit := hrule.splits _ _ hr
  have hlength : t.length = r.before.length + (r.matched.length + r.after.length) := by
    have := congrArg List.length hsplit
    simpa [Layered.erase] using this
  refine ⟨r, _, _, _, hr, ?_, ?_, rfl, ?_⟩
  · rw [List.take_append_drop, List.take_append_drop]
  · have hmatched := List.length_pos_of_ne_nil (hrule.nonempty _ _ hr)
    apply List.ne_nil_of_length_pos
    rw [List.length_take, List.length_drop]
    omega
  · have hbefore : (t.take r.before.length).map Prod.fst = r.before := by
      rw [List.map_take]
      change t.erase.take _ = _
      rw [hsplit, List.take_left]
    have hafter : ((t.drop r.before.length).drop r.matched.length).map Prod.fst = r.after := by
      rw [List.drop_drop, List.map_drop]
      change t.erase.drop _ = _
      rw [hsplit, ← List.append_assoc, List.drop_left' (by simp)]
    have hinserted := Layered.erase_insertion ((t.drop r.before.length).take r.matched.length)
      r.source r.replacement
    rw [Layered.erase] at hinserted ⊢
    rw [List.map_append, List.map_append, hbefore, hafter, hinserted, Rewriting.result]

theorem layeredStep_of_rule {t : Layered α σ} {r : Rewriting α σ} (h : rule t.erase = some r) :
    ∃ t', layeredStep rule t = some t' :=
  ⟨_, by rw [layeredStep, h]; rfl⟩

/-- Every source that a symbol carries is one of the rule's. -/
theorem mem_sources_of_reached (hrule : LawfulRule rule sources size) {t : List α}
    {u : Layered α σ} (hu : LayersReached rule t u) :
    ∀ c ∈ u, ∀ s ∈ c.2, s ∈ sources := by
  induction hu with
  | refl =>
      intro c hc s hs
      obtain ⟨a, -, rfl⟩ := List.mem_map.mp hc
      cases hs
  | tail hreached hstep ih =>
      obtain ⟨r, before, matched, after, hr, rfl, hmatched, rfl, -⟩ :=
        layeredStep_eq_some hrule hstep
      obtain ⟨d, hd, henclosing⟩ := Layered.exists_enclosing hmatched
      intro c hc s hs
      rcases List.mem_append.mp hc with hc | hc
      · exact ih c (by simp [hc]) s hs
      rcases List.mem_append.mp hc with hc | hc
      · obtain ⟨a, -, rfl⟩ := List.mem_map.mp hc
        rcases List.mem_cons.mp hs with rfl | hs
        · exact hrule.source_mem _ _ hr
        · exact ih d (by simp [hd]) s (henclosing ▸ hs)
      · exact ih c (by simp [hc]) s hs

/-- A list over finitely many sources is long only if one of them occurs often. -/
theorem length_le_of_count_le [DecidableEq σ] {l : List σ} {bound : Nat}
    (hmem : ∀ s ∈ l, s ∈ sources) (hcount : ∀ s, l.count s ≤ bound) :
    l.length ≤ sources.length * bound := by
  have hsubset : l.toFinset ⊆ sources.toFinset := by
    intro s hs
    exact List.mem_toFinset.mpr (hmem s (List.mem_toFinset.mp hs))
  calc l.length = ∑ s ∈ l.toFinset, l.count s := (List.sum_toFinset_count_eq_length l).symm
    _ ≤ l.toFinset.card * bound := Finset.sum_le_card_nsmul _ _ _ fun s _ => hcount s
    _ ≤ sources.length * bound :=
        Nat.mul_le_mul_right _ ((Finset.card_le_card hsubset).trans sources.toFinset_card_le)

theorem weight_lt_of_layeredStep (hrule : LawfulRule rule sources size) {depth : Nat}
    {t t' : Layered α σ} (h : layeredStep rule t = some t') (hdepth : t'.DepthLE depth) :
    t'.weight size depth < t.weight size depth := by
  obtain ⟨r, before, matched, after, hr, rfl, hmatched, rfl, -⟩ := layeredStep_eq_some hrule h
  have hlt : (matched.insertion r.source r.replacement).weight size depth <
      matched.weight size depth :=
    Layered.weight_insertion_lt hmatched (hrule.replacement_lt _ _ hr)
      (fun c hc => hdepth c (by simp [hc]))
  simp only [Layered.weight_append]
  omega

/-- As long as the depth stays bounded, there are no more replacements than
the weight allows. -/
theorem endsWithin_of_depth (hrule : LawfulRule rule sources size) {depth : Nat} {t : List α}
    (hdepth : ∀ u, LayersReached rule t u → u.DepthLE depth) :
    ∀ (n : Nat) (u : Layered α σ), LayersReached rule t u → u.weight size depth ≤ n →
      EndsWithin rule n u.erase := by
  -- the induction is on the weight that is left
  intro n
  induction n with
  | zero =>
      intro u hu hweight
      rcases hr : rule u.erase with _ | r
      · exact hr
      obtain ⟨u', hstep⟩ := layeredStep_of_rule hr
      have hlt := weight_lt_of_layeredStep hrule hstep (hdepth u' (hu.tail hstep))
      omega
  | succ n ih =>
      intro u hu hweight r hr
      obtain ⟨u', hstep⟩ := layeredStep_of_rule hr
      have hlt := weight_lt_of_layeredStep hrule hstep (hdepth u' (hu.tail hstep))
      obtain ⟨r', -, -, -, hr', -, -, -, herase⟩ := layeredStep_eq_some hrule hstep
      obtain rfl : r' = r := Option.some.inj (hr'.symm.trans hr)
      rw [← herase]
      exact ih u' (hu.tail hstep) (by omega)

/-- Each replacement adds one level at most. -/
theorem depth_of_endsWithin (hrule : LawfulRule rule sources size) :
    ∀ (n depth : Nat) (u u' : Layered α σ), EndsWithin rule n u.erase → u.DepthLE depth →
      Relation.ReflTransGen (fun v v' => layeredStep rule v = some v') u u' →
      u'.DepthLE (depth + n) := by
  intro n
  induction n with
  | zero =>
      intro depth u u' hends hu hreached
      rcases hreached.cases_head with rfl | ⟨v, hstep, -⟩
      · exact hu
      · have hends : rule u.erase = none := hends
        simp [layeredStep, hends] at hstep
  | succ n ih =>
      intro depth u u' hends hu hreached
      rcases hreached.cases_head with rfl | ⟨v, hstep, hrest⟩
      · exact fun c hc => (hu c hc).trans (by omega)
      · obtain ⟨r, before, matched, after, hr, rfl, hmatched, rfl, herase⟩ :=
          layeredStep_eq_some hrule hstep
        have hlater := ih (depth + 1) _ u' (herase ▸ hends r hr) ?_ hrest
        · exact fun c hc => (hlater c hc).trans (by omega)
        obtain ⟨d, hd, henclosing⟩ := Layered.exists_enclosing hmatched
        have hlevel := hu d (by simp [hd])
        intro c hc
        rcases List.mem_append.mp hc with hc | hc
        · exact (hu c (by simp [hc])).trans (Nat.le_succ depth)
        rcases List.mem_append.mp hc with hc | hc
        · obtain ⟨a, -, rfl⟩ := List.mem_map.mp hc
          rw [← henclosing]
          simpa using hlevel
        · exact (hu c (by simp [hc])).trans (Nat.le_succ depth)

/-- Rewriting comes to an end exactly when the nesting of every source in
itself is bounded. -/
theorem ends_iff_nestedWithin [DecidableEq σ] (hrule : LawfulRule rule sources size)
    (t : List α) :
    (∃ n, EndsWithin rule n t) ↔
      ∃ bound, ∀ u, LayersReached rule t u → u.NestedWithin bound := by
  constructor
  · rintro ⟨n, hends⟩
    refine ⟨n, fun u hu c hc s => ?_⟩
    have hdepth := depth_of_endsWithin hrule n 0 (Layered.original t) u
      (by simpa using hends) (by simp [Layered.DepthLE, Layered.original]) hu c hc
    exact (List.count_le_length).trans (by simpa using hdepth)
  · rintro ⟨bound, hnested⟩
    have hdepth : ∀ u, LayersReached rule t u → u.DepthLE (sources.length * bound) := by
      intro u hu c hc
      exact length_le_of_count_le (mem_sources_of_reached hrule hu c hc) (hnested u hu c hc)
    have hends := endsWithin_of_depth hrule hdepth _ (Layered.original t) .refl le_rfl
    rw [Layered.erase_original] at hends
    exact ⟨_, hends⟩

end Rule

end Supernova
