/-
Descent along the edges of a graph in which only finitely many nodes have edges: it comes to
an end from a node that leads to no cycle, and goes on from one that does.
-/
import Mathlib.Data.Finset.Card
import Mathlib.Logic.Relation

namespace Supernova

section Descent

variable {α : Type*} {r : α → α → Prop}

open Relation

/-- The nodes with edges that can be reached are fewer behind every edge. -/
theorem acc_of_not_cycle (s : Finset α) (hs : ∀ a b, r a b → a ∈ s) {a : α}
    (h : ∀ b, ReflTransGen r a b → ¬TransGen r b b) : Acc (fun b a => r a b) a := by
  classical
  induction hn : (s.filter fun b => ReflTransGen r a b).card using Nat.strong_induction_on
    generalizing a with
  | h n ih =>
      refine ⟨a, fun b hab => ?_⟩
      refine ih _ ?_ (fun c hbc => h c (.head hab hbc)) rfl
      rw [← hn]
      apply Finset.card_lt_card
      rw [Finset.ssubset_iff_of_subset]
      · refine ⟨a, Finset.mem_filter.mpr ⟨hs a b hab, .refl⟩, ?_⟩
        intro hmem
        exact h a .refl (TransGen.head' hab (Finset.mem_filter.mp hmem).2)
      · intro c hc
        rw [Finset.mem_filter] at hc ⊢
        exact ⟨hc.1, .head hab hc.2⟩

/-- A node that leads to a cycle has an edge to another such node. -/
theorem exists_edge_of_cycle {a b : α} (hab : ReflTransGen r a b) (hcycle : TransGen r b b) :
    ∃ c, r a c ∧ ReflTransGen r c b := by
  rcases ReflTransGen.cases_head hab with rfl | ⟨c, hac, hcb⟩
  · obtain ⟨c, hac, hca⟩ := TransGen.head'_iff.mp hcycle
    exact ⟨c, hac, hca⟩
  · exact ⟨c, hac, hcb⟩

end Descent

end Supernova
