/-
Nodes that are listed below one another, in a heap where every node is younger
than the one that lists it.  When each node is listed once, the walk over the
tops meets each node once.
-/
import Mathlib.Data.List.Perm.Basic
import Mathlib.Data.List.Range

namespace Supernova

namespace Forest

variable {children : Nat → List Nat} {n : Nat}

/-- A node before what is below it, in the order of the lists. -/
def walk (children : Nat → List Nat) : Nat → Nat → List Nat
  | 0, _ => []
  | fuel + 1, node => node :: (children node).flatMap (walk children fuel)

/-- Every node that is listed is younger than the one that lists it. -/
def Forward (children : Nat → List Nat) (n : Nat) : Prop :=
  ∀ node, ∀ child ∈ children node, node < child ∧ child < n

/-- A walk is over after as many levels as there are younger nodes. -/
theorem walk_eq_of_le (h : Forward children n) (fuel more node : Nat) (hnode : node < n)
    (hfuel : n ≤ node + fuel) : walk children (fuel + more) node = walk children fuel node := by
  induction fuel generalizing node with
  | zero => omega
  | succ fuel ih =>
      rw [Nat.succ_add, walk, walk]
      congr 1
      apply List.flatMap_congr
      intro child hchild
      obtain ⟨hlt, hn⟩ := h node child hchild
      exact ih child hn (by omega)

theorem walk_eq (h : Forward children n) {fuel node : Nat} (hnode : node < n)
    (hfuel : n ≤ node + fuel) :
    walk children fuel node = node :: (children node).flatMap (walk children fuel) := by
  rw [← walk_eq_of_le h fuel 1 node hnode hfuel]
  rfl

/-- When every node is a top or below one node, the walks of the tops meet
every node once. -/
theorem walk_perm (h : Forward children n) {fuel : Nat} (count first : Nat)
    (hcount : first + count = n) (hfuel : count ≤ fuel) (tops : List Nat)
    (htops : (tops ++ (List.range' first count).flatMap children).Perm
      (List.range' first count)) :
    (tops.flatMap (walk children fuel)).Perm (List.range' first count) := by
  induction count generalizing first tops with
  | zero =>
      rw [List.range'_zero, List.flatMap_nil, List.append_nil, List.perm_nil] at htops
      rw [htops]
      exact .nil
  | succ count ih =>
      -- The oldest node is below no other, so that it is a top.
      have hmem : first ∈ tops ++ (List.range' first (count + 1)).flatMap children :=
        htops.mem_iff.mpr (by simp)
      have htop : first ∈ tops := by
        rcases List.mem_append.mp hmem with htop | hbelow
        · exact htop
        · obtain ⟨node, hnode, hchild⟩ := List.mem_flatMap.mp hbelow
          have hle := (List.mem_range'_1.mp hnode).1
          have hlt := (h node first hchild).1
          omega
      have hsplit := List.perm_cons_erase htop
      -- What is below it takes its place among the tops of the younger ones.
      have hrest : ((tops.erase first ++ children first) ++
          (List.range' (first + 1) count).flatMap children).Perm
            (List.range' (first + 1) count) := by
        rw [List.range'_succ, List.flatMap_cons] at htops
        have hcons := (hsplit.append_right _).symm.trans htops
        rw [List.cons_append] at hcons
        rw [List.append_assoc]
        exact hcons.cons_inv
      have hwalks := ih (first + 1) (by omega) (by omega) _ hrest
      rw [List.flatMap_append] at hwalks
      have hwalk : ((first :: tops.erase first).flatMap (walk children fuel)) =
          first :: ((children first).flatMap (walk children fuel) ++
            (tops.erase first).flatMap (walk children fuel)) := by
        rw [List.flatMap_cons, walk_eq h (by omega) (by omega), List.cons_append]
      rw [List.range'_succ]
      refine (hsplit.flatMap_right _).trans ?_
      rw [hwalk]
      exact (List.perm_append_comm.trans hwalks).cons first

end Forest

end Supernova
