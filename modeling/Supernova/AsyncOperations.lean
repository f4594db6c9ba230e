/-
Asynchronous operations and their completions, over any type of operations and
outcomes.  An operation is outstanding until it ends or is cancelled; then its
completion waits in a queue until a handler takes it.  An outcome that is queued
already is not changed by a cancellation.
-/
import Mathlib.Data.List.Count
import Mathlib.Data.List.Perm.Basic
import Mathlib.Tactic.Common

namespace Supernova

/-- A completion without an outcome belongs to an operation that was aborted. -/
structure IoContext (α β : Type*) where
  outstanding : List α
  queue : List (α × Option β)

namespace IoContext

variable {α β : Type*}

def empty : IoContext α β := ⟨[], []⟩

def initiate (io : IoContext α β) (a : α) : IoContext α β :=
  { io with outstanding := io.outstanding ++ [a] }

/-- The handler of the completion at a position of the queue is about to run. -/
def take (io : IoContext α β) (i : Nat) : Option ((α × Option β) × IoContext α β) :=
  (io.queue[i]?).map fun completion => (completion, { io with queue := io.queue.eraseIdx i })

/-- The operation is outstanding, or its completion has not been taken. -/
def Mentions (io : IoContext α β) (a : α) : Prop :=
  a ∈ io.outstanding ∨ ∃ outcome, (a, outcome) ∈ io.queue

theorem mentions_initiate {io : IoContext α β} {a b : α} :
    (io.initiate a).Mentions b ↔ b = a ∨ io.Mentions b := by
  simp only [Mentions, initiate, List.mem_append, List.mem_singleton]
  tauto

theorem take_eq_some {io io' : IoContext α β} {i : Nat} {completion : α × Option β} :
    io.take i = some (completion, io') ↔
      io.queue[i]? = some completion ∧ { io with queue := io.queue.eraseIdx i } = io' := by
  rw [take, Option.map_eq_some_iff]
  constructor
  · rintro ⟨completion', hget, heq⟩
    obtain ⟨rfl, rfl⟩ := Prod.mk.inj heq
    exact ⟨hget, rfl⟩
  · rintro ⟨hget, rfl⟩
    exact ⟨completion, hget, rfl⟩

theorem mentions_of_take {io io' : IoContext α β} {i : Nat} {completion : α × Option β}
    (h : io.take i = some (completion, io')) :
    io.Mentions completion.1 ∧ ∀ a, io'.Mentions a → io.Mentions a := by
  obtain ⟨hget, rfl⟩ := take_eq_some.1 h
  refine ⟨.inr ⟨completion.2, List.mem_of_getElem? hget⟩, ?_⟩
  rintro a (houtstanding | ⟨outcome, hmem⟩)
  · exact .inl houtstanding
  · exact .inr ⟨outcome, List.mem_of_mem_eraseIdx hmem⟩

variable [DecidableEq α]

/-- What is outstanding of an operation completes as aborted. -/
def cancel (io : IoContext α β) (a : α) : IoContext α β :=
  { outstanding := io.outstanding.filter fun b => b ≠ a
    queue := io.queue ++ (io.outstanding.filter fun b => b = a).map fun b => (b, none) }

/-- An outstanding operation ends. -/
def finish (io : IoContext α β) (a : α) (outcome : β) : Option (IoContext α β) :=
  if a ∈ io.outstanding then
    some
      { outstanding := io.outstanding.erase a
        queue := io.queue ++ [(a, some outcome)] }
  else none

/-- How often the operation is under way: outstanding, or ended with an outcome that
no handler has taken yet. -/
def pending (io : IoContext α β) (a : α) : Nat :=
  io.outstanding.count a + io.queue.countP fun completion =>
    completion.1 = a && completion.2.isSome

theorem mentions_cancel {io : IoContext α β} {a b : α} :
    (io.cancel a).Mentions b ↔ io.Mentions b := by
  simp only [Mentions, cancel, List.mem_filter, List.mem_append, List.mem_map,
    decide_eq_true_eq, Prod.mk.injEq]
  constructor
  · rintro (⟨hmem, -⟩ | ⟨outcome, hmem | ⟨c, ⟨hmem, rfl⟩, rfl, -⟩⟩)
    · exact .inl hmem
    · exact .inr ⟨outcome, hmem⟩
    · exact .inl hmem
  · rintro (hmem | ⟨outcome, hmem⟩)
    · by_cases hb : b = a
      · exact .inr ⟨none, .inr ⟨b, ⟨hmem, hb⟩, rfl, rfl⟩⟩
      · exact .inl ⟨hmem, hb⟩
    · exact .inr ⟨outcome, .inl hmem⟩

theorem mentions_finish {io io' : IoContext α β} {a b : α} {outcome : β}
    (h : io.finish a outcome = some io') (hb : io'.Mentions b) : io.Mentions b := by
  unfold finish at h
  split at h
  · rename_i ha
    obtain rfl := Option.some.inj h
    simp only [Mentions, List.mem_append, List.mem_singleton, Prod.mk.injEq] at hb ⊢
    rcases hb with hmem | ⟨outcome', hmem | ⟨rfl, -⟩⟩
    · exact .inl (List.mem_of_mem_erase hmem)
    · exact .inr ⟨outcome', hmem⟩
    · exact .inl ha
  · cases h

@[simp] theorem pending_empty (a : α) : (empty : IoContext α β).pending a = 0 := rfl

theorem pending_eq_zero {io : IoContext α β} {a : α} (h : ¬ io.Mentions a) :
    io.pending a = 0 := by
  have hqueue : ∀ completion ∈ io.queue, ¬ (completion.1 = a && completion.2.isSome) = true := by
    intro completion hmem hcompletion
    simp only [Bool.and_eq_true, decide_eq_true_eq] at hcompletion
    exact h (.inr ⟨completion.2, hcompletion.1 ▸ hmem⟩)
  rw [pending, List.count_eq_zero_of_not_mem fun hmem => h (.inl hmem),
    List.countP_eq_zero.mpr hqueue]

theorem pending_initiate (io : IoContext α β) (a b : α) :
    (io.initiate a).pending b = io.pending b + if b = a then 1 else 0 := by
  by_cases hb : b = a
  · simp [pending, initiate, hb]
    omega
  · simp [pending, initiate, hb, Ne.symm hb]

/-- What was aborted is not under way any more. -/
theorem countP_aborted (aborted : List α) (b : α) :
    (aborted.map fun c => (c, (none : Option β))).countP
      (fun completion => completion.1 = b && completion.2.isSome) = 0 := by
  rw [List.countP_eq_zero]
  intro completion hmem
  obtain ⟨_, -, rfl⟩ := List.mem_map.mp hmem
  simp

/-- Cancelling an operation changes nothing about the others. -/
theorem pending_cancel_of_ne (io : IoContext α β) {a b : α} (hb : b ≠ a) :
    (io.cancel a).pending b = io.pending b := by
  rw [pending, cancel, List.count_filter (by simpa using hb), List.countP_append,
    countP_aborted, Nat.add_zero, pending]

theorem cancel_of_not_mentions {io : IoContext α β} {a : α} (h : ¬ io.Mentions a) :
    io.cancel a = io := by
  have hmem : ∀ b ∈ io.outstanding, b ≠ a := fun b hb hba => h (.inl (hba ▸ hb))
  rw [cancel, List.filter_eq_self.mpr fun b hb => by simpa using hmem b hb,
    List.filter_eq_nil_iff.mpr fun b hb => by simpa using hmem b hb, List.map_nil,
    List.append_nil]

theorem pending_finish {io io' : IoContext α β} {a : α} {outcome : β}
    (h : io.finish a outcome = some io') (b : α) : io'.pending b = io.pending b := by
  unfold finish at h
  split at h
  · rename_i ha
    obtain rfl := Option.some.inj h
    have hcount := List.count_pos_iff.mpr ha
    by_cases hb : b = a
    · simp only [pending, hb, List.count_erase_self, List.countP_append, List.countP_singleton,
        decide_true, Option.isSome_some, Bool.and_self, if_true]
      omega
    · simp [pending, List.count_erase_of_ne hb, Ne.symm hb]
  · cases h

/-- Taking a completion that was not aborted ends what is pending of it. -/
theorem pending_take {io io' : IoContext α β} {i : Nat} {a : α} {outcome : Option β}
    (h : io.take i = some ((a, outcome), io')) (b : α) :
    io.pending b = io'.pending b + if b = a ∧ outcome.isSome then 1 else 0 := by
  obtain ⟨hget, rfl⟩ := take_eq_some.1 h
  obtain ⟨hi, hget⟩ := List.getElem?_eq_some_iff.mp hget
  have hperm := List.getElem_cons_eraseIdx_perm hi
  rw [hget] at hperm
  simp only [pending, ← hperm.countP_eq, List.countP_cons]
  by_cases hb : b = a
  · simp [hb, Nat.add_assoc]
  · simp [hb, Ne.symm hb]

theorem pending_cancel_self_le (io : IoContext α β) (a : α) :
    (io.cancel a).pending a ≤ io.pending a := by
  have hnone : (io.outstanding.filter fun b => b ≠ a).count a = 0 :=
    List.count_eq_zero_of_not_mem fun hmem => by simp at hmem
  rw [pending, cancel, hnone, List.countP_append, countP_aborted, pending]
  omega

/-- Operations that are new to the context are only initiated. -/
theorem foldl_restart {as : List α} (hnodup : as.Nodup) {io : IoContext α β}
    (hfresh : ∀ a ∈ as, ¬ io.Mentions a) :
    as.foldl (fun io a => (io.cancel a).initiate a) io = as.foldl initiate io := by
  induction as generalizing io with
  | nil => rfl
  | cons a as ih =>
      rw [List.nodup_cons] at hnodup
      rw [List.forall_mem_cons] at hfresh
      rw [List.foldl_cons, List.foldl_cons, cancel_of_not_mentions hfresh.1]
      refine ih hnodup.2 ?_
      intro b hb hmentions
      rcases mentions_initiate.1 hmentions with rfl | hmentions
      · exact hnodup.1 hb
      · exact hfresh.2 b hb hmentions

theorem pending_foldl_initiate (as : List α) (io : IoContext α β) (b : α) :
    (as.foldl initiate io).pending b = io.pending b + as.count b := by
  induction as generalizing io with
  | nil => rfl
  | cons a as ih =>
      rw [List.foldl_cons, ih, pending_initiate, List.count_cons]
      by_cases hb : b = a
      · simp [hb]
        omega
      · simp [hb, Ne.symm hb]

omit [DecidableEq α] in
theorem mentions_foldl_initiate {as : List α} {io : IoContext α β} {b : α} :
    (as.foldl initiate io).Mentions b ↔ b ∈ as ∨ io.Mentions b := by
  induction as generalizing io with
  | nil => simp
  | cons a as ih =>
      rw [List.foldl_cons, ih, mentions_initiate, List.mem_cons]
      tauto

end IoContext

end Supernova
