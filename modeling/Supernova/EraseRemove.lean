/-
Removing the members of a sequence that satisfy a predicate, with `std::remove_if` and
`erase`. The standard leaves the values past the new end unspecified, and erasing at the
end is undefined.
-/
import Mathlib.Data.List.Basic
import Mathlib.Data.Fintype.EquivFin

namespace Supernova

namespace EraseRemove

variable {α κ : Type} [DecidableEq κ]

/-- `std::remove_if`: the members that stay, then values that are left unspecified, and the
position of the new end. `unspecified` has the values, by sequence and position. -/
def removeIf (unspecified : List α → Nat → α) (p : α → Bool) (l : List α) : List α × Nat :=
  let kept := l.filter fun a => !p a
  (kept ++ (List.range' kept.length (l.length - kept.length)).map (unspecified l), kept.length)

/-- `erase` at one position; there must be a member. -/
def eraseAt (sequence : List α × Nat) : Option (List α) :=
  if sequence.2 < sequence.1.length then some (sequence.1.eraseIdx sequence.2) else none

/-- For each key in turn, one `erase` where `remove_if` of the members with that key ends. -/
def eraseKeys (unspecified : List α → Nat → α) (key : α → κ) (keys : List κ) (l : List α) :
    Option (List α) :=
  keys.foldlM (fun rest k => eraseAt (removeIf unspecified (fun a => key a = k) rest)) l

section Erasing

variable {unspecified : List α → Nat → α} {p : α → Bool} {l rest : List α}

theorem length_filter_add_countP (p : α → Bool) (l : List α) :
    (l.filter fun a => !p a).length + l.countP p = l.length := by
  have hlength := l.length_eq_countP_add_countP (p := p)
  have hkept : (l.filter fun a => !p a).length = l.countP fun a => ¬p a = true := by
    rw [← List.countP_eq_length_filter]
    exact List.countP_congr fun a _ => by simp
  omega

/-- Without a member to remove, `erase` is called with the end of the sequence. -/
theorem eraseAt_removeIf_none (h : l.countP p = 0) :
    eraseAt (removeIf unspecified p l) = none := by
  have hlength := length_filter_add_countP p l
  simp only [eraseAt, removeIf, List.length_append, List.length_map, List.length_range']
  exact if_neg (by omega)

/-- All but one of the unspecified values stay in the sequence. -/
theorem eraseAt_removeIf_some (h : 0 < l.countP p) :
    eraseAt (removeIf unspecified p l) = some ((l.filter fun a => !p a) ++
      (List.range' ((l.filter fun a => !p a).length + 1) (l.countP p - 1)).map
        (unspecified l)) := by
  have hlength := length_filter_add_countP p l
  have hcount : l.length - (l.filter fun a => !p a).length = (l.countP p - 1) + 1 := by omega
  simp only [eraseAt, removeIf, List.length_append, List.length_map, List.length_range']
  rw [if_pos (by omega), List.eraseIdx_append_of_length_le le_rfl, Nat.sub_self, hcount,
    List.range'_succ, List.map_cons, List.eraseIdx_cons_zero]

theorem eraseAt_removeIf_one (h : l.countP p = 1) :
    eraseAt (removeIf unspecified p l) = some (l.filter fun a => !p a) := by
  rw [eraseAt_removeIf_some (by omega), h]
  exact congrArg some (List.append_nil _)

end Erasing

section Keys

variable {unspecified : List α → Nat → α} {key : α → κ} {keys : List κ} {l rest : List α}

/-- The keys are different, and each is the key of one member. -/
def EachOnce (key : α → κ) (keys : List κ) (l : List α) : Prop :=
  keys.Nodup ∧ ∀ k ∈ keys, l.countP (fun a => key a = k) = 1

theorem filter_without_key (k : κ) (keys : List κ) (l : List α) :
    ((l.filter fun a => !decide (key a = k)).filter fun a => key a ∉ keys) =
      l.filter fun a => key a ∉ k :: keys := by
  rw [List.filter_filter]
  refine List.filter_congr fun a _ => ?_
  by_cases hk : key a = k
  · simp [hk]
  · simp [hk]

theorem countP_without_key {k k' : κ} (h : k' ≠ k) (l : List α) :
    (l.filter fun a => !decide (key a = k)).countP (fun a => key a = k') =
      l.countP fun a => key a = k' := by
  rw [List.countP_filter]
  refine List.countP_congr fun a _ => ?_
  by_cases hk : key a = k'
  · simp [hk, h]
  · simp [hk]

theorem eraseKeys_of_eachOnce (h : EachOnce key keys l) :
    eraseKeys unspecified key keys l = some (l.filter fun a => key a ∉ keys) := by
  obtain ⟨hnodup, hcount⟩ := h
  induction keys generalizing l with
  | nil => simp [eraseKeys]
  | cons k keys ih =>
      obtain ⟨hk, hnodup⟩ := List.nodup_cons.mp hnodup
      rw [eraseKeys, List.foldlM_cons, eraseAt_removeIf_one (hcount k List.mem_cons_self)]
      change eraseKeys unspecified key keys _ = _
      rw [ih hnodup, filter_without_key]
      intro k' hk'
      rw [countP_without_key (ne_of_mem_of_not_mem hk' hk)]
      exact hcount k' (List.mem_cons_of_mem _ hk')

theorem eraseKeys_eq_none {k : κ} (h : l.countP (fun a => key a = k) = 0) :
    eraseKeys unspecified key (k :: keys) l = none := by
  rw [eraseKeys, List.foldlM_cons, eraseAt_removeIf_none h]
  rfl

/-- If the unspecified values have none of the keys, what stays is at least what should, and
no more only if each key has one member. -/
theorem length_le_of_eraseKeys (other : α) (hother : key other ∉ keys)
    (h : eraseKeys (fun _ _ => other) key keys l = some rest) :
    (l.filter fun a => key a ∉ keys).length ≤ rest.length ∧
      (rest.length = (l.filter fun a => key a ∉ keys).length → EachOnce key keys l) := by
  induction keys generalizing l with
  | nil =>
      obtain rfl : l = rest := by simpa [eraseKeys] using h
      simp [EachOnce]
  | cons k keys ih =>
      rcases Nat.eq_zero_or_pos (l.countP fun a => key a = k) with hzero | hpos
      · cases (eraseKeys_eq_none hzero).symm.trans h
      rw [eraseKeys, List.foldlM_cons, eraseAt_removeIf_some hpos] at h
      have hother' : key other ∉ keys := fun hmem => hother (List.mem_cons_of_mem _ hmem)
      obtain ⟨hle, hexact⟩ := ih hother' h
      rw [List.map_const', List.length_range'] at hle hexact
      rw [List.filter_append, filter_without_key, List.filter_replicate,
        if_pos (decide_eq_true hother'), List.length_append, List.length_replicate] at hle hexact
      refine ⟨by omega, fun hlength => ?_⟩
      have hone : l.countP (fun a => key a = k) = 1 := by omega
      obtain ⟨hnodup, hcount⟩ := hexact (by omega)
      rw [hone, Nat.sub_self, List.replicate_zero, List.append_nil] at hcount
      have hk : k ∉ keys := by
        intro hmem
        have hcount := hcount k hmem
        rw [List.countP_filter] at hcount
        obtain ⟨a, -, ha⟩ := List.countP_pos_iff.mp (hcount ▸ Nat.one_pos)
        simp at ha
      refine ⟨List.nodup_cons.mpr ⟨hk, hnodup⟩, ?_⟩
      rintro k' (_ | ⟨_, hk'⟩)
      · exact hone
      · rw [← countP_without_key (ne_of_mem_of_not_mem hk' hk)]
        exact hcount k' hk'

end Keys

end EraseRemove

end Supernova
