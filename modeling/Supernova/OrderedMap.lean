/-
Maps with ordered keys, as a list of entries in the order of their keys.  The
order is the lexicographic one of the numbers that a key stands for.
-/
import Mathlib.Data.List.Lex
import Mathlib.Data.Nat.Basic
import Supernova.LittleEndian

namespace Supernova

/-- A type of map keys, compared through lists of numbers. -/
class MapKey (κ : Type*) where
  sortKey : κ → List Nat
  sortKey_injective : Function.Injective sortKey

/-- Strings are compared byte by byte, as unsigned characters. -/
instance : MapKey Bytes where
  sortKey s := s.map UInt8.toNat
  sortKey_injective := List.map_injective_iff.mpr fun _ _ => UInt8.toNat_inj.mp

/-- `std::map`: entries with strictly increasing keys. -/
structure OrderedMap (κ V : Type*) [MapKey κ] where
  entries : List (κ × V)
  sorted : entries.Pairwise fun e e' => MapKey.sortKey e.1 < MapKey.sortKey e'.1

namespace OrderedMap

theorem lookup_cons_eq {κ V : Type*} [DecidableEq κ] (k : κ) (e : κ × V)
    (entries : List (κ × V)) :
    (e :: entries).lookup k = if k = e.1 then some e.2 else entries.lookup k := by
  obtain ⟨k', v⟩ := e
  rw [List.lookup_cons]
  by_cases hk : k = k'
  · simp [hk]
  · simp [hk, beq_false_of_ne hk]

theorem lookup_filter_ne {κ V : Type*} [DecidableEq κ] (k k' : κ) (entries : List (κ × V)) :
    (entries.filter fun e => e.1 ≠ k).lookup k' =
      if k' = k then none else entries.lookup k' := by
  induction entries with
  | nil => simp
  | cons e entries ih =>
      by_cases hek : e.1 = k
      · rw [List.filter_cons, if_neg (by simpa using hek), ih, lookup_cons_eq, hek]
        split <;> rfl
      · rw [List.filter_cons, if_pos (by simpa using hek), lookup_cons_eq, ih, lookup_cons_eq]
        by_cases hk : k' = e.1
        · simp [hk, hek]
        · simp [hk]

variable {κ V : Type*} [MapKey κ]

@[ext] theorem ext {m m' : OrderedMap κ V} (h : m.entries = m'.entries) : m = m' := by
  obtain ⟨entries, _⟩ := m
  obtain ⟨entries', _⟩ := m'
  cases h
  rfl

variable [DecidableEq κ]

instance [DecidableEq V] : DecidableEq (OrderedMap κ V) := fun m m' =>
  decidable_of_iff (m.entries = m'.entries) ⟨ext, congrArg entries⟩

def empty : OrderedMap κ V := ⟨[], List.Pairwise.nil⟩

def find? (m : OrderedMap κ V) (k : κ) : Option V :=
  m.entries.lookup k

def contains (m : OrderedMap κ V) (k : κ) : Bool :=
  (m.find? k).isSome

def size (m : OrderedMap κ V) : Nat :=
  m.entries.length

/-- Put an entry at its place, over one with the same key. -/
def insertEntry (k : κ) (v : V) : List (κ × V) → List (κ × V)
  | [] => [(k, v)]
  | e :: entries =>
      if k = e.1 then (k, v) :: entries
      else if MapKey.sortKey k < MapKey.sortKey e.1 then (k, v) :: e :: entries
      else e :: insertEntry k v entries

theorem mem_insertEntry_imp {k : κ} {v : V} {entries : List (κ × V)} {e : κ × V}
    (h : e ∈ insertEntry k v entries) : e = (k, v) ∨ e ∈ entries := by
  induction entries with
  | nil => exact .inl (List.mem_singleton.mp h)
  | cons e' entries ih =>
      rw [insertEntry] at h
      split at h
      · rcases List.mem_cons.mp h with rfl | h
        · exact .inl rfl
        · exact .inr (List.mem_cons_of_mem _ h)
      split at h
      · exact List.mem_cons.mp h
      · rcases List.mem_cons.mp h with rfl | h
        · exact .inr List.mem_cons_self
        · exact (ih h).imp_right (List.mem_cons_of_mem _)

theorem insertEntry_sorted {k : κ} {v : V} {entries : List (κ × V)}
    (h : entries.Pairwise fun e e' => MapKey.sortKey e.1 < MapKey.sortKey e'.1) :
    (insertEntry k v entries).Pairwise
      fun e e' => MapKey.sortKey e.1 < MapKey.sortKey e'.1 := by
  induction entries with
  | nil => exact List.pairwise_singleton _ _
  | cons e entries ih =>
      obtain ⟨hhead, htail⟩ := List.pairwise_cons.mp h
      rw [insertEntry]
      split
      · rename_i hkey
        exact List.pairwise_cons.mpr ⟨hkey ▸ hhead, htail⟩
      split
      · rename_i hbefore
        refine List.pairwise_cons.mpr ⟨?_, h⟩
        intro e' he'
        rcases List.mem_cons.mp he' with rfl | he'
        · exact hbefore
        · exact hbefore.trans (hhead e' he')
      · rename_i hkey hbefore
        refine List.pairwise_cons.mpr ⟨?_, ih htail⟩
        intro e' he'
        rcases mem_insertEntry_imp he' with rfl | he'
        · have hne : MapKey.sortKey e.1 ≠ MapKey.sortKey k :=
            fun heq => hkey (MapKey.sortKey_injective heq).symm
          exact lt_of_le_of_ne (not_lt.mp hbefore) hne
        · exact hhead e' he'

/-- `m[k] = v` -/
def assign (m : OrderedMap κ V) (k : κ) (v : V) : OrderedMap κ V :=
  ⟨insertEntry k v m.entries, insertEntry_sorted m.sorted⟩

def erase (m : OrderedMap κ V) (k : κ) : OrderedMap κ V :=
  ⟨m.entries.filter fun e => e.1 ≠ k, m.sorted.filter _⟩

@[simp] theorem find?_empty (k : κ) : (empty : OrderedMap κ V).find? k = none := rfl

theorem lookup_insertEntry (k k' : κ) (v : V) (entries : List (κ × V)) :
    (insertEntry k v entries).lookup k' = if k' = k then some v else entries.lookup k' := by
  induction entries with
  | nil => simp [insertEntry, lookup_cons_eq]
  | cons e entries ih =>
      rw [insertEntry]
      split
      · rename_i hkey
        simp only [lookup_cons_eq, ← hkey]
        split <;> rfl
      split
      · rw [lookup_cons_eq]
      · rename_i hkey _
        rw [lookup_cons_eq, ih, lookup_cons_eq]
        by_cases hk : k' = k
        · simp [hk, hkey]
        · simp [hk]

@[simp] theorem find?_assign (m : OrderedMap κ V) (k k' : κ) (v : V) :
    (m.assign k v).find? k' = if k' = k then some v else m.find? k' :=
  lookup_insertEntry k k' v m.entries

/-- What is found after an assignment is the new value, or was there before. -/
theorem find?_assign_eq_some {m : OrderedMap κ V} {k k' : κ} {v v' : V} :
    (m.assign k v).find? k' = some v' ↔
      (k' = k ∧ v = v') ∨ (k' ≠ k ∧ m.find? k' = some v') := by
  rw [find?_assign]
  by_cases hk : k' = k
  · simp [hk]
  · simp [hk]

@[simp] theorem find?_erase (m : OrderedMap κ V) (k k' : κ) :
    (m.erase k).find? k' = if k' = k then none else m.find? k' :=
  lookup_filter_ne k k' m.entries

theorem mem_entries_iff (m : OrderedMap κ V) (k : κ) (v : V) :
    (k, v) ∈ m.entries ↔ m.find? k = some v := by
  obtain ⟨entries, hsorted⟩ := m
  change (k, v) ∈ entries ↔ entries.lookup k = some v
  induction entries with
  | nil => simp
  | cons e entries ih =>
      obtain ⟨hhead, htail⟩ := List.pairwise_cons.mp hsorted
      rw [List.mem_cons, ih htail, lookup_cons_eq]
      by_cases hk : k = e.1
      · have hnot : entries.lookup k ≠ some v := by
          intro hmem
          have hlt := hhead _ ((ih htail).mpr hmem)
          rw [hk] at hlt
          exact lt_irrefl _ hlt
        rw [if_pos hk, Option.some.injEq]
        constructor
        · rintro (heq | hmem)
          · rw [← heq]
          · exact absurd hmem hnot
        · intro hv
          rw [hk, ← hv]
          exact .inl rfl
      · rw [if_neg hk]
        constructor
        · rintro (heq | hmem)
          · exact absurd (congrArg Prod.fst heq) hk
          · exact hmem
        · exact .inr

/-- A new entry is added to those there are. -/
theorem insertEntry_perm {k : κ} {entries : List (κ × V)} (h : ∀ e ∈ entries, e.1 ≠ k) (v : V) :
    (insertEntry k v entries).Perm ((k, v) :: entries) := by
  induction entries with
  | nil => exact List.Perm.refl _
  | cons e entries ih =>
      rw [List.forall_mem_cons] at h
      rw [insertEntry, if_neg (Ne.symm h.1)]
      split
      · exact List.Perm.refl _
      · exact ((ih h.2).cons e).trans (List.Perm.swap (k, v) e entries)

theorem filter_ne_insertEntry {k : κ} {entries : List (κ × V)} (h : ∀ e ∈ entries, e.1 ≠ k)
    (v : V) : (insertEntry k v entries).filter (fun e => e.1 ≠ k) = entries := by
  induction entries with
  | nil => simp [insertEntry]
  | cons e entries ih =>
      rw [List.forall_mem_cons] at h
      have hself : entries.filter (fun e => decide (e.1 ≠ k)) = entries :=
        List.filter_eq_self.mpr fun e he => by simpa using h.2 e he
      rw [insertEntry, if_neg (Ne.symm h.1)]
      split
      · rw [List.filter_cons, if_neg (by simp), List.filter_cons, if_pos (by simpa using h.1),
          hself]
      · rw [List.filter_cons, if_pos (by simpa using h.1), ih h.2]

/-- Taking back a new entry restores the map. -/
theorem erase_assign {m : OrderedMap κ V} {k : κ} (h : m.find? k = none) (v : V) :
    (m.assign k v).erase k = m := by
  apply ext
  apply filter_ne_insertEntry
  rintro ⟨k', v'⟩ he rfl
  rw [mem_entries_iff, h] at he
  cases he

/-- Assigning back what was there restores the map. -/
theorem assign_assign {m : OrderedMap κ V} {k : κ} {v : V} (h : m.find? k = some v) (v' : V) :
    (m.assign k v').assign k v = m := by
  apply ext
  obtain ⟨entries, hsorted⟩ := m
  change entries.lookup k = some v at h
  change insertEntry k v (insertEntry k v' entries) = entries
  induction entries with
  | nil => cases h
  | cons e entries ih =>
      obtain ⟨hhead, htail⟩ := List.pairwise_cons.mp hsorted
      rw [lookup_cons_eq] at h
      by_cases hk : k = e.1
      · rw [if_pos hk, Option.some.injEq] at h
        rw [insertEntry, if_pos hk, insertEntry, if_pos rfl, hk, ← h]
      · rw [if_neg hk] at h
        have hafter : ¬ MapKey.sortKey k < MapKey.sortKey e.1 :=
          not_lt.mpr (hhead _ ((mem_entries_iff ⟨entries, htail⟩ k v).mpr h)).le
        rw [insertEntry, if_neg hk, if_neg hafter, insertEntry, if_neg hk, if_neg hafter,
          ih htail h]

/-- The last assignment counts. -/
theorem assign_again (m : OrderedMap κ V) (k : κ) (v v' : V) :
    (m.assign k v).assign k v' = m.assign k v' := by
  apply ext
  obtain ⟨entries, hsorted⟩ := m
  change insertEntry k v' (insertEntry k v entries) = insertEntry k v' entries
  clear hsorted
  induction entries with
  | nil => simp [insertEntry]
  | cons e entries ih =>
      by_cases hk : k = e.1
      · simp [insertEntry, hk]
      by_cases hbefore : MapKey.sortKey k < MapKey.sortKey e.1
      · simp [insertEntry, hk, hbefore]
      · simp [insertEntry, hk, hbefore, ih]

/-- Maps that agree, key by key, on a part of their values have the same entries
up to the rest. -/
theorem map_entries_perm {β : Type*} {m m' : OrderedMap κ V} {f : V → β}
    (h : ∀ k, (m.find? k).map f = (m'.find? k).map f) :
    (m.entries.map fun e => (e.1, f e.2)).Perm (m'.entries.map fun e => (e.1, f e.2)) := by
  have hnodup : ∀ m : OrderedMap κ V, (m.entries.map fun e => (e.1, f e.2)).Nodup := by
    intro m
    rw [List.Nodup, List.pairwise_map]
    refine m.sorted.imp ?_
    rintro e e' hlt heq
    rw [(Prod.mk.injEq ..).mp heq |>.1] at hlt
    exact lt_irrefl _ hlt
  have hmem : ∀ (m : OrderedMap κ V) k b,
      (k, b) ∈ (m.entries.map fun e => (e.1, f e.2)) ↔ (m.find? k).map f = some b := by
    intro m k b
    simp only [List.mem_map, Prod.mk.injEq, Prod.exists, mem_entries_iff, Option.map_eq_some_iff]
    constructor
    · rintro ⟨k, v, hfind, rfl, rfl⟩
      exact ⟨v, hfind, rfl⟩
    · rintro ⟨v, hfind, rfl⟩
      exact ⟨k, v, hfind, rfl, rfl⟩
  refine (List.perm_ext_iff_of_nodup (hnodup m) (hnodup m')).mpr ?_
  rintro ⟨k, b⟩
  rw [hmem, hmem, h]

section Map

variable {W : Type*}

/-- The same keys with other values. -/
def map (f : V → W) (m : OrderedMap κ V) : OrderedMap κ W :=
  ⟨m.entries.map fun e => (e.1, f e.2), List.pairwise_map.mpr m.sorted⟩

omit [DecidableEq κ] in
@[simp] theorem map_empty (f : V → W) : (empty : OrderedMap κ V).map f = empty := rfl

@[simp] theorem find?_map (f : V → W) (m : OrderedMap κ V) (k : κ) :
    (m.map f).find? k = (m.find? k).map f := by
  obtain ⟨entries, hsorted⟩ := m
  change (entries.map fun e => (e.1, f e.2)).lookup k = (entries.lookup k).map f
  clear hsorted
  induction entries with
  | nil => rfl
  | cons e entries ih =>
      rw [List.map_cons, lookup_cons_eq, lookup_cons_eq, ih]
      split <;> rfl

theorem map_assign (f : V → W) (m : OrderedMap κ V) (k : κ) (v : V) :
    (m.assign k v).map f = (m.map f).assign k (f v) := by
  apply ext
  obtain ⟨entries, hsorted⟩ := m
  change (insertEntry k v entries).map (fun e => (e.1, f e.2)) =
    insertEntry k (f v) (entries.map fun e => (e.1, f e.2))
  clear hsorted
  induction entries with
  | nil => rfl
  | cons e entries ih =>
      rw [insertEntry, List.map_cons, insertEntry]
      split
      · rfl
      split
      · rfl
      · rw [List.map_cons, ih]

theorem map_erase (f : V → W) (m : OrderedMap κ V) (k : κ) :
    (m.erase k).map f = (m.map f).erase k := by
  apply ext
  simp only [map, erase, List.filter_map]
  rfl

end Map

end OrderedMap

end Supernova
