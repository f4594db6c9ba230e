/-
Maps laid over one another.  Values of the later map cover those of the earlier
one; a run of maps, some of them laid over what is there and the others not,
leaves for each key the last value that one of the former had.
-/
import Supernova.OrderedMap

namespace Supernova

namespace OrderedMap

variable {κ V : Type*} [MapKey κ] [DecidableEq κ]

/-- `d.update(s)` -/
def update (m s : OrderedMap κ V) : OrderedMap κ V :=
  s.entries.foldl (fun m e => m.assign e.1 e.2) m

/-- Maps are equal that have the same values. -/
theorem ext_find? {m m' : OrderedMap κ V} (h : ∀ k, m.find? k = m'.find? k) : m = m' := by
  apply ext
  have hperm : m.entries.Perm m'.entries := by
    have hmap : (m.entries.map fun e => (e.1, id e.2)).Perm
        (m'.entries.map fun e => (e.1, id e.2)) :=
      map_entries_perm fun k => by rw [h k]
    have hid : (fun e : κ × V => (e.1, id e.2)) = id := rfl
    rwa [hid, List.map_id, List.map_id] at hmap
  refine hperm.eq_of_pairwise ?_ m.sorted m'.sorted
  intro e e' _ _ hlt hgt
  exact absurd hlt (lt_asymm hgt)

theorem find?_foldl_assign (m : OrderedMap κ V) {entries : List (κ × V)}
    (h : (entries.map Prod.fst).Nodup) (k : κ) :
    (entries.foldl (fun m e => m.assign e.1 e.2) m).find? k =
      (entries.lookup k).or (m.find? k) := by
  induction entries generalizing m with
  | nil => rfl
  | cons e entries ih =>
      obtain ⟨hnot, hnodup⟩ := List.nodup_cons.mp h
      rw [List.foldl_cons, ih _ hnodup, find?_assign, lookup_cons_eq]
      by_cases hk : k = e.1
      · have hnone : entries.lookup k = none := by
          rw [List.lookup_eq_none_iff]
          intro entry hentry
          rw [bne_iff_ne]
          intro heq
          exact hnot (hk ▸ heq ▸ List.mem_map_of_mem hentry)
        rw [hnone, if_pos hk, if_pos hk]
        rfl
      · rw [if_neg hk, if_neg hk]

omit [DecidableEq κ] in
theorem keys_nodup (m : OrderedMap κ V) : (m.entries.map Prod.fst).Nodup := by
  rw [List.Nodup, List.pairwise_map]
  refine m.sorted.imp ?_
  rintro e e' hlt heq
  rw [heq] at hlt
  exact lt_irrefl _ hlt

@[simp] theorem find?_update (m s : OrderedMap κ V) (k : κ) :
    (m.update s).find? k = (s.find? k).or (m.find? k) :=
  find?_foldl_assign m s.keys_nodup k

@[simp] theorem empty_update (s : OrderedMap κ V) : empty.update s = s :=
  ext_find? fun k => by simp

/-- The entries that come before a key. -/
def entriesBefore (m : OrderedMap κ V) (k : κ) : List (κ × V) :=
  m.entries.filter fun e => MapKey.sortKey e.1 < MapKey.sortKey k

/-- An entry stands behind those that come before its key. -/
theorem exists_entries_eq {m : OrderedMap κ V} {k : κ} {v : V} (h : m.find? k = some v) :
    ∃ after, m.entries = m.entriesBefore k ++ (k, v) :: after := by
  obtain ⟨before, after, hsplit⟩ := List.append_of_mem ((mem_entries_iff m k v).mpr h)
  refine ⟨after, ?_⟩
  have hsorted := m.sorted
  rw [hsplit, List.pairwise_append, List.pairwise_cons] at hsorted
  obtain ⟨-, ⟨hafter, -⟩, hbefore⟩ := hsorted
  rw [entriesBefore, hsplit, List.filter_append, List.filter_eq_self.mpr, List.filter_cons,
    if_neg, List.filter_eq_nil_iff.mpr, List.append_nil]
  · intro e he
    simpa using (hafter e he).le
  · simp
  · intro e he
    simpa using hbefore e he (k, v) List.mem_cons_self

/-- Values by their keys; of values with one key the last one stays. -/
def byKey (key : V → κ) (l : List V) : OrderedMap κ V :=
  l.foldl (fun m v => m.assign (key v) v) empty

omit [MapKey κ] in
theorem find?_eq_some_of_mem {key : V → κ} {l : List V} (h : (l.map key).Nodup) {v : V}
    (hv : v ∈ l) : l.find? (fun w => key w = key v) = some v := by
  induction l with
  | nil => cases hv
  | cons w l ih =>
      rw [List.map_cons, List.nodup_cons] at h
      rcases List.mem_cons.mp hv with rfl | hv
      · simp
      · have hne : key w ≠ key v := fun heq => h.1 (heq ▸ List.mem_map_of_mem hv)
        rw [List.find?_cons_of_neg (by simpa using hne)]
        exact ih h.2 hv

omit [MapKey κ] in
theorem find?_eq_none_of_not_mem {key : V → κ} {l : List V} {k : κ} (h : k ∉ l.map key) :
    l.find? (fun w => key w = k) = none := by
  rw [List.find?_eq_none]
  intro w hw
  rw [decide_eq_true_eq]
  rintro rfl
  exact h (List.mem_map_of_mem hw)

omit [MapKey κ] in
theorem lookup_map_key (key : V → κ) (l : List V) (k : κ) :
    (l.map fun v => (key v, v)).lookup k = l.find? fun v => key v = k := by
  induction l with
  | nil => rfl
  | cons v l ih =>
      rw [List.map_cons, lookup_cons_eq, ih, List.find?_cons]
      by_cases hk : key v = k
      · simp [hk]
      · simp [hk, Ne.symm hk]

theorem find?_byKey {key : V → κ} {l : List V} (h : (l.map key).Nodup) (k : κ) :
    (byKey key l).find? k = l.find? fun v => key v = k := by
  have hfold : byKey key l =
      (l.map fun v => (key v, v)).foldl (fun m e => m.assign e.1 e.2) empty := by
    rw [List.foldl_map]
    rfl
  have hkeys : ((l.map fun v => (key v, v)).map Prod.fst).Nodup := by
    rwa [List.map_map]
  rw [hfold, find?_foldl_assign empty hkeys, lookup_map_key, find?_empty, Option.or_none]

theorem mem_byKey {key : V → κ} {l : List V} (h : (l.map key).Nodup) {k : κ} {v : V} :
    (k, v) ∈ (byKey key l).entries ↔ v ∈ l ∧ key v = k := by
  rw [mem_entries_iff, find?_byKey h]
  constructor
  · intro hfind
    exact ⟨List.mem_of_find?_eq_some hfind, by simpa using List.find?_some hfind⟩
  · rintro ⟨hv, rfl⟩
    exact find?_eq_some_of_mem h hv

theorem mem_keys_byKey {key : V → κ} {l : List V} (h : (l.map key).Nodup) (k : κ) :
    k ∈ l.map key ↔ k ∈ (byKey key l).entries.map Prod.fst := by
  simp only [List.mem_map, Prod.exists, exists_and_right, exists_eq_right, mem_byKey h]

/-- Where values change and their keys do not. -/
theorem byKey_map {W : Type*} {key : V → κ} {key' : W → κ} {f : V → W}
    (h : ∀ v, key' (f v) = key v) (l : List V) :
    byKey key' (l.map f) = (byKey key l).map f := by
  have hempty : (empty : OrderedMap κ V).map f = empty := map_empty f
  rw [byKey, byKey, List.foldl_map, ← hempty]
  generalize (empty : OrderedMap κ V) = m
  induction l generalizing m with
  | nil => rfl
  | cons v l ih =>
      rw [List.foldl_cons, List.foldl_cons, ← ih, map_assign, h]

end OrderedMap

section Layers

variable {κ V : Type*} [MapKey κ] [DecidableEq κ]

/-- What maps leave of a first one when those of them that `asks` tells are laid over it. -/
def carried (asks : OrderedMap κ V → Bool) (defaults : OrderedMap κ V)
    (layers : List (OrderedMap κ V)) : OrderedMap κ V :=
  layers.foldl (fun defaults layer => if asks layer then defaults.update layer else defaults)
    defaults

/-- The last value that one of the maps has for a key, or else a first value. -/
def lastValue (k : κ) (value : Option V) (layers : List (OrderedMap κ V)) : Option V :=
  layers.foldl (fun value layer => (layer.find? k).or value) value

variable {asks : OrderedMap κ V → Bool} {defaults : OrderedMap κ V}
  {layers : List (OrderedMap κ V)}

theorem carried_cons (layer : OrderedMap κ V) :
    carried asks defaults (layer :: layers) =
      carried asks (if asks layer then defaults.update layer else defaults) layers :=
  rfl

theorem carried_concat (layer : OrderedMap κ V) :
    carried asks defaults (layers ++ [layer]) =
      if asks layer then (carried asks defaults layers).update layer
      else carried asks defaults layers := by
  rw [carried, List.foldl_append]
  rfl

theorem find?_carried (k : κ) :
    (carried asks defaults layers).find? k =
      lastValue k (defaults.find? k) (layers.filter asks) := by
  induction layers generalizing defaults with
  | nil => rfl
  | cons layer layers ih =>
      rw [carried_cons, ih, List.filter_cons]
      by_cases hlayer : asks layer = true
      · rw [if_pos hlayer, if_pos hlayer, OrderedMap.find?_update]
        rfl
      · rw [if_neg hlayer, if_neg hlayer]

/-- Related maps leave related values. -/
theorem lastValue_rel {R : V → V → Prop} {k : κ} {value value' : Option V}
    {layers' : List (OrderedMap κ V)} (hvalue : Option.Rel R value value')
    (h : List.Forall₂ (fun layer layer' => Option.Rel R (layer.find? k) (layer'.find? k))
      layers layers') : Option.Rel R (lastValue k value layers) (lastValue k value' layers') := by
  induction h generalizing value value' with
  | nil => exact hvalue
  | @cons layer layer' _ _ hfirst _ ih =>
      apply ih
      change Option.Rel R ((layer.find? k).or value) ((layer'.find? k).or value')
      revert hfirst
      rcases layer.find? k with _ | v
      · rcases layer'.find? k with _ | v'
        · exact fun _ => hvalue
        · intro hrel
          cases hrel
      · rcases layer'.find? k with _ | v'
        · intro hrel
          cases hrel
        · exact id

theorem lastValue_of_forall_none {k : κ} {value : Option V}
    (h : ∀ layer ∈ layers, layer.find? k = none) : lastValue k value layers = value := by
  induction layers generalizing value with
  | nil => rfl
  | cons layer layers ih =>
      rw [List.forall_mem_cons] at h
      rw [lastValue, List.foldl_cons, h.1]
      exact ih h.2

end Layers

end Supernova
