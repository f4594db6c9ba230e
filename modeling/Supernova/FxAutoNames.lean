/-
Connection names that the engine chooses itself: such a name can always be used,
and there is one unless the entity is at its ceiling with every endpoint busy.
-/
import Supernova.FxGrowth
import Mathlib.Data.List.Nodup

namespace Supernova

namespace Fx

/-- An entity at its ceiling, all of whose endpoints are active. -/
def Full (fx : Engine) (entityName : Bytes) : Prop :=
  endpointCountOf fx entityName = kMaxEndpointsPerEntity ∧
    ∀ name endpoint, fx.endpoints.find? name = some endpoint → endpoint.entity = entityName →
      endpoint.active = true

/-- A name that passes the checks of an establish: it is not poisoned, its endpoint is
closed and of this entity, and without an endpoint there is room for one. -/
structure PassesNameChecks (fx : Engine) (entityName name : Bytes) : Prop where
  notPoisoned : name ∉ fx.poisonedNames
  notActive : ∀ endpoint, fx.endpoints.find? name = some endpoint → endpoint.active = false
  notOwned : ∀ endpoint, fx.endpoints.find? name = some endpoint → endpoint.entity = entityName
  withinCeiling : fx.endpoints.find? name = none →
    endpointCountOf fx entityName < kMaxEndpointsPerEntity

section Checks

variable {fx : Engine} {entityName name : Bytes}

/-- These are the checks that the code makes. -/
theorem existingEndpoint_isOk_iff :
    (∃ existing, existingEndpoint fx entityName name = .ok existing) ↔
      PassesNameChecks fx entityName name := by
  constructor
  · rintro ⟨existing, hexisting⟩
    obtain ⟨hpoisoned, hfind, hendpoint, hroom⟩ := existingEndpoint_eq_ok.1 hexisting
    refine ⟨hpoisoned, ?_, ?_, fun hnone => hroom (hfind.symm.trans hnone)⟩
    · exact fun endpoint hsome => (hendpoint endpoint (hfind.symm.trans hsome)).1
    · exact fun endpoint hsome => (hendpoint endpoint (hfind.symm.trans hsome)).2
  · intro h
    refine ⟨fx.endpoints.find? name, existingEndpoint_eq_ok.2 ⟨h.notPoisoned, rfl, ?_,
      h.withinCeiling⟩⟩
    exact fun endpoint hsome => ⟨h.notActive endpoint hsome, h.notOwned endpoint hsome⟩

/-- An available name passes them when there is room for an endpoint. -/
theorem passesNameChecks_of_availableTo (havailable : availableTo fx entityName name = true)
    (hroom : endpointCountOf fx entityName < kMaxEndpointsPerEntity) :
    PassesNameChecks fx entityName name := by
  rw [availableTo, Bool.and_eq_true, decide_eq_true_eq] at havailable
  obtain ⟨hpoisoned, hclosed⟩ := havailable
  have hendpoint : ∀ endpoint, fx.endpoints.find? name = some endpoint →
      endpoint.active = false ∧ endpoint.entity = entityName := by
    intro endpoint hsome
    rw [hsome] at hclosed
    simpa using hclosed
  exact ⟨hpoisoned, fun e he => (hendpoint e he).1, fun e he => (hendpoint e he).2,
    fun _ => hroom⟩

end Checks

section Search

variable {fx : Engine} {entityName : Bytes}

/-- The names that a search may find taken. -/
def takenNames (fx : Engine) : List Bytes :=
  fx.poisonedNames ++ fx.endpoints.entries.map Prod.fst

theorem availableTo_of_not_mem_takenNames {name : Bytes} (h : name ∉ takenNames fx) :
    availableTo fx entityName name = true := by
  rw [takenNames, List.mem_append, not_or] at h
  have hnone : fx.endpoints.find? name = none := by
    rcases hfind : fx.endpoints.find? name with _ | endpoint
    · rfl
    · have hentry := (OrderedMap.mem_entries_iff fx.endpoints name endpoint).mpr hfind
      exact absurd (List.mem_map_of_mem hentry) h.2
  rw [availableTo, hnone]
  simp [h.1]

/-- Among the first names there are more than can be taken. -/
theorem exists_autoName_not_taken (fx : Engine) :
    ∃ name ∈ (List.range (fx.endpoints.size + fx.poisonedNames.length + 1)).map
        (fun n => autoName (n + 1)), name ∉ takenNames fx := by
  by_contra hall
  push Not at hall
  have hnodup : ((List.range (fx.endpoints.size + fx.poisonedNames.length + 1)).map
      (fun n => autoName (n + 1))).Nodup := by
    refine List.nodup_range.map ?_
    exact autoName_injective.comp (fun m n heq => Nat.succ.inj heq)
  have hlength := (hnodup.subperm hall).length_le
  rw [List.length_map, List.length_range, takenNames, List.length_append, List.length_map]
    at hlength
  have hsize : fx.endpoints.size = fx.endpoints.entries.length := rfl
  omega

/-- Below the ceiling the search finds a name, and only one that is available. -/
theorem freshAutoName_of_room (hroom : endpointCountOf fx entityName < kMaxEndpointsPerEntity) :
    ∃ name, freshAutoName fx entityName = some name ∧ availableTo fx entityName name = true := by
  rw [freshAutoName, if_pos hroom]
  obtain ⟨name, hmem, hfree⟩ := exists_autoName_not_taken fx
  have hsome : (((List.range (fx.endpoints.size + fx.poisonedNames.length + 1)).map
      fun n => autoName (n + 1)).find? (availableTo fx entityName)).isSome :=
    List.find?_isSome.mpr ⟨name, hmem, availableTo_of_not_mem_takenNames hfree⟩
  obtain ⟨chosen, hchosen⟩ := Option.isSome_iff_exists.mp hsome
  exact ⟨chosen, hchosen, List.find?_some hchosen⟩

/-- At the ceiling a closed endpoint of the entity gives its name. -/
theorem firstFreeAutoName_of_noRoom
    (hnoRoom : ¬ endpointCountOf fx entityName < kMaxEndpointsPerEntity) :
    (∃ name endpoint, firstFreeAutoName fx entityName = .ok name ∧
        fx.endpoints.find? name = some endpoint ∧ endpoint.active = false ∧
        endpoint.entity = entityName) ∨
      (∃ what, firstFreeAutoName fx entityName = .error what) ∧
        ∀ name endpoint, fx.endpoints.find? name = some endpoint →
          endpoint.entity = entityName → endpoint.active = true := by
  have hfresh : freshAutoName fx entityName = none := if_neg hnoRoom
  rcases hentry : fx.endpoints.entries.find? fun entry =>
      !entry.2.active && entry.2.entity = entityName with _ | entry
  · have hthrows : ∃ what, firstFreeAutoName fx entityName = .error what := by
      simp only [firstFreeAutoName, hfresh, hentry]
      exact ⟨_, rfl⟩
    refine .inr ⟨hthrows, fun name endpoint hfind hentity => ?_⟩
    have hmem := (OrderedMap.mem_entries_iff fx.endpoints name endpoint).mpr hfind
    have hrefused := List.find?_eq_none.mp hentry (name, endpoint) hmem
    simpa [hentity] using hrefused
  · have hclosed := List.find?_some hentry
    rw [Bool.and_eq_true, Bool.not_eq_true', decide_eq_true_eq] at hclosed
    have hchosen : firstFreeAutoName fx entityName = .ok entry.1 := by
      simp only [firstFreeAutoName, hfresh, hentry]
      rfl
    exact .inl ⟨entry.1, entry.2, hchosen, (OrderedMap.mem_entries_iff fx.endpoints entry.1
      entry.2).mp (List.mem_of_find?_eq_some hentry), hclosed⟩

/-- In a sound table the engine either chooses a name that can be used or the entity
is full. -/
theorem firstFreeAutoName_cases (h : TableSound fx) (entityName : Bytes) :
    (∃ name, firstFreeAutoName fx entityName = .ok name ∧
        PassesNameChecks fx entityName name ∧ ¬ Full fx entityName) ∨
      (∃ what, firstFreeAutoName fx entityName = .error what) ∧ Full fx entityName := by
  by_cases hroom : endpointCountOf fx entityName < kMaxEndpointsPerEntity
  · obtain ⟨name, hchosen, havailable⟩ := freshAutoName_of_room hroom
    refine .inl ⟨name, ?_, passesNameChecks_of_availableTo havailable hroom, ?_⟩
    · rw [firstFreeAutoName, hchosen]
      rfl
    · exact fun hfull => Nat.ne_of_lt hroom hfull.1
  · rcases firstFreeAutoName_of_noRoom hroom with
      ⟨name, endpoint, hchosen, hfind, hclosed, hentity⟩ | ⟨hthrows, hactive⟩
    · have hsame : ∀ endpoint', fx.endpoints.find? name = some endpoint' →
          endpoint' = endpoint := fun _ hfind' => Option.some.inj (hfind'.symm.trans hfind)
      refine .inl ⟨name, hchosen, ⟨(h.fits hfind).unpoisoned, ?_, ?_, ?_⟩, fun hfull => ?_⟩
      · exact fun endpoint' hfind' => hsame endpoint' hfind' ▸ hclosed
      · exact fun endpoint' hfind' => hsame endpoint' hfind' ▸ hentity
      · intro hnone
        rw [hfind] at hnone
        cases hnone
      · rw [hfull.2 name endpoint hfind hentity] at hclosed
        cases hclosed
    · exact .inr ⟨hthrows, Nat.le_antisymm (h.bounded entityName) (Nat.not_lt.mp hroom), hactive⟩

end Search

/-- In every state that a server reaches, a name that the engine chooses passes the
checks of an establish for its entity, and it fails to choose one exactly when the entity
is full.  A request without a name is refused at this point only then. -/
theorem firstFreeAutoName_works {server : Server} (h : Reachable server) (entityName : Bytes) :
    (∀ name, firstFreeAutoName server.fx entityName = .ok name →
        PassesNameChecks server.fx entityName name) ∧
      ((∃ what, firstFreeAutoName server.fx entityName = .error what) ↔
        Full server.fx entityName) ∧
      ∀ request : Members, member? request (text "connectionName") = none →
        ((∃ existing, (connectionNameOf server.fx request entityName >>=
            existingEndpoint server.fx entityName) = .ok existing) ↔
          ¬ Full server.fx entityName) := by
  obtain ⟨booted, events, hboots, rfl⟩ := h
  obtain ⟨htable, -⟩ := evolves_run (sound_of_boots hboots) events (tableSound_of_boots hboots)
  rcases firstFreeAutoName_cases htable entityName with
    ⟨name, hchosen, hpasses, hnotFull⟩ | ⟨⟨what, hthrows⟩, hfull⟩
  · refine ⟨?_, ?_, ?_⟩
    · intro name' hchosen'
      rw [hchosen, Except.ok.injEq] at hchosen'
      exact hchosen' ▸ hpasses
    · simp [hchosen, hnotFull]
    · intro request hunnamed
      rw [connectionNameOf, hunnamed]
      refine iff_of_true ?_ hnotFull
      obtain ⟨existing, hexisting⟩ := existingEndpoint_isOk_iff.2 hpasses
      exact ⟨existing, except_bind_eq_ok.2 ⟨name, hchosen, hexisting⟩⟩
  · refine ⟨?_, ?_, ?_⟩
    · intro name hchosen
      rw [hthrows] at hchosen
      cases hchosen
    · exact iff_of_true ⟨what, hthrows⟩ hfull
    · intro request hunnamed
      rw [connectionNameOf, hunnamed]
      refine iff_of_false ?_ (not_not.mpr hfull)
      rintro ⟨existing, hexisting⟩
      obtain ⟨name, hchosen, -⟩ := except_bind_eq_ok.1 hexisting
      have hcontradiction := hthrows.symm.trans hchosen
      cases hcontradiction

/-- The first automatic name is free, and the entity of the shadowed connection can use it. -/
theorem firstFreeAutoName_works_shadowed :
    PassesNameChecks shadowed.fx (text "A") (autoName 1) := by
  have hchosen : (firstFreeAutoName shadowed.fx (text "A")).toOption = some (autoName 1) := by
    decide +kernel
  refine (firstFreeAutoName_works reachable_shadowed (text "A")).1 (autoName 1) ?_
  rcases hname : firstFreeAutoName shadowed.fx (text "A") with what | name
  · rw [hname] at hchosen
    cases hchosen
  · rw [hname] at hchosen
    exact congrArg Except.ok (Option.some.inj hchosen)

end Fx

end Supernova
