/-
Laying parts of one directory over another in steps: directories are created, files
are overwritten, and files that are not there are provided.  What the steps make is known
beforehand, and steps that are interrupted can be taken again from the start.
-/
import Mathlib.Data.List.Infix
import Supernova.FileTree

namespace Supernova

universe v

/-- A step, at a location relative to both directories. -/
inductive OverlayStep (Name : Type*)
  | create (relative : List Name)
  | overwrite (relative : List Name)
  | provide (relative : List Name)
deriving DecidableEq

namespace OverlayStep

variable {Name Content : Type v} [DecidableEq Name]

def relative : OverlayStep Name → List Name
  | create relative => relative
  | overwrite relative => relative
  | provide relative => relative

/-- Whether a step copies a file. -/
def isCopy : OverlayStep Name → Bool
  | create _ => false
  | overwrite _ => true
  | provide _ => true

section Running

variable (source target : List Name)

def copy (relative : List Name) (t : FileTree Name Content) :
    Except FileError (FileTree Name Content) := do
  let content ← t.readFile (relative ++ source)
  t.writeFile content (relative ++ target)

def perform (step : OverlayStep Name) (t : FileTree Name Content) :
    Except FileError (FileTree Name Content) :=
  match step with
  | create relative =>
      match t.node (relative ++ target) with
      | some .directory => pure t
      | _ => t.makeDirectory (relative ++ target)
  | overwrite relative => copy source target relative t
  | provide relative =>
      match t.node (relative ++ target) with
      | some (.file _) => pure t
      | _ => copy source target relative t

def run (steps : List (OverlayStep Name)) (t : FileTree Name Content) :
    Except FileError (FileTree Name Content) :=
  steps.foldlM (fun t step => step.perform source target t) t

/-- What is at a location after all the steps, from what was there before them. -/
def overlay (steps : List (OverlayStep Name)) (node : List Name → Option (FileNode Content))
    (location : List Name) : Option (FileNode Content) :=
  let relative := location.take (location.length - target.length)
  if relative ++ target = location then
    if create relative ∈ steps then some .directory
    else if overwrite relative ∈ steps then node (relative ++ source)
    else if provide relative ∈ steps ∧ (node location).isNone then node (relative ++ source)
    else node location
  else node location

/-- Neither of the directories is in the other one. -/
structure Apart : Prop where
  source_target : ¬ source <:+ target
  target_source : ¬ target <:+ source

/-- No file goes where a directory is or is created. -/
structure Clear (steps : List (OverlayStep Name)) (t : FileTree Name Content) : Prop where
  not_directory : ∀ step ∈ steps, step.isCopy = true →
    t.node (step.relative ++ target) ≠ some .directory
  not_created : ∀ step ∈ steps, step.isCopy = true → create step.relative ∉ steps

/-- What the steps can have made of a tree when some of them have been taken, in any order
and more than once. -/
structure OnTheWay (steps : List (OverlayStep Name)) (t u : FileTree Name Content) : Prop where
  node : ∀ location, u.node location = t.node location ∨
    u.node location = overlay source target steps t.node location
  kept : ∀ location, t.node location ≠ none → u.node location ≠ none
  directory : ∀ location, t.node location = some .directory →
    u.node location = some .directory
  clear : Clear target steps u

/-- The step has nothing more to do, unless another one does it. -/
def Done (steps : List (OverlayStep Name)) (t u : FileTree Name Content)
    (step : OverlayStep Name) : Prop :=
  (∀ relative, step = provide relative → overwrite relative ∉ steps) →
    u.node (step.relative ++ target) =
      overlay source target steps t.node (step.relative ++ target)

end Running

section Effects

variable {source target : List Name} {steps : List (OverlayStep Name)}
  {node : List Name → Option (FileNode Content)} {relative : List Name}
  {t u u' : FileTree Name Content}

theorem overlay_append : overlay source target steps node (relative ++ target) =
    if create relative ∈ steps then some .directory
    else if overwrite relative ∈ steps then node (relative ++ source)
    else if provide relative ∈ steps ∧ (node (relative ++ target)).isNone then
      node (relative ++ source)
    else node (relative ++ target) := by
  have htake : (relative ++ target).take ((relative ++ target).length - target.length) =
      relative := by
    rw [List.length_append, Nat.add_sub_cancel, List.take_left]
  rw [overlay, htake]
  exact if_pos rfl

theorem overlay_of_not_suffix {location : List Name} (h : ¬ target <:+ location) :
    overlay source target steps node location = node location :=
  if_neg fun heq => h ⟨_, heq⟩

theorem overlay_create (h : create relative ∈ steps) :
    overlay source target steps node (relative ++ target) = some .directory := by
  rw [overlay_append, if_pos h]

theorem overlay_overwrite (hcreate : create relative ∉ steps) (h : overwrite relative ∈ steps) :
    overlay source target steps node (relative ++ target) = node (relative ++ source) := by
  rw [overlay_append, if_neg hcreate, if_pos h]

variable (source target node) in
theorem overlay_provide (hcreate : create relative ∉ steps) (h : provide relative ∈ steps) :
    overlay source target steps node (relative ++ target) = node (relative ++ source) ∨
      overlay source target steps node (relative ++ target) = node (relative ++ target) ∧
        node (relative ++ target) ≠ none := by
  rw [overlay_append, if_neg hcreate]
  split_ifs with hoverwrite hnone
  · exact .inl rfl
  · exact .inl rfl
  · exact .inr ⟨rfl, fun h' => hnone ⟨h, Option.isNone_iff_eq_none.mpr h'⟩⟩

/-- Where no step goes, nothing changes. -/
theorem overlay_elsewhere {location : List Name}
    (h : ∀ step ∈ steps, location ≠ step.relative ++ target) :
    overlay source target steps node location = node location := by
  by_cases hsuffix : target <:+ location
  · obtain ⟨relative, rfl⟩ := hsuffix
    rw [overlay_append, if_neg fun hmem => h _ hmem rfl, if_neg fun hmem => h _ hmem rfl,
      if_neg fun hmem => h _ hmem.1 rfl]
  · exact overlay_of_not_suffix hsuffix

theorem Apart.overlay_source (h : Apart source target) (relative : List Name) :
    overlay source target steps node (relative ++ source) = node (relative ++ source) := by
  refine overlay_of_not_suffix fun hsuffix => ?_
  rcases List.suffix_or_suffix_of_suffix hsuffix (List.suffix_append relative source) with
    htarget | hsource
  · exact h.target_source htarget
  · exact h.source_target hsource

theorem copy_eq_ok : copy source target relative t = .ok u ↔
    ∃ content, t.node (relative ++ source) = some (.file content) ∧
      relative ++ target ≠ [] ∧ t.node (relative ++ target).tail = some .directory ∧
      t.node (relative ++ target) ≠ some .directory ∧
      u.node = Function.update t.node (relative ++ target) (some (.file content)) := by
  rw [copy, except_bind_eq_ok]
  simp only [FileTree.readFile_eq_ok, FileTree.writeFile_eq_ok]

theorem run_nil_eq_ok : run source target [] t = .ok u ↔ t = u := except_pure_eq_ok

theorem run_singleton_eq_ok {step : OverlayStep Name} :
    run source target [step] t = .ok u ↔ step.perform source target t = .ok u := by
  rw [run, List.foldlM_cons, except_bind_eq_ok]
  simp [except_pure_eq_ok]

theorem run_append_eq_ok {first second : List (OverlayStep Name)} :
    run source target (first ++ second) t = .ok u' ↔
      ∃ u, run source target first t = .ok u ∧ run source target second u = .ok u' := by
  rw [run, List.foldlM_append, except_bind_eq_ok]
  rfl

theorem exists_copy {content : Content}
    (hsource : t.node (relative ++ source) = some (.file content))
    (hnil : relative ++ target ≠ [])
    (habove : t.node (relative ++ target).tail = some .directory)
    (hself : t.node (relative ++ target) ≠ some .directory) :
    ∃ u, copy source target relative t = .ok u := by
  obtain ⟨u, hu⟩ : ∃ u, t.writeFile content (relative ++ target) = .ok u :=
    FileTree.exists_writeFile hnil habove hself
  exact ⟨u, except_bind_eq_ok.2 ⟨content, FileTree.readFile_eq_ok.2 hsource, hu⟩⟩

theorem directory_of_copy (h : copy source target relative t = .ok u) (location : List Name) :
    u.node location = some .directory ↔ t.node location = some .directory := by
  obtain ⟨content, -, -, -, hself, hnode⟩ := copy_eq_ok.1 h
  rw [hnode, Function.update_apply]
  split_ifs with heq
  · rw [heq]
    exact ⟨fun h => absurd h (by simp), fun h => absurd h hself⟩
  · exact Iff.rfl

theorem perform_create_eq_ok : (create relative).perform source target t = .ok u ↔
    t.node (relative ++ target) = some .directory ∧ u = t ∨
      relative ++ target ≠ [] ∧ t.node (relative ++ target).tail = some .directory ∧
        t.node (relative ++ target) = none ∧
        u.node = Function.update t.node (relative ++ target) (some .directory) := by
  simp only [perform]
  rcases hnode : t.node (relative ++ target) with _ | (_ | content)
  · simp only [FileTree.makeDirectory_eq_ok, hnode]
    simp
  · rw [except_pure_eq_ok]
    simp [eq_comm]
  · simp only [FileTree.makeDirectory_eq_ok, hnode]
    simp

theorem perform_provide_eq_ok
    (hclear : t.node (relative ++ target) ≠ some .directory) :
    (provide relative).perform source target t = .ok u ↔
      (∃ content, t.node (relative ++ target) = some (.file content)) ∧ u = t ∨
        t.node (relative ++ target) = none ∧ copy source target relative t = .ok u := by
  simp only [perform]
  rcases hnode : t.node (relative ++ target) with _ | (_ | content)
  · simp
  · exact absurd hnode hclear
  · rw [except_pure_eq_ok]
    simp [eq_comm]

end Effects

section Invariant

variable {source target : List Name} {steps : List (OverlayStep Name)} {step : OverlayStep Name}
  {t u u' : FileTree Name Content}

theorem Clear.onTheWay (h : Clear target steps t) : OnTheWay source target steps t t where
  node _ := .inl rfl
  kept _ hnode := hnode
  directory _ hnode := hnode
  clear := h

namespace OnTheWay

variable (h : OnTheWay source target steps t u)
include h

theorem node_source (hapart : Apart source target) (relative : List Name) :
    u.node (relative ++ source) = t.node (relative ++ source) := by
  rcases h.node (relative ++ source) with hnode | hnode
  · exact hnode
  · rw [hnode, hapart.overlay_source]

/-- A step writes what the overlay has there, or what is there is right already. -/
theorem of_perform (hapart : Apart source target) (hstep : step ∈ steps)
    (hrun : step.perform source target u = .ok u') :
    Done source target steps t u' step ∧
      (u' = u ∨
        ∃ entry, overlay source target steps t.node (step.relative ++ target) = some entry ∧
          (step.isCopy = true → entry ≠ .directory) ∧
          u.node (step.relative ++ target) ≠ some .directory ∧
          u'.node = Function.update u.node (step.relative ++ target) (some entry)) := by
  have hcopy : ∀ relative, step.relative = relative → step.isCopy = true →
      copy source target relative u = .ok u' →
      overlay source target steps t.node (relative ++ target) = t.node (relative ++ source) →
      Done source target steps t u' step ∧
        (u' = u ∨
          ∃ entry, overlay source target steps t.node (relative ++ target) = some entry ∧
            (step.isCopy = true → entry ≠ .directory) ∧
            u.node (relative ++ target) ≠ some .directory ∧
            u'.node = Function.update u.node (relative ++ target) (some entry)) := by
    rintro relative rfl - hcopy hoverlay
    obtain ⟨content, hsource, -, -, hnot, hnode⟩ := copy_eq_ok.1 hcopy
    rw [h.node_source hapart, ← hoverlay] at hsource
    refine ⟨fun _ => ?_, .inr ⟨.file content, hsource, fun _ => ?_, hnot, hnode⟩⟩
    · rw [hnode, Function.update_self, hsource]
    · simp
  cases step with
  | create relative =>
      have hoverlay : overlay source target steps t.node (relative ++ target) =
          some .directory := overlay_create hstep
      rcases perform_create_eq_ok.1 hrun with ⟨hnode, rfl⟩ | ⟨-, -, hnone, hnode⟩
      · exact ⟨fun _ => hnode.trans hoverlay.symm, .inl rfl⟩
      · refine ⟨fun _ => ?_, .inr ⟨.directory, hoverlay, fun h => absurd h Bool.noConfusion, ?_,
          hnode⟩⟩
        · rw [hnode, OverlayStep.relative, Function.update_self, hoverlay]
        · rw [OverlayStep.relative, hnone]
          exact (Option.some_ne_none _).symm
  | overwrite relative =>
      exact hcopy relative rfl rfl hrun
        (overlay_overwrite (h.clear.not_created _ hstep rfl) hstep)
  | provide relative =>
      have hcreated : create relative ∉ steps := h.clear.not_created _ hstep rfl
      have hnot : u.node (relative ++ target) ≠ some .directory :=
        h.clear.not_directory _ hstep rfl
      rcases (perform_provide_eq_ok hnot).mp hrun with
        ⟨⟨content, hnode⟩, rfl⟩ | ⟨hnone, hrun⟩
      · refine ⟨fun hother => ?_, .inl rfl⟩
        rcases h.node (relative ++ target) with hsame | hoverlay
        · have hpresent : ¬ (provide relative ∈ steps ∧
              (t.node (relative ++ target)).isNone = true) := by
            rw [← hsame, hnode]
            simp
          rw [OverlayStep.relative, overlay_append,
            if_neg hcreated, if_neg (hother relative rfl), if_neg hpresent, hsame]
        · exact hoverlay
      · refine hcopy relative rfl rfl hrun ?_
        rcases overlay_provide source target t.node
          hcreated hstep with hsource | ⟨-, hpresent⟩
        · exact hsource
        · exact absurd hnone (h.kept _ hpresent)

/-- The tree stays on its way, and each location changes only to what it will be. -/
theorem perform (hapart : Apart source target) (hstep : step ∈ steps)
    (hrun : step.perform source target u = .ok u') :
    OnTheWay source target steps t u' ∧ Done source target steps t u' step ∧
      ∀ location, u'.node location = u.node location ∨
        u'.node location = overlay source target steps t.node location := by
  obtain ⟨hdone, rfl | ⟨entry, hoverlay, hfile, hnot, hnode⟩⟩ := h.of_perform hapart hstep hrun
  · exact ⟨h, hdone, fun _ => .inl rfl⟩
  have hchange : ∀ location, u'.node location = u.node location ∨
      u'.node location = overlay source target steps t.node location := by
    intro location
    rw [hnode, Function.update_apply]
    split_ifs with heq
    · rw [heq, hoverlay]
      exact .inr rfl
    · exact .inl rfl
  have hclear : ∀ step' ∈ steps, step'.isCopy = true →
      u'.node (step'.relative ++ target) ≠ some .directory := by
    intro step' hstep' hcopy
    rw [hnode, Function.update_apply]
    split_ifs with heq
    · have hrelative : step'.relative = step.relative := List.append_cancel_right heq
      cases step with
      | create relative =>
          have hcreated : create step'.relative ∉ steps :=
            h.clear.not_created step' hstep' hcopy
          rw [hrelative] at hcreated
          exact absurd hstep hcreated
      | overwrite relative => exact fun h => hfile rfl (Option.some.inj h)
      | provide relative => exact fun h => hfile rfl (Option.some.inj h)
    · exact h.clear.not_directory step' hstep' hcopy
  refine ⟨⟨fun location => ?_, fun location ht => ?_, fun location ht => ?_,
    ⟨hclear, h.clear.not_created⟩⟩, hdone, hchange⟩
  · rcases hchange location with hsame | hsame
    · rw [hsame]
      exact h.node location
    · exact .inr hsame
  · rw [hnode, Function.update_apply]
    split_ifs
    · exact Option.some_ne_none _
    · exact h.kept location ht
  · have hdirectory := h.directory location ht
    rw [hnode, Function.update_of_ne, hdirectory]
    rintro rfl
    exact hnot hdirectory

end OnTheWay

theorem Done.of_change {step' : OverlayStep Name} (h : Done source target steps t u step')
    (hchange : ∀ location, u'.node location = u.node location ∨
      u'.node location = overlay source target steps t.node location) :
    Done source target steps t u' step' := by
  intro hother
  rcases hchange (step'.relative ++ target) with hsame | hsame
  · rw [hsame]
    exact h hother
  · exact hsame

/-- The steps of a run have all been done after it, with those before it. -/
theorem OnTheWay.run (hapart : Apart source target) {now : List (OverlayStep Name)}
    (hnow : ∀ step ∈ now, step ∈ steps) (h : OnTheWay source target steps t u)
    (hrun : run source target now u = .ok u') :
    OnTheWay source target steps t u' ∧
      (∀ step ∈ now, Done source target steps t u' step) ∧
      ∀ step, Done source target steps t u step → Done source target steps t u' step := by
  induction now generalizing u with
  | nil =>
      obtain rfl := except_pure_eq_ok.1 hrun
      exact ⟨h, fun _ hstep => absurd hstep List.not_mem_nil, fun _ hdone => hdone⟩
  | cons step now ih =>
      rw [List.forall_mem_cons] at hnow
      obtain ⟨u₁, hstep, hrun⟩ := except_bind_eq_ok.1 hrun
      obtain ⟨h₁, hdone, hchange⟩ := h.perform hapart hnow.1 hstep
      obtain ⟨h', hdone', hstay⟩ := ih hnow.2 h₁ hrun
      refine ⟨h', ?_, fun step' hbefore => hstay step' (hbefore.of_change hchange)⟩
      rw [List.forall_mem_cons]
      exact ⟨hstay step hdone, hdone'⟩

/-- After all the steps there is what the overlay has. -/
theorem OnTheWay.run_all (hapart : Apart source target) (h : OnTheWay source target steps t u)
    (hrun : OverlayStep.run source target steps u = .ok u') :
    u'.node = overlay source target steps t.node := by
  obtain ⟨h', hdone, -⟩ := h.run hapart (fun _ hstep => hstep) hrun
  funext location
  by_cases hreached : ∃ step ∈ steps, location = step.relative ++ target
  · obtain ⟨step, hstep, rfl⟩ := hreached
    by_cases hother : ∀ relative, step = provide relative → overwrite relative ∉ steps
    · exact hdone step hstep hother
    · -- the file is overwritten by another step
      push Not at hother
      obtain ⟨relative, rfl, hoverwrite⟩ := hother
      exact hdone (overwrite relative) hoverwrite fun _ heq => by cases heq
  · push Not at hreached
    rcases h'.node location with hsame | hsame
    · rw [hsame, overlay_elsewhere hreached]
    · exact hsame

theorem run_node (hapart : Apart source target) (hclear : Clear target steps t)
    (hrun : run source target steps t = .ok u) :
    u.node = overlay source target steps t.node :=
  hclear.onTheWay.run_all hapart hrun

/-- A step that succeeds on the way also succeeds on a tree on the same way that has the
same directories and maybe more. -/
theorem OnTheWay.perform_of_directories (hapart : Apart source target)
    {u₁ u₁' u₂ : FileTree Name Content} (h₁ : OnTheWay source target steps t u₁)
    (h₂ : OnTheWay source target steps t u₂) (hstep : step ∈ steps)
    (hdirectories : ∀ location, u₁.node location = some .directory →
      u₂.node location = some .directory)
    (hrun : step.perform source target u₁ = .ok u₁') :
    ∃ u₂', step.perform source target u₂ = .ok u₂' ∧ ∀ location,
      u₁'.node location = some .directory → u₂'.node location = some .directory := by
  have hcopy : ∀ (relative : List Name) (content : Content), step.relative = relative →
      step.isCopy = true → t.node (relative ++ source) = some (.file content) →
      relative ++ target ≠ [] → u₁.node (relative ++ target).tail = some .directory →
      ∃ u₂', copy source target relative u₂ = .ok u₂' ∧ ∀ location,
        u₁.node location = some .directory → u₂'.node location = some .directory := by
    rintro relative content rfl hcopy hsource hnil habove
    rw [← h₂.node_source hapart] at hsource
    obtain ⟨u₂', hu₂'⟩ := exists_copy hsource hnil (hdirectories _ habove)
      (h₂.clear.not_directory step hstep hcopy)
    exact ⟨u₂', hu₂', fun location h => (directory_of_copy hu₂' location).mpr
      (hdirectories location h)⟩
  cases step with
  | create relative =>
      rcases perform_create_eq_ok.1 hrun with ⟨hnode, rfl⟩ | ⟨hnil, habove, hnone, hnode⟩
      · exact ⟨u₂, perform_create_eq_ok.2 (.inl ⟨hdirectories _ hnode, rfl⟩), hdirectories⟩
      · have hbelow : ∀ {u₂' : FileTree Name Content},
            (∀ location, u₂.node location = some .directory →
              u₂'.node location = some .directory) →
            u₂'.node (relative ++ target) = some .directory → ∀ location,
            u₁'.node location = some .directory → u₂'.node location = some .directory := by
          intro u₂' hkept hself location h
          rw [hnode, Function.update_apply] at h
          split_ifs at h with heq
          · rw [heq, hself]
          · exact hkept location (hdirectories location h)
        have ht : t.node (relative ++ target) = none := by
          by_contra hne
          exact h₁.kept _ hne hnone
        rcases h₂.node (relative ++ target) with hsame | hoverlay
        · obtain ⟨u₂', hu₂'⟩ := FileTree.exists_makeDirectory hnil (hdirectories _ habove)
            (hsame.trans ht)
          have hnode' := (FileTree.makeDirectory_eq_ok.1 hu₂').2.2.2
          refine ⟨u₂', perform_create_eq_ok.2
            (.inr ⟨hnil, hdirectories _ habove, hsame.trans ht, hnode'⟩), hbelow ?_ ?_⟩
          · intro location h
            rw [hnode', Function.update_apply]
            split_ifs
            · rfl
            · exact h
          · rw [hnode', Function.update_self]
        · rw [overlay_create hstep] at hoverlay
          exact ⟨u₂, perform_create_eq_ok.2 (.inl ⟨hoverlay, rfl⟩),
            hbelow (fun _ h => h) hoverlay⟩
  | overwrite relative =>
      obtain ⟨content, hsource, hnil, habove, -, -⟩ := copy_eq_ok.1 hrun
      rw [h₁.node_source hapart] at hsource
      obtain ⟨u₂', hu₂', hkept⟩ := hcopy relative content rfl rfl hsource hnil habove
      exact ⟨u₂', hu₂', fun location h => hkept location ((directory_of_copy hrun _).mp h)⟩
  | provide relative =>
      have hcreated : create relative ∉ steps := h₁.clear.not_created _ hstep rfl
      have hnot₁ : u₁.node (relative ++ target) ≠ some .directory :=
        h₁.clear.not_directory _ hstep rfl
      have hnot₂ : u₂.node (relative ++ target) ≠ some .directory :=
        h₂.clear.not_directory _ hstep rfl
      rcases hnode₂ : u₂.node (relative ++ target) with _ | (_ | content₂)
      · obtain ⟨content, hsource, hnil, habove⟩ : ∃ content,
            t.node (relative ++ source) = some (.file content) ∧ relative ++ target ≠ [] ∧
              u₁.node (relative ++ target).tail = some .directory := by
          rcases (perform_provide_eq_ok hnot₁).mp hrun with ⟨⟨content, hnode₁⟩, -⟩ | ⟨-, hrun⟩
          · -- the first tree has got the file on the way, and so it is in the source
            have hsource : u₁.node (relative ++ target) = t.node (relative ++ source) := by
              have hnone : t.node (relative ++ target) = none := by
                by_contra hne
                exact h₂.kept _ hne hnode₂
              rcases overlay_provide source target t.node
                hcreated hstep with hsource | ⟨-, hpresent⟩
              · rcases h₁.node (relative ++ target) with hsame | hoverlay
                · rw [hsame, hnone] at hnode₁
                  cases hnode₁
                · rw [hoverlay, hsource]
              · exact absurd hnone hpresent
            exact ⟨content, hsource.symm.trans hnode₁, FileTree.directory_tail hnode₁⟩
          · obtain ⟨content, hsource, hnil, habove, -, -⟩ := copy_eq_ok.1 hrun
            rw [h₁.node_source hapart] at hsource
            exact ⟨content, hsource, hnil, habove⟩
        obtain ⟨u₂', hu₂', hkept⟩ := hcopy relative content rfl rfl hsource hnil habove
        refine ⟨u₂', (perform_provide_eq_ok hnot₂).mpr (.inr ⟨hnode₂, hu₂'⟩), ?_⟩
        rcases (perform_provide_eq_ok hnot₁).mp hrun with ⟨-, rfl⟩ | ⟨-, hrun⟩
        · exact hkept
        · exact fun location h => hkept location ((directory_of_copy hrun _).mp h)
      · exact absurd hnode₂ hnot₂
      · refine ⟨u₂, (perform_provide_eq_ok hnot₂).mpr (.inl ⟨⟨content₂, hnode₂⟩, rfl⟩), ?_⟩
        rcases (perform_provide_eq_ok hnot₁).mp hrun with ⟨-, rfl⟩ | ⟨-, hrun⟩
        · exact hdirectories
        · exact fun location h => hdirectories location ((directory_of_copy hrun _).mp h)

theorem OnTheWay.run_of_directories (hapart : Apart source target)
    {now : List (OverlayStep Name)} (hnow : ∀ step ∈ now, step ∈ steps)
    {u₁ u₁' u₂ : FileTree Name Content} (h₁ : OnTheWay source target steps t u₁)
    (h₂ : OnTheWay source target steps t u₂)
    (hdirectories : ∀ location, u₁.node location = some .directory →
      u₂.node location = some .directory)
    (hrun : OverlayStep.run source target now u₁ = .ok u₁') :
    ∃ u₂', OverlayStep.run source target now u₂ = .ok u₂' := by
  induction now generalizing u₁ u₂ with
  | nil => exact ⟨u₂, rfl⟩
  | cons step now ih =>
      rw [List.forall_mem_cons] at hnow
      obtain ⟨v₁, hstep₁, hrun⟩ := except_bind_eq_ok.1 hrun
      obtain ⟨v₂, hstep₂, hdirectories'⟩ :=
        h₁.perform_of_directories hapart h₂ hnow.1 hdirectories hstep₁
      obtain ⟨u₂', hu₂'⟩ := ih hnow.2 (h₁.perform hapart hnow.1 hstep₁).1
        (h₂.perform hapart hnow.1 hstep₂).1 hdirectories' hrun
      exact ⟨u₂', except_bind_eq_ok.2 ⟨v₂, hstep₂, hu₂'⟩⟩

/-- Steps that have been interrupted, when they are all taken again, lead where they lead
without the interruption. -/
theorem run_resumed (hapart : Apart source target) (hclear : Clear target steps t)
    (hrun : run source target steps t = .ok u) {now : List (OverlayStep Name)}
    (hnow : ∀ step ∈ now, step ∈ steps) {interrupted : FileTree Name Content}
    (hinterrupted : run source target now t = .ok interrupted) :
    run source target steps interrupted = .ok u := by
  have hway : OnTheWay source target steps t interrupted :=
    (hclear.onTheWay.run hapart hnow hinterrupted).1
  obtain ⟨u', hu'⟩ := hclear.onTheWay.run_of_directories hapart (fun _ h => h) hway
    hway.directory hrun
  have hnode : u'.node = u.node :=
    (hway.run_all hapart hu').trans (run_node hapart hclear hrun).symm
  rw [hu', FileTree.ext hnode]

end Invariant

section Completion

variable (source target : List Name)

/-- What a step needs from the tree before all the steps, apart from its directory. -/
def Supplied (t : FileTree Name Content) : OverlayStep Name → Prop
  | create _ => True
  | overwrite relative => ∃ content, t.node (relative ++ source) = some (.file content)
  | provide relative => (∃ content, t.node (relative ++ target) = some (.file content)) ∨
      ∃ content, t.node (relative ++ source) = some (.file content)

/-- Each step finds the directory it goes to, or an earlier one creates it. -/
structure Orderly (steps : List (OverlayStep Name)) (t : FileTree Name Content) : Prop where
  directory : ∀ before step after, steps = before ++ step :: after →
    t.node (step.relative ++ target).tail = some .directory ∨
      ∃ relative, create relative ∈ before ∧
        (step.relative ++ target).tail = relative ++ target
  no_file : ∀ relative content, create relative ∈ steps →
    t.node (relative ++ target) ≠ some (.file content)

variable {source target} {steps : List (OverlayStep Name)} {step : OverlayStep Name}
  {t u u' : FileTree Name Content}

theorem OnTheWay.supplied (hapart : Apart source target) (h : OnTheWay source target steps t u)
    (hstep : step ∈ steps) (hrun : step.perform source target u = .ok u') :
    Supplied source target t step := by
  cases step with
  | create relative => trivial
  | overwrite relative =>
      obtain ⟨content, hsource, -⟩ := copy_eq_ok.1 hrun
      exact ⟨content, (h.node_source hapart relative).symm.trans hsource⟩
  | provide relative =>
      have hcreated : create relative ∉ steps := h.clear.not_created _ hstep rfl
      rcases (perform_provide_eq_ok (h.clear.not_directory _ hstep rfl)).mp hrun with
        ⟨⟨content, hnode⟩, -⟩ | ⟨-, hrun⟩
      · rcases h.node (relative ++ target) with hsame | hoverlay
        · exact .inl ⟨content, hsame.symm.trans hnode⟩
        · rcases overlay_provide source target t.node
            hcreated hstep with hsource | ⟨hsame, -⟩
          · exact .inr ⟨content, hsource.symm.trans (hoverlay.symm.trans hnode)⟩
          · exact .inl ⟨content, hsame.symm.trans (hoverlay.symm.trans hnode)⟩
      · obtain ⟨content, hsource, -⟩ := copy_eq_ok.1 hrun
        exact .inr ⟨content, (h.node_source hapart relative).symm.trans hsource⟩

theorem OnTheWay.supplied_of_run (hapart : Apart source target)
    {now : List (OverlayStep Name)} (hnow : ∀ step ∈ now, step ∈ steps)
    (h : OnTheWay source target steps t u) (hrun : OverlayStep.run source target now u = .ok u') :
    ∀ step ∈ now, Supplied source target t step := by
  induction now generalizing u with
  | nil => exact fun _ hstep => absurd hstep List.not_mem_nil
  | cons step now ih =>
      rw [List.forall_mem_cons] at hnow ⊢
      obtain ⟨u₁, hstep, hrun⟩ := except_bind_eq_ok.1 hrun
      exact ⟨h.supplied hapart hnow.1 hstep,
        ih hnow.2 (h.perform hapart hnow.1 hstep).1 hrun⟩

theorem Orderly.exists_perform (hapart : Apart source target)
    (horderly : Orderly target steps t) (h : OnTheWay source target steps t u)
    (hstep : step ∈ steps) (hsupplied : Supplied source target t step)
    (habove : u.node (step.relative ++ target).tail = some .directory) :
    ∃ u', step.perform source target u = .ok u' := by
  have hcopy : ∀ (relative : List Name) (content : Content), step.relative = relative →
      step.isCopy = true → t.node (relative ++ source) = some (.file content) →
      ∃ u', copy source target relative u = .ok u' := by
    rintro relative content rfl hcopy hsource
    have hnot : u.node (step.relative ++ target) ≠ some .directory :=
      h.clear.not_directory step hstep hcopy
    refine exists_copy ((h.node_source hapart _).trans hsource) (fun hnil => ?_) habove hnot
    exact hnot (hnil ▸ u.node_nil)
  cases step with
  | create relative =>
      rcases hnode : u.node (relative ++ target) with _ | (_ | content)
      · have hnil : relative ++ target ≠ [] := by
          intro hnil
          rw [hnil, u.node_nil] at hnode
          cases hnode
        obtain ⟨u', hu'⟩ := FileTree.exists_makeDirectory hnil habove hnode
        exact ⟨u', perform_create_eq_ok.2
          (.inr ⟨hnil, habove, hnode, (FileTree.makeDirectory_eq_ok.1 hu').2.2.2⟩)⟩
      · exact ⟨u, perform_create_eq_ok.2 (.inl ⟨hnode, rfl⟩)⟩
      · rcases h.node (relative ++ target) with hsame | hoverlay
        · exact absurd (hsame.symm.trans hnode) (horderly.no_file relative content hstep)
        · rw [overlay_create hstep, hnode] at hoverlay
          cases hoverlay
  | overwrite relative =>
      obtain ⟨content, hsource⟩ := hsupplied
      exact hcopy relative content rfl rfl hsource
  | provide relative =>
      have hnot : u.node (relative ++ target) ≠ some .directory :=
        h.clear.not_directory _ hstep rfl
      rcases hnode : u.node (relative ++ target) with _ | (_ | content)
      · rcases hsupplied with ⟨content, ht⟩ | ⟨content, hsource⟩
        · exact absurd hnode (h.kept _ (ht.trans_ne (Option.some_ne_none _)))
        · obtain ⟨u', hu'⟩ := hcopy relative content rfl rfl hsource
          exact ⟨u', (perform_provide_eq_ok hnot).mpr (.inr ⟨hnode, hu'⟩)⟩
      · exact absurd hnode hnot
      · exact ⟨u, (perform_provide_eq_ok hnot).mpr (.inl ⟨⟨content, hnode⟩, rfl⟩)⟩

theorem Orderly.exists_run (hapart : Apart source target) (horderly : Orderly target steps t)
    (hsupplied : ∀ step ∈ steps, Supplied source target t step)
    {before now : List (OverlayStep Name)} (hsteps : steps = before ++ now)
    (h : OnTheWay source target steps t u)
    (hbefore : ∀ step ∈ before, Done source target steps t u step) :
    ∃ u', run source target now u = .ok u' := by
  induction now generalizing u before with
  | nil => exact ⟨u, rfl⟩
  | cons step now ih =>
      have hstep : step ∈ steps := by
        rw [hsteps]
        exact List.mem_append_right _ List.mem_cons_self
      have habove : u.node (step.relative ++ target).tail = some .directory := by
        rcases horderly.directory before step now hsteps with
          hthere | ⟨relative, hcreated, htail⟩
        · exact h.directory _ hthere
        · have hmem : create relative ∈ steps := by
            rw [hsteps]
            exact List.mem_append_left _ hcreated
          have hdone : u.node (relative ++ target) = overlay source target steps t.node
              (relative ++ target) := hbefore _ hcreated fun _ heq => by cases heq
          rw [htail, hdone, overlay_create hmem]
      obtain ⟨u₁, hrun⟩ := horderly.exists_perform hapart h hstep (hsupplied step hstep) habove
      obtain ⟨h₁, hdone, hchange⟩ := h.perform hapart hstep hrun
      have hbefore₁ : ∀ step' ∈ before ++ [step], Done source target steps t u₁ step' := by
        intro step' hmem
        rcases List.mem_append.mp hmem with hmem | hmem
        · exact (hbefore step' hmem).of_change hchange
        · exact List.mem_singleton.mp hmem ▸ hdone
      have hsteps₁ : steps = before ++ [step] ++ now := by
        rw [hsteps, List.append_assoc, List.singleton_append]
      obtain ⟨u', hu'⟩ := ih hsteps₁ h₁ hbefore₁
      exact ⟨u', except_bind_eq_ok.2 ⟨u₁, hrun, hu'⟩⟩

/-- The steps can all be taken exactly when every file that has to be copied is there. -/
theorem exists_run_iff (hapart : Apart source target) (hclear : Clear target steps t)
    (horderly : Orderly target steps t) :
    (∃ u, run source target steps t = .ok u) ↔ ∀ step ∈ steps, Supplied source target t step := by
  constructor
  · rintro ⟨u, hrun⟩
    exact hclear.onTheWay.supplied_of_run hapart (fun _ hstep => hstep) hrun
  · intro hsupplied
    exact horderly.exists_run hapart hsupplied (List.nil_append steps).symm hclear.onTheWay
      fun _ hstep => absurd hstep List.not_mem_nil

end Completion

end OverlayStep

end Supernova
