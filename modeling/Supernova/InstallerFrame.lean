/-
What the installer leaves alone, however it ends: directories stay, and a file is touched
only where the manifest has one that is to be overwritten, or inside a directory that
stands where a file of the manifest should be.
-/
import Mathlib.Data.List.Induction
import Supernova.InstallerPaths

namespace Supernova

namespace ManageFiles

inductive Entry
  | ofDirectory (directory : Directory)
  | ofFile (directory : Directory) (file : File)

/-- What the installer goes through, in its order. -/
def entries (directories : List Directory) : List Entry :=
  directories.flatMap fun directory =>
    .ofDirectory directory :: directory.files.map (.ofFile directory)

section Changes

variable (cwd : List Bytes) (sourceDirectory targetDirectory : Bytes)

def Entry.change : Entry → Tree → Except InstallFailure Tree
  | .ofDirectory directory =>
      installDirectory cwd directory (joinPath targetDirectory directory.name)
  | .ofFile directory file =>
      installFile cwd file (entryPath sourceDirectory directory.name file.name)
        (entryPath targetDirectory directory.name file.name)

theorem forM_installEntries (directories : List Directory) :
    directories.forM (installEntries cwd sourceDirectory targetDirectory) =
      (entries directories).forM fun entry =>
        attempt (entry.change cwd sourceDirectory targetDirectory) := by
  induction directories with
  | nil => rfl
  | cons directory directories ih =>
      have hentries : entries (directory :: directories) =
          .ofDirectory directory :: directory.files.map (.ofFile directory) ++
            entries directories := List.flatMap_cons
      rw [hentries]
      simp only [List.forM_eq_forM] at ih ⊢
      rw [List.forM_append, List.forM_cons, List.forM_cons, List.forM_map, ih]
      rfl

/-- The installer checks the target and then takes each entry. -/
theorem install_apply (directories : List Directory) (t : Tree) :
    install cwd directories sourceDirectory targetDirectory t =
      if isdir cwd t targetDirectory then
        ((entries directories).forM fun entry =>
          attempt (entry.change cwd sourceDirectory targetDirectory)) t
      else .error (.noTargetDirectory targetDirectory) t := by
  rw [← forM_installEntries]
  change (if isdir cwd t targetDirectory then _ else _ : Installing Unit) t = _
  split_ifs <;> rfl

/-- A file that is copied into the directory that stands where it should be. -/
def Inside (t : Tree) (directory : Directory) (file : File) (location : List Bytes) : Prop :=
  t.node (pathLocation cwd (entryPath targetDirectory directory.name file.name)) =
      some .directory ∧
    location = pathLocation cwd
      (joinPath (entryPath targetDirectory directory.name file.name)
        (basename (entryPath sourceDirectory directory.name file.name)))

/-- Where an entry can put something. -/
def Entry.Adds (t : Tree) (location : List Bytes) : Entry → Prop
  | .ofDirectory directory =>
      directory.installAction.isText (text "create") = true ∧
        location = pathLocation cwd (joinPath targetDirectory directory.name)
  | .ofFile directory file =>
      file.isCopied = true ∧
        (location = pathLocation cwd (entryPath targetDirectory directory.name file.name) ∨
          Inside cwd sourceDirectory targetDirectory t directory file location)

/-- Where an entry can write over a file that is there. -/
def Entry.Replaces (t : Tree) (location : List Bytes) : Entry → Prop
  | .ofDirectory _ => False
  | .ofFile directory file =>
      file.installAction.isText (text "overwrite") = true ∧
          location = pathLocation cwd (entryPath targetDirectory directory.name file.name) ∨
        file.isCopied = true ∧
          Inside cwd sourceDirectory targetDirectory t directory file location

/-- What a list of entries can have made of a tree. -/
structure Framed (now : List Entry) (t u : Tree) : Prop where
  directory : ∀ location, t.node location = some .directory →
    u.node location = some .directory
  file : ∀ location content, t.node location = some (.file content) →
    u.node location = some (.file content) ∨
      (∃ content', u.node location = some (.file content')) ∧
        ∃ entry ∈ now, entry.Replaces cwd sourceDirectory targetDirectory u location
  nothing : ∀ location, t.node location = none → u.node location = none ∨
    ∃ entry ∈ now, entry.Adds cwd sourceDirectory targetDirectory u location

end Changes

section Effects

variable {cwd : List Bytes} {sourceDirectory targetDirectory path : Bytes} {t u u' : Tree}
  {now : List Entry} {entry : Entry} {location : List Bytes}

theorem trimSlashes_append (front : Bytes) :
    trimSlashes (front ++ [slashByte]) = trimSlashes front := by
  simp [trimSlashes]

theorem trimSlashes_of_not_slash {front : Bytes} {c : UInt8} (hc : c ≠ slashByte) :
    trimSlashes (front ++ [c]) = front ++ [c] := by
  simp [trimSlashes, hc]

theorem pathLocation_append (hpath : path ≠ []) :
    pathLocation cwd (path ++ [slashByte]) = pathLocation cwd path := by
  have hstart : pathStart cwd (path ++ [slashByte]) = pathStart cwd path := by
    obtain ⟨c, rest, rfl⟩ := List.exists_cons_of_ne_nil hpath
    rfl
  have hsegments : pathSegments (path ++ [slashByte]) = pathSegments path ++ [.here] :=
    pathSegments_append path []
  rw [pathLocation, hstart, hsegments, PathSegment.locate_append]
  rfl

/-- Slashes at the end do not matter for where a path leads. -/
theorem pathLocation_trimSlashes (h : trimSlashes path ≠ []) :
    pathLocation cwd (trimSlashes path) = pathLocation cwd path := by
  induction path using List.reverseRecOn with
  | nil => rfl
  | append_singleton front c ih =>
      by_cases hc : c = slashByte
      · subst hc
        rw [trimSlashes_append] at h ⊢
        have hfront : front ≠ [] := by
          rintro rfl
          exact h rfl
        rw [ih h, pathLocation_append hfront]
      · rw [trimSlashes_of_not_slash hc]

theorem mkdir_node (h : mkdir cwd t path = .ok u) :
    t.node (pathLocation cwd path) = none ∧
      u.node = Function.update t.node (pathLocation cwd path) (some .directory) := by
  simp only [mkdir, except_bind_eq_ok, system_eq_ok] at h
  obtain ⟨location, hlocation, hmake⟩ := h
  obtain ⟨-, -, hnone, hnode⟩ := FileTree.makeDirectory_eq_ok.1 hmake
  rw [← pathLocation_of_resolvePath hlocation,
    pathLocation_trimSlashes (resolvePath_eq_ok.1 hlocation).1] at hnone hnode
  exact ⟨hnone, hnode⟩

theorem copyfile_node {source destination : Bytes}
    (h : copyfile cwd t source destination = .ok u) :
    resolvePath cwd t destination = .ok (pathLocation cwd destination) ∧
      t.node (pathLocation cwd destination) ≠ some .directory ∧
      ∃ content, u.node = Function.update t.node (pathLocation cwd destination)
        (some (.file content)) := by
  obtain ⟨_, location, content, -, hlocation, -, -, hwrite⟩ := copyfile_eq_ok.1 h
  obtain ⟨-, -, hself, hnode⟩ := FileTree.writeFile_eq_ok.1 hwrite
  rw [pathLocation_of_resolvePath hlocation]
  exact ⟨hlocation, hself, content, hnode⟩

/-- A copy ends at the destination, or in it when it is a directory. -/
theorem copy2_node {source destination : Bytes} (h : copy2 cwd t source destination = .ok u) :
    ∃ path content, u.node = Function.update t.node (pathLocation cwd path)
        (some (.file content)) ∧
      t.node (pathLocation cwd path) ≠ some .directory ∧
      (path = destination ∧ resolvePath cwd t destination = .ok (pathLocation cwd destination) ∨
        path = joinPath destination (basename source) ∧
          t.node (pathLocation cwd destination) = some .directory) := by
  rw [copy2] at h
  split_ifs at h with hdir
  · obtain ⟨location, hlocation, hnode⟩ := isdir_iff.1 hdir
    obtain ⟨-, hself, content, hu⟩ := copyfile_node h
    rw [← pathLocation_of_resolvePath hlocation] at hnode
    exact ⟨_, content, hu, hself, .inr ⟨rfl, hnode⟩⟩
  · obtain ⟨hresolve, hself, content, hu⟩ := copyfile_node h
    exact ⟨_, content, hu, hself, .inl ⟨rfl, hresolve⟩⟩

theorem Entry.change_node (h : entry.change cwd sourceDirectory targetDirectory t = .ok u) :
    u = t ∨ ∃ location node, u.node = Function.update t.node location (some node) ∧
      t.node location ≠ some .directory ∧
      entry.Adds cwd sourceDirectory targetDirectory t location ∧
      ∀ content, t.node location = some (.file content) →
        (∃ content', node = .file content') ∧
          entry.Replaces cwd sourceDirectory targetDirectory t location := by
  cases entry with
  | ofDirectory directory =>
      change installDirectory cwd directory _ t = .ok u at h
      rw [installDirectory] at h
      split_ifs at h with hcreate hdir hnone
      · exact .inl (except_pure_eq_ok.1 h).symm
      · obtain ⟨hnone, hnode⟩ := mkdir_node h
        refine .inr ⟨_, _, hnode, ?_, ⟨hcreate, rfl⟩, fun content hcontent => ?_⟩
        · rw [hnone]
          exact (Option.some_ne_none _).symm
        · rw [hnone] at hcontent
          cases hcontent
      · exact .inl (except_pure_eq_ok.1 h).symm
  | ofFile directory file =>
      have hcopy : file.isCopied = true →
          copy2 cwd t (entryPath sourceDirectory directory.name file.name)
            (entryPath targetDirectory directory.name file.name) = .ok u →
          (isfile cwd t (entryPath targetDirectory directory.name file.name) = true →
            file.installAction.isText (text "overwrite") = true) →
          ∃ location node, u.node = Function.update t.node location (some node) ∧
            t.node location ≠ some .directory ∧
            (Entry.ofFile directory file).Adds cwd sourceDirectory targetDirectory t location ∧
            ∀ content, t.node location = some (.file content) →
              (∃ content', node = .file content') ∧ (Entry.ofFile directory file).Replaces cwd
                sourceDirectory targetDirectory t location := by
        intro hcopied h hthere
        obtain ⟨path, content, hnode, hself, ⟨rfl, hresolve⟩ | ⟨rfl, hdirectory⟩⟩ := copy2_node h
        · refine ⟨_, _, hnode, hself, ⟨hcopied, .inl rfl⟩, fun content' hcontent' => ?_⟩
          exact ⟨⟨content, rfl⟩,
            .inl ⟨hthere (isfile_iff.2 ⟨_, content', hresolve, hcontent'⟩), rfl⟩⟩
        · refine ⟨_, _, hnode, hself, ⟨hcopied, .inr ⟨hdirectory, rfl⟩⟩, fun content' _ => ?_⟩
          exact ⟨⟨content, rfl⟩, .inr ⟨hcopied, hdirectory, rfl⟩⟩
      change installFile cwd file _ _ t = .ok u at h
      rw [installFile] at h
      split_ifs at h with hnone hoverwrite hfile hprovide hthere htouch
      · exact .inl (except_pure_eq_ok.1 h).symm
      · exact .inr (hcopy (by rw [File.isCopied, hoverwrite, Bool.true_or]) h fun _ => hoverwrite)
      · exact .inr (hcopy (by rw [File.isCopied, hoverwrite, Bool.true_or]) h fun _ => hoverwrite)
      · rw [Bool.not_eq_true'] at hthere
        exact .inr (hcopy (by rw [File.isCopied, hprovide, Bool.or_true]) h fun hfile =>
          absurd (hthere.symm.trans hfile) Bool.false_ne_true)
      · exact .inl (except_pure_eq_ok.1 h).symm
      · exact .inl (except_pure_eq_ok.1 h).symm

end Effects

section Frame

variable {cwd : List Bytes} {sourceDirectory targetDirectory : Bytes} {t u u' : Tree}
  {now : List Entry} {entry : Entry} {location : List Bytes}

theorem Inside.of_directory {directory : Directory} {file : File}
    (h : Inside cwd sourceDirectory targetDirectory u directory file location)
    (hkept : ∀ location, u.node location = some .directory →
      u'.node location = some .directory) :
    Inside cwd sourceDirectory targetDirectory u' directory file location :=
  ⟨hkept _ h.1, h.2⟩

theorem Entry.Adds.of_directory
    (h : entry.Adds cwd sourceDirectory targetDirectory u location)
    (hkept : ∀ location, u.node location = some .directory →
      u'.node location = some .directory) :
    entry.Adds cwd sourceDirectory targetDirectory u' location := by
  cases entry with
  | ofDirectory directory => exact h
  | ofFile directory file => exact ⟨h.1, h.2.imp_right fun h => h.of_directory hkept⟩

theorem Entry.Replaces.of_directory
    (h : entry.Replaces cwd sourceDirectory targetDirectory u location)
    (hkept : ∀ location, u.node location = some .directory →
      u'.node location = some .directory) :
    entry.Replaces cwd sourceDirectory targetDirectory u' location := by
  cases entry with
  | ofDirectory directory => exact h
  | ofFile directory file =>
      exact h.imp_right fun h => ⟨h.1, h.2.of_directory hkept⟩

theorem Framed.refl (now : List Entry) (t : Tree) :
    Framed cwd sourceDirectory targetDirectory now t t where
  directory _ h := h
  file _ _ h := .inl h
  nothing _ h := .inl h

theorem Framed.change (hframed : Framed cwd sourceDirectory targetDirectory now t u)
    (hentry : entry ∈ now)
    (h : entry.change cwd sourceDirectory targetDirectory u = .ok u') :
    Framed cwd sourceDirectory targetDirectory now t u' := by
  obtain rfl | ⟨location, node, hnode, hself, hadds, hreplaces⟩ := Entry.change_node h
  · exact hframed
  have hkept : ∀ location, u.node location = some .directory →
      u'.node location = some .directory := by
    intro location' hlocation
    rw [hnode, Function.update_of_ne, hlocation]
    rintro rfl
    exact hself hlocation
  constructor
  · exact fun location' hlocation => hkept location' (hframed.directory location' hlocation)
  · intro location' content hlocation
    by_cases heq : location' = location
    · subst heq
      obtain ⟨content', hcontent'⟩ : ∃ content', u.node location' = some (.file content') := by
        rcases hframed.file location' content hlocation with hsame | ⟨hfile, -⟩
        · exact ⟨content, hsame⟩
        · exact hfile
      obtain ⟨⟨content'', rfl⟩, hreplaced⟩ := hreplaces content' hcontent'
      rw [hnode, Function.update_self]
      exact .inr ⟨⟨content'', rfl⟩, entry, hentry, hreplaced.of_directory hkept⟩
    · rw [hnode, Function.update_of_ne heq]
      refine (hframed.file location' content hlocation).imp_right ?_
      rintro ⟨hfile, entry', hentry', hreplaced⟩
      exact ⟨hfile, entry', hentry', hreplaced.of_directory hkept⟩
  · intro location' hlocation
    by_cases heq : location' = location
    · subst heq
      exact .inr ⟨entry, hentry, hadds.of_directory hkept⟩
    · rw [hnode, Function.update_of_ne heq]
      refine (hframed.nothing location' hlocation).imp_right ?_
      rintro ⟨entry', hentry', hadded⟩
      exact ⟨entry', hentry', hadded.of_directory hkept⟩

theorem Framed.foldlM {all : List Entry} (hnow : ∀ entry ∈ now, entry ∈ all)
    (hframed : Framed cwd sourceDirectory targetDirectory all t u)
    (h : now.foldlM (fun t entry => entry.change cwd sourceDirectory targetDirectory t) u =
      .ok u') :
    Framed cwd sourceDirectory targetDirectory all t u' := by
  induction now generalizing u with
  | nil => exact except_pure_eq_ok.1 h ▸ hframed
  | cons entry now ih =>
      rw [List.forall_mem_cons] at hnow
      rw [List.foldlM_cons] at h
      obtain ⟨u₁, hchange, h⟩ := except_bind_eq_ok.1 h
      exact ih hnow.2 (hframed.change hnow.1 hchange) h

/-- However the installer ends, directories are still there, files are replaced only where
the manifest says so or where a directory is in the way of one of its files, and only
directories and files of the manifest are new. -/
theorem install_frame (cwd : List Bytes) (directories : List Directory)
    (sourceDirectory targetDirectory : Bytes) (t : Tree) :
    Framed cwd sourceDirectory targetDirectory (entries directories) t
      (stateAfter (install cwd directories sourceDirectory targetDirectory t)) := by
  rw [install_apply]
  split_ifs
  · obtain ⟨done, rest, t', hentries, hdone, hend⟩ := @forM_attempt _ _ _
      (fun entry : Entry => entry.change cwd sourceDirectory targetDirectory)
      (entries directories) t
    have hframed : Framed cwd sourceDirectory targetDirectory (entries directories) t t' := by
      refine (Framed.refl _ t).foldlM (fun entry hentry => ?_) hdone
      rw [hentries]
      exact List.mem_append_left _ hentry
    rcases hend with ⟨-, hrun⟩ | ⟨_, _, _, -, -, hrun⟩
    · rw [hrun]
      exact hframed
    · rw [hrun]
      exact hframed
  · exact Framed.refl _ t

end Frame

end ManageFiles

end Supernova
