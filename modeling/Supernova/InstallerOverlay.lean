/-
The installer as the laying of the source tree over the target: when the manifest has
plain names and its files find no directory in their way, what an installation makes is
known before, it can be interrupted and repeated, and it completes when the check that is made before
an upgrade finds nothing missing.
-/
import Supernova.InstallerFrame
import Supernova.TreeOverlay

namespace Supernova

attribute [local semireducible] ByteArray.toList.loop

namespace ManageFiles

open PathSegment

section Names

/-- The name of something in a directory. -/
structure PlainName (name : Bytes) : Prop where
  no_slash : slashByte ∉ name
  not_empty : name ≠ []
  not_here : name ≠ text "."
  not_up : name ≠ text ".."

/-- The directory itself, or the names that lead down from it. -/
def PlainPath (path : Bytes) : Prop :=
  path = text "." ∨ ∀ component ∈ path.splitOn slashByte, PlainName component

instance (name : Bytes) : Decidable (PlainName name) :=
  decidable_of_iff (slashByte ∉ name ∧ name ≠ [] ∧ name ≠ text "." ∧ name ≠ text "..")
    ⟨fun h => ⟨h.1, h.2.1, h.2.2.1, h.2.2.2⟩, fun h => ⟨h.1, h.2, h.3, h.4⟩⟩

instance (path : Bytes) : Decidable (PlainPath path) :=
  inferInstanceAs (Decidable (_ ∨ _))

/-- The location of a path of the manifest, from the directory it is joined to. -/
def relativeLocation (path : Bytes) : List Bytes := names (pathSegments path)

variable {cwd : List Bytes} {t t' : Tree} {base path name : Bytes} {location : List Bytes}

theorem PlainName.pathSegment (h : PlainName name) :
    ManageFiles.pathSegment name = .down name := by
  rw [ManageFiles.pathSegment, if_neg, if_neg h.not_up]
  rw [not_or]
  exact ⟨h.not_empty, h.not_here⟩

theorem PlainName.pathSegments (h : PlainName name) :
    ManageFiles.pathSegments name = [.down name] := by
  rw [ManageFiles.pathSegments, List.splitOn_eq_singleton h.no_slash, List.map_singleton,
    h.pathSegment]

theorem PlainName.relative (h : PlainName name) : Relative name := by
  intro hhead
  exact h.no_slash (List.mem_of_mem_head? hhead)

theorem slashByte_notMem_dot : slashByte ∉ text "." := by decide

theorem pathSegments_dot : pathSegments (text ".") = [.here] := by
  rw [ManageFiles.pathSegments, List.splitOn_eq_singleton slashByte_notMem_dot,
    List.map_singleton, ManageFiles.pathSegment, if_pos (.inr rfl)]

/-- A plain path is the dot or goes down and down. -/
theorem PlainPath.pathSegments (h : PlainPath path) : ManageFiles.pathSegments path = [.here] ∨
    ∃ components, components ≠ [] ∧
      ManageFiles.pathSegments path = components.map .down := by
  rcases h with rfl | hcomponents
  · exact .inl pathSegments_dot
  · refine .inr ⟨path.splitOn slashByte, List.splitOn_ne_nil _ _, ?_⟩
    exact List.map_congr_left fun component hmem => (hcomponents component hmem).pathSegment

theorem PlainPath.up_notMem (h : PlainPath path) :
    PathSegment.up ∉ ManageFiles.pathSegments path := by
  rcases h.pathSegments with hsegments | ⟨components, -, hsegments⟩
  · rw [hsegments]
    simp
  · rw [hsegments]
    simp

theorem PlainPath.not_empty_component (h : PlainPath path) : [] ∉ path.splitOn slashByte := by
  rcases h with rfl | hcomponents
  · rw [List.splitOn_eq_singleton slashByte_notMem_dot, List.mem_singleton]
    exact fun h => absurd (congrArg List.length h) (by decide)
  · exact fun hmem => (hcomponents [] hmem).not_empty rfl

theorem PlainPath.relative (h : PlainPath path) : Relative path := by
  intro hhead
  obtain ⟨rest, rfl⟩ : ∃ rest, path = slashByte :: rest := by
    cases path with
    | nil => cases hhead
    | cons c rest => exact ⟨rest, congrArg (· :: rest) (Option.some.inj hhead)⟩
  apply h.not_empty_component
  have hsplit := List.splitOn_append_cons_self (a := slashByte) [] rest
  rw [List.nil_append] at hsplit
  rw [hsplit, List.splitOn_nil]
  exact List.mem_append_left _ List.mem_cons_self

theorem PlainPath.trimSlashes_joinPath (h : PlainPath path) (base : Bytes) :
    trimSlashes (joinPath base path) = joinPath base path := by
  obtain ⟨front, c, hpath⟩ : ∃ front c, path = front ++ [c] := by
    rcases List.eq_nil_or_concat path with rfl | ⟨front, c, hpath⟩
    · exact absurd List.mem_cons_self h.not_empty_component
    · exact ⟨front, c, hpath.trans List.concat_eq_append⟩
  have hc : c ≠ slashByte := by
    rintro rfl
    apply h.not_empty_component
    rw [hpath, List.splitOn_append_cons_self, List.splitOn_nil]
    exact List.mem_append_right _ List.mem_cons_self
  rw [joinPath, if_neg h.relative, hpath]
  split_ifs
  · rw [← List.append_assoc, trimSlashes_of_not_slash hc]
  · rw [← List.cons_append, ← List.append_assoc, trimSlashes_of_not_slash hc]

end Names

section Locations

variable {cwd : List Bytes} {t t' : Tree} {root base path : Bytes}
  {directory : Directory} {file : File} {location found : List Bytes}

/-- A directory at the end of a path. -/
structure Stands (cwd : List Bytes) (t : Tree) (path : Bytes) (location : List Bytes) : Prop where
  resolved : resolvePath cwd t path = .ok location
  directory : t.node location = some .directory

theorem Stands.ne_nil (h : Stands cwd t path location) : path ≠ [] :=
  (resolvePath_eq_ok.1 h.resolved).1

theorem Stands.resolvePath_joinPath (h : Stands cwd t base location) (hpath : Relative path) :
    resolvePath cwd t (joinPath base path) = .ok found ↔
      t.resolve location (pathSegments path) = .ok found := by
  rw [ManageFiles.resolvePath_joinPath h.ne_nil hpath]
  constructor
  · rintro ⟨location', hlocation, -, hfound⟩
    obtain rfl : location' = location := Except.ok.inj (hlocation.symm.trans h.resolved)
    exact hfound
  · exact fun hfound => ⟨location, h.resolved, h.directory, hfound⟩

/-- In a directory that stands, what is joined is a directory when one is at its place. -/
theorem Stands.joinPath_iff (h : Stands cwd t base location) (hpath : PlainPath path) :
    Stands cwd t (joinPath base path) found ↔
      found = relativeLocation path ++ location ∧ t.node found = some .directory := by
  constructor
  · rintro ⟨hresolved, hdirectory⟩
    rw [h.resolvePath_joinPath hpath.relative] at hresolved
    refine ⟨?_, hdirectory⟩
    rw [FileTree.locate_of_resolve hresolved, locate_eq_append hpath.up_notMem]
    rfl
  · rintro ⟨rfl, hdirectory⟩
    refine ⟨?_, hdirectory⟩
    rw [h.resolvePath_joinPath hpath.relative]
    exact FileTree.resolve_of_directory hpath.up_notMem hdirectory

theorem isdir_iff_stands : isdir cwd t path = true ↔ ∃ location, Stands cwd t path location := by
  rw [isdir_iff]
  exact ⟨fun ⟨location, h, h'⟩ => ⟨location, h, h'⟩, fun ⟨location, h⟩ => ⟨location, h.1, h.2⟩⟩

theorem stands_of_isdir (h : isdir cwd t path = true) :
    Stands cwd t path (pathLocation cwd path) := by
  obtain ⟨location, hresolved, hdirectory⟩ := isdir_iff.1 h
  rw [pathLocation_of_resolvePath hresolved]
  exact ⟨hresolved, hdirectory⟩

theorem Stands.isdir_joinPath (h : Stands cwd t base location) (hpath : PlainPath path) :
    isdir cwd t (joinPath base path) = true ↔
      t.node (relativeLocation path ++ location) = some .directory := by
  simp only [isdir_iff_stands, h.joinPath_iff hpath]
  exact ⟨fun ⟨_, rfl, hnode⟩ => hnode, fun hnode => ⟨_, rfl, hnode⟩⟩

theorem Stands.mkdir_joinPath (h : Stands cwd t base location) (hpath : PlainPath path) :
    mkdir cwd t (joinPath base path) = .ok t' ↔
      t.makeDirectory (relativeLocation path ++ location) = .ok t' := by
  simp only [mkdir, hpath.trimSlashes_joinPath, except_bind_eq_ok, system_eq_ok,
    h.resolvePath_joinPath hpath.relative]
  constructor
  · rintro ⟨found, hfound, hmake⟩
    rwa [FileTree.locate_of_resolve hfound, locate_eq_append hpath.up_notMem] at hmake
  · intro hmake
    refine ⟨_, ?_, hmake⟩
    rw [relativeLocation] at hmake ⊢
    rcases hpath.pathSegments with hsegments | ⟨components, hne, hsegments⟩
    · rw [hsegments, FileTree.resolve_cons_eq_ok]
      exact ⟨h.directory, rfl⟩
    · rw [hsegments, names_map_down] at hmake ⊢
      exact FileTree.resolve_map_down hne (FileTree.makeDirectory_eq_ok.1 hmake).2.1

/-- The location of a file of the manifest, from the directory that has them all. -/
def entryLocation (directory : Directory) (file : File) : List Bytes :=
  file.name :: relativeLocation directory.name

theorem Stands.resolvePath_entryPath (h : Stands cwd t root location)
    (hdirectory : PlainPath directory.name) (hfile : PlainName file.name) :
    resolvePath cwd t (entryPath root directory.name file.name) = .ok found ↔
      t.node (relativeLocation directory.name ++ location) = some .directory ∧
        found = entryLocation directory file ++ location := by
  rw [entryPath, ManageFiles.resolvePath_joinPath (joinPath_ne_nil h.ne_nil _) hfile.relative,
    hfile.pathSegments]
  constructor
  · rintro ⟨middle, hmiddle, hnode, hfound⟩
    obtain ⟨rfl, hnode⟩ := (h.joinPath_iff hdirectory).mp ⟨hmiddle, hnode⟩
    exact ⟨hnode, (Except.ok.inj (FileTree.resolve_cons_eq_ok.1 hfound).2).symm⟩
  · rintro ⟨hnode, rfl⟩
    obtain ⟨hmiddle, -⟩ := (h.joinPath_iff hdirectory).mpr ⟨rfl, hnode⟩
    exact ⟨_, hmiddle, hnode, FileTree.resolve_cons_eq_ok.2 ⟨hnode, rfl⟩⟩

theorem Stands.isfile_entryPath (h : Stands cwd t root location)
    (hdirectory : PlainPath directory.name) (hfile : PlainName file.name) :
    isfile cwd t (entryPath root directory.name file.name) = true ↔
      ∃ content, t.node (entryLocation directory file ++ location) = some (.file content) := by
  simp only [isfile_iff, h.resolvePath_entryPath hdirectory hfile]
  constructor
  · rintro ⟨_, content, ⟨-, rfl⟩, hnode⟩
    exact ⟨content, hnode⟩
  · rintro ⟨content, hnode⟩
    exact ⟨_, content, ⟨(FileTree.directory_tail hnode).2, rfl⟩, hnode⟩

theorem Stands.isdir_entryPath (h : Stands cwd t root location)
    (hdirectory : PlainPath directory.name) (hfile : PlainName file.name)
    (hnot : t.node (entryLocation directory file ++ location) ≠ some .directory) :
    isdir cwd t (entryPath root directory.name file.name) = false := by
  rw [Bool.eq_false_iff, Ne, isdir_iff]
  rintro ⟨_, hresolved, hnode⟩
  obtain ⟨-, rfl⟩ := (h.resolvePath_entryPath hdirectory hfile).mp hresolved
  exact hnot hnode

/-- Copying from tree to tree is the copy of the overlay. -/
theorem copy2_entryPath {sourceDirectory targetDirectory : Bytes} {source target : List Bytes}
    (hsource : Stands cwd t sourceDirectory source)
    (htarget : Stands cwd t targetDirectory target)
    (hapart : OverlayStep.Apart source target)
    (hdirectory : PlainPath directory.name) (hfile : PlainName file.name)
    (hnot : t.node (entryLocation directory file ++ target) ≠ some .directory) :
    copy2 cwd t (entryPath sourceDirectory directory.name file.name)
        (entryPath targetDirectory directory.name file.name) = .ok t' ↔
      OverlayStep.copy source target (entryLocation directory file) t = .ok t' := by
  rw [copy2, htarget.isdir_entryPath hdirectory hfile hnot, if_neg Bool.false_ne_true,
    copyfile_eq_ok, OverlayStep.copy_eq_ok]
  simp only [hsource.resolvePath_entryPath hdirectory hfile,
    htarget.resolvePath_entryPath hdirectory hfile, FileTree.writeFile_eq_ok]
  constructor
  · rintro ⟨_, _, content, ⟨-, rfl⟩, ⟨-, rfl⟩, -, hcontent, hwrite⟩
    exact ⟨content, hcontent, hwrite⟩
  · rintro ⟨content, hcontent, hwrite⟩
    have hne : entryLocation directory file ++ source ≠ entryLocation directory file ++ target := by
      intro heq
      obtain rfl : source = target := List.append_cancel_left heq
      exact hapart.source_target List.suffix_rfl
    exact ⟨_, _, content, ⟨(FileTree.directory_tail hcontent).2, rfl⟩, ⟨hwrite.2.1, rfl⟩, hne,
      hcontent, hwrite⟩

end Locations

section Refinement

def Directory.steps (directory : Directory) : List (OverlayStep Bytes) :=
  if directory.installAction.isText (text "create") then
    [.create (relativeLocation directory.name)]
  else []

def File.steps (directory : Directory) (file : File) : List (OverlayStep Bytes) :=
  if file.installAction.isText (text "overwrite") then
    [.overwrite (entryLocation directory file)]
  else if file.installAction.isText (text "copy_if_not_existing") then
    [.provide (entryLocation directory file)]
  else []

def Entry.steps : Entry → List (OverlayStep Bytes)
  | .ofDirectory directory => directory.steps
  | .ofFile directory file => file.steps directory

/-- The manifest as steps of an overlay. -/
def overlaySteps (directories : List Directory) : List (OverlayStep Bytes) :=
  (entries directories).flatMap Entry.steps

/-- The action is one that the installer knows. -/
def Entry.Valid : Entry → Prop
  | .ofDirectory directory => directory.installAction.isText (text "create") = true ∨
      directory.installAction.isNone = true
  | .ofFile _ file => file.installAction.isNone = true ∨ file.isCopied = true ∨
      file.installAction.isText (text "dont_touch") = true

def Entry.Plain : Entry → Prop
  | .ofDirectory directory => PlainPath directory.name
  | .ofFile directory file => PlainPath directory.name ∧ PlainName file.name

instance : DecidablePred Entry.Valid
  | .ofDirectory _ => inferInstanceAs (Decidable (_ ∨ _))
  | .ofFile _ _ => inferInstanceAs (Decidable (_ ∨ _))

instance : DecidablePred Entry.Plain
  | .ofDirectory _ => inferInstanceAs (Decidable (PlainPath _))
  | .ofFile _ _ => inferInstanceAs (Decidable (_ ∧ _))

variable {cwd : List Bytes} {sourceDirectory targetDirectory : Bytes}
  {source target : List Bytes} {t u u' : Tree} {directory : Directory} {file : File}
  {entry : Entry}

theorem Json.isText_of_isNone {json : Json} (h : json.isNone = true) (expected : Bytes) :
    json.isText expected = false := by
  cases json with
  | null => rfl
  | boolean _ => cases h
  | number _ => cases h
  | string _ => cases h
  | array _ => cases h
  | object _ => cases h

theorem installDirectory_eq_ok (htarget : Stands cwd t targetDirectory target)
    (hplain : PlainPath directory.name) :
    installDirectory cwd directory (joinPath targetDirectory directory.name) t = .ok u ↔
      (Entry.ofDirectory directory).Valid ∧
        OverlayStep.run source target directory.steps t = .ok u := by
  have hvalid : (Entry.ofDirectory directory).Valid ↔
      directory.installAction.isText (text "create") = true ∨
        directory.installAction.isNone = true := Iff.rfl
  rw [installDirectory, Directory.steps, hvalid]
  split_ifs with hcreate hdir hnone
  · have hnode := (htarget.isdir_joinPath hplain).mp hdir
    rw [OverlayStep.run_singleton_eq_ok, OverlayStep.perform_create_eq_ok, except_pure_eq_ok,
      eq_comm (a := t)]
    simp [hcreate, hnode]
  · rw [OverlayStep.run_singleton_eq_ok, OverlayStep.perform_create_eq_ok,
      htarget.mkdir_joinPath hplain, FileTree.makeDirectory_eq_ok,
      ← htarget.isdir_joinPath hplain]
    simp [hcreate, hdir]
  · rw [OverlayStep.run_nil_eq_ok, except_pure_eq_ok]
    simp [hnone]
  · simp [hcreate, hnone]

theorem installFile_eq_ok (hsource : Stands cwd t sourceDirectory source)
    (htarget : Stands cwd t targetDirectory target)
    (hapart : OverlayStep.Apart source target)
    (hplain : PlainPath directory.name) (hname : PlainName file.name)
    (hclear : file.isCopied = true →
      t.node (entryLocation directory file ++ target) ≠ some .directory) :
    installFile cwd file (entryPath sourceDirectory directory.name file.name)
        (entryPath targetDirectory directory.name file.name) t = .ok u ↔
      (Entry.ofFile directory file).Valid ∧
        OverlayStep.run source target (file.steps directory) t = .ok u := by
  have hvalid : (Entry.ofFile directory file).Valid ↔ file.installAction.isNone = true ∨
      file.isCopied = true ∨ file.installAction.isText (text "dont_touch") = true := Iff.rfl
  rw [installFile, File.steps, hvalid, File.isCopied]
  rw [File.isCopied] at hclear
  by_cases hnone : file.installAction.isNone = true
  · have hother : ∀ expected, file.installAction.isText expected = false :=
      Json.isText_of_isNone hnone
    rw [if_pos hnone, hother, hother, if_neg Bool.false_ne_true, if_neg Bool.false_ne_true,
      OverlayStep.run_nil_eq_ok, except_pure_eq_ok]
    simp [hnone]
  · rw [if_neg hnone]
    by_cases hoverwrite : file.installAction.isText (text "overwrite") = true
    · have hnot : t.node (entryLocation directory file ++ target) ≠ some .directory :=
        hclear (by rw [hoverwrite, Bool.true_or])
      rw [if_pos hoverwrite, if_pos hoverwrite, ite_self, OverlayStep.run_singleton_eq_ok,
        copy2_entryPath hsource htarget hapart hplain hname hnot]
      simp [hoverwrite, OverlayStep.perform]
    · rw [if_neg hoverwrite, if_neg hoverwrite]
      by_cases hprovide : file.installAction.isText (text "copy_if_not_existing") = true
      · have hnot : t.node (entryLocation directory file ++ target) ≠ some .directory :=
          hclear (by rw [hprovide, Bool.or_true])
        rw [if_pos hprovide, if_pos hprovide, OverlayStep.run_singleton_eq_ok,
          OverlayStep.perform_provide_eq_ok hnot, ← htarget.isfile_entryPath hplain hname]
        by_cases hfile : isfile cwd t (entryPath targetDirectory directory.name file.name) = true
        · have hnode : t.node (entryLocation directory file ++ target) ≠ none := by
            obtain ⟨content, hnode⟩ := (htarget.isfile_entryPath hplain hname).mp hfile
            exact hnode.trans_ne (Option.some_ne_none _)
          rw [eq_comm (a := u)]
          simp [hprovide, hfile, hnode, except_pure_eq_ok]
        · have hnode : t.node (entryLocation directory file ++ target) = none := by
            rw [htarget.isfile_entryPath hplain hname] at hfile
            rcases hnode : t.node (entryLocation directory file ++ target) with
              _ | (_ | content)
            · rfl
            · exact absurd hnode hnot
            · exact absurd ⟨content, hnode⟩ hfile
          simp [hprovide, hfile, hnode, copy2_entryPath hsource htarget hapart hplain hname hnot]
      · rw [if_neg hprovide, if_neg hprovide, OverlayStep.run_nil_eq_ok]
        by_cases htouch : file.installAction.isText (text "dont_touch") = true
        · simp [htouch, except_pure_eq_ok]
        · simp [hnone, hoverwrite, hprovide, htouch]

/-- An entry of the manifest does what its steps do. -/
theorem Entry.change_eq_ok (hsource : Stands cwd t sourceDirectory source)
    (htarget : Stands cwd t targetDirectory target)
    (hapart : OverlayStep.Apart source target) (hplain : entry.Plain)
    (hclear : ∀ step ∈ entry.steps, step.isCopy = true →
      t.node (step.relative ++ target) ≠ some .directory) :
    entry.change cwd sourceDirectory targetDirectory t = .ok u ↔
      entry.Valid ∧ OverlayStep.run source target entry.steps t = .ok u := by
  cases entry with
  | ofDirectory directory => exact installDirectory_eq_ok htarget hplain
  | ofFile directory file =>
      refine installFile_eq_ok hsource htarget hapart hplain.1 hplain.2 fun hcopied => ?_
      rw [File.isCopied, Bool.or_eq_true] at hcopied
      by_cases hoverwrite : file.installAction.isText (text "overwrite") = true
      · refine hclear (.overwrite (entryLocation directory file)) ?_ rfl
        rw [Entry.steps, File.steps, if_pos hoverwrite]
        exact List.mem_cons_self
      · refine hclear (.provide (entryLocation directory file)) ?_ rfl
        rw [Entry.steps, File.steps, if_neg hoverwrite,
          if_pos (hcopied.resolve_left hoverwrite)]
        exact List.mem_cons_self

theorem Stands.of_directories (h : Stands cwd t targetDirectory target)
    (hkept : ∀ location, t.node location = some .directory →
      u.node location = some .directory) : Stands cwd u targetDirectory target := by
  obtain ⟨hne, hresolve⟩ := resolvePath_eq_ok.1 h.resolved
  exact ⟨resolvePath_eq_ok.2 ⟨hne, FileTree.resolve_of_directories hkept hresolve⟩,
    hkept _ h.directory⟩

/-- Going through entries is going through their steps. -/
theorem foldlM_change_eq_ok {steps : List (OverlayStep Bytes)} {now : List Entry}
    (hsource : Stands cwd t sourceDirectory source)
    (htarget : Stands cwd t targetDirectory target)
    (hapart : OverlayStep.Apart source target) (hplain : ∀ entry ∈ now, entry.Plain)
    (hnow : ∀ entry ∈ now, ∀ step ∈ entry.steps, step ∈ steps)
    (h : OverlayStep.OnTheWay source target steps t u) :
    now.foldlM (fun t entry => entry.change cwd sourceDirectory targetDirectory t) u = .ok u' ↔
      (∀ entry ∈ now, entry.Valid) ∧
        OverlayStep.run source target (now.flatMap Entry.steps) u = .ok u' := by
  induction now generalizing u with
  | nil =>
      rw [List.flatMap_nil, OverlayStep.run_nil_eq_ok, List.foldlM_nil, except_pure_eq_ok]
      simp
  | cons entry now ih =>
      rw [List.forall_mem_cons] at hplain hnow
      have hchange : ∀ u₁, entry.change cwd sourceDirectory targetDirectory u = .ok u₁ ↔
          entry.Valid ∧ OverlayStep.run source target entry.steps u = .ok u₁ := fun u₁ =>
        Entry.change_eq_ok (hsource.of_directories h.directory)
          (htarget.of_directories h.directory) hapart hplain.1 fun step hstep =>
            h.clear.not_directory step (hnow.1 step hstep)
      rw [List.foldlM_cons, except_bind_eq_ok, List.flatMap_cons,
        OverlayStep.run_append_eq_ok, List.forall_mem_cons]
      constructor
      · rintro ⟨u₁, hfirst, hrest⟩
        obtain ⟨hvalid, hsteps⟩ := (hchange u₁).mp hfirst
        obtain ⟨hvalid', hrun⟩ :=
          (ih hplain.2 hnow.2 (h.run hapart hnow.1 hsteps).1).mp hrest
        exact ⟨⟨hvalid, hvalid'⟩, u₁, hsteps, hrun⟩
      · rintro ⟨⟨hvalid, hvalid'⟩, u₁, hsteps, hrun⟩
        exact ⟨u₁, (hchange u₁).mpr ⟨hvalid, hsteps⟩,
          (ih hplain.2 hnow.2 (h.run hapart hnow.1 hsteps).1).mpr ⟨hvalid', hrun⟩⟩

end Refinement

end ManageFiles

end Supernova
