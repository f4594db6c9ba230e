/-
What an installation makes of the target, when it completes, and what an interruption or a
missing file does to it.
-/
import Mathlib.Data.List.Nodup
import Supernova.InstallerOverlay

namespace Supernova

attribute [local semireducible] ByteArray.toList.loop

namespace ManageFiles

open OverlayStep

/-- The source and the target are directories apart from each other, the manifest names
what is in them, and no directory is in the way of a file. -/
structure Installable (cwd : List Bytes) (directories : List Directory)
    (sourceDirectory targetDirectory : Bytes) (source target : List Bytes) (t : Tree) :
    Prop where
  source_stands : Stands cwd t sourceDirectory source
  target_stands : Stands cwd t targetDirectory target
  apart : Apart source target
  plain : ∀ entry ∈ entries directories, entry.Plain
  clear : Clear target (overlaySteps directories) t

section Results

variable {cwd : List Bytes} {directories : List Directory}
  {sourceDirectory targetDirectory : Bytes} {source target : List Bytes} {t t' u : Tree}

theorem mem_overlaySteps {entry : Entry} (hentry : entry ∈ entries directories)
    {step : OverlayStep Bytes} (hstep : step ∈ entry.steps) : step ∈ overlaySteps directories :=
  List.mem_flatMap.mpr ⟨entry, hentry, hstep⟩

/-- On a tree that an installation has come to, installing is taking the steps. -/
theorem Installable.install_eq_ok
    (h : Installable cwd directories sourceDirectory targetDirectory source target t)
    (hway : OnTheWay source target (overlaySteps directories) t u) :
    install cwd directories sourceDirectory targetDirectory u = .ok () t' ↔
      (∀ entry ∈ entries directories, entry.Valid) ∧
        OverlayStep.run source target (overlaySteps directories) u = .ok t' := by
  have hisdir : isdir cwd u targetDirectory = true :=
    isdir_iff_stands.2 ⟨target, h.target_stands.of_directories hway.directory⟩
  rw [install_apply, if_pos hisdir]
  exact forM_attempt_eq_ok.trans (foldlM_change_eq_ok h.source_stands h.target_stands h.apart
    h.plain (fun _ hentry _ hstep => mem_overlaySteps hentry hstep) hway)

theorem mem_entries_ofFile {directory : Directory} {file : File} :
    Entry.ofFile directory file ∈ entries directories ↔
      directory ∈ directories ∧ file ∈ directory.files := by
  simp only [entries, List.mem_flatMap, List.mem_cons, List.mem_map, reduceCtorEq, false_or,
    Entry.ofFile.injEq]
  constructor
  · rintro ⟨_, hdirectory, _, hfile, rfl, rfl⟩
    exact ⟨hdirectory, hfile⟩
  · rintro ⟨hdirectory, hfile⟩
    exact ⟨directory, hdirectory, file, hfile, rfl, rfl⟩

/-- What a file asks for is there. -/
theorem Installable.supplied_iff
    (h : Installable cwd directories sourceDirectory targetDirectory source target t)
    {directory : Directory} {file : File}
    (hentry : Entry.ofFile directory file ∈ entries directories) :
    (∀ step ∈ file.steps directory, Supplied source target t step) ↔
      (file.isCopied = true →
        isfile cwd t (entryPath sourceDirectory directory.name file.name) = true ∨
          file.installAction.isText (text "overwrite") = false ∧
            isfile cwd t (entryPath targetDirectory directory.name file.name) = true) := by
  obtain ⟨hplain, hname⟩ := h.plain _ hentry
  rw [h.source_stands.isfile_entryPath hplain hname, h.target_stands.isfile_entryPath hplain hname,
    File.steps, File.isCopied]
  by_cases hoverwrite : file.installAction.isText (text "overwrite") = true
  · simp [hoverwrite, Supplied]
  · by_cases hprovide : file.installAction.isText (text "copy_if_not_existing") = true
    · simp [hoverwrite, hprovide, Supplied, or_comm]
    · simp [hoverwrite, hprovide]

/-- With directories in order an installation completes exactly when every file that is to be
copied is in the source, or need not be overwritten and is in the target. -/
theorem install_completes_iff
    (h : Installable cwd directories sourceDirectory targetDirectory source target t)
    (hvalid : ∀ entry ∈ entries directories, entry.Valid)
    (horderly : Orderly target (overlaySteps directories) t) :
    (∃ t', install cwd directories sourceDirectory targetDirectory t = .ok () t') ↔
      ∀ directory ∈ directories, ∀ file ∈ directory.files, file.isCopied = true →
        isfile cwd t (entryPath sourceDirectory directory.name file.name) = true ∨
          file.installAction.isText (text "overwrite") = false ∧
            isfile cwd t (entryPath targetDirectory directory.name file.name) = true := by
  have hcreate : ∀ directory : Directory, ∀ step ∈ directory.steps, Supplied source target t step := by
    intro directory step hstep
    rw [Directory.steps] at hstep
    split_ifs at hstep
    · rw [List.mem_singleton.mp hstep]
      trivial
    · cases hstep
  simp only [h.install_eq_ok h.clear.onTheWay, and_iff_right hvalid,
    exists_run_iff h.apart h.clear horderly]
  constructor
  · intro hsupplied directory hdirectory file hfile
    have hentry : Entry.ofFile directory file ∈ entries directories :=
      mem_entries_ofFile.2 ⟨hdirectory, hfile⟩
    exact (h.supplied_iff hentry).mp fun step hstep =>
      hsupplied step (mem_overlaySteps hentry hstep)
  · intro hfiles step hstep
    obtain ⟨entry, hentry, hstep⟩ := List.mem_flatMap.mp hstep
    cases entry with
    | ofDirectory directory => exact hcreate directory step hstep
    | ofFile directory file =>
        obtain ⟨hdirectory, hfile⟩ := mem_entries_ofFile.1 hentry
        exact (h.supplied_iff hentry).mpr (hfiles directory hdirectory file hfile) step hstep

section Framework

/-- A framework with two files at `/s` and an empty project at `/t`. -/
def frameworkTree : Tree :=
  ((((FileTree.empty.put [115] [] .directory rfl fun _ => rfl).put
    [116] [] .directory (by decide) fun _ => rfl).put
    [102] [[115]] (.file [1]) (by decide) (by decide)).put
    [100] [[115]] .directory (by decide) fun _ => rfl).put
    [103] [[100], [115]] (.file [2]) (by decide) (by decide)

def frameworkManifest : Manifest where
  directories :=
    [(text ".",
      { install := none
        files := [(text "f", dict [(text "install", .string (text "overwrite"))])]
        fileDefaults := none
        files_nodup := List.nodup_singleton _ }),
     (text "d",
      { install := some (.string (text "create"))
        files := [(text "g", dict [(text "install", .string (text "copy_if_not_existing"))])]
        fileDefaults := none
        files_nodup := List.nodup_singleton _ })]
  directories_nodup := by decide

def frameworkDirectories : List Directory :=
  (loadFile frameworkManifest (text "/s")).toOption.getD []

theorem loadFile_frameworkManifest :
    loadFile frameworkManifest (text "/s") = .ok frameworkDirectories := by
  have hsome : (loadFile frameworkManifest (text "/s")).toOption.isSome = true := by
    decide
  rcases h : loadFile frameworkManifest (text "/s") with error | directories
  · rw [h] at hsome
    cases hsome
  · rw [frameworkDirectories, h]
    rfl

theorem overlaySteps_frameworkDirectories : overlaySteps frameworkDirectories =
    [.overwrite [text "f"], .create [text "d"], .provide [text "g", text "d"]] := by
  decide

theorem framework_installable : Installable [] frameworkDirectories (text "/s") (text "/t")
    (pathLocation [] (text "/s")) (pathLocation [] (text "/t")) frameworkTree where
  source_stands := stands_of_isdir (by decide)
  target_stands := stands_of_isdir (by decide)
  apart := ⟨by decide, by decide⟩
  plain := by decide
  clear := by
    rw [overlaySteps_frameworkDirectories]
    exact ⟨by decide, by decide⟩

theorem framework_valid : ∀ entry ∈ entries frameworkDirectories, entry.Valid := by
  decide

theorem framework_orderly : Orderly (pathLocation [] (text "/t"))
    (overlaySteps frameworkDirectories) frameworkTree := by
  rw [overlaySteps_frameworkDirectories]
  constructor
  · intro before step after h
    rcases before with _ | ⟨_, _ | ⟨_, _ | ⟨_, before⟩⟩⟩
    · obtain ⟨rfl, -⟩ := List.cons.inj h
      exact .inl (by decide)
    · obtain ⟨rfl, -⟩ := List.cons.inj (List.cons.inj h).2
      exact .inl (by decide)
    · obtain ⟨rfl, hrest⟩ := List.cons.inj (List.cons.inj h).2
      obtain ⟨rfl, -⟩ := List.cons.inj hrest
      exact .inr ⟨[text "d"], List.mem_cons_of_mem _ List.mem_cons_self, rfl⟩
    · have hlength := congrArg List.length h
      simp at hlength
  · intro relative content hmem
    obtain rfl : relative = [text "d"] := by simpa using hmem
    have hnone : frameworkTree.node ([text "d"] ++ pathLocation [] (text "/t")) = none := by
      decide
    rw [hnone]
    exact (Option.some_ne_none _).symm

theorem framework_exists_install : ∃ t', install [] frameworkDirectories (text "/s") (text "/t")
    frameworkTree = .ok () t' :=
  (install_completes_iff framework_installable framework_valid framework_orderly).mpr
    (by decide)

end Framework

/-- After an installation the target is the source laid over it, by the manifest: what is to
be overwritten is as in the source, and what is there already and is not, is as it was. -/
theorem install_node
    (h : Installable cwd directories sourceDirectory targetDirectory source target t)
    (hrun : install cwd directories sourceDirectory targetDirectory t = .ok () t') :
    t'.node = overlay source target (overlaySteps directories) t.node :=
  run_node h.apart h.clear ((h.install_eq_ok h.clear.onTheWay).mp hrun).2

theorem install_node_framework : ∃ t', install [] frameworkDirectories (text "/s") (text "/t")
      frameworkTree = .ok () t' ∧
    t'.node = overlay (pathLocation [] (text "/s")) (pathLocation [] (text "/t"))
      (overlaySteps frameworkDirectories) frameworkTree.node := by
  obtain ⟨t', hrun⟩ := framework_exists_install
  exact ⟨t', hrun, install_node framework_installable hrun⟩

/-- An installation that was interrupted after some entries is made good by another one, and
nothing is different from one without interruption. -/
theorem install_resumed
    (h : Installable cwd directories sourceDirectory targetDirectory source target t)
    (hrun : install cwd directories sourceDirectory targetDirectory t = .ok () t') (n : Nat)
    (hinterrupted : ((entries directories).take n).forM (fun entry =>
      attempt (entry.change cwd sourceDirectory targetDirectory)) t = .ok () u) :
    install cwd directories sourceDirectory targetDirectory u = .ok () t' := by
  obtain ⟨hvalid, hsteps⟩ := (h.install_eq_ok h.clear.onTheWay).mp hrun
  have hnow : ∀ entry ∈ (entries directories).take n, ∀ step ∈ entry.steps,
      step ∈ overlaySteps directories :=
    fun entry hentry step hstep => mem_overlaySteps (List.mem_of_mem_take hentry) hstep
  have hplain : ∀ entry ∈ (entries directories).take n, entry.Plain :=
    fun entry hentry => h.plain entry (List.mem_of_mem_take hentry)
  obtain ⟨-, hpart⟩ := (foldlM_change_eq_ok h.source_stands h.target_stands h.apart hplain hnow
    h.clear.onTheWay).mp (forM_attempt_eq_ok.1 hinterrupted)
  have hsome : ∀ step ∈ ((entries directories).take n).flatMap Entry.steps,
      step ∈ overlaySteps directories := by
    intro step hstep
    obtain ⟨entry, hentry, hstep⟩ := List.mem_flatMap.mp hstep
    exact hnow entry hentry step hstep
  have hway := (h.clear.onTheWay.run h.apart hsome hpart).1
  exact (h.install_eq_ok hway).mpr ⟨hvalid, run_resumed h.apart h.clear hsteps hsome hpart⟩

/-- Installing once more changes nothing. -/
theorem install_resumed_framework : ∃ t', install [] frameworkDirectories (text "/s") (text "/t")
      frameworkTree = .ok () t' ∧
    install [] frameworkDirectories (text "/s") (text "/t") t' = .ok () t' := by
  obtain ⟨t', hrun⟩ := framework_exists_install
  have hisdir : isdir [] frameworkTree (text "/t") = true := by decide
  have hentries : (entries frameworkDirectories).take 4 = entries frameworkDirectories :=
    List.take_of_length_le (by decide)
  refine ⟨t', hrun, install_resumed framework_installable hrun 4 ?_⟩
  have hall := hrun
  rw [install_apply, if_pos hisdir] at hall
  rw [hentries]
  exact hall

theorem missingSourceFiles_eq_nil : missingSourceFiles cwd directories sourceDirectory t = [] ↔
    ∀ directory ∈ directories, ∀ file ∈ directory.files, file.isCopied = true →
      isfile cwd t (entryPath sourceDirectory directory.name file.name) = true := by
  rw [missingSourceFiles, List.flatMap_eq_nil_iff]
  simp only [List.map_eq_nil_iff, List.filter_eq_nil_iff, Bool.and_eq_true, Bool.not_eq_true',
    not_and, Bool.not_eq_false]

/-- An upgrade either reports what is missing and changes nothing, or installs everything. -/
theorem upgradeProject_completes {manifest : Manifest}
    (hload : loadFile manifest sourceDirectory = .ok directories)
    (h : Installable cwd directories sourceDirectory targetDirectory source target t)
    (hvalid : ∀ entry ∈ entries directories, entry.Valid)
    (horderly : Orderly target (overlaySteps directories) t) :
    (∃ missing, missing ≠ [] ∧
      upgradeProject cwd manifest sourceDirectory targetDirectory t = .ok missing t) ∨
    ∃ t', upgradeProject cwd manifest sourceDirectory targetDirectory t = .ok [] t' ∧
      t'.node = overlay source target (overlaySteps directories) t.node := by
  have hload' : load manifest sourceDirectory t = .ok directories t := by
    rw [load, hload]
    rfl
  have hfind : findMissingSourceFiles cwd manifest sourceDirectory sourceDirectory t =
      .ok (missingSourceFiles cwd directories sourceDirectory t) t :=
    estate_bind_eq_ok.2 ⟨directories, t, hload', rfl⟩
  by_cases hmissing : missingSourceFiles cwd directories sourceDirectory t = []
  · obtain ⟨t', hinstall⟩ := (install_completes_iff h hvalid horderly).mpr
      fun directory hdirectory file hfile hcopied =>
        .inl (missingSourceFiles_eq_nil.1 hmissing directory hdirectory file hfile hcopied)
    have hmf : mfInstall cwd manifest sourceDirectory sourceDirectory targetDirectory t =
        .ok () t' :=
      estate_bind_eq_ok.2 ⟨directories, t, hload', hinstall⟩
    have hnode : t'.node = overlay source target (overlaySteps directories) t.node :=
      run_node h.apart h.clear ((h.install_eq_ok h.clear.onTheWay).mp hinstall).2
    refine .inr ⟨t', estate_bind_eq_ok.2 ⟨_, t, hfind, ?_⟩, hnode⟩
    rw [if_pos hmissing]
    exact estate_bind_eq_ok.2 ⟨(), t', hmf, rfl⟩
  · refine .inl ⟨_, hmissing, estate_bind_eq_ok.2 ⟨_, t, hfind, ?_⟩⟩
    rw [if_neg hmissing]
    rfl

theorem upgradeProject_completes_framework : (∃ missing, missing ≠ [] ∧
      upgradeProject [] frameworkManifest (text "/s") (text "/t") frameworkTree =
        .ok missing frameworkTree) ∨
    ∃ t', upgradeProject [] frameworkManifest (text "/s") (text "/t") frameworkTree =
        .ok [] t' ∧
      t'.node = overlay (pathLocation [] (text "/s")) (pathLocation [] (text "/t"))
        (overlaySteps frameworkDirectories) frameworkTree.node :=
  upgradeProject_completes loadFile_frameworkManifest framework_installable framework_valid
    framework_orderly

end Results

end ManageFiles

end Supernova
