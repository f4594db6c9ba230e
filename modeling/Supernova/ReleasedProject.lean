/-
A framework that is released, installed in a project and checked there: what the check
misses or finds changed is only what the installer leaves to the project.
-/
import Supernova.ConsistencyCheck
import Supernova.Installation

namespace Supernova

attribute [local semireducible] ByteArray.toList.loop

namespace ManageFiles

open OverlayStep

section Paths

variable {cwd : List Bytes} {t : Tree} {project : Bytes} {location found : List Bytes}
  {directory : Directory} {file : File} {content : Bytes}

/-- The path of a file of the manifest, as the manifest is loaded in a project. -/
def filePath (directory : Directory) (file : File) (project : Bytes) : Bytes :=
  joinPath (directoryPath directory.name project) file.name

theorem Stands.resolvePath_filePath (h : Stands cwd t project location)
    (hdirectory : PlainPath directory.name) (hfile : PlainName file.name) :
    resolvePath cwd t (filePath directory file project) = .ok found ↔
      t.node (relativeLocation directory.name ++ location) = some .directory ∧
        found = entryLocation directory file ++ location := by
  by_cases hdot : directory.name = text "."
  · have hhere : relativeLocation directory.name = [] := by
      rw [hdot, relativeLocation, pathSegments_dot]
      rfl
    rw [filePath, directoryPath, if_pos hdot, h.resolvePath_joinPath hfile.relative,
      hfile.pathSegments, FileTree.resolve_cons_eq_ok, entryLocation, hhere]
    constructor
    · rintro ⟨hnode, hfound⟩
      exact ⟨hnode, (Except.ok.inj hfound).symm⟩
    · rintro ⟨hnode, rfl⟩
      exact ⟨hnode, rfl⟩
  · rw [filePath, directoryPath, if_neg hdot]
    exact h.resolvePath_entryPath hdirectory hfile

theorem Stands.contents_filePath (h : Stands cwd t project location)
    (hdirectory : PlainPath directory.name) (hfile : PlainName file.name) :
    contents cwd t (filePath directory file project) = some content ↔
      t.node (entryLocation directory file ++ location) = some (.file content) := by
  simp only [contents_eq_some, h.resolvePath_filePath hdirectory hfile]
  constructor
  · rintro ⟨_, ⟨-, rfl⟩, hnode⟩
    exact hnode
  · intro hnode
    exact ⟨_, ⟨(FileTree.directory_tail hnode).2, rfl⟩, hnode⟩

theorem path_of_mem_loadedFiles {path : Bytes} {defaults : Dict} {files : List (Bytes × Dict)}
    (h : file ∈ loadedFiles path defaults files) : file.path = joinPath path file.name := by
  induction files generalizing defaults with
  | nil => cases h
  | cons first files ih =>
      rcases List.mem_cons.mp h with rfl | h
      · rfl
      · exact ih h

theorem path_of_loadFile {manifest : Manifest} {directories : List Directory}
    (hload : loadFile manifest project = .ok directories) (hdirectory : directory ∈ directories)
    (hfile : file ∈ directory.files) : file.path = filePath directory file project := by
  obtain ⟨entry, -, h⟩ := source_of_mem_mapM hload hdirectory
  obtain ⟨added, hadded, h⟩ := except_bind_eq_ok.1 h
  obtain rfl := except_pure_eq_ok.1 h
  change file ∈ added.1 at hfile
  rw [(addFiles_eq_ok hadded).1] at hfile
  exact path_of_mem_loadedFiles hfile

end Paths

section Released

variable {computeMd5 : Bytes → Option Bytes} {listed directories : List Directory}
  {released : Manifest} {directory : Directory} {file : File}

theorem exists_of_mapM_eq_some {α β : Type} {f : α → Option β} {as : List α} {bs : List β}
    (h : as.mapM f = some bs) : ∀ a ∈ as, ∃ b, f a = some b := by
  induction as generalizing bs with
  | nil => exact fun a ha => absurd ha List.not_mem_nil
  | cons a as ih =>
      rw [List.mapM_cons] at h
      obtain ⟨b, hb, h⟩ := Option.bind_eq_some_iff.mp h
      obtain ⟨rest, hrest, -⟩ := Option.bind_eq_some_iff.mp h
      exact List.forall_mem_cons.mpr ⟨⟨b, hb⟩, ih hrest⟩

/-- A release has the checksum of every file that is checked. -/
theorem md5_of_createRelease (hreleased : createRelease computeMd5 listed = some released)
    (hdirectory : directory ∈ listed) (hfile : file ∈ directory.files)
    (hchecked : file.mustBeMd5Checked = true) :
    ∃ md5, computeMd5 file.path = some md5 ∧
      (file.withMd5 computeMd5).attrs .md5 = .string md5 := by
  obtain ⟨all, hall, -⟩ := Option.bind_eq_some_iff.mp hreleased
  obtain ⟨directory', hdirectory'⟩ := exists_of_mapM_eq_some hall directory hdirectory
  obtain ⟨files, hfiles, -⟩ := Option.bind_eq_some_iff.mp hdirectory'
  obtain ⟨file', hfile'⟩ := exists_of_mapM_eq_some hfiles file hfile
  rw [if_pos hchecked] at hfile'
  obtain ⟨md5, hmd5, rfl⟩ := Option.map_eq_some_iff.mp hfile'
  refine ⟨md5, hmd5, ?_⟩
  rw [File.withMd5, if_pos hchecked, File.makeMd5, hmd5]
  rfl

/-- A checksum in a release is the one of what was read. -/
theorem md5_of_contents {md5 : Bytes → Bytes} {cwd : List Bytes} {t : Tree}
    (hreleased : createRelease (ManageFiles.computeMd5 md5 cwd t) listed = some released)
    (hdirectory : directory ∈ listed) (hfile : file ∈ directory.files)
    (hchecked : (file.withMd5 (ManageFiles.computeMd5 md5 cwd t)).mustBeMd5Checked = true) :
    ∃ content, contents cwd t file.path = some content ∧
      (file.withMd5 (ManageFiles.computeMd5 md5 cwd t)).attrs .md5 = .string (md5 content) := by
  have hfileChecked : file.mustBeMd5Checked = true := by
    rw [File.mustBeMd5Checked] at hchecked ⊢
    rwa [Attr.isNull_eq (file.same_withMd5 _ .md5)]
  obtain ⟨value, hvalue, hattr⟩ := md5_of_createRelease hreleased hdirectory hfile hfileChecked
  obtain ⟨content, hcontent, rfl⟩ := Option.map_eq_some_iff.mp hvalue
  exact ⟨content, hcontent, hattr⟩

/-- The checksum is not inherited. -/
theorem md5_reloadedFile (project : Bytes)
    (huse : (file.attrs .useDefaults).truthy = false → file.attrs .useDefaults = .null) :
    (directory.reloadedFile computeMd5 project file).attrs .md5 =
      (file.withMd5 computeMd5).attrs .md5 := by
  have hinput : ∀ input : Dict,
      (((inputAfter input (file.withMd5 computeMd5).jsonRepr).find? Attr.md5.key).getD .null) =
        (file.withMd5 computeMd5).attrs .md5 := by
    intro input
    have hentry := (file.withMd5 computeMd5).find?_jsonRepr_attr .md5
    rw [inputAfter, File.asks_jsonRepr]
    rw [File.useDefaults_withMd5] at hentry ⊢
    by_cases htruthy : (file.attrs .useDefaults).truthy = true
    · rw [Json.isNull_eq_false htruthy, Bool.not_false, if_pos rfl, OrderedMap.find?_update,
        hentry, if_pos htruthy]
      rfl
    · rw [huse (Bool.eq_false_iff.mpr htruthy)] at hentry ⊢
      change ((if false = true then _ else (file.withMd5 computeMd5).jsonRepr).find? _).getD _ = _
      rw [if_neg Bool.false_ne_true, hentry, Json.truthy_null, if_neg Bool.false_ne_true]
      split_ifs with hnull
      · exact (Json.eq_null hnull).symm
      · rfl
  exact hinput _

/-- What is loaded from a release is what was listed, reloaded. -/
theorem mem_loaded_released {original : Manifest} {project project' : Bytes}
    (hlisted : loadFile original project = .ok listed)
    (hreleased : createRelease computeMd5 listed = some released)
    (hload : loadFile released project' = .ok directories) :
    directory ∈ directories ↔
      ∃ source ∈ listed, directory = source.reloaded computeMd5 project' := by
  obtain ⟨hnodup, hloaded⟩ := loaded_of_loadFile hlisted
  obtain rfl := Except.ok.inj
    (hload.symm.trans (loadFile_written project' hnodup hloaded hreleased))
  rw [List.mem_map]
  constructor
  · rintro ⟨entry, hentry, rfl⟩
    exact ⟨entry.2, ((OrderedMap.mem_byKey hnodup).mp hentry).1, rfl⟩
  · rintro ⟨source, hsource, rfl⟩
    exact ⟨(source.name, source), (OrderedMap.mem_byKey hnodup).mpr ⟨hsource, rfl⟩, rfl⟩

theorem Directory.mem_reloaded_iff (h : directory.Loaded) (project : Bytes) :
    file ∈ (directory.reloaded computeMd5 project).files ↔
      ∃ source ∈ directory.files, file = directory.reloadedFile computeMd5 project source := by
  obtain ⟨hnodup, hnames⟩ := Directory.names_reloaded computeMd5 h project
  constructor
  · intro hfile
    obtain ⟨source, hsource, hname⟩ :=
      List.mem_map.mp ((hnames file.name).mpr (List.mem_map_of_mem hfile))
    refine ⟨source, hsource, List.inj_on_of_nodup_map hnodup hfile
      (Directory.mem_reloaded h project hsource) hname.symm⟩
  · rintro ⟨source, hsource, rfl⟩
    exact Directory.mem_reloaded h project hsource

end Released

section Installed

variable {cwd : List Bytes} {directories : List Directory}
  {sourceDirectory targetDirectory : Bytes} {source target : List Bytes} {t t' : Tree}
  {directory : Directory} {file : File}

/-- The installer takes nothing to the place of the file, or finds one there that it keeps. -/
structure LeftToProject (cwd : List Bytes) (t : Tree) (targetDirectory : Bytes)
    (directory : Directory) (file : File) : Prop where
  not_overwritten : file.installAction.isText (text "overwrite") = false
  there : file.installAction.isText (text "copy_if_not_existing") = true →
    isfile cwd t (entryPath targetDirectory directory.name file.name) = true

instance : Decidable (LeftToProject cwd t targetDirectory directory file) :=
  decidable_of_iff (_ ∧ _) ⟨fun h => ⟨h.1, h.2⟩, fun h => ⟨h.1, h.2⟩⟩

/-- A file that is not left to the project is in the target as it is in the source. -/
theorem Installable.node_of_install
    (h : Installable cwd directories sourceDirectory targetDirectory source target t)
    (hrun : install cwd directories sourceDirectory targetDirectory t = .ok () t')
    (hdirectory : directory ∈ directories) (hfile : file ∈ directory.files)
    (hinstalled : ¬ LeftToProject cwd t targetDirectory directory file) :
    ∃ content, t.node (entryLocation directory file ++ source) = some (.file content) ∧
      t'.node (entryLocation directory file ++ target) = some (.file content) := by
  have hentry : Entry.ofFile directory file ∈ entries directories :=
    mem_entries_ofFile.2 ⟨hdirectory, hfile⟩
  have hsteps := ((h.install_eq_ok h.clear.onTheWay).mp hrun).2
  have hsupplied := h.clear.onTheWay.supplied_of_run h.apart (fun _ hstep => hstep) hsteps
  have hmem : ∀ step ∈ file.steps directory, step ∈ overlaySteps directories :=
    fun step hstep => mem_overlaySteps hentry hstep
  rw [run_node h.apart h.clear hsteps]
  by_cases hoverwrite : file.installAction.isText (text "overwrite") = true
  · rw [File.steps, if_pos hoverwrite] at hmem
    have hstep := hmem _ List.mem_cons_self
    obtain ⟨content, hsource⟩ := hsupplied _ hstep
    exact ⟨content, hsource,
      (overlay_overwrite (h.clear.not_created _ hstep rfl) hstep).trans hsource⟩
  · have hprovide : file.installAction.isText (text "copy_if_not_existing") = true ∧
        isfile cwd t (entryPath targetDirectory directory.name file.name) ≠ true := by
      by_contra hnot
      rw [not_and_not_right] at hnot
      exact hinstalled ⟨Bool.eq_false_iff.mpr hoverwrite, hnot⟩
    obtain ⟨hplain, hname⟩ := h.plain _ hentry
    have hnofile := hprovide.2
    rw [Ne, h.target_stands.isfile_entryPath hplain hname] at hnofile
    rw [File.steps, if_neg hoverwrite, if_pos hprovide.1] at hmem
    have hstep := hmem _ List.mem_cons_self
    have hnone : t.node (entryLocation directory file ++ target) = none := by
      rcases hnode : t.node (entryLocation directory file ++ target) with _ | (_ | content)
      · rfl
      · exact absurd hnode (h.clear.not_directory _ hstep rfl)
      · exact absurd ⟨content, hnode⟩ hnofile
    obtain ⟨content, hsource⟩ : ∃ content,
        t.node (entryLocation directory file ++ source) = some (.file content) := by
      rcases hsupplied _ hstep with hthere | hsource
      · exact absurd hthere hnofile
      · exact hsource
    refine ⟨content, hsource, ?_⟩
    rcases overlay_provide source target t.node (h.clear.not_created _ hstep rfl) hstep with
      hcopied | ⟨-, hsome⟩
    · exact hcopied.trans hsource
    · exact absurd hnone hsome

end Installed

section Checked

variable {md5 : Bytes → Bytes} {isVersioned : Bytes → Bool} {cwd : List Bytes} {t : Tree}
  {classes : List Bytes} {directories : List Directory} {project : Bytes}
  {problems : List Problem} {problem : Problem}

theorem mem_modify {α : Type} {f : α → α} {l : List α} {place : Nat} {a : α}
    (h : a ∈ l.modify place f) : ∃ b ∈ l, a = b ∨ a = f b := by
  obtain ⟨i, hi⟩ := List.mem_iff_getElem?.mp h
  rw [List.getElem?_modify] at hi
  obtain ⟨b, hb, rfl⟩ := Option.map_eq_some_iff.mp hi
  refine ⟨b, List.mem_of_getElem? hb, ?_⟩
  split_ifs
  · exact .inr rfl
  · exact .inl rfl

theorem mustBeMd5Checked_deviceSpecification (name directory : Bytes) :
    (File.ofInput name directory deviceSpecification).mustBeMd5Checked = false := by
  have hnone : deviceSpecification.find? Attr.md5.key = none := by decide
  change (!((deviceSpecification.find? Attr.md5.key).getD .null).isNull) = false
  rw [hnone]
  rfl

/-- Of the file of a class nothing but the file itself can be missing. -/
theorem eq_mustExist_of_deviceFiles {file : File} {className : Bytes}
    (hfile : file ∈ deviceFiles project className)
    (h : problem ∈ file.checkConsistency md5 isVersioned cwd t)
    (hcontents : problem.isOfContents = true) : problem = .mustExist file.path := by
  have hunchecked : file.mustBeMd5Checked = false := by
    rcases List.mem_cons.mp hfile with rfl | hfile
    · exact mustBeMd5Checked_deviceSpecification _ _
    · obtain rfl := List.mem_singleton.mp hfile
      exact mustBeMd5Checked_deviceSpecification _ _
  simp only [File.checkConsistency, List.mem_append, List.mem_ite_nil_right,
    List.mem_singleton] at h
  rcases h with ((⟨-, rfl⟩ | ⟨-, rfl⟩) | ⟨hchecked, -⟩) | ⟨-, rfl⟩
  · rfl
  · cases hcontents
  · rw [hunchecked] at hchecked
    cases hchecked
  · cases hcontents

/-- A problem is one of a file of the manifest or of a class. -/
theorem checkConsistency_cases
    (h : checkConsistency md5 isVersioned cwd t classes directories project = .ok problems)
    (hproblem : problem ∈ problems) :
    (∃ directory ∈ directories, ∃ file ∈ directory.files,
      problem ∈ file.checkConsistency md5 isVersioned cwd t) ∨
    ∃ className ∈ classes, ∃ file ∈ deviceFiles project className,
      problem ∈ file.checkConsistency md5 isVersioned cwd t := by
  rw [checkConsistency] at h
  split at h
  · obtain rfl := except_pure_eq_ok.1 h
    obtain ⟨directory, hdirectory, hproblem⟩ := List.mem_flatMap.mp hproblem
    obtain ⟨file, hfile, hproblem⟩ := List.mem_flatMap.mp hproblem
    obtain ⟨directory', hdirectory', hsame | hadded⟩ := mem_modify hdirectory
    · rw [hsame] at hfile
      exact .inl ⟨directory', hdirectory', file, hfile, hproblem⟩
    · rw [hadded] at hfile
      rcases List.mem_append.mp hfile with hfile | hfile
      · exact .inl ⟨directory', hdirectory', file, hfile, hproblem⟩
      · obtain ⟨className, hclass, hfile⟩ := List.mem_flatMap.mp hfile
        exact .inr ⟨className, hclass, file, hfile, hproblem⟩
  · cases h

end Checked

section Results

variable {cwd releaseCwd checkCwd : List Bytes} {original released : Manifest}
  {listed directories checked : List Directory}
  {releaseDirectory sourceDirectory targetDirectory loadDirectory project : Bytes}
  {releaseSource source target : List Bytes} {r t t' : Tree} {md5 : Bytes → Bytes}
  {isVersioned : Bytes → Bool} {classes : List Bytes} {problems : List Problem}

theorem Installable.onTheWay
    (h : Installable cwd directories sourceDirectory targetDirectory source target t)
    (hrun : install cwd directories sourceDirectory targetDirectory t = .ok () t') :
    OnTheWay source target (overlaySteps directories) t t' :=
  (h.clear.onTheWay.run h.apart (fun _ hstep => hstep)
    ((h.install_eq_ok h.clear.onTheWay).mp hrun).2).1

section Motor

/-- A framework with an empty file at `/s` and an empty project at `/t`. -/
def motorTree : Tree :=
  ((FileTree.empty.put [115] [] .directory rfl fun _ => rfl).put
    [116] [] .directory (by decide) fun _ => rfl).put
    [102] [[115]] (.file []) (by decide) (by decide)

def motorManifest : Manifest where
  directories :=
    [(text ".",
      { install := none
        files := [(text "f", dict [(text "install", .string (text "overwrite")),
          (text "must_exist", .boolean true), (text "md5", .string [])])]
        fileDefaults := none
        files_nodup := List.nodup_singleton _ }),
     (text "Device/include", ⟨none, [], none, List.nodup_nil⟩),
     (text "Device/src", ⟨none, [], none, List.nodup_nil⟩)]
  directories_nodup := by decide

def motorListed : List Directory :=
  (loadFile motorManifest (text "/s")).toOption.getD []

def motorMd5 : Bytes → Option Bytes := computeMd5 (fun _ => emptyFileMd5) [] motorTree

def motorRelease : Manifest :=
  (createRelease motorMd5 motorListed).getD ⟨[], List.nodup_nil⟩

def motorDirectories (project : Bytes) : List Directory :=
  (loadFile motorRelease project).toOption.getD []

theorem eq_ok_of_isSome {ε α : Type} {result : Except ε α} (default : α)
    (h : result.toOption.isSome = true) : result = .ok (result.toOption.getD default) := by
  rcases result with error | value
  · cases h
  · rfl

theorem motor_installable : Installable [] (motorDirectories (text "/s")) (text "/s") (text "/t")
    (pathLocation [] (text "/s")) (pathLocation [] (text "/t")) motorTree where
  source_stands := stands_of_isdir (by decide)
  target_stands := stands_of_isdir (by decide)
  apart := ⟨by decide, by decide⟩
  plain := by decide
  clear := ⟨by decide, by decide⟩

theorem motor_orderly : Orderly (pathLocation [] (text "/t"))
    (overlaySteps (motorDirectories (text "/s"))) motorTree := by
  have hsteps : overlaySteps (motorDirectories (text "/s")) = [.overwrite [text "f"]] := by
    decide
  rw [hsteps]
  constructor
  · intro before step after h
    rcases before with _ | ⟨_, before⟩
    · obtain ⟨rfl, -⟩ := List.cons.inj h
      exact .inl (by decide)
    · have hlength := congrArg List.length h
      simp at hlength
  · intro relative content hmem
    simp at hmem

theorem motor_exists_install : ∃ t', install [] (motorDirectories (text "/s")) (text "/s")
    (text "/t") motorTree = .ok () t' :=
  (install_completes_iff motor_installable (by decide) motor_orderly).mpr
    (by decide)

theorem motor_exists_check (t' : Tree) : ∃ problems,
    checkConsistency (fun _ => emptyFileMd5) (fun _ => true) [] t' [text "Motor"]
      (motorDirectories (text "/t")) (text "/t") = .ok problems := by
  have hinclude : ((motorDirectories (text "/t")).findIdx? fun directory =>
      directory.name == text "Device/include") = some 1 := by decide
  have hsrc : ((motorDirectories (text "/t")).findIdx? fun directory =>
      directory.name == text "Device/src") = some 2 := by decide
  rw [checkConsistency, hinclude, hsrc]
  exact ⟨_, rfl⟩

end Motor

end Results

end ManageFiles

end Supernova
