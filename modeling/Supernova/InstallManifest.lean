/-
The manifest of the installer: directories with their files, and for each file
what has to hold of it.  A directory can have defaults for its files; a file that
asks for them is laid over them, in the dictionary of the directory itself.
-/
import Mathlib.Data.Rat.Defs
import Supernova.ExceptResults
import Supernova.LayeredMaps
import Supernova.StandardString

namespace Supernova

attribute [local semireducible] ByteArray.toList.loop

namespace ManageFiles

/-- A value as `json.load` gives it; the members of an object are ordered by key. -/
inductive Json
  | null
  | boolean (value : Bool)
  | number (value : Rat)
  | string (value : Bytes)
  | array (elements : List Json)
  | object (members : List (Bytes × Json))

/-- What a condition makes of a value. -/
def Json.truthy : Json → Bool
  | .null => false
  | .boolean value => value
  | .number value => value ≠ 0
  | .string value => value ≠ []
  | .array elements => !elements.isEmpty
  | .object members => !members.isEmpty

abbrev Dict := OrderedMap Bytes Json

/-- A dictionary display. -/
def dict (entries : List (Bytes × Json)) : Dict :=
  entries.foldl (fun d entry => d.assign entry.1 entry.2) .empty

/-- `File.Flags` -/
inductive Flag
  | mustExist
  | mustBeVersioned
  | deprecated
deriving DecidableEq, Repr

def Flag.key : Flag → Bytes
  | .mustExist => text "must_exist"
  | .mustBeVersioned => text "must_be_versioned"
  | .deprecated => text "deprecated"

/-- `File.Attrs` -/
inductive Attr
  | md5
  | useDefaults
  | install
deriving DecidableEq, Repr

def Attr.key : Attr → Bytes
  | .md5 => text "md5"
  | .useDefaults => text "use_defaults"
  | .install => text "install"

structure File where
  name : Bytes
  path : Bytes
  flags : Flag → Json
  attrs : Attr → Json

def slashByte : UInt8 := 47

/-- What asks for the defaults in a manifest that was written by the code. -/
def useDefaultsText : Json := .string (text "file_defaults_of_directory")

/-- `os.path.join` -/
def joinPath (path name : Bytes) : Bytes :=
  if name.head? = some slashByte then name
  else if path = [] ∨ path.getLast? = some slashByte then path ++ name
  else path ++ slashByte :: name

/-- A key that is absent makes a flag false and an attribute `None`. -/
def File.ofInput (baseName directory : Bytes) (inputSpecification : Dict) : File :=
  { name := baseName
    path := joinPath directory baseName
    flags := fun flag => (inputSpecification.find? flag.key).getD (.boolean false)
    attrs := fun attr => (inputSpecification.find? attr.key).getD .null }

def asksForDefaults (specification : Dict) : Bool :=
  specification.contains (text "use_defaults")

structure KeyError where
  key : Bytes
deriving DecidableEq, Repr

/-- The input specification of a file that asks for the defaults is the dictionary of the
directory, which the update changes. -/
def File.init (baseName : Bytes) (specification : Dict) (directory : Bytes)
    (fileDefaults : Option Dict) : Except KeyError (File × Option Dict) :=
  if asksForDefaults specification then
    match fileDefaults with
    | none => throw ⟨text "file_defaults"⟩
    | some defaults =>
        let inputSpecification := defaults.update specification
        pure (File.ofInput baseName directory inputSpecification, some inputSpecification)
  else pure (File.ofInput baseName directory (OrderedMap.empty.update specification), fileDefaults)

structure DirectorySpecification where
  install : Option Json
  files : List (Bytes × Dict)
  fileDefaults : Option Dict
  files_nodup : (files.map Prod.fst).Nodup

/-- A directory as loaded, with its defaults as loading leaves them. -/
structure Directory where
  name : Bytes
  install : Json
  files : List File
  fileDefaults : Option Dict

def addFiles (directory : Bytes) :
    Option Dict → List (Bytes × Dict) → Except KeyError (List File × Option Dict)
  | fileDefaults, [] => pure ([], fileDefaults)
  | fileDefaults, entry :: files => do
      let added ← File.init entry.1 entry.2 directory fileDefaults
      let later ← addFiles directory added.2 files
      pure (added.1 :: later.1, later.2)

def directoryPath (basename projectDirectory : Bytes) : Bytes :=
  if basename = text "." then projectDirectory else joinPath projectDirectory basename

def Directory.init (basename : Bytes) (specification : DirectorySpecification)
    (projectDirectory : Bytes) : Except KeyError Directory := do
  let added ← addFiles (directoryPath basename projectDirectory) specification.fileDefaults
    specification.files
  pure
    { name := basename
      install := specification.install.getD .null
      files := added.1
      fileDefaults := added.2 }

/-- A files manifest, in the order of the text. -/
structure Manifest where
  directories : List (Bytes × DirectorySpecification)
  directories_nodup : (directories.map Prod.fst).Nodup

def loadFile (manifest : Manifest) (projectDirectory : Bytes) :
    Except KeyError (List Directory) :=
  manifest.directories.mapM fun entry => Directory.init entry.1 entry.2 projectDirectory

section Promise

/-- The defaults, if the file asks for them, overridden by its own specification. -/
def ownInput (fileDefaults : Option Dict) (specification : Dict) : Dict :=
  if asksForDefaults specification then (fileDefaults.getD .empty).update specification
  else specification

/-- What a directory is loaded as when its files do not affect each other. -/
def LoadedPerFile (projectDirectory : Bytes) (entry : Bytes × DirectorySpecification)
    (directory : Directory) : Prop :=
  directory.files = entry.2.files.map (fun file =>
      File.ofInput file.1 (directoryPath entry.1 projectDirectory)
        (ownInput entry.2.fileDefaults file.2)) ∧
    directory.fileDefaults = entry.2.fileDefaults

namespace DirectorySpecification

variable (specification : DirectorySpecification)

def defaults : Dict := specification.fileDefaults.getD .empty

/-- The value that the last asking file among some leaves in the defaults. -/
def leftBy (files : List (Bytes × Dict)) (key : Bytes) : Option Json :=
  lastValue key (specification.defaults.find? key)
    ((files.map Prod.snd).filter asksForDefaults)

/-- What asking files override is not seen by others and is put back in the end. -/
structure Unaffected : Prop where
  others : ∀ before file after, specification.files = before ++ file :: after →
    asksForDefaults file.2 = true →
      (∀ flag : Flag, file.2.find? flag.key = none →
        (specification.leftBy before flag.key).getD (.boolean false) =
          (specification.defaults.find? flag.key).getD (.boolean false)) ∧
      ∀ attr : Attr, file.2.find? attr.key = none →
        (specification.leftBy before attr.key).getD .null =
          (specification.defaults.find? attr.key).getD .null
  restored : ∀ key, specification.leftBy specification.files key =
    specification.defaults.find? key

end DirectorySpecification

end Promise

section Loading

variable {directory : Bytes} {defaults : Dict} {files : List (Bytes × Dict)}

/-- The defaults after a file. -/
def nextDefaults (defaults specification : Dict) : Dict :=
  if asksForDefaults specification then defaults.update specification else defaults

/-- The input specification of a file. -/
def inputAfter (defaults specification : Dict) : Dict :=
  if asksForDefaults specification then defaults.update specification else specification

def loadedFiles (directory : Bytes) : Dict → List (Bytes × Dict) → List File
  | _, [] => []
  | defaults, file :: files =>
      File.ofInput file.1 directory (inputAfter defaults file.2) ::
        loadedFiles directory (nextDefaults defaults file.2) files

theorem addFiles_eq_ok {fileDefaults : Option Dict} {added : List File × Option Dict}
    (h : addFiles directory fileDefaults files = .ok added) :
    added.1 = loadedFiles directory (fileDefaults.getD .empty) files ∧
      added.2 = fileDefaults.map fun defaults =>
        carried asksForDefaults defaults (files.map Prod.snd) := by
  induction files generalizing fileDefaults added with
  | nil =>
      obtain rfl := except_pure_eq_ok.1 h
      exact ⟨rfl, by simp [carried]⟩
  | cons file files ih =>
      obtain ⟨first, hfirst, h⟩ := except_bind_eq_ok.1 h
      obtain ⟨later, hlater, h⟩ := except_bind_eq_ok.1 h
      obtain rfl := except_pure_eq_ok.1 h
      obtain ⟨hfiles, hdefaults⟩ := ih hlater
      unfold File.init at hfirst
      rw [loadedFiles, inputAfter, nextDefaults, List.map_cons]
      simp only [carried_cons]
      by_cases hasks : asksForDefaults file.2 = true
      · rw [if_pos hasks] at hfirst
        rcases fileDefaults with _ | defaults
        · cases hfirst
        · obtain rfl := except_pure_eq_ok.1 hfirst
          simp only [hasks, if_true]
          exact ⟨congrArg _ hfiles, hdefaults⟩
      · rw [if_neg hasks] at hfirst
        obtain rfl := except_pure_eq_ok.1 hfirst
        simp only [hasks, OrderedMap.empty_update]
        exact ⟨congrArg _ hfiles, hdefaults⟩

/-- Files are loaded as they are on their own when each asking one finds the defaults as they
were. -/
theorem loadedFiles_eq_map_iff {fileDefaults : Option Dict} (done : List (Bytes × Dict)) :
    loadedFiles directory
        (carried asksForDefaults (fileDefaults.getD .empty) (done.map Prod.snd)) files =
      files.map (fun file => File.ofInput file.1 directory (ownInput fileDefaults file.2)) ↔
    ∀ before file after, files = before ++ file :: after → asksForDefaults file.2 = true →
      File.ofInput file.1 directory
          ((carried asksForDefaults (fileDefaults.getD .empty)
            ((done ++ before).map Prod.snd)).update file.2) =
        File.ofInput file.1 directory ((fileDefaults.getD .empty).update file.2) := by
  induction files generalizing done with
  | nil => simp [loadedFiles]
  | cons first files ih =>
      have hnext : nextDefaults
          (carried asksForDefaults (fileDefaults.getD .empty) (done.map Prod.snd)) first.2 =
          carried asksForDefaults (fileDefaults.getD .empty)
            ((done ++ [first]).map Prod.snd) := by
        rw [List.map_append, List.map_singleton, carried_concat]
        rfl
      rw [loadedFiles, List.map_cons, List.cons.injEq, hnext, ih]
      constructor
      · rintro ⟨hfirst, hlater⟩ before file after hsplit hasks
        rcases before with _ | ⟨head, before⟩
        · obtain ⟨rfl, rfl⟩ := List.cons.inj hsplit
          simpa [inputAfter, ownInput, hasks] using hfirst
        · obtain ⟨rfl, htail⟩ := List.cons.inj hsplit
          have h := hlater before file after htail hasks
          rwa [List.append_assoc] at h
      · intro h
        refine ⟨?_, fun before file after hsplit hasks => ?_⟩
        · by_cases hasks : asksForDefaults first.2 = true
          · simpa [inputAfter, ownInput, hasks] using h [] first files rfl hasks
          · simp [inputAfter, ownInput, hasks]
        · have hlater := h (first :: before) file after (by rw [hsplit]; rfl) hasks
          rwa [List.append_assoc]

theorem ofInput_eq_iff {name : Bytes} {input input' : Dict} :
    File.ofInput name directory input = File.ofInput name directory input' ↔
      (∀ flag : Flag, (input.find? flag.key).getD (.boolean false) =
        (input'.find? flag.key).getD (.boolean false)) ∧
      ∀ attr : Attr, (input.find? attr.key).getD .null = (input'.find? attr.key).getD .null := by
  simp [File.ofInput, funext_iff]

/-- Where a file says something itself, what is under it does not matter. -/
theorem getD_update_eq_iff {under under' specification : Dict} {key : Bytes} {default : Json} :
    ((under.update specification).find? key).getD default =
        ((under'.update specification).find? key).getD default ↔
      (specification.find? key = none →
        (under.find? key).getD default = (under'.find? key).getD default) := by
  rw [OrderedMap.find?_update, OrderedMap.find?_update]
  rcases specification.find? key with _ | value
  · simp
  · simp

/-- Without defaults no file asks for them. -/
theorem asksForDefaults_of_addFiles {added : List File × Option Dict}
    (h : addFiles directory none files = .ok added) :
    (files.map Prod.snd).filter asksForDefaults = [] := by
  induction files generalizing added with
  | nil => rfl
  | cons file files ih =>
      obtain ⟨first, hfirst, h⟩ := except_bind_eq_ok.1 h
      obtain ⟨later, hlater, -⟩ := except_bind_eq_ok.1 h
      unfold File.init at hfirst
      by_cases hasks : asksForDefaults file.2 = true
      · rw [if_pos hasks] at hfirst
        cases hfirst
      · rw [if_neg hasks] at hfirst
        obtain rfl := except_pure_eq_ok.1 hfirst
        rw [List.map_cons, List.filter_cons, if_neg hasks]
        exact ih hlater

theorem restored_iff {specification : DirectorySpecification} {added : List File × Option Dict}
    (h : addFiles directory specification.fileDefaults specification.files = .ok added) :
    added.2 = specification.fileDefaults ↔
      ∀ key, specification.leftBy specification.files key = specification.defaults.find? key := by
  rw [(addFiles_eq_ok h).2]
  unfold DirectorySpecification.leftBy DirectorySpecification.defaults
  rcases hdefaults : specification.fileDefaults with _ | defaults
  · rw [hdefaults] at h
    rw [asksForDefaults_of_addFiles h]
    exact iff_of_true rfl fun _ => rfl
  · simp only [Option.map_some, Option.some.injEq, Option.getD_some, ← find?_carried]
    exact ⟨fun heq key => by rw [heq], OrderedMap.ext_find?⟩

theorem others_iff {specification : DirectorySpecification} {before : List (Bytes × Dict)}
    {file : Bytes × Dict} :
    File.ofInput file.1 directory
        ((carried asksForDefaults specification.defaults (before.map Prod.snd)).update file.2) =
      File.ofInput file.1 directory (specification.defaults.update file.2) ↔
    (∀ flag : Flag, file.2.find? flag.key = none →
      (specification.leftBy before flag.key).getD (.boolean false) =
        (specification.defaults.find? flag.key).getD (.boolean false)) ∧
    ∀ attr : Attr, file.2.find? attr.key = none →
      (specification.leftBy before attr.key).getD .null =
        (specification.defaults.find? attr.key).getD .null := by
  simp only [ofInput_eq_iff, getD_update_eq_iff, find?_carried]
  rfl

theorem Directory.loadedPerFile_iff {entry : Bytes × DirectorySpecification}
    {projectDirectory : Bytes} {loaded : Directory}
    (h : Directory.init entry.1 entry.2 projectDirectory = .ok loaded) :
    LoadedPerFile projectDirectory entry loaded ↔ entry.2.Unaffected := by
  obtain ⟨added, hadded, h⟩ := except_bind_eq_ok.1 h
  obtain rfl := except_pure_eq_ok.1 h
  have hfiles := @loadedFiles_eq_map_iff (directoryPath entry.1 projectDirectory)
    entry.2.files entry.2.fileDefaults []
  change added.1 = _ ∧ added.2 = _ ↔ _
  rw [restored_iff hadded, (addFiles_eq_ok hadded).1]
  constructor
  · rintro ⟨hothers, hrestored⟩
    refine ⟨fun before file after hsplit hasks => ?_, hrestored⟩
    exact others_iff.1 (hfiles.mp hothers before file after hsplit hasks)
  · rintro ⟨hothers, hrestored⟩
    refine ⟨hfiles.mpr fun before file after hsplit hasks => ?_, hrestored⟩
    exact others_iff.2 (hothers before file after hsplit hasks)

/-- The attributes of files are their own in all directories exactly when what asking files
override is in none seen by others, and put back in the end. -/
theorem attributesPerFile_iff {manifest : Manifest} {projectDirectory : Bytes}
    {directories : List Directory} (h : loadFile manifest projectDirectory = .ok directories) :
    List.Forall₂ (LoadedPerFile projectDirectory) manifest.directories directories ↔
      ∀ entry ∈ manifest.directories, entry.2.Unaffected := by
  have hloaded := mapM_eq_ok.1 h
  clear h
  generalize manifest.directories = entries at hloaded
  induction hloaded with
  | nil => simp
  | cons hfirst _ ih =>
      rw [List.forall₂_cons, List.forall_mem_cons, Directory.loadedPerFile_iff hfirst]
      exact and_congr_right fun _ => ih

end Loading

section Instances

/-- The first file overrides a default, the second one does not. -/
def overriding : DirectorySpecification :=
  { install := none
    files := [
      (text "first.h", dict [(text "use_defaults", useDefaultsText),
        (text "must_exist", .boolean false)]),
      (text "second.h", dict [(text "use_defaults", useDefaultsText)])]
    fileDefaults := some (dict [(text "must_exist", .boolean true)])
    files_nodup := by decide }

/-- A file overrides the defaults where it does not ask for them. -/
def separate : DirectorySpecification :=
  { install := some (.string (text "create"))
    files := [
      (text "first.h", dict [(text "use_defaults", useDefaultsText)]),
      (text "second.h", dict [(text "must_exist", .boolean false)])]
    fileDefaults := some (dict [(text "must_exist", .boolean true),
      (text "use_defaults", useDefaultsText)])
    files_nodup := by decide }

def Manifest.single (specification : DirectorySpecification) : Manifest :=
  ⟨[(text "bin", specification)], List.pairwise_singleton _ _⟩

theorem exists_loaded (manifest : Manifest) (projectDirectory : Bytes)
    (h : (loadFile manifest projectDirectory).toBool = true) :
    ∃ directories, loadFile manifest projectDirectory = .ok directories := by
  rcases hload : loadFile manifest projectDirectory with error | directories
  · rw [hload] at h
    cases h
  · exact ⟨directories, rfl⟩

theorem separate_unaffected : separate.Unaffected := by
  refine ⟨fun before file after hsplit hasks => ?_, fun key => ?_⟩
  · rcases before with _ | ⟨first, _ | ⟨second, before⟩⟩
    · exact ⟨fun _ _ => rfl, fun _ _ => rfl⟩
    · -- the second file does not ask
      obtain ⟨-, hsplit⟩ := List.cons.inj hsplit
      obtain ⟨rfl, -⟩ := List.cons.inj hsplit
      exact absurd hasks (by decide)
    · have hlength := congrArg List.length hsplit
      simp [separate] at hlength
  · have hasking : (separate.files.map Prod.snd).filter asksForDefaults =
        [dict [(text "use_defaults", useDefaultsText)]] := by
      have hfirst : asksForDefaults (dict [(text "use_defaults", useDefaultsText)]) = true := by
        decide
      have hsecond : asksForDefaults (dict [(text "must_exist", .boolean false)]) = false := by
        decide
      simp [separate, hfirst, hsecond]
    rw [DirectorySpecification.leftBy, hasking]
    change ((dict [(text "use_defaults", useDefaultsText)]).find? key).or
      (separate.defaults.find? key) = separate.defaults.find? key
    simp only [dict, separate, DirectorySpecification.defaults, Option.getD_some,
      List.foldl_cons, List.foldl_nil, OrderedMap.find?_assign, OrderedMap.find?_empty]
    split_ifs
    · rfl
    · rfl
    · rfl

theorem separate_loadedPerFile : ∃ directories,
    loadFile (.single separate) (text "/server") = .ok directories ∧
      List.Forall₂ (LoadedPerFile (text "/server")) (Manifest.single separate).directories
        directories := by
  obtain ⟨directories, hload⟩ := exists_loaded (.single separate) (text "/server")
    (by decide)
  refine ⟨directories, hload, (attributesPerFile_iff hload).mpr ?_⟩
  rintro entry hentry
  obtain rfl := List.mem_singleton.mp hentry
  exact separate_unaffected

/-- The second file does not have to exist, although the defaults say that it must. -/
theorem overriding_leaks : ∃ directories,
    loadFile (.single overriding) (text "/server") = .ok directories ∧
      ¬List.Forall₂ (LoadedPerFile (text "/server")) (Manifest.single overriding).directories
        directories := by
  obtain ⟨directories, hload⟩ := exists_loaded (.single overriding) (text "/server")
    (by decide)
  refine ⟨directories, hload, fun h => ?_⟩
  rcases h with _ | ⟨hfirst, -⟩
  have hloaded := (List.forall₂_cons.mp (mapM_eq_ok.1 hload)).1
  obtain ⟨hothers, -⟩ := (Directory.loadedPerFile_iff hloaded).mp hfirst
  have hflag := (hothers [_] _ [] rfl (by decide)).1 .mustExist (by decide)
  exact absurd (congrArg Json.truthy hflag) (by decide)

end Instances

end ManageFiles

end Supernova
