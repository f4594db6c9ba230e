/-
The consistency check of a project: the files of the manifest are looked for, their
checksums are compared, and they are looked up in the version control.  The files that the
device classes of the design need are checked with them.
-/
import Supernova.InstallerPaths
import Supernova.ReleaseManifest

namespace Supernova

namespace ManageFiles

/-- What the check complains of. -/
inductive Problem
  | mustExist (path : Bytes)
  | notVersioned (path : Bytes)
  | cantChecksum (path : Bytes)
  | md5Failure (path md5Obtained : Bytes) (md5Expected : Json)
  | deprecated (path : Bytes)

def Problem.path : Problem → Bytes
  | .mustExist path => path
  | .notVersioned path => path
  | .cantChecksum path => path
  | .md5Failure path _ _ => path
  | .deprecated path => path

/-- Whether something is missing in a file, or the file itself. -/
def Problem.isOfContents : Problem → Bool
  | .mustExist _ => true
  | .notVersioned _ => false
  | .cantChecksum _ => true
  | .md5Failure _ _ _ => true
  | .deprecated _ => false

/-- What the lookup of the directories of the device classes raises. -/
inductive ConsistencyFailure
  | noDirectory

def deviceSpecification : Dict :=
  dict [(text "must_exist", .boolean true), (text "must_be_versioned", .boolean true)]

/-- The files of a class with device logic. -/
def deviceFiles (projectDirectory className : Bytes) : List File :=
  let deviceModulePath := projectDirectory ++ slashByte :: text "Device"
  [File.ofInput (text "D" ++ className ++ text ".h")
      (joinPath deviceModulePath (text "include")) deviceSpecification,
    File.ofInput (text "D" ++ className ++ text ".cpp")
      (joinPath deviceModulePath (text "src")) deviceSpecification]

section Checking

variable (md5 : Bytes → Bytes) (isVersioned : Bytes → Bool) (cwd : List Bytes) (t : Tree)

/-- What is read from a path. -/
def contents (path : Bytes) : Option Bytes :=
  match resolvePath cwd t path with
  | .error _ => none
  | .ok location => (t.readFile location).toOption

def computeMd5 (fileName : Bytes) : Option Bytes :=
  (contents cwd t fileName).map md5

/-- `check_md5`; what is a file can be read. -/
def File.checkMd5 (file : File) : List Problem :=
  match computeMd5 md5 cwd t file.path with
  | none => [.cantChecksum file.path]
  | some md5Obtained =>
      if (file.attrs .md5).isText md5Obtained then []
      else [.md5Failure file.path md5Obtained (file.attrs .md5)]

/-- `File.check_consistency` without `ask`. -/
def File.checkConsistency (file : File) : List Problem :=
  (if (file.flags .mustExist).truthy && !isfile cwd t file.path then
    [.mustExist file.path] else []) ++
  (if (file.flags .mustBeVersioned).truthy && isfile cwd t file.path &&
      !isVersioned file.path then
    [.notVersioned file.path] else []) ++
  (if file.mustBeMd5Checked then file.checkMd5 md5 cwd t else []) ++
  (if (file.flags .deprecated).truthy && isfile cwd t file.path then
    [.deprecated file.path] else [])

/-- `Directory.check_consistency` -/
def Directory.checkConsistency (directory : Directory) : List Problem :=
  directory.files.flatMap (File.checkConsistency md5 isVersioned cwd t)

/-- `check_consistency`, with the classes that have device logic.  Both files of a class are
added to the directory of the headers. -/
def checkConsistency (classes : List Bytes) (directories : List Directory)
    (projectDirectory : Bytes) : Except ConsistencyFailure (List Problem) :=
  match directories.findIdx? fun directory => directory.name == text "Device/include",
      directories.findIdx? fun directory => directory.name == text "Device/src" with
  | some place, some _ =>
      let withClasses := directories.modify place fun directory =>
        { directory with
          files := directory.files ++ classes.flatMap (deviceFiles projectDirectory) }
      pure (withClasses.flatMap (Directory.checkConsistency md5 isVersioned cwd t))
  | _, _ => throw .noDirectory

end Checking

section Findings

variable {md5 : Bytes → Bytes} {isVersioned : Bytes → Bool} {cwd : List Bytes} {t : Tree}
  {file : File} {problem : Problem} {path content : Bytes}

theorem contents_eq_some : contents cwd t path = some content ↔
    ∃ location, resolvePath cwd t path = .ok location ∧
      t.node location = some (.file content) := by
  rw [contents]
  rcases resolvePath cwd t path with error | location
  · simp
  · rcases hread : t.readFile location with error | found
    · have hnot : t.node location ≠ some (.file content) := fun hnode => by
        rw [FileTree.readFile_eq_ok.2 hnode] at hread
        cases hread
      simp [hread, Except.toOption, hnot]
    · simp [hread, Except.toOption, FileTree.readFile_eq_ok.1 hread]

theorem isfile_eq_isSome : isfile cwd t path = (contents cwd t path).isSome := by
  rw [Bool.eq_iff_iff, isfile_iff, Option.isSome_iff_exists]
  simp only [contents_eq_some]
  constructor
  · rintro ⟨location, content, hlocation, hnode⟩
    exact ⟨content, location, hlocation, hnode⟩
  · rintro ⟨content, location, hlocation, hnode⟩
    exact ⟨location, content, hlocation, hnode⟩

theorem Json.isText_string (value : Bytes) : (Json.string value).isText value = true :=
  beq_self_eq_true value

theorem File.path_of_mem_checkMd5 (h : problem ∈ file.checkMd5 md5 cwd t) :
    problem.path = file.path := by
  rw [File.checkMd5] at h
  split at h
  · rw [List.mem_singleton.mp h]
    rfl
  · rw [List.mem_ite_nil_left] at h
    rw [List.mem_singleton.mp h.2]
    rfl

/-- Every problem of a file names its path. -/
theorem File.path_of_mem_checkConsistency
    (h : problem ∈ file.checkConsistency md5 isVersioned cwd t) : problem.path = file.path := by
  simp only [File.checkConsistency, List.mem_append, List.mem_ite_nil_right,
    List.mem_singleton] at h
  rcases h with ((⟨-, rfl⟩ | ⟨-, rfl⟩) | ⟨-, hmd5⟩) | ⟨-, rfl⟩
  · rfl
  · rfl
  · exact File.path_of_mem_checkMd5 hmd5
  · rfl

/-- A file that is there, with the checksum that it is to have, lacks nothing. -/
theorem File.not_isOfContents (hcontents : contents cwd t file.path = some content)
    (hmd5 : file.mustBeMd5Checked = true → file.attrs .md5 = .string (md5 content))
    (h : problem ∈ file.checkConsistency md5 isVersioned cwd t) :
    problem.isOfContents = false := by
  have hisfile : isfile cwd t file.path = true := by
    rw [isfile_eq_isSome, hcontents]
    rfl
  simp only [File.checkConsistency, List.mem_append, List.mem_ite_nil_right,
    List.mem_singleton] at h
  rcases h with ((⟨hmissing, -⟩ | ⟨-, rfl⟩) | ⟨hchecked, hproblem⟩) | ⟨-, rfl⟩
  · rw [hisfile, Bool.not_true, Bool.and_false] at hmissing
    cases hmissing
  · rfl
  · have htext : (file.attrs .md5).isText (md5 content) = true := by
      rw [hmd5 hchecked]
      exact Json.isText_string _
    rw [File.checkMd5, computeMd5, hcontents] at hproblem
    change problem ∈ (if (file.attrs .md5).isText (md5 content) = true then [] else _) at hproblem
    rw [if_pos htext] at hproblem
    cases hproblem
  · rfl

end Findings

end ManageFiles

end Supernova
