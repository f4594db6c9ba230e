/-
The installer: it goes through the directories of the manifest, creates those that it
has to create and copies their files from the source tree as each file asks for it.
Before an upgrade the files that are missing in the source tree are looked for.
-/
import Supernova.FileTree
import Supernova.InstallManifest

namespace Supernova

namespace ManageFiles

/-- What the code sees of the disk. -/
abbrev Tree := FileTree Bytes Bytes

/-- What the installer raises. -/
inductive InstallFailure
  | system (error : FileError)
  | sameFile (source destination : Bytes)
  | noTargetDirectory (targetDirectory : Bytes)
  | invalidDirectoryAction (action : Json) (name : Bytes)
  | invalidFileAction (action : Json)
  | key (error : KeyError)

def system {α : Type} (result : Except FileError α) : Except InstallFailure α :=
  result.mapError .system

@[simp] theorem system_eq_ok {α : Type} {result : Except FileError α} {a : α} :
    system result = .ok a ↔ result = .ok a := by
  rcases result with error | value <;> simp [system, Except.mapError]

section Paths

def pathSegment (component : Bytes) : PathSegment Bytes :=
  if component = [] ∨ component = text "." then .here
  else if component = text ".." then .up
  else .down component

def pathSegments (path : Bytes) : List (PathSegment Bytes) :=
  (path.splitOn slashByte).map pathSegment

/-- `os.path.basename` -/
def basename (path : Bytes) : Bytes :=
  (path.splitOn slashByte).getLastD []

def trimSlashes (path : Bytes) : Bytes :=
  (path.reverse.dropWhile (· == slashByte)).reverse

variable (cwd : List Bytes)

/-- Where the resolution of a path starts. -/
def pathStart (path : Bytes) : List Bytes :=
  if path.head? = some slashByte then [] else cwd

/-- Where a path leads when all its directories are there. -/
def pathLocation (path : Bytes) : List Bytes :=
  PathSegment.locate (pathStart cwd path) (pathSegments path)

variable (t : Tree)

def resolvePath (path : Bytes) : Except FileError (List Bytes) :=
  if path = [] then throw .noEntry
  else t.resolve (pathStart cwd path) (pathSegments path)

/-- `os.path.isdir` -/
def isdir (path : Bytes) : Bool :=
  match resolvePath cwd t path with
  | .error _ => false
  | .ok location =>
      match t.node location with
      | some .directory => true
      | _ => false

/-- `os.path.isfile` -/
def isfile (path : Bytes) : Bool :=
  match resolvePath cwd t path with
  | .error _ => false
  | .ok location =>
      match t.node location with
      | some (.file _) => true
      | _ => false

/-- `os.path.samefile`, false also for what is not there. -/
def samefile (source destination : Bytes) : Bool :=
  match resolvePath cwd t source, resolvePath cwd t destination with
  | .ok first, .ok second => decide (first = second) && (t.node first).isSome
  | _, _ => false

/-- `os.mkdir`; the system ignores slashes at the end. -/
def mkdir (path : Bytes) : Except InstallFailure Tree := do
  let location ← system (resolvePath cwd t (trimSlashes path))
  system (t.makeDirectory location)

/-- `shutil.copyfile` -/
def copyfile (source destination : Bytes) : Except InstallFailure Tree := do
  if samefile cwd t source destination then throw (.sameFile source destination)
  else
    let sourceLocation ← system (resolvePath cwd t source)
    let content ← system (t.readFile sourceLocation)
    let location ← system (resolvePath cwd t destination)
    system (t.writeFile content location)

/-- `shutil.copy2`, as far as it changes what is in the files. -/
def copy2 (source destination : Bytes) : Except InstallFailure Tree :=
  if isdir cwd t destination then
    copyfile cwd t source (joinPath destination (basename source))
  else copyfile cwd t source destination

end Paths

section Installing

def Json.isText : Json → Bytes → Bool
  | .string value, expected => value == expected
  | _, _ => false

def Json.isNone : Json → Bool
  | .null => true
  | _ => false

def Directory.installAction (directory : Directory) : Json := directory.install

def File.installAction (file : File) : Json := file.attrs .install

variable (cwd : List Bytes)

def installDirectory (directory : Directory) (targetDirPath : Bytes) (t : Tree) :
    Except InstallFailure Tree :=
  if directory.installAction.isText (text "create") then
    if isdir cwd t targetDirPath then pure t
    else mkdir cwd t targetDirPath
  else if directory.installAction.isNone then pure t
  else throw (.invalidDirectoryAction directory.installAction directory.name)

def installFile (file : File) (sourceFilePath targetFilePath : Bytes) (t : Tree) :
    Except InstallFailure Tree :=
  if file.installAction.isNone then pure t
  else if file.installAction.isText (text "overwrite") then
    if !isfile cwd t targetFilePath then copy2 cwd t sourceFilePath targetFilePath
    else copy2 cwd t sourceFilePath targetFilePath
  else if file.installAction.isText (text "copy_if_not_existing") then
    if !isfile cwd t targetFilePath then copy2 cwd t sourceFilePath targetFilePath
    else pure t
  else if file.installAction.isText (text "dont_touch") then pure t
  else throw (.invalidFileAction file.installAction)

/-- What is raised leaves the tree as it is then. -/
abbrev Installing := EStateM InstallFailure Tree

/-- The path of a file of the manifest in a tree. -/
def entryPath (root name fileName : Bytes) : Bytes :=
  joinPath (joinPath root name) fileName

/-- One turn of the loop of `install`. -/
def installEntries (sourceDirectory targetDirectory : Bytes) (directory : Directory) :
    Installing Unit := do
  attempt (installDirectory cwd directory (joinPath targetDirectory directory.name))
  directory.files.forM fun file =>
    attempt (installFile cwd file (entryPath sourceDirectory directory.name file.name)
      (entryPath targetDirectory directory.name file.name))

/-- `Installer.install` -/
def install (directories : List Directory) (sourceDirectory targetDirectory : Bytes) :
    Installing Unit := do
  if isdir cwd (← get) targetDirectory then
    directories.forM (installEntries cwd sourceDirectory targetDirectory)
  else throw (.noTargetDirectory targetDirectory)

/-- Whether a file is copied when it is not there. -/
def File.isCopied (file : File) : Bool :=
  file.installAction.isText (text "overwrite") ||
    file.installAction.isText (text "copy_if_not_existing")

/-- The files that would be copied but are not in the source tree. -/
def missingSourceFiles (directories : List Directory) (sourceDirectory : Bytes) (t : Tree) :
    List Bytes :=
  directories.flatMap fun directory =>
    (directory.files.filter fun file =>
      file.isCopied && !isfile cwd t (entryPath sourceDirectory directory.name file.name)).map
        fun file => joinPath directory.name file.name

/-- `load_file` as the installer calls it. -/
def load (manifest : Manifest) (projectDirectory : Bytes) : Installing (List Directory) :=
  match loadFile manifest projectDirectory with
  | .error error => throw (.key error)
  | .ok directories => pure directories

def findMissingSourceFiles (manifest : Manifest) (projectDirectory sourceDirectory : Bytes) :
    Installing (List Bytes) := do
  let directories ← load manifest projectDirectory
  let t ← get
  pure (missingSourceFiles cwd directories sourceDirectory t)

def mfInstall (manifest : Manifest) (projectDirectory sourceDirectory targetDirectory : Bytes) :
    Installing Unit := do
  let directories ← load manifest projectDirectory
  install cwd directories sourceDirectory targetDirectory

/-- `upgradeProject` from its check on until the framework is installed. -/
def upgradeProject (manifest : Manifest) (sourceDirectory destination : Bytes) :
    Installing (List Bytes) := do
  let missing ← findMissingSourceFiles cwd manifest sourceDirectory sourceDirectory
  if missing = [] then
    mfInstall cwd manifest sourceDirectory sourceDirectory destination
    pure []
  else pure missing

end Installing

end ManageFiles

end Supernova
