/-
A tree of directories and files.  A location is the names that lead to it from
the root, the last one first.  A path is resolved one segment after the other, and
every segment asks for a directory to be where the path has got to.
-/
import Mathlib.Data.List.Basic
import Mathlib.Logic.Function.Basic
import Supernova.ExceptResults

namespace Supernova

inductive FileNode (Content : Type*)
  | directory
  | file (content : Content)
deriving DecidableEq

inductive PathSegment (Name : Type*)
  | here
  | up
  | down (name : Name)

inductive FileError
  | noEntry
  | notADirectory
  | isADirectory
  | alreadyExists
deriving DecidableEq, Repr

/-- Whatever is in the tree is in a directory, up to the root. -/
@[ext] structure FileTree (Name Content : Type*) where
  node : List Name → Option (FileNode Content)
  node_nil : node [] = some .directory
  node_tail : ∀ name location, node (name :: location) ≠ none → node location = some .directory

namespace PathSegment

variable {Name : Type*}

def apply : PathSegment Name → List Name → List Name
  | .here, location => location
  | .up, location => location.tail
  | .down name, location => name :: location

/-- Where some segments lead in a tree that has all the directories they need. -/
def locate (location : List Name) (segments : List (PathSegment Name)) : List Name :=
  segments.foldl (fun location segment => segment.apply location) location

theorem locate_append (location : List Name) (first second : List (PathSegment Name)) :
    locate location (first ++ second) = locate (locate location first) second :=
  List.foldl_append

/-- The names among the segments, the last one first. -/
def names : List (PathSegment Name) → List Name
  | [] => []
  | .down name :: segments => names segments ++ [name]
  | .here :: segments => names segments
  | .up :: segments => names segments

theorem names_map_down (components : List Name) :
    names (components.map down) = components.reverse := by
  induction components with
  | nil => rfl
  | cons component components ih => rw [List.map_cons, names, ih, List.reverse_cons]

/-- Without a step up, the segments lead down from where they start. -/
theorem locate_eq_append {segments : List (PathSegment Name)} (hup : up ∉ segments)
    (location : List Name) : locate location segments = names segments ++ location := by
  induction segments generalizing location with
  | nil => rfl
  | cons segment segments ih =>
      rw [List.mem_cons, not_or] at hup
      have hlater := ih hup.2 (segment.apply location)
      change locate (segment.apply location) segments = _
      rw [hlater]
      cases segment with
      | here => rfl
      | up => exact absurd rfl hup.1
      | down name => rw [apply, names, List.append_assoc, List.singleton_append]

end PathSegment

namespace FileTree

open PathSegment

variable {Name Content : Type*} (t : FileTree Name Content)

/-- The root alone. -/
def empty : FileTree Name Content where
  node
    | [] => some .directory
    | _ :: _ => none
  node_nil := rfl
  node_tail _ _ h := absurd rfl h

/-- The path resolution of the system; there are no links. -/
def resolve : List Name → List (PathSegment Name) → Except FileError (List Name)
  | location, [] => pure location
  | location, segment :: segments =>
      match t.node location with
      | none => throw .noEntry
      | some (.file _) => throw .notADirectory
      | some .directory => resolve (segment.apply location) segments

section Resolution

variable {t}

theorem resolve_cons_eq_ok {segment : PathSegment Name} {segments : List (PathSegment Name)}
    {location found : List Name} :
    t.resolve location (segment :: segments) = .ok found ↔
      t.node location = some .directory ∧
        t.resolve (segment.apply location) segments = .ok found := by
  rw [resolve]
  rcases t.node location with _ | (_ | _) <;> simp [throw, throwThe, MonadExceptOf.throw]

theorem resolve_append_eq_ok {first second : List (PathSegment Name)}
    {location found : List Name} :
    t.resolve location (first ++ second) = .ok found ↔
      ∃ middle, t.resolve location first = .ok middle ∧ t.resolve middle second = .ok found := by
  induction first generalizing location with
  | nil => simp [resolve, pure, Except.pure]
  | cons segment first ih =>
      rw [List.cons_append, resolve_cons_eq_ok, ih]
      simp only [resolve_cons_eq_ok]
      constructor
      · rintro ⟨hnode, middle, hfirst, hsecond⟩
        exact ⟨middle, ⟨hnode, hfirst⟩, hsecond⟩
      · rintro ⟨middle, ⟨hnode, hfirst⟩, hsecond⟩
        exact ⟨hnode, middle, hfirst, hsecond⟩

theorem locate_of_resolve {segments : List (PathSegment Name)} {location found : List Name}
    (h : t.resolve location segments = .ok found) : found = locate location segments := by
  induction segments generalizing location with
  | nil => exact (Except.ok.inj h).symm
  | cons segment segments ih => exact ih (resolve_cons_eq_ok.1 h).2

/-- Every directory above a location that is in the tree is in the tree. -/
theorem node_append {above below : List Name} (h : t.node (below ++ above) ≠ none)
    (hbelow : below ≠ []) : t.node above = some .directory := by
  induction below with
  | nil => exact absurd rfl hbelow
  | cons name below ih =>
      have hnode : t.node (below ++ above) = some .directory := t.node_tail name _ h
      rcases eq_or_ne below [] with rfl | hne
      · exact hnode
      · exact ih (by rw [hnode]; exact Option.some_ne_none _) hne

theorem directory_tail {location : List Name} {content : Content}
    (h : t.node location = some (.file content)) :
    location ≠ [] ∧ t.node location.tail = some .directory := by
  cases location with
  | nil => rw [t.node_nil] at h; cases h
  | cons name location =>
      exact ⟨List.cons_ne_nil _ _, t.node_tail name location (h.trans_ne (Option.some_ne_none _))⟩

/-- What is below a directory that is in the tree resolves by going down. -/
theorem resolve_of_directory {segments : List (PathSegment Name)} (hup : up ∉ segments)
    {location : List Name} (h : t.node (names segments ++ location) = some .directory) :
    t.resolve location segments = .ok (names segments ++ location) := by
  induction segments generalizing location with
  | nil => rfl
  | cons segment segments ih =>
      rw [List.mem_cons, not_or] at hup
      rw [resolve_cons_eq_ok]
      cases segment with
      | up => exact absurd rfl hup.1
      | here =>
          refine ⟨?_, ih hup.2 h⟩
          rcases eq_or_ne (names segments) [] with hnil | hne
          · rwa [names, hnil] at h
          · exact node_append (h.trans_ne (Option.some_ne_none _)) hne
      | down name =>
          rw [names, List.append_assoc, List.singleton_append] at h ⊢
          refine ⟨?_, ih hup.2 h⟩
          rcases eq_or_ne (names segments) [] with hnil | hne
          · rw [hnil, List.nil_append] at h
            exact t.node_tail name location (h.trans_ne (Option.some_ne_none _))
          · exact t.node_tail name location
              ((node_append (h.trans_ne (Option.some_ne_none _)) hne).trans_ne
                (Option.some_ne_none _))

/-- Going down needs all directories but the last. -/
theorem resolve_map_down {components location : List Name} (hne : components ≠ [])
    (h : t.node (components.reverse ++ location).tail = some .directory) :
    t.resolve location (components.map down) = .ok (components.reverse ++ location) := by
  rcases List.eq_nil_or_concat components with rfl | ⟨front, last, rfl⟩
  · exact absurd rfl hne
  · rw [List.concat_eq_append, List.reverse_concat, List.cons_append, List.tail_cons] at *
    rw [List.map_append, resolve_append_eq_ok]
    rw [← names_map_down] at h
    refine ⟨names (front.map down) ++ location, resolve_of_directory (by simp) h, ?_⟩
    rw [List.map_singleton, resolve_cons_eq_ok]
    exact ⟨h, by rw [names_map_down]; rfl⟩

/-- A tree that still has the directories resolves what it has resolved. -/
theorem resolve_of_directories {t' : FileTree Name Content}
    (hkept : ∀ location, t.node location = some .directory →
      t'.node location = some .directory)
    {segments : List (PathSegment Name)} {location found : List Name}
    (h : t.resolve location segments = .ok found) : t'.resolve location segments = .ok found := by
  induction segments generalizing location with
  | nil => exact h
  | cons segment segments ih =>
      obtain ⟨hnode, h⟩ := resolve_cons_eq_ok.1 h
      exact resolve_cons_eq_ok.2 ⟨hkept _ hnode, ih h⟩

end Resolution

section Reading

def readFile (location : List Name) : Except FileError Content :=
  match t.node location with
  | none => throw .noEntry
  | some .directory => throw .isADirectory
  | some (.file content) => pure content

theorem readFile_eq_ok {t : FileTree Name Content} {location : List Name} {content : Content} :
    t.readFile location = .ok content ↔
    t.node location = some (.file content) := by
  unfold readFile
  rcases t.node location with _ | (_ | _) <;>
    simp [pure, Except.pure, throw, throwThe, MonadExceptOf.throw]

end Reading

section Operations

variable [DecidableEq Name]

/-- The tree with one more entry in a directory, or with another file for a file. -/
def put (name : Name) (location : List Name) (entry : FileNode Content)
    (habove : t.node location = some .directory)
    (hentry : t.node (name :: location) = some .directory → entry = .directory) :
    FileTree Name Content where
  node := Function.update t.node (name :: location) (some entry)
  node_nil := by rw [Function.update_of_ne (List.cons_ne_nil _ _).symm, t.node_nil]
  node_tail := by
    intro name' location' hnode
    by_cases hbelow : location' = name :: location
    · subst hbelow
      rw [Function.update_of_ne (by simp)] at hnode
      rw [Function.update_self, hentry (t.node_tail name' _ hnode)]
    · rw [Function.update_of_ne hbelow]
      by_cases hself : name' :: location' = name :: location
      · rwa [(List.cons.inj hself).2]
      · rw [Function.update_of_ne hself] at hnode
        exact t.node_tail name' location' hnode

def makeDirectory : List Name → Except FileError (FileTree Name Content)
  | [] => throw .alreadyExists
  | name :: location =>
      match habove : t.node location with
      | none => throw .noEntry
      | some (.file _) => throw .notADirectory
      | some .directory =>
          match t.node (name :: location) with
          | some _ => throw .alreadyExists
          | none => pure (t.put name location .directory habove fun _ => rfl)

/-- Opening for writing, which creates the file or empties it, writing all and closing. -/
def writeFile (content : Content) : List Name → Except FileError (FileTree Name Content)
  | [] => throw .isADirectory
  | name :: location =>
      match habove : t.node location with
      | none => throw .noEntry
      | some (.file _) => throw .notADirectory
      | some .directory =>
          match hself : t.node (name :: location) with
          | some .directory => throw .isADirectory
          | none => pure (t.put name location (.file content) habove (by rw [hself]; simp))
          | some (.file _) =>
              pure (t.put name location (.file content) habove (by rw [hself]; simp))

section Effects

variable {t} {t' : FileTree Name Content} {location : List Name} {content : Content}

theorem makeDirectory_eq_ok : t.makeDirectory location = .ok t' ↔
    location ≠ [] ∧ t.node location.tail = some .directory ∧ t.node location = none ∧
      t'.node = Function.update t.node location (some .directory) := by
  cases location with
  | nil => simp [makeDirectory]
  | cons name location =>
      rw [makeDirectory, List.tail_cons]
      split
      case h_1 hnone => simp [hnone]
      case h_2 hfile => simp [hfile]
      case h_3 hdirectory =>
          rcases t.node (name :: location) with _ | entry
          · simp [hdirectory, pure, Except.pure, FileTree.ext_iff, put, eq_comm]
          · simp

theorem writeFile_eq_ok : t.writeFile content location = .ok t' ↔
    location ≠ [] ∧ t.node location.tail = some .directory ∧
      t.node location ≠ some .directory ∧
      t'.node = Function.update t.node location (some (.file content)) := by
  cases location with
  | nil => simp [writeFile]
  | cons name location =>
      rw [writeFile, List.tail_cons]
      split
      case h_1 hnone => simp [hnone]
      case h_2 hfile => simp [hfile]
      case h_3 hdirectory =>
          split
          case h_1 hself => simp [hself]
          case h_2 hself =>
              simp [hdirectory, hself, pure, Except.pure, FileTree.ext_iff, put, eq_comm]
          case h_3 hself =>
              simp [hdirectory, hself, pure, Except.pure, FileTree.ext_iff, put, eq_comm]

theorem exists_makeDirectory (hnil : location ≠ [])
    (habove : t.node location.tail = some .directory) (hself : t.node location = none) :
    ∃ t', t.makeDirectory location = .ok t' := by
  cases location with
  | nil => exact absurd rfl hnil
  | cons name location =>
      exact ⟨t.put name location .directory habove fun _ => rfl,
        makeDirectory_eq_ok.2 ⟨hnil, habove, hself, rfl⟩⟩

theorem exists_writeFile (hnil : location ≠ [])
    (habove : t.node location.tail = some .directory)
    (hself : t.node location ≠ some .directory) :
    ∃ t', t.writeFile content location = .ok t' := by
  cases location with
  | nil => exact absurd rfl hnil
  | cons name location =>
      exact ⟨t.put name location (.file content) habove fun h => absurd h hself,
        writeFile_eq_ok.2 ⟨hnil, habove, hself, rfl⟩⟩

end Effects

end Operations

end FileTree

end Supernova
