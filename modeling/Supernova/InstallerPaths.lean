/-
How the paths that the installer joins are resolved: a path of the manifest leads down
from the directory that it is joined to.
-/
import Supernova.Installer

namespace Supernova

namespace ManageFiles

open PathSegment

section Joining

variable {base name : Bytes}

/-- The path does not start again at the root. -/
def Relative (name : Bytes) : Prop := name.head? ≠ some slashByte

theorem pathSegments_append (first second : Bytes) :
    pathSegments (first ++ slashByte :: second) = pathSegments first ++ pathSegments second := by
  rw [pathSegments, List.splitOn_append_cons_self, List.map_append]
  rfl

theorem pathSegments_ne_nil (path : Bytes) : pathSegments path ≠ [] := by
  rw [pathSegments, Ne, List.map_eq_nil_iff]
  exact List.splitOn_ne_nil _ _

/-- A slash at the end of the first path stands for the directory itself. -/
theorem pathSegments_joinPath (hbase : base ≠ []) (hname : Relative name) :
    ∃ segments, pathSegments (joinPath base name) = segments ++ pathSegments name ∧
      (pathSegments base = segments ∨ pathSegments base = segments ++ [here]) := by
  rw [joinPath, if_neg hname]
  by_cases hslash : base.getLast? = some slashByte
  · obtain ⟨front, rfl⟩ := List.getLast?_eq_some_iff.mp hslash
    refine ⟨pathSegments front, ?_, .inr ?_⟩
    · rw [if_pos (.inr hslash), List.append_assoc, List.singleton_append, pathSegments_append]
    · rw [pathSegments_append]
      rfl
  · have hother : ¬ (base = [] ∨ base.getLast? = some slashByte) := by
      rw [not_or]
      exact ⟨hbase, hslash⟩
    rw [if_neg hother, pathSegments_append]
    exact ⟨_, rfl, .inl rfl⟩

theorem joinPath_ne_nil (hbase : base ≠ []) (name : Bytes) : joinPath base name ≠ [] := by
  rw [joinPath]
  split_ifs with hname hend
  · rintro rfl
    cases hname
  · exact List.append_ne_nil_of_left_ne_nil hbase name
  · exact List.append_ne_nil_of_left_ne_nil hbase _

variable (cwd : List Bytes)

theorem pathStart_joinPath (hbase : base ≠ []) (hname : Relative name) :
    pathStart cwd (joinPath base name) = pathStart cwd base := by
  have hhead : (joinPath base name).head? = base.head? := by
    obtain ⟨c, rest, rfl⟩ := List.exists_cons_of_ne_nil hbase
    rw [joinPath, if_neg hname]
    split_ifs <;> rfl
  rw [pathStart, hhead, pathStart]

end Joining

section Resolving

variable {cwd : List Bytes} {t : Tree} {base name path : Bytes} {location found : List Bytes}

theorem resolvePath_eq_ok : resolvePath cwd t path = .ok found ↔
    path ≠ [] ∧ t.resolve (pathStart cwd path) (pathSegments path) = .ok found := by
  rw [resolvePath]
  split_ifs with hnil
  · simp [hnil]
  · simp [hnil]

theorem pathLocation_of_resolvePath (h : resolvePath cwd t path = .ok found) :
    pathLocation cwd path = found :=
  (FileTree.locate_of_resolve (resolvePath_eq_ok.1 h).2).symm

/-- The joined path leads on from the directory at the first path. -/
theorem resolvePath_joinPath (hbase : base ≠ []) (hname : Relative name) :
    resolvePath cwd t (joinPath base name) = .ok found ↔
      ∃ location, resolvePath cwd t base = .ok location ∧
        t.node location = some .directory ∧
        t.resolve location (pathSegments name) = .ok found := by
  have hdirectory : ∀ {location : List Bytes},
      t.resolve location (pathSegments name) = .ok found →
        t.node location = some .directory := by
    intro location h
    obtain ⟨segment, segments, hsegments⟩ :=
      List.exists_cons_of_ne_nil (pathSegments_ne_nil name)
    rw [hsegments, FileTree.resolve_cons_eq_ok] at h
    exact h.1
  obtain ⟨segments, hjoin, hsegments⟩ := pathSegments_joinPath hbase hname
  simp only [resolvePath_eq_ok, pathStart_joinPath cwd hbase hname, hjoin,
    FileTree.resolve_append_eq_ok, joinPath_ne_nil hbase, hbase, ne_eq, not_false_eq_true,
    true_and]
  rcases hsegments with rfl | hsegments
  · constructor
    · rintro ⟨location, hlocation, h⟩
      exact ⟨location, hlocation, hdirectory h, h⟩
    · rintro ⟨location, hlocation, -, h⟩
      exact ⟨location, hlocation, h⟩
  · simp only [hsegments, FileTree.resolve_append_eq_ok, FileTree.resolve_cons_eq_ok]
    constructor
    · rintro ⟨location, hlocation, h⟩
      exact ⟨location, ⟨location, hlocation, hdirectory h, rfl⟩, hdirectory h, h⟩
    · rintro ⟨location, ⟨middle, hmiddle, -, hhere⟩, -, h⟩
      obtain rfl : middle = location := Except.ok.inj hhere
      exact ⟨middle, hmiddle, h⟩

theorem isdir_iff : isdir cwd t path = true ↔
    ∃ location, resolvePath cwd t path = .ok location ∧ t.node location = some .directory := by
  rw [isdir]
  rcases resolvePath cwd t path with error | location
  · simp
  · rcases hnode : t.node location with _ | (_ | content) <;> simp [hnode]

theorem isfile_iff : isfile cwd t path = true ↔
    ∃ location content, resolvePath cwd t path = .ok location ∧
      t.node location = some (.file content) := by
  rw [isfile]
  rcases resolvePath cwd t path with error | location
  · simp
  · rcases hnode : t.node location with _ | (_ | content) <;> simp [hnode]

theorem samefile_eq_false {source destination : Bytes} {first second : List Bytes}
    (hsource : resolvePath cwd t source = .ok first)
    (hdestination : resolvePath cwd t destination = .ok second) (hne : first ≠ second) :
    samefile cwd t source destination = false := by
  rw [samefile, hsource, hdestination]
  simp [hne]

/-- A copy reads the one file and writes the other. -/
theorem copyfile_eq_ok {source destination : Bytes} {t' : Tree} :
    copyfile cwd t source destination = .ok t' ↔
      ∃ sourceLocation location content,
        resolvePath cwd t source = .ok sourceLocation ∧
        resolvePath cwd t destination = .ok location ∧ sourceLocation ≠ location ∧
        t.node sourceLocation = some (.file content) ∧
        t.writeFile content location = .ok t' := by
  rw [copyfile]
  constructor
  · intro h
    split_ifs at h with hsame
    simp only [except_bind_eq_ok, system_eq_ok, FileTree.readFile_eq_ok] at h
    obtain ⟨sourceLocation, hsource, content, hcontent, location, hlocation, hwrite⟩ := h
    refine ⟨sourceLocation, location, content, hsource, hlocation, ?_, hcontent, hwrite⟩
    rintro rfl
    rw [samefile, hsource, hlocation] at hsame
    simp [hcontent] at hsame
  · rintro ⟨sourceLocation, location, content, hsource, hlocation, hne, hcontent, hwrite⟩
    rw [samefile_eq_false hsource hlocation hne, if_neg Bool.false_ne_true]
    simp only [except_bind_eq_ok, system_eq_ok, FileTree.readFile_eq_ok]
    exact ⟨sourceLocation, hsource, content, hcontent, location, hlocation, hwrite⟩

end Resolving

end ManageFiles

end Supernova
