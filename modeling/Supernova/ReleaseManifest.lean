/-
Writing a manifest back for a release.  A file that used the defaults of its
directory is written without its other attributes, and the defaults are written
as loading has left them; what is read from the written manifest is compared
with what was there before.
-/
import Mathlib.Data.List.Nodup
import Supernova.InstallManifest

namespace Supernova

attribute [local semireducible] ByteArray.toList.loop

namespace ManageFiles

section Release

def Json.isNull : Json → Bool
  | .null => true
  | _ => false

def Flag.all : List Flag := [.mustExist, .mustBeVersioned, .deprecated]

def Attr.all : List Attr := [.md5, .useDefaults, .install]

def File.mustBeMd5Checked (file : File) : Bool := !(file.attrs .md5).isNull

/-- `compute_md5` is `none` where the file cannot be read. -/
def File.makeMd5 (computeMd5 : Bytes → Option Bytes) (file : File) : Option File :=
  (computeMd5 file.path).map fun md5 =>
    { file with attrs := fun attr => if attr = .md5 then .string md5 else file.attrs attr }

def File.jsonRepr (file : File) : Dict :=
  if (file.attrs .useDefaults).truthy then
    dict [(text "use_defaults", useDefaultsText), (text "md5", file.attrs .md5)]
  else
    let flagsDict := dict ((Flag.all.filter fun flag => (file.flags flag).truthy).map
      fun flag => (flag.key, file.flags flag))
    let attrsDict := dict ((Attr.all.filter fun attr => !(file.attrs attr).isNull).map
      fun attr => (attr.key, file.attrs attr))
    flagsDict.update attrsDict

/-- The files of a directory by name, in the order that `sort_keys` gives them. -/
def Directory.byName (directory : Directory) : OrderedMap Bytes File :=
  OrderedMap.byKey File.name directory.files

/-- The defaults that are written for a directory. -/
def Directory.releasedDefaults (directory : Directory) : Option Dict :=
  directory.fileDefaults.map fun defaults => defaults.erase (text "use_defaults")

def Directory.jsonRepr (directory : Directory) : DirectorySpecification :=
  { install := if directory.install.truthy then some directory.install else none
    files := (directory.byName.map File.jsonRepr).entries
    fileDefaults := directory.releasedDefaults
    files_nodup := OrderedMap.keys_nodup _ }

def Directory.makeMd5 (computeMd5 : Bytes → Option Bytes) (directory : Directory) :
    Option Directory := do
  let files ← directory.files.mapM fun file =>
    if file.mustBeMd5Checked then file.makeMd5 computeMd5 else some file
  some { directory with files := files }

def directoriesByName (directories : List Directory) : OrderedMap Bytes Directory :=
  OrderedMap.byKey Directory.name directories

/-- The manifest that is written, as it is read again. -/
def createRelease (computeMd5 : Bytes → Option Bytes) (directories : List Directory) :
    Option Manifest := do
  let released ← directories.mapM (Directory.makeMd5 computeMd5)
  some ⟨((directoriesByName released).map Directory.jsonRepr).entries, OrderedMap.keys_nodup _⟩

end Release

section Promise

/-- Flags are booleans; attributes are the same, but for the value of an md5. -/
def Attr.Same : Attr → Json → Json → Prop
  | .md5, value, value' => value.isNull = value'.isNull
  | _, value, value' => value = value'

structure SameFile (file file' : File) : Prop where
  flags : ∀ flag, (file.flags flag).truthy = (file'.flags flag).truthy
  attrs : ∀ attr : Attr, attr.Same (file.attrs attr) (file'.attrs attr)

/-- Two lists have members of the same names, and those of one name are related. -/
def SameByName {α : Type} (name : α → Bytes) (R : α → α → Prop) (l l' : List α) : Prop :=
  ∀ key, Option.Rel R (l.find? fun a => name a = key) (l'.find? fun a => name a = key)

structure SameDirectory (directory directory' : Directory) : Prop where
  install : directory.install = directory'.install
  files : SameByName File.name SameFile directory.files directory'.files

/-- The dictionary that an entry is laid over when the written manifest is read: the defaults,
and what entries before it lay over them. -/
def Directory.inherited (directory : Directory) (name : Bytes) : Dict :=
  carried asksForDefaults (directory.releasedDefaults.getD .empty)
    ((directory.byName.entriesBefore name).map fun entry => entry.2.jsonRepr)

/-- What the entry of a file leaves out is what it inherits. -/
structure File.Inherits (file : File) (inherited : Dict) : Prop where
  flags : ∀ flag : Flag, file.jsonRepr.find? flag.key = none →
    (file.flags flag).truthy = ((inherited.find? flag.key).getD (.boolean false)).truthy
  attrs : ∀ attr : Attr, file.jsonRepr.find? attr.key = none →
    attr.Same (file.attrs attr) ((inherited.find? attr.key).getD .null)

structure Directory.Releasable (directory : Directory) : Prop where
  install : directory.install = .null ∨ directory.install.truthy = true
  text : ∀ file ∈ directory.files, (file.attrs .useDefaults).truthy = true →
    file.attrs .useDefaults = useDefaultsText
  inherits : ∀ file ∈ directory.files, file.attrs .useDefaults ≠ .null →
    file.Inherits (directory.inherited file.name)

end Promise

section Entries

theorem Flag.key_injective {flag flag' : Flag} (h : flag.key = flag'.key) : flag = flag' := by
  revert h
  cases flag <;> cases flag' <;> decide

theorem Attr.key_injective {attr attr' : Attr} (h : attr.key = attr'.key) : attr = attr' := by
  revert h
  cases attr <;> cases attr' <;> decide

theorem Flag.key_ne (flag : Flag) (attr : Attr) : flag.key ≠ attr.key := by
  cases flag <;> cases attr <;> decide

/-- A display of the values that pass a test. -/
theorem find?_dict_filter {κ : Type} {key : κ → Bytes} (hkey : Function.Injective key)
    {all : List κ} (hall : all.Nodup) (p : κ → Bool) (value : κ → Json) (k : Bytes) :
    (dict ((all.filter p).map fun a => (key a, value a))).find? k =
      ((all.filter p).find? fun a => key a = k).map value := by
  have hnodup : (((all.filter p).map fun a => (key a, value a)).map Prod.fst).Nodup := by
    rw [List.map_map]
    exact List.Nodup.map hkey (List.Nodup.filter p hall)
  rw [dict, OrderedMap.find?_foldl_assign .empty hnodup, OrderedMap.find?_empty, Option.or_none]
  generalize all.filter p = chosen
  induction chosen with
  | nil => rfl
  | cons a chosen ih =>
      rw [List.map_cons, OrderedMap.lookup_cons_eq, ih, List.find?_cons]
      by_cases hk : key a = k
      · simp [hk]
      · simp [hk, Ne.symm hk]

theorem find?_filter_key {κ : Type} [DecidableEq κ] {key : κ → Bytes}
    (hkey : Function.Injective key) {all : List κ} (hall : ∀ a, a ∈ all) (p : κ → Bool) (a : κ) :
    ((all.filter p).find? fun b => key b = key a) = if p a then some a else none := by
  split_ifs with hp
  · have hmem := List.mem_filter.mpr ⟨hall a, hp⟩
    rcases hfind : (all.filter p).find? fun b => key b = key a with _ | b
    · have hnone := List.find?_eq_none.mp hfind a hmem
      simp at hnone
    · exact congrArg some (hkey (by simpa using List.find?_some hfind))
  · rw [List.find?_eq_none]
    intro b hb heq
    rw [decide_eq_true_eq] at heq
    rw [hkey heq, List.mem_filter] at hb
    exact hp hb.2

theorem find?_filter_other {κ : Type} {key : κ → Bytes} {chosen : List κ} {k : Bytes}
    (h : ∀ a, key a ≠ k) : (chosen.find? fun a => key a = k) = none := by
  rw [List.find?_eq_none]
  intro a _
  simpa using h a

variable {file : File}

theorem File.find?_jsonRepr_flag (flag : Flag) : file.jsonRepr.find? flag.key =
    if (file.attrs .useDefaults).truthy then none
    else if (file.flags flag).truthy then some (file.flags flag) else none := by
  unfold File.jsonRepr
  split_ifs with huse hflag
  · simp only [dict, List.foldl_cons, List.foldl_nil, OrderedMap.find?_assign,
      OrderedMap.find?_empty]
    exact (if_neg (Flag.key_ne flag .md5)).trans (if_neg (Flag.key_ne flag .useDefaults))
  all_goals
    rw [OrderedMap.find?_update,
      find?_dict_filter (fun _ _ => Flag.key_injective) (by decide),
      find?_dict_filter (fun _ _ => Attr.key_injective) (by decide),
      find?_filter_other fun attr => (Flag.key_ne flag attr).symm,
      find?_filter_key (fun _ _ => Flag.key_injective) (by intro flag; cases flag <;> decide)]
    simp [hflag]

theorem File.find?_jsonRepr_attr (attr : Attr) : file.jsonRepr.find? attr.key =
    if (file.attrs .useDefaults).truthy then
      match attr with
      | .md5 => some (file.attrs .md5)
      | .useDefaults => some useDefaultsText
      | .install => none
    else if (file.attrs attr).isNull then none else some (file.attrs attr) := by
  unfold File.jsonRepr
  split_ifs with huse hattr
  · have hmd5 : Attr.md5.key = text "md5" := rfl
    have huseDefaults : Attr.useDefaults.key = text "use_defaults" := rfl
    simp only [dict, List.foldl_cons, List.foldl_nil, OrderedMap.find?_assign,
      OrderedMap.find?_empty, ← hmd5, ← huseDefaults]
    cases attr with
    | md5 => rw [if_pos rfl]
    | useDefaults => rw [if_neg (by decide), if_pos rfl]
    | install => rw [if_neg (by decide), if_neg (by decide)]
  all_goals
    rw [OrderedMap.find?_update,
      find?_dict_filter (fun _ _ => Flag.key_injective) (by decide),
      find?_dict_filter (fun _ _ => Attr.key_injective) (by decide),
      find?_filter_other fun flag => Flag.key_ne flag attr,
      find?_filter_key (fun _ _ => Attr.key_injective) (by intro attr; cases attr <;> decide)]
    simp [hattr]

end Entries

section Checksums

/-- The file with its checksum, where it is checked and can be read. -/
def File.withMd5 (computeMd5 : Bytes → Option Bytes) (file : File) : File :=
  if file.mustBeMd5Checked then (file.makeMd5 computeMd5).getD file else file

theorem Attr.same_refl (attr : Attr) (value : Json) : attr.Same value value := by
  cases attr <;> rfl

theorem Attr.same_comm {attr : Attr} {value value' : Json} (h : attr.Same value value') :
    attr.Same value' value := by
  cases attr <;> exact Eq.symm h

theorem Attr.same_trans {attr : Attr} {value value' value'' : Json} (h : attr.Same value value')
    (h' : attr.Same value' value'') : attr.Same value value'' := by
  cases attr <;> exact Eq.trans h h'

@[simp] theorem Json.truthy_null : Json.null.truthy = false := rfl

@[simp] theorem Json.truthy_boolean (value : Bool) : (Json.boolean value).truthy = value := rfl

theorem Json.eq_null {value : Json} (h : value.isNull = true) : value = .null := by
  cases value with
  | null => rfl
  | boolean | number | string | array | object => cases h

theorem Json.isNull_eq_false {value : Json} (h : value.truthy = true) : value.isNull = false := by
  cases value with
  | null => cases h
  | boolean | number | string | array | object => rfl

theorem Json.isNull_of_ne {value : Json} (h : value ≠ .null) : value.isNull = false :=
  Bool.eq_false_iff.mpr fun hnull => h (Json.eq_null hnull)

variable (computeMd5 : Bytes → Option Bytes) {file : File}

/-- Nothing but an md5 changes. -/
theorem File.withMd5_cases : file.withMd5 computeMd5 = file ∨
    ∃ md5, file.mustBeMd5Checked = true ∧ file.withMd5 computeMd5 =
      { file with attrs := fun attr => if attr = .md5 then .string md5 else file.attrs attr } := by
  unfold File.withMd5 File.makeMd5
  split_ifs with hchecked
  · rcases computeMd5 file.path with _ | md5
    · exact .inl rfl
    · exact .inr ⟨md5, hchecked, rfl⟩
  · exact .inl rfl

theorem File.name_withMd5 : (file.withMd5 computeMd5).name = file.name := by
  rcases file.withMd5_cases computeMd5 with h | ⟨_, -, h⟩ <;> rw [h]

theorem File.flags_withMd5 : (file.withMd5 computeMd5).flags = file.flags := by
  rcases file.withMd5_cases computeMd5 with h | ⟨_, -, h⟩ <;> rw [h]

theorem File.same_withMd5 (attr : Attr) :
    attr.Same (file.attrs attr) ((file.withMd5 computeMd5).attrs attr) := by
  rcases file.withMd5_cases computeMd5 with h | ⟨md5, hchecked, h⟩
  · rw [h]
    exact attr.same_refl _
  · rw [h]
    cases attr with
    | md5 =>
        change (file.attrs .md5).isNull = false
        simpa [File.mustBeMd5Checked] using hchecked
    | useDefaults | install => rfl

theorem File.useDefaults_withMd5 :
    (file.withMd5 computeMd5).attrs .useDefaults = file.attrs .useDefaults :=
  (file.same_withMd5 computeMd5 .useDefaults).symm

theorem File.asks_jsonRepr :
    asksForDefaults file.jsonRepr = !(file.attrs .useDefaults).isNull := by
  have hkey : asksForDefaults file.jsonRepr = (file.jsonRepr.find? Attr.useDefaults.key).isSome :=
    rfl
  rw [hkey, File.find?_jsonRepr_attr]
  by_cases huse : (file.attrs .useDefaults).truthy = true
  · simp [huse, Json.isNull_eq_false huse]
  · by_cases hnull : (file.attrs .useDefaults).isNull = true
    · simp [huse, hnull]
    · simp [huse, hnull]

/-- The entry of a file changes in its md5 only. -/
theorem File.jsonRepr_withMd5_flag (flag : Flag) :
    (file.withMd5 computeMd5).jsonRepr.find? flag.key = file.jsonRepr.find? flag.key := by
  rw [File.find?_jsonRepr_flag, File.find?_jsonRepr_flag, File.useDefaults_withMd5,
    File.flags_withMd5]

theorem Attr.isNull_eq {attr : Attr} {value value' : Json} (h : attr.Same value value') :
    value.isNull = value'.isNull := by
  cases attr with
  | md5 => exact h
  | useDefaults | install => exact congrArg Json.isNull h

theorem File.jsonRepr_withMd5_attr (attr : Attr) :
    Option.Rel attr.Same (file.jsonRepr.find? attr.key)
      ((file.withMd5 computeMd5).jsonRepr.find? attr.key) := by
  have hsame := file.same_withMd5 computeMd5 attr
  rw [File.find?_jsonRepr_attr, File.find?_jsonRepr_attr, File.useDefaults_withMd5,
    ← Attr.isNull_eq hsame]
  split_ifs with huse hnull
  · cases attr with
    | md5 => exact .some hsame
    | useDefaults => exact .some rfl
    | install => exact .none
  · exact .none
  · exact .some hsame

/-- What stands before an entry leaves the same, but for an md5. -/
theorem carried_withMd5_rel {R : Json → Json → Prop} (hrefl : ∀ value, R value value)
    {key : Bytes} (h : ∀ file : File, Option.Rel R (file.jsonRepr.find? key)
      ((file.withMd5 computeMd5).jsonRepr.find? key)) (defaults : Dict)
    (before : List (Bytes × File)) :
    Option.Rel R
      ((carried asksForDefaults defaults
        (before.map fun entry => entry.2.jsonRepr)).find? key)
      ((carried asksForDefaults defaults
        (before.map fun entry => (entry.2.withMd5 computeMd5).jsonRepr)).find? key) := by
  have hasks : ∀ entry : Bytes × File, asksForDefaults (entry.2.withMd5 computeMd5).jsonRepr =
      asksForDefaults entry.2.jsonRepr := by
    intro entry
    rw [File.asks_jsonRepr, File.asks_jsonRepr, File.useDefaults_withMd5]
  rw [find?_carried, find?_carried, List.filter_map, List.filter_map]
  refine lastValue_rel ?_ ?_
  · rcases defaults.find? key with _ | value
    · exact .none
    · exact .some (hrefl value)
  · have hfilter : (asksForDefaults ∘ fun entry : Bytes × File =>
        (entry.2.withMd5 computeMd5).jsonRepr) =
        asksForDefaults ∘ fun entry : Bytes × File => entry.2.jsonRepr := funext hasks
    rw [hfilter, List.forall₂_map_left_iff, List.forall₂_map_right_iff]
    exact List.forall₂_same.mpr fun entry _ => h entry.2

end Checksums

section Files

variable {computeMd5 : Bytes → Option Bytes} {file : File} {inherited inherited' : Dict}

theorem flag_reloaded_iff (flag : Flag)
    (h : inherited'.find? flag.key = inherited.find? flag.key) :
    (file.flags flag).truthy = (((inherited'.update (file.withMd5 computeMd5).jsonRepr).find?
        flag.key).getD (.boolean false)).truthy ↔
      (file.jsonRepr.find? flag.key = none →
        (file.flags flag).truthy = ((inherited.find? flag.key).getD (.boolean false)).truthy) := by
  rw [OrderedMap.find?_update, File.jsonRepr_withMd5_flag, h]
  rcases hfind : file.jsonRepr.find? flag.key with _ | value
  · simp
  · -- an entry has the flag as the file has it
    rw [File.find?_jsonRepr_flag] at hfind
    split_ifs at hfind
    cases hfind
    simp

theorem attr_reloaded_iff (attr : Attr)
    (h : Option.Rel attr.Same (inherited.find? attr.key) (inherited'.find? attr.key)) :
    attr.Same (file.attrs attr) (((inherited'.update (file.withMd5 computeMd5).jsonRepr).find?
        attr.key).getD .null) ↔
      ((file.attrs .useDefaults).truthy = true → attr = .useDefaults →
        file.attrs .useDefaults = useDefaultsText) ∧
      (file.jsonRepr.find? attr.key = none →
        attr.Same (file.attrs attr) ((inherited.find? attr.key).getD .null)) := by
  have hentry := file.jsonRepr_withMd5_attr computeMd5 attr
  have hinherited : attr.Same ((inherited.find? attr.key).getD .null)
      ((inherited'.find? attr.key).getD .null) := by
    generalize inherited.find? attr.key = value at h
    generalize inherited'.find? attr.key = value' at h
    rcases h with hsame | _
    · exact hsame
    · exact attr.same_refl _
  rw [OrderedMap.find?_update]
  rcases hfind : file.jsonRepr.find? attr.key with _ | value
  · rw [hfind] at hentry
    have hnone : (file.withMd5 computeMd5).jsonRepr.find? attr.key = none := by
      generalize (file.withMd5 computeMd5).jsonRepr.find? attr.key = entry' at hentry
      cases hentry
      rfl
    have huse : (file.attrs .useDefaults).truthy = true → attr ≠ .useDefaults := by
      rintro htrue rfl
      simp [File.find?_jsonRepr_attr, htrue] at hfind
    rw [hnone, Option.none_or, and_iff_right fun htrue heq => absurd heq (huse htrue)]
    refine ⟨fun hsame _ => attr.same_trans hsame (attr.same_comm hinherited), fun hsame => ?_⟩
    exact attr.same_trans (hsame rfl) hinherited
  · rw [hfind] at hentry
    obtain ⟨value', hvalue', hsame⟩ : ∃ value',
        (file.withMd5 computeMd5).jsonRepr.find? attr.key = some value' ∧
          attr.Same value value' := by
      generalize (file.withMd5 computeMd5).jsonRepr.find? attr.key = entry' at hentry
      rcases hentry with hsame | _
      exact ⟨_, rfl, hsame⟩
    rw [hvalue', Option.some_or, Option.getD_some]
    rw [File.find?_jsonRepr_attr] at hfind
    by_cases huse : (file.attrs .useDefaults).truthy = true
    · rw [if_pos huse] at hfind
      cases attr with
      | md5 =>
          cases hfind
          simp [hsame]
      | useDefaults =>
          cases hfind
          simp only [huse, forall_true_left, reduceCtorEq, false_implies, and_true]
          exact ⟨fun heq => Eq.trans heq hsame.symm, fun heq => Eq.trans heq hsame⟩
      | install => cases hfind
    · rw [if_neg huse] at hfind
      split_ifs at hfind
      cases hfind
      simp [huse, hsame]

/-- When a file is read back from its entry as it was. -/
theorem sameFile_iff (directory : Bytes)
    (hflags : ∀ flag : Flag, inherited'.find? flag.key = inherited.find? flag.key)
    (hattrs : ∀ attr : Attr,
      Option.Rel attr.Same (inherited.find? attr.key) (inherited'.find? attr.key)) :
    SameFile file (File.ofInput file.name directory
        (inputAfter inherited' (file.withMd5 computeMd5).jsonRepr)) ↔
      ((file.attrs .useDefaults).truthy = true → file.attrs .useDefaults = useDefaultsText) ∧
      (file.attrs .useDefaults ≠ .null → file.Inherits inherited) := by
  by_cases hnull : file.attrs .useDefaults = .null
  · -- the entry does not ask, and has what the file has
    have hasks : asksForDefaults (file.withMd5 computeMd5).jsonRepr = false := by
      rw [File.asks_jsonRepr, File.useDefaults_withMd5, hnull]
      rfl
    rw [inputAfter, hasks]
    refine iff_of_true ⟨fun flag => ?_, fun attr => ?_⟩ ?_
    · change _ = (((file.withMd5 computeMd5).jsonRepr.find? flag.key).getD _).truthy
      rw [File.jsonRepr_withMd5_flag, File.find?_jsonRepr_flag, hnull]
      by_cases hflag : (file.flags flag).truthy = true
      · simp [hflag]
      · simp [hflag]
    · have hsame := file.same_withMd5 computeMd5 attr
      change attr.Same _ (((file.withMd5 computeMd5).jsonRepr.find? attr.key).getD .null)
      rw [File.find?_jsonRepr_attr, File.useDefaults_withMd5, hnull]
      by_cases hattr : ((file.withMd5 computeMd5).attrs attr).isNull = true
      · rw [Json.eq_null hattr] at hsame
        simpa [hattr] using hsame
      · simpa [hattr] using hsame
    · exact ⟨fun htrue => by simp [hnull] at htrue, fun hne => absurd hnull hne⟩
  · have hasks : asksForDefaults (file.withMd5 computeMd5).jsonRepr = true := by
      rw [File.asks_jsonRepr, File.useDefaults_withMd5, Json.isNull_of_ne hnull]
      rfl
    rw [inputAfter, if_pos hasks]
    constructor
    · intro h
      refine ⟨fun htrue => ((attr_reloaded_iff .useDefaults (hattrs _)).mp (h.attrs _)).1 htrue rfl,
        fun _ => ⟨fun flag => ?_, fun attr => ?_⟩⟩
      · exact (flag_reloaded_iff flag (hflags flag)).mp (h.flags flag)
      · exact ((attr_reloaded_iff attr (hattrs attr)).mp (h.attrs attr)).2
    · rintro ⟨htext, hinherits⟩
      refine ⟨fun flag => ?_, fun attr => ?_⟩
      · exact (flag_reloaded_iff flag (hflags flag)).mpr ((hinherits hnull).flags flag)
      · exact (attr_reloaded_iff attr (hattrs attr)).mpr
          ⟨fun htrue _ => htext htrue, (hinherits hnull).attrs attr⟩

end Files

section Directories

variable {directory : Directory} {computeMd5 : Bytes → Option Bytes}

/-- What loading says of a directory. -/
structure Directory.Loaded (directory : Directory) : Prop where
  files_nodup : (directory.files.map File.name).Nodup
  asks : directory.fileDefaults = none → ∀ file ∈ directory.files, file.attrs .useDefaults = .null

def Directory.withMd5 (computeMd5 : Bytes → Option Bytes) (directory : Directory) : Directory :=
  { directory with files := directory.files.map (File.withMd5 computeMd5) }

theorem names_loadedFiles (path : Bytes) (defaults : Dict) (files : List (Bytes × Dict)) :
    (loadedFiles path defaults files).map File.name = files.map Prod.fst := by
  induction files generalizing defaults with
  | nil => rfl
  | cons file files ih =>
      rw [loadedFiles, List.map_cons, List.map_cons, ih]
      rfl

theorem loadedFiles_append (path : Bytes) (defaults : Dict) (before after : List (Bytes × Dict)) :
    loadedFiles path defaults (before ++ after) =
      loadedFiles path defaults before ++
        loadedFiles path (carried asksForDefaults defaults (before.map Prod.snd)) after := by
  induction before generalizing defaults with
  | nil => rfl
  | cons file before ih =>
      rw [List.cons_append, loadedFiles, loadedFiles, ih, List.cons_append, List.map_cons,
        carried_cons]
      rfl

theorem null_of_not_asks {file : Bytes × Dict} {path : Bytes} {defaults : Dict}
    (h : asksForDefaults file.2 = false) :
    (File.ofInput file.1 path (inputAfter defaults file.2)).attrs .useDefaults = .null := by
  have hnone : file.2.find? (text "use_defaults") = none := by
    simpa [asksForDefaults, OrderedMap.contains] using h
  rw [inputAfter, h]
  change (file.2.find? (text "use_defaults")).getD .null = .null
  rw [hnone]
  rfl

theorem Directory.loaded_of_init {name path : Bytes} {specification : DirectorySpecification}
    (h : Directory.init name specification path = .ok directory) :
    directory.name = name ∧ directory.Loaded := by
  obtain ⟨added, hadded, h⟩ := except_bind_eq_ok.1 h
  obtain rfl := except_pure_eq_ok.1 h
  obtain ⟨hfiles, hdefaults⟩ := addFiles_eq_ok hadded
  refine ⟨rfl, ?_, fun hnone file hfile => ?_⟩
  · change (added.1.map File.name).Nodup
    rw [hfiles, names_loadedFiles]
    exact specification.files_nodup
  · change added.2 = none at hnone
    rw [hdefaults, Option.map_eq_none_iff] at hnone
    rw [hnone] at hadded hfiles
    have hasks := List.filter_eq_nil_iff.mp (asksForDefaults_of_addFiles hadded)
    change file ∈ added.1 at hfile
    rw [hfiles] at hfile
    clear hfiles hadded hdefaults h
    generalize specification.files = files at hasks hfile
    generalize (none : Option Dict).getD .empty = defaults at hfile
    induction files generalizing defaults with
    | nil => cases hfile
    | cons first files ih =>
        have hfirst : asksForDefaults first.2 = false := by
          simpa using hasks first.2 (List.mem_map_of_mem List.mem_cons_self)
        rw [loadedFiles] at hfile
        rcases List.mem_cons.mp hfile with rfl | hfile
        · exact null_of_not_asks hfirst
        · refine ih (fun specification hspecification => ?_) _ hfile
          exact hasks specification (List.mem_cons_of_mem _ hspecification)

/-- The entries that are written for the files of a directory. -/
theorem files_jsonRepr : (directory.withMd5 computeMd5).jsonRepr.files =
    directory.byName.entries.map fun entry =>
      (entry.1, (entry.2.withMd5 computeMd5).jsonRepr) := by
  change (((OrderedMap.byKey File.name (directory.files.map _)).map File.jsonRepr).entries) = _
  rw [OrderedMap.byKey_map fun _ => File.name_withMd5 computeMd5]
  simp [OrderedMap.map, Directory.byName]

/-- The directory that is read back. -/
def Directory.reloaded (computeMd5 : Bytes → Option Bytes) (projectDirectory : Bytes)
    (directory : Directory) : Directory :=
  let written := (directory.withMd5 computeMd5).jsonRepr
  { name := directory.name
    install := written.install.getD .null
    files := loadedFiles (directoryPath directory.name projectDirectory)
      (written.fileDefaults.getD .empty) written.files
    fileDefaults := written.fileDefaults.map fun defaults =>
      carried asksForDefaults defaults (written.files.map Prod.snd) }

/-- Files can be added when none asks for defaults that are not there. -/
theorem exists_addFiles (path : Bytes) {fileDefaults : Option Dict}
    {files : List (Bytes × Dict)}
    (h : fileDefaults = none → ∀ file ∈ files, asksForDefaults file.2 = false) :
    ∃ added, addFiles path fileDefaults files = .ok added := by
  induction files generalizing fileDefaults with
  | nil => exact ⟨_, rfl⟩
  | cons file files ih =>
      obtain ⟨first, hfirst, hnone⟩ : ∃ first,
          File.init file.1 file.2 path fileDefaults = .ok first ∧
            (first.2 = none → fileDefaults = none) := by
        unfold File.init
        by_cases hasks : asksForDefaults file.2 = true
        · rcases fileDefaults with _ | defaults
          · rw [h rfl file List.mem_cons_self] at hasks
            cases hasks
          · rw [if_pos hasks]
            exact ⟨_, rfl, fun hnone => by cases hnone⟩
        · rw [if_neg hasks]
          exact ⟨_, rfl, id⟩
      obtain ⟨later, hlater⟩ := @ih first.2 fun hfirstNone other hother =>
        h (hnone hfirstNone) other (List.mem_cons_of_mem _ hother)
      exact ⟨_, except_bind_eq_ok.2 ⟨first, hfirst, except_bind_eq_ok.2 ⟨later, hlater, rfl⟩⟩⟩

theorem Directory.init_reloaded (h : directory.Loaded) (projectDirectory : Bytes) :
    Directory.init directory.name (directory.withMd5 computeMd5).jsonRepr projectDirectory =
      .ok (directory.reloaded computeMd5 projectDirectory) := by
  have hasks : (directory.withMd5 computeMd5).jsonRepr.fileDefaults = none →
      ∀ file ∈ (directory.withMd5 computeMd5).jsonRepr.files, asksForDefaults file.2 = false := by
    intro hnone file hfile
    have hdefaults : directory.fileDefaults = none := by
      simpa [Directory.jsonRepr, Directory.releasedDefaults, Directory.withMd5] using hnone
    rw [files_jsonRepr] at hfile
    obtain ⟨entry, hentry, rfl⟩ := List.mem_map.mp hfile
    obtain ⟨hmem, -⟩ := (OrderedMap.mem_byKey h.files_nodup).mp hentry
    rw [File.asks_jsonRepr, File.useDefaults_withMd5, h.asks hdefaults entry.2 hmem]
    rfl
  obtain ⟨added, hadded⟩ :=
    exists_addFiles (directoryPath directory.name projectDirectory) hasks
  obtain ⟨hfiles, hdefaults⟩ := addFiles_eq_ok hadded
  rw [Directory.init, hadded]
  change Except.ok _ = _
  rw [Except.ok.injEq, Directory.reloaded, hfiles, hdefaults]

theorem eq_of_option_rel {α : Type} {a b : Option α} (h : Option.Rel Eq a b) : a = b := by
  rcases h with rfl | _
  · rfl
  · rfl

/-- Where the members of two lists have the same names, each once. -/
theorem sameByName_iff {α : Type} {name : α → Bytes} (R : α → α → Prop) {l l' : List α}
    (hl : (l.map name).Nodup) (hl' : (l'.map name).Nodup)
    (hnames : ∀ key, key ∈ l.map name ↔ key ∈ l'.map name) (partner : α → α)
    (hpartner : ∀ a ∈ l, partner a ∈ l' ∧ name (partner a) = name a) :
    SameByName name R l l' ↔ ∀ a ∈ l, R a (partner a) := by
  have hfind : ∀ a ∈ l, (l'.find? fun b => name b = name a) = some (partner a) := by
    intro a ha
    obtain ⟨hmem, hname⟩ := hpartner a ha
    rw [← hname]
    exact OrderedMap.find?_eq_some_of_mem hl' hmem
  constructor
  · intro h a ha
    have hrel := h (name a)
    rw [OrderedMap.find?_eq_some_of_mem hl ha, hfind a ha] at hrel
    rcases hrel with hrel | _
    exact hrel
  · intro h key
    by_cases hkey : key ∈ l.map name
    · obtain ⟨a, ha, rfl⟩ := List.mem_map.mp hkey
      rw [OrderedMap.find?_eq_some_of_mem hl ha, hfind a ha]
      exact .some (h a ha)
    · rw [OrderedMap.find?_eq_none_of_not_mem hkey,
        OrderedMap.find?_eq_none_of_not_mem fun hmem => hkey ((hnames key).mpr hmem)]
      exact .none

/-- A file as it is read back, from its entry and from what that inherits. -/
def Directory.reloadedFile (computeMd5 : Bytes → Option Bytes) (projectDirectory : Bytes)
    (directory : Directory) (file : File) : File :=
  File.ofInput file.name (directoryPath directory.name projectDirectory)
    (inputAfter (carried asksForDefaults (directory.releasedDefaults.getD .empty)
      ((directory.byName.entriesBefore file.name).map fun entry =>
        (entry.2.withMd5 computeMd5).jsonRepr))
      (file.withMd5 computeMd5).jsonRepr)

theorem Directory.mem_reloaded (h : directory.Loaded) (projectDirectory : Bytes) {file : File}
    (hfile : file ∈ directory.files) :
    directory.reloadedFile computeMd5 projectDirectory file ∈
      (directory.reloaded computeMd5 projectDirectory).files := by
  have hfind : directory.byName.find? file.name = some file :=
    (OrderedMap.mem_entries_iff _ _ _).mp
      ((OrderedMap.mem_byKey h.files_nodup).mpr ⟨hfile, rfl⟩)
  obtain ⟨after, hsplit⟩ := OrderedMap.exists_entries_eq hfind
  change _ ∈ loadedFiles _ _ (directory.withMd5 computeMd5).jsonRepr.files
  rw [files_jsonRepr, hsplit, List.map_append, List.map_cons, loadedFiles_append, List.map_map]
  exact List.mem_append_right _ List.mem_cons_self

theorem Directory.names_reloaded (computeMd5 : Bytes → Option Bytes) (h : directory.Loaded)
    (projectDirectory : Bytes) :
    ((directory.reloaded computeMd5 projectDirectory).files.map File.name).Nodup ∧
      ∀ key, key ∈ directory.files.map File.name ↔
        key ∈ (directory.reloaded computeMd5 projectDirectory).files.map File.name := by
  have hnames : (directory.reloaded computeMd5 projectDirectory).files.map File.name =
      directory.byName.entries.map Prod.fst := by
    change (loadedFiles _ _ (directory.withMd5 computeMd5).jsonRepr.files).map _ = _
    rw [names_loadedFiles, files_jsonRepr, List.map_map]
    rfl
  rw [hnames]
  exact ⟨OrderedMap.keys_nodup _, OrderedMap.mem_keys_byKey h.files_nodup⟩

theorem Directory.sameDirectory_iff (h : directory.Loaded) (projectDirectory : Bytes) :
    SameDirectory directory (directory.reloaded computeMd5 projectDirectory) ↔
      directory.Releasable := by
  obtain ⟨hnodup, hnames⟩ :=
    Directory.names_reloaded computeMd5 h projectDirectory
  have hfiles := sameByName_iff SameFile h.files_nodup hnodup hnames
    (directory.reloadedFile computeMd5 projectDirectory)
    fun file hfile => ⟨Directory.mem_reloaded h projectDirectory hfile, rfl⟩
  have hfile : ∀ file : File,
      SameFile file (directory.reloadedFile computeMd5 projectDirectory file) ↔
        ((file.attrs .useDefaults).truthy = true →
          file.attrs .useDefaults = useDefaultsText) ∧
        (file.attrs .useDefaults ≠ .null → file.Inherits (directory.inherited file.name)) := by
    intro file
    refine sameFile_iff _ (fun flag => ?_) fun attr => ?_
    · have hentry : ∀ file : File, Option.Rel Eq (file.jsonRepr.find? flag.key)
          ((file.withMd5 computeMd5).jsonRepr.find? flag.key) := by
        intro file
        rw [File.jsonRepr_withMd5_flag]
        rcases file.jsonRepr.find? flag.key with _ | value
        · exact .none
        · exact .some rfl
      exact (eq_of_option_rel (carried_withMd5_rel computeMd5 (fun _ => rfl) hentry _ _)).symm
    · exact carried_withMd5_rel computeMd5 attr.same_refl
        (fun file => file.jsonRepr_withMd5_attr computeMd5 attr) _ _
  have hinstall : directory.install =
      (directory.reloaded computeMd5 projectDirectory).install ↔
        directory.install = .null ∨ directory.install.truthy = true := by
    change directory.install =
      (if directory.install.truthy then some directory.install else none).getD .null ↔ _
    by_cases htruthy : directory.install.truthy = true
    · simp [htruthy]
    · simp [htruthy]
  constructor
  · rintro ⟨hsame, hsameFiles⟩
    have hall := hfiles.mp hsameFiles
    exact ⟨hinstall.mp hsame, fun file hmem => ((hfile file).mp (hall file hmem)).1,
      fun file hmem => ((hfile file).mp (hall file hmem)).2⟩
  · rintro ⟨hinst, htext, hinherits⟩
    refine ⟨hinstall.mpr hinst, hfiles.mpr fun file hmem => ?_⟩
    exact (hfile file).mpr ⟨htext file hmem, hinherits file hmem⟩

/-- Entries of files that used the defaults leave the others' flags and install actions. -/
theorem Directory.find?_inherited (h : directory.Loaded)
    (huse : ∀ file ∈ directory.files, file.attrs .useDefaults = .null ∨
      (file.attrs .useDefaults).truthy = true) (name : Bytes) {key : Bytes}
    (hkey : ∀ file : File, (file.attrs .useDefaults).truthy = true →
      file.jsonRepr.find? key = none) :
    (directory.inherited name).find? key =
      (directory.releasedDefaults.getD .empty).find? key := by
  rw [Directory.inherited, find?_carried]
  refine lastValue_of_forall_none fun layer hlayer => ?_
  obtain ⟨hlayer, hasks⟩ := List.mem_filter.mp hlayer
  obtain ⟨entry, hentry, rfl⟩ := List.mem_map.mp hlayer
  obtain ⟨hmem, -⟩ := (OrderedMap.mem_byKey h.files_nodup).mp (List.mem_of_mem_filter hentry)
  rcases huse entry.2 hmem with hnull | htruthy
  · rw [File.asks_jsonRepr, hnull] at hasks
    cases hasks
  · exact hkey entry.2 htruthy

/-- In a manifest that the code has written, the defaults as loading leaves them have to be what
every file took from them. -/
theorem Directory.releasable_iff_of_text (h : directory.Loaded)
    (htext : ∀ file ∈ directory.files, file.attrs .useDefaults = .null ∨
      file.attrs .useDefaults = useDefaultsText) :
    directory.Releasable ↔
      (directory.install = .null ∨ directory.install.truthy = true) ∧
      ∀ file ∈ directory.files, file.attrs .useDefaults = useDefaultsText →
        (∀ flag : Flag, (file.flags flag).truthy =
          (((directory.releasedDefaults.getD .empty).find? flag.key).getD
            (.boolean false)).truthy) ∧
        file.attrs .install =
          ((directory.releasedDefaults.getD .empty).find? Attr.install.key).getD .null := by
  have htruthy : useDefaultsText.truthy = true := by decide
  have huse : ∀ file ∈ directory.files, file.attrs .useDefaults = .null ∨
      (file.attrs .useDefaults).truthy = true :=
    fun file hfile => (htext file hfile).imp_right fun heq => by rw [heq, htruthy]
  have hflag : ∀ (flag : Flag) (file : File), (file.attrs .useDefaults).truthy = true →
      file.jsonRepr.find? flag.key = none :=
    fun flag file hfile => (file.find?_jsonRepr_flag flag).trans (if_pos hfile)
  have hinstall : ∀ file : File, (file.attrs .useDefaults).truthy = true →
      file.jsonRepr.find? Attr.install.key = none :=
    fun file hfile => (file.find?_jsonRepr_attr .install).trans (if_pos hfile)
  constructor
  · rintro ⟨hdirectory, -, hinherits⟩
    refine ⟨hdirectory, fun file hfile heq => ?_⟩
    have hfileTruthy : (file.attrs .useDefaults).truthy = true := by rw [heq, htruthy]
    have hfileInherits := hinherits file hfile (by rw [heq]; exact Json.noConfusion)
    refine ⟨fun flag => ?_, ?_⟩
    · rw [← Directory.find?_inherited h huse file.name (hflag flag)]
      exact hfileInherits.flags flag (hflag flag file hfileTruthy)
    · rw [← Directory.find?_inherited h huse file.name hinstall]
      exact hfileInherits.attrs .install (hinstall file hfileTruthy)
  · rintro ⟨hdirectory, hfiles⟩
    refine ⟨hdirectory, fun file hfile hfileTruthy => ?_, fun file hfile hnull => ?_⟩
    · refine (htext file hfile).resolve_left fun hnull => ?_
      rw [hnull] at hfileTruthy
      cases hfileTruthy
    · have heq := (htext file hfile).resolve_left hnull
      have hfileTruthy : (file.attrs .useDefaults).truthy = true := by rw [heq, htruthy]
      obtain ⟨hflags, hinst⟩ := hfiles file hfile heq
      refine ⟨fun flag _ => ?_, fun attr hlacks => ?_⟩
      · rw [Directory.find?_inherited h huse file.name (hflag flag)]
        exact hflags flag
      · rw [File.find?_jsonRepr_attr, if_pos hfileTruthy] at hlacks
        cases attr with
        | md5 | useDefaults => cases hlacks
        | install =>
            rw [Directory.find?_inherited h huse file.name hinstall]
            exact hinst

end Directories

section Manifests

variable {computeMd5 : Bytes → Option Bytes} {directories : List Directory}

/-- Results that are known where they are made. -/
theorem eq_map_of_mapM_eq_some {α : Type} {f : α → Option α} {g : α → α}
    (h : ∀ a b, f a = some b → b = g a) {l l' : List α} (hl : l.mapM f = some l') :
    l' = l.map g := by
  induction l generalizing l' with
  | nil => simpa using hl.symm
  | cons a l ih =>
      rw [List.mapM_cons] at hl
      obtain ⟨b, hb, hl⟩ := Option.bind_eq_some_iff.mp hl
      obtain ⟨rest, hrest, hl⟩ := Option.bind_eq_some_iff.mp hl
      cases hl
      rw [List.map_cons, h a b hb, ih hrest]

theorem Directory.eq_withMd5 {directory directory' : Directory}
    (h : directory.makeMd5 computeMd5 = some directory') :
    directory' = directory.withMd5 computeMd5 := by
  obtain ⟨files, hfiles, h⟩ := Option.bind_eq_some_iff.mp h
  cases h
  have hmap : files = directory.files.map (File.withMd5 computeMd5) := by
    refine eq_map_of_mapM_eq_some (fun file file' hfile => ?_) hfiles
    unfold File.withMd5
    split_ifs at hfile ⊢
    · rw [hfile]
      rfl
    · exact (Option.some.inj hfile).symm
  rw [hmap]
  rfl

theorem byKey_withMd5 : OrderedMap.byKey Directory.name
    (directories.map (Directory.withMd5 computeMd5)) =
      (directoriesByName directories).map (Directory.withMd5 computeMd5) :=
  OrderedMap.byKey_map (fun _ => rfl) directories

theorem directories_createRelease {written : Manifest}
    (h : createRelease computeMd5 directories = some written) :
    written.directories = (directoriesByName directories).entries.map fun entry =>
      (entry.1, (entry.2.withMd5 computeMd5).jsonRepr) := by
  obtain ⟨released, hreleased, h⟩ := Option.bind_eq_some_iff.mp h
  cases h
  change ((OrderedMap.byKey _ _).map _).entries = _
  rw [eq_map_of_mapM_eq_some (fun _ _ => Directory.eq_withMd5) hreleased,
    byKey_withMd5]
  simp [OrderedMap.map, directoriesByName]

/-- What loading says of the directories of a manifest. -/
theorem loaded_of_loadFile {manifest : Manifest} {projectDirectory : Bytes}
    (h : loadFile manifest projectDirectory = .ok directories) :
    (directories.map Directory.name).Nodup ∧ ∀ directory ∈ directories, directory.Loaded := by
  have hinit : ∀ (entry : Bytes × DirectorySpecification) (directory : Directory),
      Directory.init entry.1 entry.2 projectDirectory = .ok directory →
        directory.name = entry.1 := fun _ _ hdirectory => (Directory.loaded_of_init hdirectory).1
  refine ⟨?_, fun directory hdirectory => ?_⟩
  · rw [map_of_mapM_eq_ok hinit h]
    exact manifest.directories_nodup
  · obtain ⟨entry, -, hentry⟩ := source_of_mem_mapM h hdirectory
    exact (Directory.loaded_of_init hentry).2

theorem loadFile_written {written : Manifest} (projectDirectory : Bytes)
    (hnodup : (directories.map Directory.name).Nodup)
    (hloaded : ∀ directory ∈ directories, directory.Loaded)
    (hwritten : createRelease computeMd5 directories = some written) :
    loadFile written projectDirectory = .ok ((directoriesByName directories).entries.map
      fun entry => entry.2.reloaded computeMd5 projectDirectory) := by
  rw [loadFile, directories_createRelease hwritten, mapM_eq_ok, List.forall₂_map_left_iff,
    List.forall₂_map_right_iff]
  refine List.forall₂_same.mpr fun entry hentry => ?_
  obtain ⟨hmem, hname⟩ := (OrderedMap.mem_byKey hnodup).mp hentry
  change Directory.init entry.1 _ _ = _
  rw [← hname]
  exact Directory.init_reloaded (hloaded _ hmem) projectDirectory

/-- Reading the written manifest gives the directories and files that were loaded, with the
same install actions, flags and attributes, exactly when every install action of a directory is
written, every file that used the defaults says so in the words of the code, and what an entry
leaves out is what it inherits. -/
theorem sameAfterRelease_iff {manifest written : Manifest} {projectDirectory : Bytes}
    (hload : loadFile manifest projectDirectory = .ok directories)
    (hwritten : createRelease computeMd5 directories = some written) :
    (∃ reloaded, loadFile written projectDirectory = .ok reloaded ∧
        SameByName Directory.name SameDirectory directories reloaded) ↔
      ∀ directory ∈ directories, directory.Releasable := by
  obtain ⟨hnodup, hloaded⟩ := loaded_of_loadFile hload
  have hreloaded := loadFile_written projectDirectory hnodup hloaded hwritten
  have hnames : ((directoriesByName directories).entries.map
      fun entry => entry.2.reloaded computeMd5 projectDirectory).map Directory.name =
      (directoriesByName directories).entries.map Prod.fst := by
    rw [List.map_map]
    exact List.map_congr_left fun entry hentry => ((OrderedMap.mem_byKey hnodup).mp hentry).2
  have hsame := sameByName_iff SameDirectory hnodup (hnames ▸ OrderedMap.keys_nodup _)
    (fun key => hnames ▸ OrderedMap.mem_keys_byKey hnodup key)
    (Directory.reloaded computeMd5 projectDirectory)
    (fun directory hdirectory => ⟨List.mem_map.mpr ⟨(directory.name, directory),
      (OrderedMap.mem_byKey hnodup).mpr ⟨hdirectory, rfl⟩, rfl⟩, rfl⟩)
  have hall : (∀ directory ∈ directories,
      SameDirectory directory (directory.reloaded computeMd5 projectDirectory)) ↔
      ∀ directory ∈ directories, directory.Releasable :=
    forall₂_congr fun directory hdirectory =>
      Directory.sameDirectory_iff (hloaded directory hdirectory) projectDirectory
  rw [← hall, ← hsame]
  constructor
  · rintro ⟨reloaded, hload', hsame'⟩
    obtain rfl := Except.ok.inj (hreloaded.symm.trans hload')
    exact hsame'
  · intro h
    exact ⟨_, hreloaded, h⟩

end Manifests

section Instances

/-- The checksum of a file without contents. -/
def emptyFileMd5 : Bytes := text "d41d8cd98f00b204e9800998ecf8427e"

/-- The directory that `separate` is loaded as. -/
def separateDirectory : Directory :=
  { name := text "bin"
    install := .string (text "create")
    files := [
      File.ofInput (text "first.h") (text "/server/bin")
        (separate.defaults.update (dict [(text "use_defaults", useDefaultsText)])),
      File.ofInput (text "second.h") (text "/server/bin")
        (dict [(text "must_exist", .boolean false)])]
    fileDefaults := some (separate.defaults.update
      (dict [(text "use_defaults", useDefaultsText)])) }

theorem loadFile_separate :
    loadFile (.single separate) (text "/server") = .ok [separateDirectory] := by
  have hfirst : asksForDefaults (dict [(text "use_defaults", useDefaultsText)]) = true := by
    decide
  have hsecond : asksForDefaults (dict [(text "must_exist", .boolean false)]) = false := by
    decide
  have hpath : directoryPath (text "bin") (text "/server") = text "/server/bin" := by
    decide
  have hadded : addFiles (text "/server/bin") separate.fileDefaults separate.files =
      .ok (separateDirectory.files, separateDirectory.fileDefaults) := by
    simp [addFiles, File.init, separate, separateDirectory, DirectorySpecification.defaults,
      hfirst, hsecond, pure, Except.pure, bind, Except.bind]
  rw [loadFile, mapM_eq_ok]
  refine .cons ?_ .nil
  change Directory.init (text "bin") separate (text "/server") = _
  rw [Directory.init, hpath, hadded]
  rfl

theorem separateDirectory_releasable : separateDirectory.Releasable := by
  refine ⟨.inr (by decide), fun file hfile htruthy => ?_, fun file hfile hnull => ?_⟩
  · rcases List.mem_cons.mp hfile with rfl | hfile
    · simp [File.ofInput, dict, Attr.key]
    · obtain rfl := List.mem_singleton.mp hfile
      exact absurd htruthy (by decide)
  · rcases List.mem_cons.mp hfile with rfl | hfile
    · refine ⟨fun flag _ => ?_, fun attr hlacks => ?_⟩
      · cases flag <;> decide
      · -- only the install action is left out
        cases attr with
        | md5 => exact absurd (congrArg Option.isSome hlacks) (by decide)
        | useDefaults => exact absurd (congrArg Option.isSome hlacks) (by decide)
        | install =>
            exact Eq.trans (Json.eq_null (by decide))
              (Json.eq_null (by decide)).symm
    · obtain rfl := List.mem_singleton.mp hfile
      exact absurd (Json.eq_null (by decide)) hnull

theorem separate_sameAfterRelease : ∃ written reloaded,
    createRelease (fun _ => some emptyFileMd5) [separateDirectory] = some written ∧
      loadFile written (text "/server") = .ok reloaded ∧
      SameByName Directory.name SameDirectory [separateDirectory] reloaded := by
  obtain ⟨written, hwritten⟩ := Option.isSome_iff_exists.mp
    (show (createRelease (fun _ => some emptyFileMd5) [separateDirectory]).isSome = true by
      decide)
  obtain ⟨reloaded, hreloaded, hsame⟩ :=
    (sameAfterRelease_iff loadFile_separate hwritten).mpr fun directory hdirectory => by
      obtain rfl := List.mem_singleton.mp hdirectory
      exact separateDirectory_releasable
  exact ⟨written, reloaded, hwritten, hreloaded, hsame⟩

/-- The last file overrides a default. -/
def overridingLast : DirectorySpecification :=
  { install := none
    files := [
      (text "first.h", dict [(text "use_defaults", useDefaultsText)]),
      (text "second.h", dict [(text "use_defaults", useDefaultsText),
        (text "must_exist", .boolean false)])]
    fileDefaults := some (dict [(text "must_exist", .boolean true)])
    files_nodup := by decide }

/-- Whether a file has to exist. -/
def mustExist (directory file : Bytes) (directories : List Directory) : Option Bool := do
  let found ← directories.find? fun d => d.name = directory
  let found ← found.files.find? fun f => f.name = file
  some (found.flags .mustExist).truthy

theorem mustExist_eq_of_same {directories directories' : List Directory}
    (h : SameByName Directory.name SameDirectory directories directories')
    (directory file : Bytes) :
    mustExist directory file directories = mustExist directory file directories' := by
  have hdirectory := h directory
  unfold mustExist
  generalize directories.find? _ = found at hdirectory ⊢
  generalize directories'.find? _ = found' at hdirectory ⊢
  rcases hdirectory with ⟨-, hfiles⟩ | _
  · have hfile := hfiles file
    simp only [bind, Option.bind]
    generalize List.find? _ _ = found at hfile ⊢
    generalize List.find? _ _ = found' at hfile ⊢
    rcases hfile with ⟨hflags, -⟩ | _
    · exact congrArg some (hflags .mustExist)
    · rfl
  · rfl

/-- The first file had to exist before it was released, and has not to afterwards. -/
theorem overridingLast_not_same : ∃ directories written,
    loadFile (.single overridingLast) (text "/server") = .ok directories ∧
      createRelease (fun _ => some emptyFileMd5) directories = some written ∧
      ¬∃ reloaded, loadFile written (text "/server") = .ok reloaded ∧
        SameByName Directory.name SameDirectory directories reloaded := by
  have hbefore : (loadFile (.single overridingLast) (text "/server")).toOption.bind
      (mustExist (text "bin") (text "first.h")) = some true := by
    decide
  have hafter : (loadFile (.single overridingLast) (text "/server")).toOption.bind
      (fun directories => (createRelease (fun _ => some emptyFileMd5) directories).bind
        fun written => (loadFile written (text "/server")).toOption.bind
          (mustExist (text "bin") (text "first.h"))) = some false := by
    decide
  rcases hload : loadFile (.single overridingLast) (text "/server") with error | directories
  · rw [hload] at hbefore
    cases hbefore
  rw [hload] at hbefore hafter
  change (createRelease _ directories).bind _ = some false at hafter
  obtain ⟨written, hwritten, hafter⟩ := Option.bind_eq_some_iff.mp hafter
  refine ⟨directories, written, rfl, hwritten, ?_⟩
  rintro ⟨reloaded, hreloaded, hsame⟩
  rw [hreloaded] at hafter
  have hequal := mustExist_eq_of_same hsame (text "bin") (text "first.h")
  have htrue : mustExist (text "bin") (text "first.h") directories = some true := hbefore
  have hfalse : mustExist (text "bin") (text "first.h") reloaded = some false := hafter
  rw [htrue, hfalse] at hequal
  cases hequal

end Instances

end ManageFiles

end Supernova
