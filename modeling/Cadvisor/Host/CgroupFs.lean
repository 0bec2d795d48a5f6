import Cadvisor.Lib.Str
import Cadvisor.Lib.TreeWalk
import Cadvisor.Model.GoTime
import Mathlib.Data.List.Induction

/-!
# The cgroup file system

A state of the tree under the unified mountpoint: the directories, each by its
path from the root, and what reading the files of each gives.  Cgroup names are
texts; a directory has one canonical name.
-/

set_option autoImplicit false

namespace Cadvisor

inductive FileRead where
  | content (text : String)
  | notFound
  | failed
  deriving DecidableEq

structure CgroupDir where
  /-- `modified().ok()` of the metadata. -/
  modified : Option GoTime
  file : String → FileRead

/-- A directory entry other than the dots. -/
def FileName (name : String) : Prop := name ≠ "" ∧ name ≠ "." ∧ name ≠ ".." ∧ '/' ∉ name.toList

instance (name : String) : Decidable (FileName name) :=
  inferInstanceAs (Decidable (_ ∧ _ ∧ _ ∧ _))

instance instLawfulBEqPath : LawfulBEq (List String) := inferInstance

/-- The directories that exist, in the order in which they are listed. -/
structure CgroupFs where
  dirs : List (List String)
  nodup : dirs.Nodup
  rootIn : [] ∈ dirs
  closed : ∀ path name, path ++ [name] ∈ dirs → path ∈ dirs
  named : ∀ path ∈ dirs, ∀ name ∈ path, FileName name
  dir : List String → CgroupDir

/-! ## Names and paths -/

/-- `/` for the root, else every component behind a slash. -/
def cgroupName (path : List String) : String :=
  if path = [] then "/" else String.ofList (path.flatMap fun name => '/' :: name.toList)

/-- The directory that `CgroupReader::dir` names, as the kernel resolves it; no
path leads above the mountpoint. -/
def resolveComponent (path : List String) (component : String) : Option (List String) :=
  if component = "" ∨ component = "." then some path
  else if component = ".." then (if path = [] then none else some path.dropLast)
  else some (path ++ [component])

def resolve (cgroup : String) : Option (List String) :=
  (Str.split (Str.trimStartMatches cgroup '/') '/').foldlM resolveComponent []

/-- The name `list_children` gives to an entry. -/
def childName (cgroup entry : String) : String :=
  (if cgroup = "/" then "" else cgroup) ++ "/" ++ entry

def Canonical (cgroup : String) : Prop :=
  ∃ path, (∀ name ∈ path, FileName name) ∧ cgroupName path = cgroup

theorem FileName.head_ne_slash {name : String} (valid : FileName name) (tail : List Char) :
    (name.toList ++ tail).dropWhile (· == '/') = name.toList ++ tail := by
  cases chars : name.toList with
  | nil =>
      have empty : name = "" := String.toList_injective chars
      exact absurd empty valid.1
  | cons c rest =>
      have notSlash : c ≠ '/' := by
        intro isSlash
        apply valid.2.2.2
        rw [chars, isSlash]
        exact List.mem_cons_self ..
      simp [notSlash]

theorem trimStart_cgroupName (first : String) (path : List String)
    (valid : ∀ name ∈ first :: path, FileName name) :
    (Str.trimStartMatches (cgroupName (first :: path)) '/').toList =
      [ '/' ].intercalate ((first :: path).map String.toList) := by
  have firstValid := valid first (List.mem_cons_self ..)
  have joined : ∀ rest : List String, ∀ head : String,
      head.toList ++ rest.flatMap (fun name => '/' :: name.toList) =
        [ '/' ].intercalate ((head :: rest).map String.toList) := by
    intro rest
    induction rest with
    | nil => intro head; simp [List.intercalate]
    | cons next rest ih =>
        intro head
        rw [List.flatMap_cons, List.cons_append, ih next]
        simp [List.intercalate]
  have expanded : cgroupName (first :: path) =
      String.ofList ('/' :: (first.toList ++ path.flatMap fun name => '/' :: name.toList)) := by
    simp [cgroupName]
  rw [expanded, Str.trimStartMatches, String.toList_ofList, String.toList_ofList,
    List.dropWhile_cons_of_pos (by simp), firstValid.head_ne_slash, joined]

theorem resolve_cgroupName (path : List String) (valid : ∀ name ∈ path, FileName name) :
    resolve (cgroupName path) = some path := by
  have walked : ∀ rest done : List String, (∀ name ∈ rest, FileName name) →
      rest.foldlM resolveComponent done = some (done ++ rest) := by
    intro rest
    induction rest with
    | nil => intro done _; simp
    | cons name rest ih =>
        intro done allValid
        have nameValid := allValid name (List.mem_cons_self ..)
        have one : resolveComponent done name = some (done ++ [name]) := by
          simp [resolveComponent, nameValid.1, nameValid.2.1, nameValid.2.2.1]
        rw [List.foldlM_cons, one]
        simpa using ih (done ++ [name]) fun n member => allValid n (List.mem_cons_of_mem _ member)
  cases path with
  | nil => decide
  | cons first path =>
      have noSlash : ∀ chars ∈ (first :: path).map String.toList, '/' ∉ chars := by
        intro chars member
        obtain ⟨name, inPath, rfl⟩ := List.mem_map.mp member
        exact (valid name inPath).2.2.2
      rw [resolve, Str.split, trimStart_cgroupName first path valid,
        List.splitOn_intercalate _ noSlash (by simp), List.map_map]
      have back : (first :: path).map (String.ofList ∘ String.toList) = first :: path := by
        simp [Function.comp_def]
      rw [back]
      simpa using walked (first :: path) [] valid

theorem cgroupName_injective {left right : List String}
    (leftValid : ∀ name ∈ left, FileName name) (rightValid : ∀ name ∈ right, FileName name)
    (same : cgroupName left = cgroupName right) : left = right := by
  have resolved := resolve_cgroupName left leftValid
  rw [same, resolve_cgroupName right rightValid, Option.some.injEq] at resolved
  exact resolved.symm

theorem cgroupName_eq_slash_iff (path : List String) (valid : ∀ name ∈ path, FileName name) :
    cgroupName path = "/" ↔ path = [] := by
  constructor
  · intro slash
    exact cgroupName_injective valid (by simp) (slash.trans (by rfl))
  · rintro rfl
    rfl

theorem childName_cgroupName (path : List String) (entry : String)
    (valid : ∀ name ∈ path, FileName name) :
    childName (cgroupName path) entry = cgroupName (path ++ [entry]) := by
  have slash : "/".toList = ['/'] := rfl
  by_cases isRoot : path = []
  · subst isRoot
    rw [← String.toList_inj]
    simp [childName, cgroupName, slash]
  · have notSlash := mt (cgroupName_eq_slash_iff path valid).mp isRoot
    rw [childName, if_neg notSlash, ← String.toList_inj]
    simp [cgroupName, isRoot, slash]

/-! ## Looking at a state -/

/-- The entries of `path` among `dirs`. -/
def entriesOf (dirs : List (List String)) (path : List String) : List String :=
  dirs.filterMap fun dir => if dir.dropLast = path then dir.getLast? else none

theorem mem_entriesOf (dirs : List (List String)) (path : List String) (entry : String) :
    entry ∈ entriesOf dirs path ↔ path ++ [entry] ∈ dirs := by
  rw [entriesOf, List.mem_filterMap]
  constructor
  · rintro ⟨dir, member, found⟩
    split at found
    · rename_i isParent
      have whole := List.dropLast_append_getLast? entry found
      rw [isParent] at whole
      exact whole ▸ member
    · cases found
  · intro member
    exact ⟨path ++ [entry], member, by simp⟩

theorem entriesOf_nodup {dirs : List (List String)} (nodup : dirs.Nodup) (path : List String) :
    (entriesOf dirs path).Nodup := by
  apply List.Nodup.filterMap _ nodup
  intro a b entry fromA fromB
  simp only [Option.mem_def, Option.ite_none_right_eq_some] at fromA fromB
  rw [← List.dropLast_append_getLast? entry fromA.2, ← List.dropLast_append_getLast? entry fromB.2,
    fromA.1, fromB.1]

namespace CgroupFs

/-- `CgroupReader::exists`. -/
def «exists» (fs : CgroupFs) (cgroup : String) : Bool :=
  match resolve cgroup with
  | none => false
  | some path => path ∈ fs.dirs

/-- `CgroupReader::list_children`; `none` is its error. -/
def listChildren (fs : CgroupFs) (cgroup : String) : Option (List String) :=
  match resolve cgroup with
  | none => none
  | some path =>
      if path ∈ fs.dirs then some ((entriesOf fs.dirs path).map (childName cgroup)) else none

def names (fs : CgroupFs) : List String := fs.dirs.map cgroupName

theorem exists_cgroupName (fs : CgroupFs) (path : List String)
    (valid : ∀ name ∈ path, FileName name) :
    fs.exists (cgroupName path) = true ↔ path ∈ fs.dirs := by
  simp [«exists», resolve_cgroupName path valid]

theorem listChildren_cgroupName (fs : CgroupFs) {path : List String} (member : path ∈ fs.dirs) :
    fs.listChildren (cgroupName path) =
      some ((entriesOf fs.dirs path).map fun entry => cgroupName (path ++ [entry])) := by
  have valid := fs.named path member
  simp only [listChildren, resolve_cgroupName path valid, member, if_true]
  congr 2
  funext entry
  exact childName_cgroupName path entry valid

theorem mem_names_iff_exists (fs : CgroupFs) {cgroup : String} (canonical : Canonical cgroup) :
    cgroup ∈ fs.names ↔ fs.exists cgroup = true := by
  obtain ⟨path, valid, rfl⟩ := canonical
  rw [fs.exists_cgroupName path valid, names, List.mem_map]
  constructor
  · rintro ⟨other, member, same⟩
    rwa [← cgroupName_injective (fs.named other member) valid same]
  · intro member
    exact ⟨path, member, rfl⟩

theorem isTree (fs : CgroupFs) : TreeWalk.IsTree fs.listChildren "/" fs.names where
  rootIn := List.mem_map.mpr ⟨[], fs.rootIn, rfl⟩
  listed := by
    intro cgroup member
    obtain ⟨path, inDirs, rfl⟩ := List.mem_map.mp member
    refine ⟨_, fs.listChildren_cgroupName inDirs, ?_, ?_⟩
    · refine List.Nodup.map_on ?_ (entriesOf_nodup fs.nodup path)
      intro a aIn b bIn same
      have aDir := (mem_entriesOf _ _ _).mp aIn
      have bDir := (mem_entriesOf _ _ _).mp bIn
      have paths := cgroupName_injective (fs.named _ aDir) (fs.named _ bDir) same
      exact List.singleton_inj.mp (List.append_cancel_left paths)
    · intro child inChildren
      obtain ⟨entry, isEntry, rfl⟩ := List.mem_map.mp inChildren
      have childDir := (mem_entriesOf _ _ _).mp isEntry
      refine ⟨List.mem_map.mpr ⟨_, childDir, rfl⟩, fun isRoot => ?_⟩
      have empty := (cgroupName_eq_slash_iff _ (fs.named _ childDir)).mp isRoot
      simp at empty
  oneParent := by
    intro a aIn b bIn as bs aListing bListing child inAs inBs
    obtain ⟨aPath, aDir, rfl⟩ := List.mem_map.mp aIn
    obtain ⟨bPath, bDir, rfl⟩ := List.mem_map.mp bIn
    rw [fs.listChildren_cgroupName aDir, Option.some.injEq] at aListing
    rw [fs.listChildren_cgroupName bDir, Option.some.injEq] at bListing
    subst aListing bListing
    obtain ⟨aEntry, aIs, rfl⟩ := List.mem_map.mp inAs
    obtain ⟨bEntry, bIs, same⟩ := List.mem_map.mp inBs
    have paths := cgroupName_injective (fs.named _ ((mem_entriesOf _ _ _).mp bIs))
      (fs.named _ ((mem_entriesOf _ _ _).mp aIs)) same
    rw [(List.append_inj' paths rfl).1]
  reached := by
    intro P atRoot down cgroup member
    obtain ⟨path, inDirs, rfl⟩ := List.mem_map.mp member
    induction path using List.reverseRecOn with
    | nil => exact atRoot
    | append_singleton path entry ih =>
        have parentDir := fs.closed path entry inDirs
        have parentIn : cgroupName path ∈ fs.names := List.mem_map.mpr ⟨path, parentDir, rfl⟩
        refine down _ parentIn (ih parentDir parentIn) _ (fs.listChildren_cgroupName parentDir) _ ?_
        exact List.mem_map.mpr ⟨entry, (mem_entriesOf _ _ _).mpr inDirs, rfl⟩

end CgroupFs

end Cadvisor
