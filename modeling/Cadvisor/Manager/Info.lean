import Cadvisor.Lib.Slice
import Cadvisor.Manager.Containers

/-!
# Container info

What the manager serves of its containers.  A name is a text; a subtree of names is
selected by a prefix of text, which amounts to a prefix of components.
-/

set_option autoImplicit false

namespace Cadvisor

structure ContainerInfoRequest where
  /-- An `i64`. -/
  numStats : Int := 60
  start : GoTime := GoTime.zero
  stop : GoTime := GoTime.zero

structure ContainerInfo where
  reference : ContainerReference := {}
  subcontainers : List ContainerReference := []
  spec : ContainerSpec := {}
  stats : List ContainerStats := []

inductive ManagerError where
  | unknownContainer (name : String)
  | host (error : HostError)

/-- What the name of everything below `name` starts with. -/
def childPrefix (name : String) : String := if name = "/" then "/" else name ++ "/"

/-- `sort_by` on names. -/
def sortByName {α : Type} (name : α → String) (items : List α) : List α :=
  items.mergeSort fun a b => name a ≤ name b

namespace Manager

def handles (m : Manager) : List ContainerHandle := m.containers.handles

def handle (m : Manager) (name : String) : Option ContainerHandle := m.containers.get? name

/-- Whether `k` starts with `pre` and has one more component behind it.  A text that
starts with `pre` can be cut behind it. -/
def isDirectChild (pre k : String) : Bool :=
  Str.startsWith k pre && decide (Slice.byteLen pre.toList < Slice.byteLen k.toList) &&
    match Slice.dropBytes (Slice.byteLen pre.toList) k.toList with
    | some rest => '/' ∉ rest
    | none => false

def directChildren (m : Manager) (name : String) : List ContainerReference :=
  let pre := childPrefix name
  let out : List ContainerReference :=
    (m.containers.names.filter (isDirectChild pre)).map fun k => { name := k }
  sortByName ContainerReference.name out

def assembleInfo (m : Manager) (handle : ContainerHandle) (req : ContainerInfoRequest)
    (withSubcontainers : Bool) : ContainerInfo :=
  { reference := handle.reference
    subcontainers := if withSubcontainers then m.directChildren handle.name else []
    spec := handle.spec
    stats := handle.store.inRange req.start req.stop req.numStats }

def containerInfo (m : Manager) (name : String) (req : ContainerInfoRequest) :
    Except ManagerError ContainerInfo :=
  match m.handle name with
  | none => .error (.unknownContainer name)
  | some handle => .ok (m.assembleInfo handle req true)

def subcontainersInfo (m : Manager) (name : String) (req : ContainerInfoRequest) :
    Except ManagerError (List ContainerInfo) :=
  match m.handle name with
  | none => .error (.unknownContainer name)
  | some _ =>
      let pre := childPrefix name
      let handles := sortByName ContainerHandle.name
        (m.handles.filter fun h => h.name = name || Str.startsWith h.name pre)
      .ok (handles.map fun h => m.assembleInfo h req true)

end Manager

/-! ## Names as lists of components -/

def Component (name : String) : Prop := name ≠ "" ∧ '/' ∉ name.toList

instance (name : String) : Decidable (Component name) := inferInstanceAs (Decidable (_ ∧ _))

def WellNamed (name : String) : Prop :=
  ∃ path, (∀ component ∈ path, Component component) ∧ cgroupName path = name

def componentsOf (name : String) : List String := (Str.split name '/').filter (· ≠ "")

def slashed (path : List String) : List Char := path.flatMap fun name => '/' :: name.toList

theorem cgroupName_toList {path : List String} (notRoot : path ≠ []) :
    (cgroupName path).toList = slashed path := by
  rw [cgroupName, if_neg notRoot, String.toList_ofList, slashed]

theorem splitOn_slashed {path : List String} (valid : ∀ c ∈ path, Component c) :
    (slashed path).splitOn '/' = [] :: path.map String.toList := by
  have behind : ∀ rest : List String, (∀ c ∈ rest, Component c) → ∀ first : String,
      Component first →
        (first.toList ++ slashed rest).splitOn '/' = first.toList :: rest.map String.toList := by
    intro rest
    induction rest with
    | nil =>
        intro _ first firstOk
        rw [slashed, List.flatMap_nil, List.append_nil, List.map_nil,
          List.splitOn_eq_singleton firstOk.2]
    | cons next rest ih =>
        intro restOk first firstOk
        obtain ⟨nextOk, others⟩ := List.forall_mem_cons.mp restOk
        have unfolded : slashed (next :: rest) = '/' :: (next.toList ++ slashed rest) := rfl
        rw [unfolded, List.splitOn_append_cons_self_of_not_mem firstOk.2, ih others next nextOk,
          List.map_cons]
  cases path with
  | nil => rfl
  | cons first rest =>
      obtain ⟨firstOk, restOk⟩ := List.forall_mem_cons.mp valid
      have unfolded : slashed (first :: rest) = [] ++ '/' :: (first.toList ++ slashed rest) := rfl
      rw [unfolded, List.splitOn_append_cons_self_of_not_mem List.not_mem_nil,
        behind rest restOk first firstOk, List.map_cons]

theorem componentsOf_cgroupName {path : List String} (valid : ∀ c ∈ path, Component c) :
    componentsOf (cgroupName path) = path := by
  by_cases isRoot : path = []
  · subst isRoot
    decide
  · rw [componentsOf, Str.split, cgroupName_toList isRoot, splitOn_slashed valid, List.map_cons,
      List.filter_cons_of_neg (by decide), List.map_map]
    have back : path.map (String.ofList ∘ String.toList) = path := by
      simp [Function.comp_def]
    rw [back, List.filter_eq_self]
    intro c member
    exact decide_eq_true (valid c member).1

theorem WellNamed.components {name : String} (named : WellNamed name) :
    (∀ c ∈ componentsOf name, Component c) ∧ cgroupName (componentsOf name) = name := by
  obtain ⟨path, valid, rfl⟩ := named
  rw [componentsOf_cgroupName valid]
  exact ⟨valid, rfl⟩

theorem cgroupName_ne_slash {path : List String} (valid : ∀ c ∈ path, Component c)
    (notRoot : path ≠ []) : cgroupName path ≠ "/" := by
  intro slash
  have components := componentsOf_cgroupName valid
  rw [slash] at components
  exact notRoot (components.symm.trans (by decide))

theorem childPrefix_toList {path : List String} (valid : ∀ c ∈ path, Component c) :
    (childPrefix (cgroupName path)).toList = slashed path ++ ['/'] := by
  by_cases isRoot : path = []
  · subst isRoot
    rfl
  · rw [childPrefix, if_neg (cgroupName_ne_slash valid isRoot), String.toList_append,
      cgroupName_toList isRoot]
    rfl

theorem components_of_slashed_eq {path whole : List String} {rest : List Char}
    (pathOk : ∀ c ∈ path, Component c) (wholeOk : ∀ c ∈ whole, Component c)
    (same : slashed whole = slashed path ++ '/' :: rest) :
    ∃ more, whole = path ++ more ∧ more.map String.toList = rest.splitOn '/' := by
  have parts := congrArg (List.splitOn '/') same
  rw [List.splitOn_append_cons_self, splitOn_slashed pathOk, splitOn_slashed wholeOk,
    List.cons_append, List.cons.injEq] at parts
  obtain ⟨front, more, wholeIs, frontIs, moreIs⟩ := List.map_eq_append_iff.mp parts.2
  have frontSame : front = path :=
    List.map_injective_iff.mpr (fun _ _ => String.toList_injective) frontIs
  exact ⟨more, frontSame ▸ wholeIs, moreIs⟩

theorem slashed_append_cons (path : List String) (c : String) (more : List String) :
    slashed (path ++ c :: more) = (slashed path ++ ['/']) ++ (c.toList ++ slashed more) := by
  rw [slashed, List.flatMap_append, List.flatMap_cons, List.append_assoc]
  rfl

theorem startsWith_childPrefix_iff {path whole : List String}
    (pathOk : ∀ c ∈ path, Component c) (wholeOk : ∀ c ∈ whole, Component c)
    (notRoot : whole ≠ []) :
    Str.startsWith (cgroupName whole) (childPrefix (cgroupName path)) = true ↔
      ∃ c more, whole = path ++ c :: more := by
  rw [Str.startsWith, List.isPrefixOf_iff_prefix, childPrefix_toList pathOk,
    cgroupName_toList notRoot]
  constructor
  · rintro ⟨rest, same⟩
    rw [List.append_assoc, List.singleton_append] at same
    obtain ⟨more, wholeIs, moreIs⟩ := components_of_slashed_eq pathOk wholeOk same.symm
    cases more with
    | nil => exact absurd moreIs.symm (List.splitOn_ne_nil _ _)
    | cons c more => exact ⟨c, more, wholeIs⟩
  · rintro ⟨c, more, rfl⟩
    exact ⟨c.toList ++ slashed more, (slashed_append_cons path c more).symm⟩

theorem trimEndMatches_cgroupName {path : List String} (valid : ∀ c ∈ path, Component c) :
    Str.trimEndMatches (cgroupName path) '/' ++ "/" = childPrefix (cgroupName path) := by
  cases path using List.reverseRecOn with
  | nil => decide
  | append_singleton front last =>
      have notRoot : front ++ [last] ≠ [] := List.concat_ne_nil _ _
      have lastOk := valid last (List.mem_append_right _ (List.mem_singleton_self last))
      have ends : ∃ chars c, last.toList = chars ++ [c] ∧ c ≠ '/' := by
        have nonempty : last.toList ≠ [] := fun empty => lastOk.1 (String.toList_injective empty)
        refine ⟨_, _, (List.dropLast_concat_getLast nonempty).symm, fun slash => ?_⟩
        exact lastOk.2 (slash ▸ List.getLast_mem nonempty)
      obtain ⟨chars, c, lastIs, notSlash⟩ := ends
      have shape : slashed (front ++ [last]) = (slashed front ++ '/' :: chars) ++ [c] := by
        rw [slashed_append_cons, lastIs, slashed, slashed, List.flatMap_nil]
        simp
      have untouched : Str.trimEndMatches (cgroupName (front ++ [last])) '/' =
          cgroupName (front ++ [last]) := by
        rw [Str.trimEndMatches, cgroupName_toList notRoot, shape, List.reverse_append,
          List.reverse_singleton, List.singleton_append,
          List.dropWhile_cons_of_neg (by simpa using notSlash), List.reverse_cons,
          List.reverse_reverse, ← shape, ← cgroupName_toList notRoot, String.ofList_toList]
      rw [untouched, childPrefix, if_neg (cgroupName_ne_slash valid notRoot)]

theorem selected_iff {path whole : List String} (pathOk : ∀ c ∈ path, Component c)
    (wholeOk : ∀ c ∈ whole, Component c) :
    (cgroupName whole = cgroupName path ∨
        Str.startsWith (cgroupName whole) (childPrefix (cgroupName path)) = true) ↔
      path <+: whole := by
  by_cases isRoot : whole = []
  · subst isRoot
    rw [List.prefix_nil]
    constructor
    · rintro (same | starts)
      · by_contra notRoot
        exact cgroupName_ne_slash pathOk notRoot same.symm
      · rw [Str.startsWith, List.isPrefixOf_iff_prefix, childPrefix_toList pathOk] at starts
        cases path with
        | nil => rfl
        | cons c more =>
            have size := starts.length_le
            have positive : c.toList ≠ [] := fun empty =>
              (pathOk c (List.mem_cons_self ..)).1 (String.toList_injective empty)
            have long := List.length_pos_of_ne_nil positive
            have short : (cgroupName []).toList.length = 1 := by decide
            simp only [slashed, List.flatMap_cons, List.cons_append, List.length_cons,
              List.length_append, short] at size
            omega
    · rintro rfl
      exact Or.inl rfl
  · rw [startsWith_childPrefix_iff pathOk wholeOk isRoot]
    constructor
    · rintro (same | ⟨c, more, rfl⟩)
      · have components := congrArg componentsOf same
        rw [componentsOf_cgroupName pathOk, componentsOf_cgroupName wholeOk] at components
        exact components ▸ List.prefix_refl _
      · exact List.prefix_append _ _
    · rintro ⟨rest, rfl⟩
      cases rest with
      | nil => exact Or.inl (by rw [List.append_nil])
      | cons c more => exact Or.inr ⟨c, more, rfl⟩

theorem isDirectChild_iff {path whole : List String} (pathOk : ∀ c ∈ path, Component c)
    (wholeOk : ∀ c ∈ whole, Component c) :
    Manager.isDirectChild (childPrefix (cgroupName path)) (cgroupName whole) = true ↔
      ∃ c, whole = path ++ [c] := by
  by_cases isRoot : whole = []
  · subst isRoot
    have notChild : ¬ ∃ c, [] = path ++ [c] := by
      rintro ⟨c, none⟩
      exact absurd none.symm (List.append_ne_nil_of_right_ne_nil _ (List.cons_ne_nil _ _))
    rw [iff_false_right notChild]
    intro child
    simp only [Manager.isDirectChild, Bool.and_eq_true, decide_eq_true_eq,
      childPrefix_toList pathOk,
      Slice.byteLen_append] at child
    have short : Slice.byteLen (cgroupName []).toList = Slice.byteLen ['/'] := rfl
    omega
  · rw [Manager.isDirectChild, Bool.and_eq_true, Bool.and_eq_true,
      startsWith_childPrefix_iff pathOk wholeOk isRoot, childPrefix_toList pathOk,
      cgroupName_toList isRoot]
    constructor
    · rintro ⟨⟨⟨c, more, rfl⟩, _⟩, single⟩
      rw [slashed_append_cons, Slice.dropBytes_append] at single
      cases more with
      | nil => exact ⟨c, rfl⟩
      | cons next more =>
          refine absurd ?_ (of_decide_eq_true single)
          exact List.mem_append_right _ (List.mem_cons_self ..)
    · rintro ⟨c, rfl⟩
      have component := wholeOk c (List.mem_append_right _ (List.mem_singleton_self c))
      refine ⟨⟨⟨c, [], rfl⟩, ?_⟩, ?_⟩
      · have positive : c.toList ≠ [] := fun empty =>
          component.1 (String.toList_injective empty)
        obtain ⟨first, rest, chars⟩ := List.exists_cons_of_ne_nil positive
        rw [decide_eq_true_eq, slashed_append_cons, Slice.byteLen_append (slashed path ++ ['/']),
          chars, List.cons_append, Slice.byteLen_cons]
        have size := first.utf8Size_pos
        omega
      · rw [slashed_append_cons, Slice.dropBytes_append]
        dsimp only
        rw [slashed, List.flatMap_nil, List.append_nil]
        exact decide_eq_true component.2

/-! ## What the manager selects -/

theorem map_sortByName {α : Type} (name : α → String) (items : List α) :
    (sortByName name items).map name = sortByName id (items.map name) :=
  List.map_mergeSort fun _ _ _ _ => rfl

theorem mem_sortByName {α : Type} {name : α → String} {items : List α} {item : α} :
    item ∈ sortByName name items ↔ item ∈ items := List.mem_mergeSort

theorem map_filter_name {handles : List ContainerHandle} (p : String → Bool) :
    (handles.filter fun h => p h.name).map ContainerHandle.name =
      (handles.map ContainerHandle.name).filter p := by
  rw [List.filter_map]
  rfl

namespace Manager

/-- Every container is named by components behind slashes. -/
def WellNamed (m : Manager) : Prop := ∀ k ∈ m.containers.names, Cadvisor.WellNamed k

/-- The names below a name: those whose components go on from its components. -/
def subtree (m : Manager) (name : String) : List String :=
  sortByName id
    (m.containers.names.filter fun k => (componentsOf name).isPrefixOf (componentsOf k))

variable {m : Manager}

theorem mem_subtree {name k : String} :
    k ∈ m.subtree name ↔ k ∈ m.containers.names ∧ componentsOf name <+: componentsOf k := by
  rw [subtree, mem_sortByName, List.mem_filter, List.isPrefixOf_iff_prefix]

theorem filter_selected (named : m.WellNamed) {name : String} (nameOk : Cadvisor.WellNamed name) :
    (sortByName ContainerHandle.name (m.handles.filter fun h =>
        h.name = name || Str.startsWith h.name (childPrefix name))).map ContainerHandle.name =
      m.subtree name := by
  rw [map_sortByName,
    map_filter_name fun k => decide (k = name) || Str.startsWith k (childPrefix name), subtree]
  congr 1
  refine List.filter_congr fun k member => ?_
  obtain ⟨whole, wholeOk, rfl⟩ := named k member
  obtain ⟨path, pathOk, rfl⟩ := nameOk
  rw [Bool.eq_iff_iff, Bool.or_eq_true, decide_eq_true_eq, selected_iff pathOk wholeOk,
    componentsOf_cgroupName pathOk, componentsOf_cgroupName wholeOk, List.isPrefixOf_iff_prefix]

theorem subcontainersInfo_ok (named : m.WellNamed) {name : String}
    (registered : name ∈ m.containers.names) (req : ContainerInfoRequest) :
    ∃ handles : List ContainerHandle, m.subcontainersInfo name req =
        .ok (handles.map fun h => m.assembleInfo h req true) ∧
      handles.map ContainerHandle.name = m.subtree name := by
  have known : (m.handle name).isSome = true := (m.containers.get?_isSome name).mpr registered
  obtain ⟨handle, found⟩ := Option.isSome_iff_exists.mp known
  refine ⟨_, ?_, filter_selected named (named name registered)⟩
  simp only [subcontainersInfo, found]

theorem mem_directChildren (named : m.WellNamed) {name k : String}
    (nameOk : Cadvisor.WellNamed name) :
    k ∈ (m.directChildren name).map ContainerReference.name ↔
      k ∈ m.containers.names ∧ ∃ c, componentsOf k = componentsOf name ++ [c] := by
  rw [directChildren, map_sortByName, mem_sortByName, List.map_map]
  have back : ∀ names : List String,
      names.map (ContainerReference.name ∘ fun k => { name := k }) = names :=
    fun names => List.map_id names
  rw [back, List.mem_filter, and_congr_right_iff]
  intro member
  obtain ⟨whole, wholeOk, rfl⟩ := named k member
  obtain ⟨path, pathOk, rfl⟩ := nameOk
  rw [isDirectChild_iff pathOk wholeOk, componentsOf_cgroupName pathOk,
    componentsOf_cgroupName wholeOk]

def parentName (name : String) : String := cgroupName (componentsOf name).dropLast

theorem existsUnique_parent (named : m.WellNamed) {k : String} (member : k ∈ m.containers.names)
    (notRoot : k ≠ "/") (parent : parentName k ∈ m.containers.names) :
    ∃! p, p ∈ m.containers.names ∧ k ∈ (m.directChildren p).map ContainerReference.name := by
  obtain ⟨valid, back⟩ := (named k member).components
  have nonempty : componentsOf k ≠ [] := by
    intro empty
    rw [empty] at back
    exact notRoot back.symm
  have parentOk : ∀ c ∈ (componentsOf k).dropLast, Component c :=
    fun c inPath => valid c ((List.dropLast_sublist _).mem inPath)
  have parentComponents : componentsOf (parentName k) = (componentsOf k).dropLast :=
    componentsOf_cgroupName parentOk
  refine ⟨parentName k, ⟨parent, ?_⟩, ?_⟩
  · rw [mem_directChildren named (named _ parent), parentComponents]
    exact ⟨member, _, (List.dropLast_concat_getLast nonempty).symm⟩
  · rintro other ⟨otherIn, child⟩
    obtain ⟨_, c, extended⟩ := (mem_directChildren named (named other otherIn)).mp child
    obtain ⟨_, otherBack⟩ := (named other otherIn).components
    rw [parentName, extended, List.dropLast_concat, otherBack]

end Manager

end Cadvisor
