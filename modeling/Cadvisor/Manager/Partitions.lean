import Cadvisor.Host.Fs
import Cadvisor.Manager.Info
import Mathlib.Data.List.MinMax

/-!
# The mount that a path lies on

The service keeps the first row of each source, of the types it supports, and looks a
path up among the rows it kept.  The whole table has one mount that contains the path;
the one found can be further up, on another device.
-/

set_option autoImplicit false

namespace Cadvisor

open Parse (MountInfoLine)

def Parse.MountInfoLine.number (r : MountInfoLine) : FsNumber := (r.major, r.minor)

/-- What `from_mountinfo` keeps one row of. -/
def Parse.MountInfoLine.key (r : MountInfoLine) : String :=
  if r.fsType = "tmpfs" then r.mountpoint else r.source

def Parse.MountInfoLine.partition (r : MountInfoLine) : Partition :=
  ⟨r.key, r.mountpoint, r.fsType, r.major, r.minor⟩

def Parse.MountInfoLine.Spells (r : MountInfoLine) (path : String) : Prop :=
  path = r.mountpoint ∨ Str.startsWith path (Str.trimEndMatches r.mountpoint '/' ++ "/")

/-- The components of a path, as `std::path` cuts it: doubled slashes and single dots
leave none. -/
def pathComponents (path : String) : List String :=
  (Str.split path '/').filter fun c => c ≠ "" ∧ c ≠ "."

def Parse.MountInfoLine.components (r : MountInfoLine) : List String := pathComponents r.mountpoint

/-- A mount table: mountpoints are absolute paths in their normal form, each of them
once. -/
structure MountTable where
  rows : List MountInfoLine
  normal : ∀ r ∈ rows, ∃ path, (∀ c ∈ path, FileName c) ∧ cgroupName path = r.mountpoint
  distinct : (rows.map fun r => r.mountpoint).Nodup

namespace MountTable

/-- The rows of a supported type that no earlier one has the key of. -/
def Kept (rows : List MountInfoLine) (r : MountInfoLine) : Prop :=
  ∃ before after, rows = before ++ r :: after ∧ supportedFs r.fsType = true ∧
    ∀ e ∈ before, supportedFs e.fsType = true → e.key ≠ r.key

/-- The mount that contains the path: its mountpoint is the longest of those that are
a prefix of the path, component by component. -/
def Contains (t : MountTable) (path : String) (c : MountInfoLine) : Prop :=
  c ∈ t.rows ∧ c.components <+: pathComponents path ∧
    ∀ r ∈ t.rows, r.components <+: pathComponents path →
      r.components.length ≤ c.components.length

end MountTable

/-! ## The rows kept -/

namespace MountTable

theorem kept_concat {front : List MountInfoLine} {last r : MountInfoLine} :
    Kept (front ++ [last]) r ↔ Kept front r ∨
      r = last ∧ supportedFs last.fsType = true ∧
        ∀ e ∈ front, supportedFs e.fsType = true → e.key ≠ last.key := by
  constructor
  · rintro ⟨before, after, same, supported, first⟩
    cases after using List.reverseRecOn with
    | nil =>
        obtain ⟨rfl, isLast⟩ := List.append_inj' same rfl
        obtain rfl : last = r := List.singleton_inj.mp isLast
        exact Or.inr ⟨rfl, supported, first⟩
    | append_singleton after end' =>
        rw [← List.cons_append, ← List.append_assoc] at same
        have frontIs := (List.append_inj' same rfl).1
        exact Or.inl ⟨before, after, frontIs, supported, first⟩
  · rintro (⟨before, after, rfl, supported, first⟩ | ⟨rfl, supported, first⟩)
    · exact ⟨before, after ++ [last], by simp, supported, first⟩
    · exact ⟨front, [], rfl, supported, first⟩

theorem Kept.mem {rows : List MountInfoLine} {r : MountInfoLine} (kept : Kept rows r) :
    r ∈ rows := by
  obtain ⟨before, after, rfl, _⟩ := kept
  exact List.mem_append_right _ (List.mem_cons_self ..)

theorem addMount_eq (acc : List String × List Partition) (m : MountInfoLine) :
    FsService.addMount acc m =
      if supportedFs m.fsType = true ∧ m.key ∉ acc.1 then
        (m.key :: acc.1, acc.2 ++ [m.partition])
      else acc := by
  have keyIs : (if m.fsType = "tmpfs" then m.mountpoint else m.source) = m.key := rfl
  unfold FsService.addMount
  rw [keyIs]
  by_cases supported : supportedFs m.fsType = true
  · rw [if_neg (not_not.mpr supported)]
    by_cases seen : m.key ∈ acc.1
    · rw [if_pos seen, if_neg fun both => both.2 seen]
    · rw [if_neg seen, if_pos ⟨supported, seen⟩]
      rfl
  · rw [if_pos supported, if_neg fun both => supported both.1]

theorem mem_addMount_keys (acc : List String × List Partition) (m : MountInfoLine)
    (key : String) :
    key ∈ (FsService.addMount acc m).1 ↔
      key ∈ acc.1 ∨ supportedFs m.fsType = true ∧ m.key = key := by
  rw [addMount_eq]
  split_ifs with added
  · rw [List.mem_cons, and_iff_right added.1, or_comm, eq_comm]
  · refine ⟨Or.inl, ?_⟩
    rintro (before | ⟨supported, rfl⟩)
    · exact before
    · exact not_not.mp fun fresh => added ⟨supported, fresh⟩

theorem mem_addMount_partitions (acc : List String × List Partition) (m : MountInfoLine)
    (p : Partition) :
    p ∈ (FsService.addMount acc m).2 ↔
      p ∈ acc.2 ∨ (supportedFs m.fsType = true ∧ m.key ∉ acc.1) ∧ m.partition = p := by
  rw [addMount_eq]
  split_ifs with added
  · rw [List.mem_append, List.mem_singleton, and_iff_right added, eq_comm (a := p)]
  · rw [or_iff_left fun both => added both.1]

theorem mem_seen (rows : List MountInfoLine) (key : String) :
    key ∈ (rows.foldl FsService.addMount ([], [])).1 ↔
      ∃ e ∈ rows, supportedFs e.fsType = true ∧ e.key = key := by
  induction rows using List.reverseRecOn with
  | nil => simp
  | append_singleton front last ih =>
      rw [List.foldl_append, List.foldl_cons, List.foldl_nil, mem_addMount_keys, ih]
      simp only [List.mem_append, List.mem_singleton, or_and_right, exists_or, exists_eq_left]

theorem mem_foldl_addMount (rows : List MountInfoLine) (p : Partition) :
    p ∈ (rows.foldl FsService.addMount ([], [])).2 ↔ ∃ r, Kept rows r ∧ r.partition = p := by
  induction rows using List.reverseRecOn with
  | nil => simp [Kept]
  | append_singleton front last ih =>
      have unseen : last.key ∉ (front.foldl FsService.addMount ([], [])).1 ↔
          ∀ e ∈ front, supportedFs e.fsType = true → e.key ≠ last.key := by
        rw [mem_seen]
        push Not
        rfl
      rw [List.foldl_append, List.foldl_cons, List.foldl_nil, mem_addMount_partitions, ih, unseen]
      simp only [kept_concat, or_and_right, exists_or, and_assoc, exists_eq_left]

theorem mem_partitions (content : String) (p : Partition) :
    p ∈ (FsService.fromMountinfo content).partitions ↔
      ∃ r, Kept (Parse.mountinfo content) r ∧ r.partition = p :=
  mem_foldl_addMount (Parse.mountinfo content) p

end MountTable

/-! ## The row found -/

theorem exists_longest {items : List Partition} (nonempty : items ≠ []) :
    ∃ p ∈ items, items.foldl (fun best p =>
        match best with
        | none => some p
        | some b =>
            if b.mountpoint.utf8ByteSize ≤ p.mountpoint.utf8ByteSize then some p else some b)
        none = some p ∧
      ∀ q ∈ items, q.mountpoint.utf8ByteSize ≤ p.mountpoint.utf8ByteSize := by
  induction items using List.reverseRecOn with
  | nil => exact absurd rfl nonempty
  | append_singleton front last ih =>
      rw [List.foldl_append, List.foldl_cons, List.foldl_nil]
      by_cases isFirst : front = []
      · subst isFirst
        refine ⟨last, List.mem_singleton_self last, rfl, ?_⟩
        exact List.forall_mem_singleton.mpr (Nat.le_refl _)
      · obtain ⟨best, member, found, longest⟩ := ih isFirst
        rw [found]
        by_cases le : best.mountpoint.utf8ByteSize ≤ last.mountpoint.utf8ByteSize
        · refine ⟨last, List.mem_append_right _ (List.mem_singleton_self last), if_pos le, ?_⟩
          intro q inItems
          rcases List.mem_append.mp inItems with inFront | isLast
          · exact (longest q inFront).trans le
          · rw [List.mem_singleton.mp isLast]
        · refine ⟨best, List.mem_append_left _ member, if_neg le, ?_⟩
          intro q inItems
          rcases List.mem_append.mp inItems with inFront | isLast
          · exact longest q inFront
          · rw [List.mem_singleton.mp isLast]
            omega

/-- What `partition_for_path` answers with is the longest of the rows that are kept and
that spell the path, if there is one. -/
theorem partitionForPath_spec (content path : String) :
    (∀ r, MountTable.Kept (Parse.mountinfo content) r → ¬ r.Spells path) ∧
        partitionForPath (FsService.fromMountinfo content).partitions path = none ∨
      ∃ r, MountTable.Kept (Parse.mountinfo content) r ∧ r.Spells path ∧
        partitionForPath (FsService.fromMountinfo content).partitions path = some r.partition ∧
        ∀ e, MountTable.Kept (Parse.mountinfo content) e → e.Spells path →
          e.mountpoint.utf8ByteSize ≤ r.mountpoint.utf8ByteSize := by
  unfold partitionForPath
  generalize candidatesAre : (FsService.fromMountinfo content).partitions.filter _ = candidates
  have mem : ∀ p, p ∈ candidates ↔
      ∃ r, MountTable.Kept (Parse.mountinfo content) r ∧ r.Spells path ∧ r.partition = p := by
    intro p
    rw [← candidatesAre, List.mem_filter, MountTable.mem_partitions, decide_eq_true_iff]
    constructor
    · rintro ⟨⟨r, kept, rfl⟩, spells⟩
      exact ⟨r, kept, spells, rfl⟩
    · rintro ⟨r, kept, spells, rfl⟩
      exact ⟨⟨r, kept, rfl⟩, spells⟩
  by_cases empty : candidates = []
  · refine Or.inl ⟨fun r kept spells => ?_, ?_⟩
    · have found := (mem r.partition).mpr ⟨r, kept, spells, rfl⟩
      rw [empty] at found
      exact List.not_mem_nil found
    · rw [empty]
      rfl
  · obtain ⟨p, member, found, longest⟩ := exists_longest empty
    obtain ⟨r, kept, spells, rfl⟩ := (mem p).mp member
    refine Or.inr ⟨r, kept, spells, found, fun e eKept eSpells => ?_⟩
    exact longest e.partition ((mem e.partition).mpr ⟨e, eKept, eSpells, rfl⟩)

/-! ## Mountpoints as lists of components -/

theorem FileName.component {name : String} (valid : FileName name) : Component name :=
  ⟨valid.1, valid.2.2.2⟩

theorem pathComponents_eq (path : String) :
    pathComponents path = (componentsOf path).filter fun c => c ≠ "." := by
  rw [pathComponents, componentsOf, List.filter_filter]
  refine List.filter_congr fun c _ => ?_
  rw [Bool.decide_and, Bool.and_comm]

theorem pathComponents_cgroupName {path : List String} (valid : ∀ c ∈ path, FileName c) :
    pathComponents (cgroupName path) = path := by
  rw [pathComponents_eq, componentsOf_cgroupName fun c member => (valid c member).component,
    List.filter_eq_self]
  intro c member
  exact decide_eq_true (valid c member).2.1

theorem prefix_of_startsWith {front : List String} (valid : ∀ c ∈ front, FileName c)
    {path : String}
    (starts : Str.startsWith path (Str.trimEndMatches (cgroupName front) '/' ++ "/") = true) :
    front <+: pathComponents path := by
  have components : ∀ c ∈ front, Component c := fun c member => (valid c member).component
  rw [trimEndMatches_cgroupName components, Str.startsWith, List.isPrefixOf_iff_prefix,
    childPrefix_toList components] at starts
  obtain ⟨rest, spelled⟩ := starts
  rw [List.append_assoc, List.singleton_append] at spelled
  have parts : Str.split path '/' = "" :: front ++ (rest.splitOn '/').map String.ofList := by
    rw [Str.split, ← spelled, List.splitOn_append_cons_self, splitOn_slashed components,
      List.map_append, List.map_cons, List.map_map]
    simp [Function.comp_def]
  have kept : front.filter (fun c => c ≠ "" ∧ c ≠ ".") = front := by
    rw [List.filter_eq_self]
    intro c member
    exact decide_eq_true ⟨(valid c member).1, (valid c member).2.1⟩
  rw [pathComponents, parts, List.filter_append, List.filter_cons_of_neg (by decide), kept]
  exact List.prefix_append _ _

theorem utf8ByteSize_cgroupName_lt {front : List String} {c : String} {more : List String}
    (nonempty : c ≠ "") :
    (cgroupName front).utf8ByteSize < (cgroupName (front ++ c :: more)).utf8ByteSize := by
  have longer : ∃ rest, rest ≠ "" ∧ cgroupName (front ++ c :: more) = cgroupName front ++ rest := by
    have whole : (cgroupName (front ++ c :: more)).toList =
        (slashed front ++ ['/']) ++ (c.toList ++ slashed more) := by
      rw [cgroupName_toList (by simp), slashed_append_cons]
    by_cases isRoot : front = []
    · subst isRoot
      refine ⟨c ++ String.ofList (slashed more), ?_, ?_⟩
      · simp [nonempty]
      · rw [← String.toList_inj, whole, String.toList_append, String.toList_append,
          String.toList_ofList]
        rfl
    · refine ⟨String.ofList ('/' :: (c.toList ++ slashed more)), by simp, ?_⟩
      rw [← String.toList_inj, whole, String.toList_append, String.toList_ofList,
        cgroupName_toList isRoot, List.append_assoc, List.singleton_append]
  obtain ⟨rest, notEmpty, isLonger⟩ := longer
  have positive : rest.utf8ByteSize ≠ 0 := by simpa using notEmpty
  rw [isLonger, String.utf8ByteSize_append]
  omega

namespace MountTable

variable {t : MountTable} {path : String} {r e c : MountInfoLine}

theorem named (member : r ∈ t.rows) :
    (∀ c ∈ r.components, FileName c) ∧ cgroupName r.components = r.mountpoint := by
  obtain ⟨front, valid, isMountpoint⟩ := t.normal r member
  have same : r.components = front := by
    rw [MountInfoLine.components, ← isMountpoint, pathComponents_cgroupName valid]
  rw [same]
  exact ⟨valid, isMountpoint⟩

theorem holds_of_spells (member : r ∈ t.rows) (spells : r.Spells path) :
    r.components <+: pathComponents path := by
  obtain ⟨valid, isMountpoint⟩ := named member
  rcases spells with same | starts
  · rw [same]
    exact List.prefix_refl _
  · rw [← isMountpoint] at starts
    exact prefix_of_startsWith valid starts

theorem eq_of_components (member : r ∈ t.rows) (other : e ∈ t.rows)
    (same : r.components = e.components) : r = e := by
  apply List.inj_on_of_nodup_map t.distinct member other
  rw [← (named member).2, ← (named other).2, same]

theorem eq_of_depth (member : r ∈ t.rows) (other : e ∈ t.rows)
    (onPath : r.components <+: pathComponents path)
    (otherOnPath : e.components <+: pathComponents path)
    (equal : r.components.length = e.components.length) : r = e :=
  eq_of_components member other
    ((List.prefix_of_prefix_length_le onPath otherOnPath equal.le).eq_of_length equal)

theorem shorter_of_depth (member : r ∈ t.rows) (other : e ∈ t.rows)
    (onPath : r.components <+: pathComponents path)
    (otherOnPath : e.components <+: pathComponents path)
    (less : r.components.length < e.components.length) :
    r.mountpoint.utf8ByteSize < e.mountpoint.utf8ByteSize := by
  obtain ⟨more, isMore⟩ := List.prefix_of_prefix_length_le onPath otherOnPath less.le
  rw [← (named member).2, ← (named other).2, ← isMore]
  cases more with
  | nil =>
      rw [← isMore, List.append_nil] at less
      omega
  | cons c more =>
      have inOther : c ∈ e.components := isMore ▸ List.mem_append_right _ (List.mem_cons_self ..)
      exact utf8ByteSize_cgroupName_lt ((named other).1 c inOther).1

theorem exists_contains (member : r ∈ t.rows) (onPath : r.components <+: pathComponents path) :
    ∃ c, t.Contains path c := by
  have mem : ∀ e, e ∈ t.rows.filter (fun e => e.components <+: pathComponents path) ↔
      e ∈ t.rows ∧ e.components <+: pathComponents path := by
    intro e
    rw [List.mem_filter, decide_eq_true_iff]
  have holding := (mem r).mpr ⟨member, onPath⟩
  cases largest : (t.rows.filter fun e => e.components <+: pathComponents path).argmax
      fun e => e.components.length with
  | none =>
      rw [List.argmax_eq_none.mp largest] at holding
      exact absurd holding List.not_mem_nil
  | some c =>
      obtain ⟨inTable, holds⟩ := (mem c).mp (List.argmax_mem largest)
      have deepest : ∀ e ∈ t.rows.filter (fun e => e.components <+: pathComponents path),
          e.components.length ≤ c.components.length := fun e member =>
        List.le_of_mem_argmax (f := fun e : MountInfoLine => e.components.length) member largest
      exact ⟨c, inTable, holds, fun e other onPath => deepest e ((mem e).mpr ⟨other, onPath⟩)⟩

theorem Contains.unique (contains : t.Contains path c) (also : t.Contains path e) : c = e := by
  obtain ⟨member, onPath, deepest⟩ := contains
  obtain ⟨other, otherOnPath, otherDeepest⟩ := also
  have le := deepest e other otherOnPath
  have ge := otherDeepest c member onPath
  exact eq_of_depth member other onPath otherOnPath (by omega)

/-- A row found above the containing mount, on another device, is overtaken by one that
is deeper and on the containing mount's. -/
def Overtaken (t : MountTable) (path : String) (c r : MountInfoLine) : Prop :=
  ∃ deeper, Kept t.rows deeper ∧ deeper.Spells path ∧ deeper.number = c.number ∧
    r.components.length < deeper.components.length

end MountTable

/-- In a mount table nothing is found if no kept row spells the path.  What is found
otherwise is of the deepest kept row that does. -/
theorem partitionForPath_deepest {t : MountTable} {content : String}
    (shown : Parse.mountinfo content = t.rows) (path : String) :
    ((∀ r, MountTable.Kept t.rows r → ¬ r.Spells path) ∧
      partitionForPath (FsService.fromMountinfo content).partitions path = none) ∨
    ∃ q, MountTable.Kept t.rows q ∧ q.Spells path ∧
      partitionForPath (FsService.fromMountinfo content).partitions path = some q.partition ∧
        ∀ r, MountTable.Kept t.rows r → r.Spells path →
          r = q ∨ r.components.length < q.components.length := by
  have lookup := partitionForPath_spec content path
  rw [shown] at lookup
  rcases lookup with notFound | ⟨q, kept, spells, found, longest⟩
  · exact Or.inl notFound
  · refine Or.inr ⟨q, kept, spells, found, ?_⟩
    intro r rKept rSpells
    have onPath := MountTable.holds_of_spells kept.mem spells
    have rOnPath := MountTable.holds_of_spells rKept.mem rSpells
    rcases Nat.lt_trichotomy r.components.length q.components.length with less | equal | deeper
    · exact Or.inr less
    · exact Or.inl (MountTable.eq_of_depth rKept.mem kept.mem rOnPath onPath equal)
    · have shorter := MountTable.shorter_of_depth kept.mem rKept.mem onPath rOnPath deeper
      have atMost := longest r rKept rSpells
      omega

/-- The partition found is on the device of the mount that contains the path exactly
if every kept row that spells the path and is on another device is overtaken. -/
theorem partitionForPath_contains_iff (t : MountTable) (content : String)
    (shown : Parse.mountinfo content = t.rows) (path : String) :
    (∀ p, partitionForPath (FsService.fromMountinfo content).partitions path = some p →
      ∃ c, t.Contains path c ∧ p.number = c.number) ↔
    ∀ c, t.Contains path c → ∀ r, MountTable.Kept t.rows r → r.Spells path →
      r.number ≠ c.number → t.Overtaken path c r := by
  rcases partitionForPath_deepest shown path with ⟨unspelled, notFound⟩ |
    ⟨q, kept, spells, found, deepest⟩
  · rw [notFound]
    constructor
    · intro _ c _ r rKept rSpells
      exact absurd rSpells (unspelled r rKept)
    · intro _ p isSome
      cases isSome
  · rw [found]
    constructor
    · intro property c contains r rKept rSpells differs
      obtain ⟨c', contains', same⟩ := property q.partition rfl
      rw [contains'.unique contains] at same
      rcases deepest r rKept rSpells with isFound | less
      · rw [isFound] at differs
        exact absurd same differs
      · exact ⟨q, kept, spells, same, less⟩
    · intro overtaken p isPartition
      obtain rfl : q.partition = p := Option.some.inj isPartition
      obtain ⟨c, contains⟩ :=
        MountTable.exists_contains kept.mem (MountTable.holds_of_spells kept.mem spells)
      refine ⟨c, contains, ?_⟩
      by_contra differs
      obtain ⟨e, eKept, eSpells, _, deeper⟩ := overtaken c contains q kept spells differs
      rcases deepest e eKept eSpells with isFound | less
      · rw [isFound] at deeper
        omega
      · omega

def overlayTable : MountTable where
  rows :=
    [⟨8, 1, "/", "ext4", "/dev/sda1"⟩, ⟨0, 50, "/c1", "overlay", "overlay"⟩,
      ⟨0, 51, "/c2", "overlay", "overlay"⟩]
  normal := by
    refine List.forall_mem_cons.mpr ⟨⟨[], by simp, rfl⟩, ?_⟩
    refine List.forall_mem_cons.mpr ⟨⟨["c1"], ?_, rfl⟩, ?_⟩
    · exact List.forall_mem_singleton.mpr (by decide)
    · refine List.forall_mem_singleton.mpr ⟨["c2"], ?_, rfl⟩
      exact List.forall_mem_singleton.mpr (by decide)
  distinct := by decide

def overlayMountinfo : String :=
  "22 1 8:1 / / rw - ext4 /dev/sda1 rw\n40 22 0:50 / /c1 rw - overlay overlay rw\n" ++
    "41 22 0:51 / /c2 rw - overlay overlay rw\n"

theorem mountinfo_overlay : Parse.mountinfo overlayMountinfo = overlayTable.rows := by
  decide +kernel

theorem partitionForPath_contains_home :
    Parse.mountinfo overlayMountinfo = overlayTable.rows ∧
      ∀ p, partitionForPath (FsService.fromMountinfo overlayMountinfo).partitions "/home" = some p →
        ∃ c, overlayTable.Contains "/home" c ∧ p.number = c.number := by
  refine ⟨mountinfo_overlay, ?_⟩
  apply (partitionForPath_contains_iff overlayTable overlayMountinfo mountinfo_overlay "/home").mpr
  have atRoot : ∀ e ∈ overlayTable.rows, e.components <+: pathComponents "/home" →
      e = ⟨8, 1, "/", "ext4", "/dev/sda1"⟩ := by
    intro e member onPath
    simp only [overlayTable, List.mem_cons, List.not_mem_nil, or_false] at member
    rcases member with isRoot | rfl | rfl
    · exact isRoot
    · exact absurd onPath (by decide)
    · exact absurd onPath (by decide)
  intro c contains r kept spells differs
  rw [atRoot c contains.1 contains.2.1,
    atRoot r kept.mem (MountTable.holds_of_spells kept.mem spells)] at differs
  exact absurd rfl differs

/-- The second overlay is dropped as a bind mount, and a path on it is looked up above. -/
theorem second_overlay_found_at_root :
    ¬ ∀ (t : MountTable) (content : String), Parse.mountinfo content = t.rows → ∀ path p,
      partitionForPath (FsService.fromMountinfo content).partitions path = some p →
        ∃ c, t.Contains path c ∧ p.number = c.number := by
  intro claimed
  have found : partitionForPath (FsService.fromMountinfo overlayMountinfo).partitions "/c2/etc" =
      some ⟨"/dev/sda1", "/", "ext4", 8, 1⟩ := by
    rw [FsService.fromMountinfo, mountinfo_overlay]
    decide
  obtain ⟨c, ⟨member, onPath, deepest⟩, same⟩ :=
    claimed overlayTable overlayMountinfo mountinfo_overlay "/c2/etc" _ found
  have atLeast := deepest ⟨0, 51, "/c2", "overlay", "overlay"⟩ (by decide) (by decide)
  simp only [overlayTable, List.mem_cons, List.not_mem_nil, or_false] at member
  rcases member with rfl | rfl | rfl
  · exact absurd atLeast (by decide)
  · exact absurd onPath (by decide)
  · exact absurd same (by decide)

end Cadvisor
