import Cadvisor.Host.Parse
import Cadvisor.Model.Machine
import Mathlib.Data.List.Forall2

/-!
# File systems

The service knows the partitions of one mount table.  What it reports of them comes
from the kernel each time: a mountpoint is a path, and what is mounted there now
answers for it.
-/

set_option autoImplicit false

namespace Cadvisor

/-- File system types that have capacity and usage collected. -/
def supportedFs (fsType : String) : Bool :=
  fsType ∈ ["btrfs", "ext2", "ext3", "ext4", "xfs", "zfs", "overlay", "tmpfs"]

structure Partition where
  device : String
  mountpoint : String
  fsType : String
  major : UInt64
  minor : UInt64
  deriving DecidableEq

structure FsUsage where
  capacity : UInt64
  free : UInt64
  available : UInt64
  inodes : UInt64
  inodesFree : UInt64

structure StatVfs where
  frsize : UInt64
  blocks : UInt64
  bfree : UInt64
  bavail : UInt64
  files : UInt64
  ffree : UInt64

/-- The number of a mounted file system, as the mount table shows it. -/
abbrev FsNumber := UInt64 × UInt64

/-- The mount table; the file system that a path lies on, if `statvfs` gets to it;
and the numbers of each file system. -/
structure Mounts where
  mountinfo : String
  resolve : String → Option FsNumber
  stat : FsNumber → StatVfs

def Partition.number (p : Partition) : FsNumber := (p.major, p.minor)

structure FsService where
  partitions : List Partition

namespace FsService

/-- The loop of `from_mountinfo`: bind mounts are dropped by their source, tmpfs mounts
are told apart by their mountpoint. -/
def addMount (acc : List String × List Partition) (m : Parse.MountInfoLine) :
    List String × List Partition :=
  if ¬ supportedFs m.fsType then acc
  else
    let key := if m.fsType = "tmpfs" then m.mountpoint else m.source
    if key ∈ acc.1 then acc
    else
      let device := if m.fsType = "tmpfs" then m.mountpoint else m.source
      (key :: acc.1, acc.2 ++ [⟨device, m.mountpoint, m.fsType, m.major, m.minor⟩])

def fromMountinfo (content : String) : FsService :=
  ⟨((Parse.mountinfo content).foldl addMount ([], [])).2⟩

def usageOf (st : StatVfs) : FsUsage :=
  { capacity := st.blocks * st.frsize
    free := st.bfree * st.frsize
    available := st.bavail * st.frsize
    inodes := st.files
    inodesFree := st.ffree }

def usage (mounts : Mounts) (mountpoint : String) : Option FsUsage :=
  (mounts.resolve mountpoint).map fun number => usageOf (mounts.stat number)

def filesystemInfo (p : Partition) (u : FsUsage) : FilesystemInfo :=
  { device := p.device
    deviceMajor := p.major
    deviceMinor := p.minor
    capacity := u.capacity
    fsType := "vfs"
    inodes := u.inodes
    hasInodes := true }

def machineFilesystems (fs : FsService) (mounts : Mounts) : List FilesystemInfo :=
  fs.partitions.filterMap fun p => (usage mounts p.mountpoint).map (filesystemInfo p)

end FsService

/-- The mounted filesystem a path lies on: the longest mountpoint, the last of equals. -/
def partitionForPath (partitions : List Partition) (path : String) : Option Partition :=
  (partitions.filter fun p =>
    path = p.mountpoint ∨ Str.startsWith path (Str.trimEndMatches p.mountpoint '/' ++ "/")).foldl
    (fun best p =>
      match best with
      | none => some p
      | some b => if b.mountpoint.utf8ByteSize ≤ p.mountpoint.utf8ByteSize then some p else some b)
    none

namespace Mounts

/-- `statvfs` of the partition's mountpoint succeeds. -/
def answers (mounts : Mounts) (p : Partition) : Bool := (mounts.resolve p.mountpoint).isSome

def answering (mounts : Mounts) (table : String) : List Partition :=
  (FsService.fromMountinfo table).partitions.filter mounts.answers

def expected (mounts : Mounts) (p : Partition) : FilesystemInfo :=
  FsService.filesystemInfo p (FsService.usageOf (mounts.stat p.number))

def filesystems (mounts : Mounts) : List FilesystemInfo :=
  (mounts.answering mounts.mountinfo).map mounts.expected

/-- Reported for `p` is what is expected for `q`: the names are the same, and what
`p`'s mountpoint lies on is as large as `q`. -/
def ReportsAs (mounts : Mounts) (p q : Partition) : Prop :=
  p.device = q.device ∧ p.number = q.number ∧
    ∃ number, mounts.resolve p.mountpoint = some number ∧
      (FsService.usageOf (mounts.stat number)).capacity =
        (FsService.usageOf (mounts.stat q.number)).capacity ∧
      (mounts.stat number).files = (mounts.stat q.number).files

end Mounts

theorem map_some_filterMap {α β : Type} (f : α → Option β) (items : List α) :
    (items.filterMap f).map some = (items.filter fun a => (f a).isSome).map f := by
  induction items with
  | nil => rfl
  | cons a rest ih =>
      cases value : f a with
      | none => simp [value, ih]
      | some b => simp [value, ih]

theorem reported_iff {mounts : Mounts} {p q : Partition} :
    (FsService.usage mounts p.mountpoint).map (FsService.filesystemInfo p) =
        some (mounts.expected q) ↔ mounts.ReportsAs p q := by
  simp only [FsService.usage, Option.map_map, Option.map_eq_some_iff, Function.comp_apply,
    Mounts.ReportsAs, Mounts.expected, FsService.filesystemInfo, FsService.usageOf,
    FilesystemInfo.mk.injEq, Partition.number, Prod.mk.injEq, and_true, true_and]
  constructor
  · rintro ⟨number, resolved, device, major, minor, capacity, inodes⟩
    exact ⟨device, ⟨major, minor⟩, number, resolved, capacity, inodes⟩
  · rintro ⟨device, ⟨major, minor⟩, number, resolved, capacity, inodes⟩
    exact ⟨number, resolved, device, major, minor, capacity, inodes⟩

/-- A service made from a table reports the file systems of this moment exactly when its
partitions that answer report as the ones of this moment, one for one. -/
theorem machineFilesystems_eq_iff (mounts : Mounts) (table : String) :
    (FsService.fromMountinfo table).machineFilesystems mounts = mounts.filesystems ↔
      List.Forall₂ mounts.ReportsAs (mounts.answering table)
        (mounts.answering mounts.mountinfo) := by
  have answered : (fun p : Partition =>
      ((FsService.usage mounts p.mountpoint).map (FsService.filesystemInfo p)).isSome) =
        mounts.answers := by
    funext p
    rw [Option.isSome_map, FsService.usage, Option.isSome_map, Mounts.answers]
  rw [← (List.map_injective_iff.mpr (Option.some_injective _)).eq_iff,
    FsService.machineFilesystems, map_some_filterMap, answered, Mounts.filesystems, List.map_map,
    ← List.forall₂_eq_eq_eq, List.forall₂_map_left_iff, List.forall₂_map_right_iff]
  have alike : (fun p q : Partition =>
      (FsService.usage mounts p.mountpoint).map (FsService.filesystemInfo p) =
        (some ∘ mounts.expected) q) = mounts.ReportsAs := by
    funext p q
    exact propext reported_iff
  rw [alike]
  rfl

end Cadvisor
