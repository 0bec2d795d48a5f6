import Cadvisor.Lib.Str
import Cadvisor.Model.Machine

/-!
# The block devices of the machine

`/sys/block` has one directory per device.  A file of it that cannot be read is
`none`.
-/

set_option autoImplicit false

namespace Cadvisor

structure BlockDevice where
  fileName : String
  dev : Option String
  size : Option String
  scheduler : Option String
  deriving DecidableEq

/-- The listing of `/sys/block`, or the failure of `read_dir`. -/
abbrev SysBlock := Option (List BlockDevice)

def excludedDevice (name : String) : Bool :=
  ["loop", "ram", "sr", "fd"].any fun p => Str.startsWith name p

def activeScheduler (content : String) : Option String :=
  ((Str.splitWhitespace (Str.trim content)).find? fun w => Str.startsWith w "[").map
    fun w => Str.trimMatches w fun c => c = '[' ∨ c = ']'

/-- The key of a device in the disk map, with its record; `none` is a device passed over. -/
def diskEntry (device : BlockDevice) : Option (String × DiskInfo) :=
  if excludedDevice device.fileName then none
  else
    match device.dev with
    | none => none
    | some content =>
        let dev := Str.trim content
        match Str.splitOnce dev ':' with
        | none => none
        | some (major, minor) =>
            let sectors := ((device.size.map Str.trim).bind Str.parseU64).getD 0
            some (dev,
              { name := device.fileName
                major := (Str.parseU64 major).getD 0
                minor := (Str.parseU64 minor).getD 0
                size := sectors * 512
                scheduler := (device.scheduler.bind activeScheduler).getD "none" })

def diskMapAt (sysBlock : SysBlock) : SortedMap String DiskInfo :=
  match sysBlock with
  | none => SortedMap.empty
  | some entries => SortedMap.ofList (entries.filterMap diskEntry)

def Attached (sysBlock : SysBlock) (key : String) : Prop :=
  ∃ devices, sysBlock = some devices ∧ ∃ device ∈ devices,
    excludedDevice device.fileName = false ∧ device.dev.map Str.trim = some key ∧
      ':' ∈ key.toList

theorem diskEntry_key (device : BlockDevice) (key : String) :
    (∃ info, diskEntry device = some (key, info)) ↔
      excludedDevice device.fileName = false ∧ device.dev.map Str.trim = some key ∧
        ':' ∈ key.toList := by
  unfold diskEntry
  by_cases excluded : excludedDevice device.fileName = true
  · simp [excluded]
  · cases content : device.dev with
    | none => simp [excluded]
    | some text =>
        by_cases colon : ':' ∈ (Str.trim text).toList
        · simp only [excluded, Str.splitOnce, colon, if_true, if_false, Bool.false_eq_true,
            Option.some.injEq, Prod.mk.injEq, Option.map_some, true_and]
          constructor
          · rintro ⟨_, rfl, _⟩
            exact ⟨rfl, colon⟩
          · rintro ⟨rfl, _⟩
            exact ⟨_, rfl, rfl⟩
        · simp only [excluded, Str.splitOnce, colon, if_false, Bool.false_eq_true,
            Option.map_some, Option.some.injEq, true_and, reduceCtorEq, exists_false, false_iff]
          rintro ⟨rfl, present⟩
          exact colon present

theorem mem_keys_diskMapAt (sysBlock : SysBlock) (key : String) :
    key ∈ (diskMapAt sysBlock).keys ↔ Attached sysBlock key := by
  cases sysBlock with
  | none => simp [diskMapAt, Attached]
  | some devices =>
      simp only [diskMapAt, SortedMap.mem_keys_ofList, List.mem_map, List.mem_filterMap, Attached]
      constructor
      · rintro ⟨⟨_, info⟩, ⟨device, member, found⟩, rfl⟩
        exact ⟨devices, rfl, device, member, (diskEntry_key device _).mp ⟨info, found⟩⟩
      · rintro ⟨_, same, device, member, accepted⟩
        cases same
        obtain ⟨info, found⟩ := (diskEntry_key device key).mpr accepted
        exact ⟨(key, info), ⟨device, member, found⟩, rfl⟩

end Cadvisor
