import Cadvisor.Host.Fs
import Cadvisor.Manager.Disks

/-!
# The file systems of the machine info

The manager makes its service from the mount table when it starts, and every refresh
asks that service.  The numbers are those of the moment, the partitions those of the
start.
-/

set_option autoImplicit false

namespace Cadvisor

structure MachineState where
  fs : FsService
  mounts : Mounts
  disks : DiskState

/-- `machine_info`; `rest` is what it reads elsewhere, and nothing when that fails. -/
def machineInfoAt (fs : FsService) (mounts : Mounts) (rest : Option MachineInfo) :
    Option MachineInfo :=
  rest.map fun rest => { rest with filesystems := fs.machineFilesystems mounts }

/-- The file systems change, a device appears or disappears, a container is sampled, the
timer fires. -/
inductive MachineStep where
  | remount (now : Mounts)
  | attach (device : BlockDevice)
  | detach (fileName : String)
  | sample (ioStat : String)
  | refresh (rest : Option MachineInfo)

namespace MachineState

/-- `Manager::new`, with everything there to read. -/
def new (mounts : Mounts) (sysBlock : SysBlock) (rest : MachineInfo) : MachineState :=
  let fs := FsService.fromMountinfo mounts.mountinfo
  ⟨fs, mounts, DiskState.new sysBlock { rest with filesystems := fs.machineFilesystems mounts }⟩

def refreshMachineInfo (m : MachineState) (rest : Option MachineInfo) : MachineState :=
  { m with disks := m.disks.refreshMachineInfo (machineInfoAt m.fs m.mounts rest) }

def step (m : MachineState) : MachineStep → MachineState
  | .remount now => { m with mounts := now }
  | .attach device => { m with disks := m.disks.step (.attach device) }
  | .detach fileName => { m with disks := m.disks.step (.detach fileName) }
  | .sample ioStat => { m with disks := m.disks.step (.sample ioStat) }
  | .refresh rest => m.refreshMachineInfo rest

def run (start : MachineState) (steps : List MachineStep) : MachineState := steps.foldl step start

def Current (m : MachineState) : Prop := m.disks.machineInfo.filesystems = m.mounts.filesystems

/-! ## The service of a run -/

theorem run_concat (start : MachineState) (steps : List MachineStep) (last : MachineStep) :
    run start (steps ++ [last]) = step (run start steps) last := by
  rw [run, run, List.foldl_append]
  rfl

theorem step_fs (m : MachineState) (s : MachineStep) : (m.step s).fs = m.fs := by
  cases s <;> rfl

theorem run_fs (mounts : Mounts) (sysBlock : SysBlock) (rest : MachineInfo)
    (steps : List MachineStep) :
    (run (new mounts sysBlock rest) steps).fs = FsService.fromMountinfo mounts.mountinfo := by
  induction steps using List.reverseRecOn with
  | nil => rfl
  | append_singleton steps last ih => rw [run_concat, step_fs, ih]

theorem filesystems_refresh (m : MachineState) (read : MachineInfo) :
    (m.step (.refresh (some read))).disks.machineInfo.filesystems =
      m.fs.machineFilesystems m.mounts := rfl

/-- One for one, the partitions that the start's table names report as those that the
table of this moment names. -/
def TablesAgree (start now : Mounts) : Prop :=
  List.Forall₂ now.ReportsAs (now.answering start.mountinfo) (now.answering now.mountinfo)

theorem current_refresh_iff (mounts : Mounts) (sysBlock : SysBlock) (rest read : MachineInfo)
    (before : List MachineStep) :
    Current (run (new mounts sysBlock rest) (before ++ [.refresh (some read)])) ↔
      TablesAgree mounts (run (new mounts sysBlock rest) before).mounts := by
  rw [TablesAgree, ← machineFilesystems_eq_iff, run_concat, Current, filesystems_refresh, run_fs]
  rfl

/-! ## Runs -/

/-- In a run every successful refresh lists the file systems of its moment exactly when
at each of them the two tables agree. -/
theorem current_run_iff (mounts : Mounts) (sysBlock : SysBlock) (rest : MachineInfo)
    (steps : List MachineStep) :
    (∀ before read after, steps = before ++ .refresh (some read) :: after →
        Current (run (new mounts sysBlock rest) (before ++ [.refresh (some read)]))) ↔
      ∀ before read after, steps = before ++ .refresh (some read) :: after →
        TablesAgree mounts (run (new mounts sysBlock rest) before).mounts := by
  constructor
  · intro current before read after stepsAre
    exact (current_refresh_iff mounts sysBlock rest read before).mp
      (current before read after stepsAre)
  · intro agree before read after stepsAre
    exact (current_refresh_iff mounts sysBlock rest read before).mpr
      (agree before read after stepsAre)

def rootOnly : Mounts where
  mountinfo := "22 1 8:1 / / rw - ext4 /dev/sda1 rw\n"
  resolve := fun _ => some (8, 1)
  stat := fun _ => ⟨4096, 1000, 500, 400, 100, 50⟩

def withData : Mounts where
  mountinfo := "22 1 8:1 / / rw - ext4 /dev/sda1 rw\n30 22 8:17 / /data rw - xfs /dev/sdb1 rw\n"
  resolve := fun path => if path = "/data" then some (8, 17) else some (8, 1)
  stat := fun _ => ⟨4096, 1000, 500, 400, 100, 50⟩

theorem mounted_volume_missing :
    ¬ ∀ (mounts : Mounts) (sysBlock : SysBlock) (rest : MachineInfo) (steps : List MachineStep)
      before read after, steps = before ++ .refresh (some read) :: after →
        Current (run (new mounts sysBlock rest) (before ++ [.refresh (some read)])) := by
  intro claimed
  have current := claimed rootOnly none {} [.remount withData, .refresh (some {})]
    [.remount withData] {} [] rfl
  have agree : TablesAgree rootOnly withData :=
    (current_refresh_iff rootOnly none {} {} [.remount withData]).mp current
  have reported : (withData.answering rootOnly.mountinfo).length = 1 := by decide +kernel
  have mounted : (withData.answering withData.mountinfo).length = 2 := by decide +kernel
  have same := agree.length_eq
  rw [reported, mounted] at same
  cases same

end MachineState

end Cadvisor
