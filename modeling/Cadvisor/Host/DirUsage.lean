import Mathlib.Algebra.BigOperators.Group.Finset.Basic
import Mathlib.Algebra.GroupWithZero.Nat
import Mathlib.Algebra.Order.Group.Nat
import Mathlib.Data.Finset.Card
import Mathlib.Data.List.Perm.Basic

/-!
# Directory usage

`dir_usage` walks a directory with a stack: 512 bytes for every block, hard links
counted once, no crossing of device boundaries.  The set of hard links has inode
numbers without their devices, and a link of another device enters it before its
device is looked at.
-/

set_option autoImplicit false

namespace Cadvisor

/-- What the filesystems say of an inode, by device and number. -/
structure Inodes where
  nlink : UInt64 → UInt64 → UInt64
  blocks : UInt64 → UInt64 → UInt64

/-- A tree as the walk finds it: an entry that cannot be looked at, an entry that is
no directory, a directory that cannot be listed, and one that lists its entries in
this order. -/
inductive Node where
  | gone
  | file (dev ino : UInt64)
  | closed (dev ino : UInt64)
  | dir (dev ino : UInt64) (entries : List Node)

structure Metadata where
  isDir : Bool
  dev : UInt64
  ino : UInt64
  nlink : UInt64
  blocks : UInt64

namespace Node

/-- `symlink_metadata`. -/
def metadata (fs : Inodes) : Node → Option Metadata
  | gone => none
  | file dev ino => some ⟨false, dev, ino, fs.nlink dev ino, fs.blocks dev ino⟩
  | closed dev ino => some ⟨true, dev, ino, fs.nlink dev ino, fs.blocks dev ino⟩
  | dir dev ino _ => some ⟨true, dev, ino, fs.nlink dev ino, fs.blocks dev ino⟩

def readDir : Node → Option (List Node)
  | dir _ _ entries => some entries
  | _ => none

mutual

def size : Node → Nat
  | gone => 1
  | file _ _ => 1
  | closed _ _ => 1
  | dir _ _ entries => 1 + sizes entries

def sizes : List Node → Nat
  | [] => 0
  | entry :: rest => size entry + sizes rest

end

end Node

structure Tally where
  bytes : UInt64
  inodes : UInt64
  seenHardlinks : List UInt64

namespace Tally

def add (t : Tally) (m : Metadata) : Tally :=
  { t with bytes := t.bytes + m.blocks * 512, inodes := t.inodes + 1 }

def addFile (rootDev : UInt64) (t : Tally) (m : Metadata) : Tally :=
  if 1 < m.nlink ∧ m.ino ∈ t.seenHardlinks then t
  else
    let t := if 1 < m.nlink then { t with seenHardlinks := m.ino :: t.seenHardlinks } else t
    if m.dev = rootDev then t.add m else t

end Tally

/-- The variables of the loop; the top of the stack is in front. -/
structure DirWalk where
  tally : Tally
  stack : List Node

namespace DirWalk

def visitEntry (fs : Inodes) (rootDev : UInt64) (w : DirWalk) (p : Node) : DirWalk :=
  match p.metadata fs with
  | none => w
  | some m =>
      if m.isDir then { w with stack := p :: w.stack }
      else { w with tally := w.tally.addFile rootDev m }

def visit (fs : Inodes) (rootDev : UInt64) (w : DirWalk) (dir : Node) : DirWalk :=
  match dir.metadata fs with
  | none => w
  | some m =>
      if m.dev ≠ rootDev then w
      else
        let w := { w with tally := w.tally.add m }
        match dir.readDir with
        | none => w
        | some entries => entries.foldl (visitEntry fs rootDev) w

/-- Rounds until the stack is empty; `none` when the fuel does not last. -/
def run (fs : Inodes) (rootDev : UInt64) (fuel : Nat) (w : DirWalk) : Option DirWalk :=
  match w.stack with
  | [] => some w
  | dir :: rest =>
      match fuel with
      | 0 => none
      | fuel + 1 => run fs rootDev fuel (visit fs rootDev { w with stack := rest } dir)

end DirWalk

def dirUsage (fs : Inodes) (fuel : Nat) (path : Node) : Option (UInt64 × UInt64) :=
  match path.metadata fs with
  | none => some (0, 0)
  | some m =>
      (DirWalk.run fs m.dev fuel ⟨⟨0, 0, []⟩, [path]⟩).map fun w => (w.tally.bytes, w.tally.inodes)

/-! ## What the walk meets, in its order -/

/-- A directory on the root's device that is walked, or an entry in one that is no directory. -/
inductive Met where
  | dir (ino : UInt64)
  | file (dev ino : UInt64)
  deriving DecidableEq

namespace Node

variable (rootDev : UInt64)

def files : List Node → List Met
  | [] => []
  | file dev ino :: rest => .file dev ino :: files rest
  | _ :: rest => files rest

mutual

/-- A directory, its files in the order of the listing, then its directories, the
last one first. -/
def met : Node → List Met
  | gone => []
  | file _ _ => []
  | closed dev ino => if dev = rootDev then [.dir ino] else []
  | dir dev ino entries =>
      if dev = rootDev then .dir ino :: (files entries ++ metBelow entries) else []

def metBelow : List Node → List Met
  | [] => []
  | entry :: rest => metBelow rest ++ met entry

end

end Node

/-! ## The walk is a fold over what it meets -/

section Fold

variable (fs : Inodes) (rootDev : UInt64)

def Met.metadata : Met → Metadata
  | .dir ino => ⟨true, rootDev, ino, fs.nlink rootDev ino, fs.blocks rootDev ino⟩
  | .file dev ino => ⟨false, dev, ino, fs.nlink dev ino, fs.blocks dev ino⟩

def Tally.meet (t : Tally) (m : Met) : Tally :=
  match m with
  | .dir _ => t.add (m.metadata fs rootDev)
  | .file _ _ => t.addFile rootDev (m.metadata fs rootDev)

def Node.isDirectory : Node → Bool
  | .closed _ _ => true
  | .dir _ _ _ => true
  | _ => false

theorem visitEntry_fold (entries : List Node) (t : Tally) (stack : List Node) :
    entries.foldl (DirWalk.visitEntry fs rootDev) ⟨t, stack⟩ =
      ⟨(Node.files entries).foldl (Tally.meet fs rootDev) t,
        (entries.filter Node.isDirectory).reverse ++ stack⟩ := by
  induction entries generalizing t stack with
  | nil => rfl
  | cons entry rest ih =>
      rw [List.foldl_cons]
      cases entry with
      | gone => exact ih t stack
      | file dev ino => exact ih _ stack
      | closed dev ino =>
          rw [List.filter_cons_of_pos rfl, List.reverse_cons, List.append_assoc]
          exact ih t (.closed dev ino :: stack)
      | dir dev ino entries =>
          rw [List.filter_cons_of_pos rfl, List.reverse_cons, List.append_assoc]
          exact ih t (.dir dev ino entries :: stack)

theorem metBelow_eq (entries : List Node) :
    Node.metBelow rootDev entries =
      (entries.filter Node.isDirectory).reverse.flatMap (Node.met rootDev) := by
  induction entries with
  | nil => rfl
  | cons entry rest ih =>
      rw [Node.metBelow, ih]
      cases entry with
      | gone => exact List.append_nil _
      | file dev ino => exact List.append_nil _
      | closed dev ino =>
          rw [List.filter_cons_of_pos rfl, List.reverse_cons, List.flatMap_append,
            List.flatMap_singleton]
      | dir dev ino entries =>
          rw [List.filter_cons_of_pos rfl, List.reverse_cons, List.flatMap_append,
            List.flatMap_singleton]

theorem sizes_append (front back : List Node) :
    Node.sizes (front ++ back) = Node.sizes front + Node.sizes back := by
  induction front with
  | nil => simp [Node.sizes]
  | cons entry rest ih =>
      rw [List.cons_append, Node.sizes, Node.sizes, ih]
      omega

theorem sizes_directories (entries : List Node) :
    Node.sizes (entries.filter Node.isDirectory).reverse ≤ Node.sizes entries := by
  induction entries with
  | nil => exact Nat.le_refl _
  | cons entry rest ih =>
      rw [Node.sizes]
      cases listed : entry.isDirectory with
      | true =>
          rw [List.filter_cons_of_pos listed, List.reverse_cons, sizes_append, Node.sizes,
            Node.sizes]
          omega
      | false =>
          rw [List.filter_cons_of_neg (by simp [listed])]
          omega

theorem run_eq {fuel : Nat} {t : Tally} {stack : List Node} (enough : Node.sizes stack ≤ fuel)
    (directories : ∀ dir ∈ stack, dir.isDirectory = true) :
    DirWalk.run fs rootDev fuel ⟨t, stack⟩ =
      some ⟨(stack.flatMap (Node.met rootDev)).foldl (Tally.meet fs rootDev) t, []⟩ := by
  induction fuel generalizing t stack with
  | zero =>
      cases stack with
      | nil => rfl
      | cons dir rest =>
          have positive : 0 < dir.size := by cases dir <;> simp [Node.size]
          rw [Node.sizes] at enough
          omega
  | succ fuel ih =>
      cases stack with
      | nil => rfl
      | cons dir rest =>
          obtain ⟨isDir, others⟩ := List.forall_mem_cons.mp directories
          have positive : 0 < dir.size := by cases dir <;> simp [Node.size]
          rw [Node.sizes] at enough
          rw [DirWalk.run, List.flatMap_cons, List.foldl_append]
          cases dir with
          | gone => cases isDir
          | file dev ino => cases isDir
          | closed dev ino =>
              dsimp only [DirWalk.visit, Node.metadata, Node.readDir, Node.met]
              by_cases native : dev = rootDev
              · rw [if_neg (not_not.mpr native), if_pos native, native]
                exact ih (by omega) others
              · rw [if_pos native, if_neg native]
                exact ih (by omega) others
          | dir dev ino entries =>
              dsimp only [DirWalk.visit, Node.metadata, Node.readDir, Node.met]
              by_cases native : dev = rootDev
              · rw [if_neg (not_not.mpr native), if_pos native, native, visitEntry_fold,
                  List.foldl_cons, List.foldl_append, metBelow_eq, ← List.foldl_append,
                  ← List.flatMap_append]
                refine ih ?_ fun d member => ?_
                · have fewer := sizes_directories entries
                  rw [Node.size] at enough
                  rw [sizes_append]
                  omega
                · rcases List.mem_append.mp member with below | waiting
                  · exact (List.mem_filter.mp (List.mem_reverse.mp below)).2
                  · exact others d waiting
              · rw [if_pos native, if_neg native]
                exact ih (by omega) others

end Fold

/-! ## What the usage should be -/

namespace Node

variable (rootDev : UInt64)

mutual

/-- A directory and everything that can be reached from it through directories on the
root's device. -/
def reached : Node → List Met
  | gone => []
  | file dev ino => [.file dev ino]
  | closed dev ino => if dev = rootDev then [.dir ino] else []
  | dir dev ino entries => if dev = rootDev then .dir ino :: reachedBelow entries else []

def reachedBelow : List Node → List Met
  | [] => []
  | entry :: rest => reached entry ++ reachedBelow rest

end

end Node

/-- The same tree with its directories listed in other orders. -/
inductive Relisted : Node → Node → Prop where
  | same (t : Node) : Relisted t t
  | reorder (dev ino : UInt64) (entries entries' : List Node) (perm : entries.Perm entries') :
      Relisted (.dir dev ino entries) (.dir dev ino entries')
  | inside (dev ino : UInt64) (front back : List Node) (entry entry' : Node)
      (relisted : Relisted entry entry') :
      Relisted (.dir dev ino (front ++ entry :: back)) (.dir dev ino (front ++ entry' :: back))
  | trans (t t' t'' : Node) (first : Relisted t t') (second : Relisted t' t'') : Relisted t t''

def dirInos (ms : List Met) : List UInt64 :=
  ms.filterMap fun
    | .dir ino => some ino
    | .file _ _ => none

def fileInos (rootDev : UInt64) (ms : List Met) : Finset UInt64 :=
  (ms.filterMap fun
    | .dir _ => none
    | .file dev ino => if dev = rootDev then some ino else none).toFinset

def usedInodes (rootDev : UInt64) (t : Node) : Nat :=
  (dirInos (t.reached rootDev)).length + (fileInos rootDev (t.reached rootDev)).card

def usedBlocks (fs : Inodes) (rootDev : UInt64) (t : Node) : Nat :=
  ((dirInos (t.reached rootDev)).map fun ino => (fs.blocks rootDev ino).toNat).sum +
    ∑ ino ∈ fileInos rootDev (t.reached rootDev), (fs.blocks rootDev ino).toNat

/-- An inode on the root's device that appears more than once has more than one link. -/
def LinksCounted (fs : Inodes) (rootDev : UInt64) (t : Node) : Prop :=
  ∀ ino, 1 < (t.reached rootDev).count (.file rootDev ino) → 1 < fs.nlink rootDev ino

/-- Whether an entry has more than one link and this inode number, on whatever device. -/
def linkedAs (fs : Inodes) (ino : UInt64) : Met → Bool
  | .dir _ => false
  | .file dev other => other = ino ∧ 1 < fs.nlink dev other

/-- Of the hard links with the number of an inode on the root's device, the walk meets
one of that inode first. -/
def NoneShadowed (fs : Inodes) (rootDev : UInt64) (t : Node) : Prop :=
  ∀ ino, .file rootDev ino ∈ t.met rootDev → 1 < fs.nlink rootDev ino →
    (t.met rootDev).find? (linkedAs fs ino) = some (.file rootDev ino)

section Orders

variable (rootDev : UInt64)

theorem reachedBelow_eq (entries : List Node) :
    Node.reachedBelow rootDev entries = entries.flatMap (Node.reached rootDev) := by
  induction entries with
  | nil => rfl
  | cons entry rest ih => rw [Node.reachedBelow, ih, List.flatMap_cons]

theorem reached_perm {t t' : Node} (relisted : Relisted t t') :
    (t.reached rootDev).Perm (t'.reached rootDev) := by
  induction relisted with
  | same t => exact List.Perm.refl _
  | reorder dev ino entries entries' perm =>
      rw [Node.reached, Node.reached, reachedBelow_eq, reachedBelow_eq]
      split_ifs
      · exact (perm.flatMap_right _).cons _
      · exact List.Perm.refl _
  | inside dev ino front back entry entry' _ ih =>
      rw [Node.reached, Node.reached, reachedBelow_eq, reachedBelow_eq]
      split_ifs
      · rw [List.flatMap_append, List.flatMap_append, List.flatMap_cons, List.flatMap_cons]
        exact ((ih.append_right _).append_left _).cons _
      · exact List.Perm.refl _
  | trans t t' t'' _ _ ih ih' => exact ih.trans ih'

theorem files_cons (entry : Node) (rest : List Node) :
    Node.files (entry :: rest) = Node.files [entry] ++ Node.files rest := by
  cases entry <;> rfl

mutual

/-- The walk meets what can be reached, in an order of its own. -/
theorem met_perm (t : Node) :
    (Node.files [t] ++ t.met rootDev).Perm (t.reached rootDev) := by
  match t with
  | .gone => exact List.Perm.refl _
  | .file dev ino => exact List.Perm.refl _
  | .closed dev ino => exact List.Perm.refl _
  | .dir dev ino entries =>
      change (Node.met rootDev (.dir dev ino entries)).Perm _
      rw [Node.met, Node.reached]
      split_ifs
      · exact (metBelow_perm entries).cons _
      · exact List.Perm.refl _

theorem metBelow_perm (entries : List Node) :
    (Node.files entries ++ Node.metBelow rootDev entries).Perm
      (Node.reachedBelow rootDev entries) := by
  match entries with
  | [] => exact List.Perm.refl _
  | entry :: rest =>
      rw [Node.metBelow, Node.reachedBelow, files_cons]
      have first := met_perm entry
      have others := metBelow_perm rest
      have grouped : Node.files [entry] ++ Node.files rest ++
          (Node.metBelow rootDev rest ++ entry.met rootDev) =
            Node.files [entry] ++ (Node.files rest ++ Node.metBelow rootDev rest ++
              entry.met rootDev) := by
        simp only [List.append_assoc]
      rw [grouped]
      refine (List.perm_append_comm.append_left _).trans ?_
      rw [← List.append_assoc]
      exact first.append others

end

end Orders

/-! ## What the fold counts -/

section Counts

variable (fs : Inodes) (rootDev : UInt64)

def countedFiles : List UInt64 → List Met → List UInt64
  | _, [] => []
  | seen, .dir _ :: rest => countedFiles seen rest
  | seen, .file dev ino :: rest =>
      if 1 < fs.nlink dev ino then
        if ino ∈ seen then countedFiles seen rest
        else if dev = rootDev then ino :: countedFiles (ino :: seen) rest
        else countedFiles (ino :: seen) rest
      else if dev = rootDev then ino :: countedFiles seen rest
      else countedFiles seen rest

def blockSum (inos : List UInt64) : Nat :=
  (inos.map fun ino => (fs.blocks rootDev ino).toNat).sum

theorem add_toNat (t : Tally) (m : Metadata) {n b : Nat} {bytes inodes : UInt64}
    (inodesIs : inodes.toNat = ((t.add m).inodes.toNat + n) % 2 ^ 64)
    (bytesIs : bytes.toNat = ((t.add m).bytes.toNat + 512 * b) % 2 ^ 64) :
    inodes.toNat = (t.inodes.toNat + (n + 1)) % 2 ^ 64 ∧
      bytes.toNat = (t.bytes.toNat + 512 * (m.blocks.toNat + b)) % 2 ^ 64 := by
  have one : (t.add m).inodes.toNat = (t.inodes.toNat + 1) % 2 ^ 64 := UInt64.toNat_add ..
  have more : (t.add m).bytes.toNat =
      (t.bytes.toNat + m.blocks.toNat * 512 % 2 ^ 64) % 2 ^ 64 := by
    rw [Tally.add]
    dsimp only
    rw [UInt64.toNat_add, UInt64.toNat_mul]
    rfl
  omega

theorem meet_fold (t : Tally) (ms : List Met) :
    (ms.foldl (Tally.meet fs rootDev) t).inodes.toNat =
        (t.inodes.toNat + ((dirInos ms).length +
          (countedFiles fs rootDev t.seenHardlinks ms).length)) % 2 ^ 64 ∧
      (ms.foldl (Tally.meet fs rootDev) t).bytes.toNat =
        (t.bytes.toNat + 512 * (blockSum fs rootDev (dirInos ms) +
          blockSum fs rootDev (countedFiles fs rootDev t.seenHardlinks ms))) % 2 ^ 64 := by
  induction ms generalizing t with
  | nil =>
      have inodes := t.inodes.toNat_lt
      have bytes := t.bytes.toNat_lt
      simp only [List.foldl_nil, dirInos, List.filterMap_nil, countedFiles, blockSum,
        List.map_nil, List.sum_nil, List.length_nil]
      omega
  | cons m rest ih =>
      rw [List.foldl_cons]
      cases m with
      | dir ino =>
          obtain ⟨inodesIs, bytesIs⟩ := ih (t.add ((Met.dir ino).metadata fs rootDev))
          obtain ⟨inodesNext, bytesNext⟩ := add_toNat t _ inodesIs bytesIs
          have head : dirInos (.dir ino :: rest) = ino :: dirInos rest := rfl
          have same : countedFiles fs rootDev t.seenHardlinks (.dir ino :: rest) =
            countedFiles fs rootDev t.seenHardlinks rest := rfl
          rw [head, same, List.length_cons, blockSum, List.map_cons, List.sum_cons]
          refine ⟨inodesNext.trans ?_, bytesNext.trans ?_⟩
          · congr 1
            dsimp only [Tally.add]
            omega
          · congr 1
            dsimp only [Tally.add, Met.metadata, blockSum]
            omega
      | file dev ino =>
          have head : dirInos (.file dev ino :: rest) = dirInos rest := rfl
          have unfolded : t.meet fs rootDev (.file dev ino) =
              t.addFile rootDev ((Met.file dev ino).metadata fs rootDev) := rfl
          -- An inode that is counted, with the links seen by then.
          have counted : dev = rootDev → ∀ seen,
              (rest.foldl (Tally.meet fs rootDev)
                  (({ t with seenHardlinks := seen } : Tally).add
                    ((Met.file dev ino).metadata fs rootDev))).inodes.toNat =
                (t.inodes.toNat + ((dirInos rest).length +
                  (ino :: countedFiles fs rootDev seen rest).length)) % 2 ^ 64 ∧
              (rest.foldl (Tally.meet fs rootDev)
                  (({ t with seenHardlinks := seen } : Tally).add
                    ((Met.file dev ino).metadata fs rootDev))).bytes.toNat =
                (t.bytes.toNat + 512 * (blockSum fs rootDev (dirInos rest) +
                  blockSum fs rootDev (ino :: countedFiles fs rootDev seen rest))) % 2 ^ 64 := by
            intro native seen
            obtain ⟨inodesIs, bytesIs⟩ := ih (({ t with seenHardlinks := seen } : Tally).add
              ((Met.file dev ino).metadata fs rootDev))
            obtain ⟨inodesNext, bytesNext⟩ := add_toNat _ _ inodesIs bytesIs
            refine ⟨inodesNext.trans ?_, bytesNext.trans ?_⟩
            · congr 1
            · congr 1
              simp only [Tally.add, Met.metadata, blockSum, List.map_cons, List.sum_cons, native]
              omega
          rw [head, countedFiles, unfolded, Tally.addFile]
          dsimp only [Met.metadata] at counted ⊢
          by_cases linked : 1 < fs.nlink dev ino
          · by_cases old : ino ∈ t.seenHardlinks
            · simp only [linked, old, and_self, if_true]
              exact ih t
            · simp only [linked, old, and_false, if_true, if_false]
              by_cases native : dev = rootDev
              · rw [if_pos native, if_pos native]
                exact counted native (ino :: t.seenHardlinks)
              · rw [if_neg native, if_neg native]
                exact ih { t with seenHardlinks := ino :: t.seenHardlinks }
          · simp only [linked, false_and, if_false]
            by_cases native : dev = rootDev
            · rw [if_pos native, if_pos native]
              exact counted native t.seenHardlinks
            · rw [if_neg native, if_neg native]
              exact ih t

/-- Which inodes are counted: those met, but for the hard links whose number was seen
before, or is met first on another device. -/
theorem mem_countedFiles (seen : List UInt64) (ms : List Met) (ino : UInt64) :
    ino ∈ countedFiles fs rootDev seen ms ↔
      .file rootDev ino ∈ ms ∧ (1 < fs.nlink rootDev ino →
        ino ∉ seen ∧ ms.find? (linkedAs fs ino) = some (.file rootDev ino)) := by
  induction ms generalizing seen with
  | nil => simp [countedFiles]
  | cons m rest ih =>
      cases m with
      | dir other =>
          have skipped : (Met.dir other :: rest).find? (linkedAs fs ino) =
              rest.find? (linkedAs fs ino) := rfl
          rw [countedFiles, ih, skipped]
          simp
      | file dev other =>
          rw [countedFiles, List.find?_cons]
          by_cases linked : 1 < fs.nlink dev other
          · by_cases same : other = ino
            · by_cases native : dev = rootDev
              · grind [linkedAs]
              · grind [linkedAs]
            · grind [linkedAs]
          · grind [linkedAs]

theorem countedFiles_nodup (seen : List UInt64) {ms : List Met}
    (linksCounted : ∀ ino, 1 < ms.count (.file rootDev ino) → 1 < fs.nlink rootDev ino) :
    (countedFiles fs rootDev seen ms).Nodup := by
  induction ms generalizing seen with
  | nil => exact List.nodup_nil
  | cons m rest ih =>
      have others : ∀ ino, 1 < rest.count (.file rootDev ino) → 1 < fs.nlink rootDev ino :=
        fun ino twice => linksCounted ino (twice.trans_le List.count_le_count_cons)
      cases m with
      | dir ino => exact ih seen others
      | file dev ino =>
          rw [countedFiles]
          split_ifs with linked old native native
          · exact ih seen others
          · refine List.nodup_cons.mpr ⟨fun again => ?_, ih (ino :: seen) others⟩
            rw [mem_countedFiles] at again
            exact (again.2 (native ▸ linked)).1 (List.mem_cons_self ..)
          · exact ih (ino :: seen) others
          · refine List.nodup_cons.mpr ⟨fun again => ?_, ih seen others⟩
            have later := ((mem_countedFiles ..).mp again).1
            have twice : 1 < (Met.file dev ino :: rest).count (.file rootDev ino) := by
              rw [native, List.count_cons_self]
              exact Nat.succ_lt_succ (List.count_pos_iff.mpr later)
            exact linked (native ▸ linksCounted ino twice)
          · exact ih seen others

theorem mem_fileInos (ms : List Met) (ino : UInt64) :
    ino ∈ fileInos rootDev ms ↔ .file rootDev ino ∈ ms := by
  rw [fileInos, List.mem_toFinset, List.mem_filterMap]
  constructor
  · intro found
    obtain ⟨m, member, isIno⟩ := found
    cases m with
    | dir other => cases isIno
    | file dev other =>
        dsimp only at isIno
        split_ifs at isIno with native
        cases isIno
        exact native ▸ member
  · intro member
    exact ⟨_, member, if_pos rfl⟩

theorem countedFiles_toFinset {t : Node} {ms : List Met} (metIs : t.met rootDev = ms) :
    (countedFiles fs rootDev [] ms).toFinset ⊆ fileInos rootDev ms ∧
      ((countedFiles fs rootDev [] ms).toFinset = fileInos rootDev ms ↔
        NoneShadowed fs rootDev t) := by
  subst metIs
  have members : ∀ ino, ino ∈ (countedFiles fs rootDev [] (t.met rootDev)).toFinset ↔
      .file rootDev ino ∈ t.met rootDev ∧ (1 < fs.nlink rootDev ino →
        (t.met rootDev).find? (linkedAs fs ino) = some (.file rootDev ino)) := by
    intro ino
    rw [List.mem_toFinset, mem_countedFiles]
    simp
  refine ⟨fun ino member => ?_, ?_, ?_⟩
  · rw [mem_fileInos]
    exact ((members ino).mp member).1
  · intro same ino present
    rw [← mem_fileInos, ← same, members] at present
    exact present.2
  · intro none
    ext ino
    rw [members, mem_fileInos]
    exact ⟨And.left, fun present => ⟨present, none ino present⟩⟩

theorem dirInos_perm {ms ms' : List Met} (perm : ms.Perm ms') : (dirInos ms).Perm (dirInos ms') :=
  perm.filterMap _

theorem fileInos_perm {ms ms' : List Met} (perm : ms.Perm ms') :
    fileInos rootDev ms = fileInos rootDev ms' := by
  ext ino
  rw [mem_fileInos, mem_fileInos, perm.mem_iff]

theorem blockSum_toFinset {inos : List UInt64} (nodup : inos.Nodup) :
    blockSum fs rootDev inos = ∑ ino ∈ inos.toFinset, (fs.blocks rootDev ino).toNat := by
  rw [List.sum_toFinset _ nodup]
  rfl

end Counts

/-- For every order in which the directories of a tree are listed, the walk ends, and
its result is the tree's usage exactly if no hard link is shadowed by one of another
device in that order, and the usage fits 64 bits. -/
theorem dirUsage_iff (fs : Inodes) (rootDev rootIno : UInt64) (entries entries' : List Node)
    (relisted : Relisted (.dir rootDev rootIno entries) (.dir rootDev rootIno entries'))
    (linksCounted : LinksCounted fs rootDev (.dir rootDev rootIno entries)) (fuel : Nat)
    (enough : (Node.dir rootDev rootIno entries').size ≤ fuel) :
    ∃ bytes inodes, dirUsage fs fuel (.dir rootDev rootIno entries') = some (bytes, inodes) ∧
      (inodes.toNat = usedInodes rootDev (.dir rootDev rootIno entries) ∧
          bytes.toNat = 512 * usedBlocks fs rootDev (.dir rootDev rootIno entries) ↔
        NoneShadowed fs rootDev (.dir rootDev rootIno entries') ∧
          usedInodes rootDev (.dir rootDev rootIno entries) < 2 ^ 64 ∧
          512 * usedBlocks fs rootDev (.dir rootDev rootIno entries) < 2 ^ 64) := by
  generalize metIs : (Node.dir rootDev rootIno entries').met rootDev = ms
  have perm : ms.Perm ((Node.dir rootDev rootIno entries).reached rootDev) := by
    rw [← metIs]
    exact (met_perm rootDev (.dir rootDev rootIno entries')).trans
      (reached_perm rootDev relisted).symm
  have whole : Node.sizes [.dir rootDev rootIno entries'] ≤ fuel := by
    simpa [Node.sizes] using enough
  have ran := run_eq fs rootDev (t := ⟨0, 0, []⟩) whole (List.forall_mem_singleton.mpr rfl)
  rw [List.flatMap_singleton, metIs] at ran
  refine ⟨_, _, by rw [dirUsage]; dsimp only [Node.metadata]; rw [ran]; rfl, ?_⟩
  obtain ⟨inodesIs, bytesIs⟩ := meet_fold fs rootDev ⟨0, 0, []⟩ ms
  have nodup : (countedFiles fs rootDev [] ms).Nodup :=
    countedFiles_nodup fs rootDev [] fun ino twice =>
      linksCounted ino (perm.count_eq _ ▸ twice)
  obtain ⟨counted, countedIff⟩ := countedFiles_toFinset fs rootDev metIs
  have used : usedInodes rootDev (.dir rootDev rootIno entries) =
      (dirInos ms).length + (fileInos rootDev ms).card := by
    rw [usedInodes, (dirInos_perm perm).length_eq, fileInos_perm rootDev perm]
  have blocks : usedBlocks fs rootDev (.dir rootDev rootIno entries) =
      blockSum fs rootDev (dirInos ms) +
        ∑ ino ∈ fileInos rootDev ms, (fs.blocks rootDev ino).toNat := by
    rw [usedBlocks, ← fileInos_perm rootDev perm]
    exact congrArg (· + _) (((dirInos_perm perm).symm.map _).sum_eq)
  have zero : (0 : UInt64).toNat = 0 := rfl
  rw [inodesIs, bytesIs, blockSum_toFinset fs rootDev nodup, ← countedIff, used, blocks,
    ← List.toFinset_card_of_nodup nodup, zero]
  generalize (countedFiles fs rootDev [] ms).toFinset = found at counted ⊢
  generalize fileInos rootDev ms = present at counted ⊢
  have fewer := Finset.card_le_card counted
  constructor
  · intro both
    obtain ⟨inodesSame, bytesSame⟩ := both
    have same : found = present := by
      refine Finset.eq_of_subset_of_card_le counted ?_
      omega
    refine ⟨same, ?_, ?_⟩
    · omega
    · rw [same] at bytesSame
      omega
  · intro fits
    obtain ⟨rfl, inodesFit, bytesFit⟩ := fits
    rw [Nat.zero_add, Nat.zero_add]
    exact ⟨Nat.mod_eq_of_lt inodesFit, Nat.mod_eq_of_lt bytesFit⟩

def twoLinks : Inodes where
  nlink := fun _ ino => if ino = 7 then 2 else 1
  blocks := fun _ _ => 8

theorem twoLinks_counted (t : Node)
    (once : ∀ ino, ino ≠ 7 → (t.reached 1).count (.file 1 ino) ≤ 1) :
    LinksCounted twoLinks 1 t := by
  intro ino twice
  by_cases seven : ino = 7
  · rw [seven]
    decide
  · exact absurd twice (Nat.not_lt.mpr (once ino seven))

theorem two_links_counted_once :
    ∃ bytes inodes, dirUsage twoLinks 4 (.dir 1 2 [.dir 1 3 [.file 1 7], .file 1 7]) =
        some (bytes, inodes) ∧ inodes.toNat = 3 ∧ bytes.toNat = 512 * 24 := by
  have counted := twoLinks_counted (.dir 1 2 [.file 1 7, .dir 1 3 [.file 1 7]]) (by
    intro ino other
    have none : (Node.reached 1 (.dir 1 2 [.file 1 7, .dir 1 3 [.file 1 7]])).count
        (.file 1 ino) = 0 := by
      rw [List.count_eq_zero]
      simpa [Node.reached, Node.reachedBelow] using other
    omega)
  obtain ⟨bytes, inodes, ran, right⟩ := dirUsage_iff twoLinks 1 2
    [.file 1 7, .dir 1 3 [.file 1 7]] [.dir 1 3 [.file 1 7], .file 1 7]
    (.reorder _ _ _ _ (List.Perm.swap ..)) counted 4 (by decide)
  refine ⟨bytes, inodes, ran, right.mpr ⟨fun ino present linked => ?_, by decide, by decide⟩⟩
  have seven : ino = 7 := by
    simpa [Node.met, Node.metBelow, Node.files] using present
  rw [seven]
  decide

/-! ## A file mounted into the tree -/

/-- A file of another device is mounted over one entry, and the next entry has the same
inode number: the first hides the second, and neither is counted. -/
theorem mounted_file_shadows :
    ¬ ∀ (fs : Inodes) (rootDev rootIno : UInt64) (entries entries' : List Node),
      Relisted (.dir rootDev rootIno entries) (.dir rootDev rootIno entries') →
      LinksCounted fs rootDev (.dir rootDev rootIno entries) →
      ∃ bytes inodes, dirUsage fs (Node.dir rootDev rootIno entries').size
          (.dir rootDev rootIno entries') = some (bytes, inodes) ∧
        inodes.toNat = usedInodes rootDev (.dir rootDev rootIno entries) ∧
        bytes.toNat = 512 * usedBlocks fs rootDev (.dir rootDev rootIno entries) := by
  intro claimed
  have counted := twoLinks_counted (.dir 1 2 [.file 9 7, .file 1 7]) (by
    intro ino other
    have none : (Node.reached 1 (.dir 1 2 [.file 9 7, .file 1 7])).count (.file 1 ino) = 0 := by
      rw [List.count_eq_zero]
      simpa [Node.reached, Node.reachedBelow] using other
    omega)
  obtain ⟨bytes, inodes, ran, inodesIs, _⟩ := claimed twoLinks 1 2 [.file 9 7, .file 1 7]
    [.file 9 7, .file 1 7] (.same _) counted
  have result : dirUsage twoLinks 3 (.dir 1 2 [.file 9 7, .file 1 7]) = some (4096, 1) := by decide
  cases result.symm.trans ran
  exact absurd inodesIs (by decide)

end Cadvisor
