import Mathlib.Data.List.DropRight
import Mathlib.Data.List.Sort
import Mathlib.Order.Bounds.Basic

/-!
# Sequences kept in key order

Binary search, stable insertion and stable sorting by a key, and how an age
bound and a count bound that only ever tighten commute with insertion.  A
buffer that inserts, drops everything below a rising bound and keeps its last
`n` elements after every insertion ends with what one sort, one filter and one
cut of all insertions give.
-/

set_option autoImplicit false

namespace SortedSeq

variable {α κ : Type} [LinearOrder κ]

/-! ## Binary search -/

/-- One search between `lo` and `hi`; every round halves the interval. -/
def partitionPointFrom (xs : List α) (holds : α → Bool) : Nat → Nat → Nat → Nat
  | 0, lo, _ => lo
  | fuel + 1, lo, hi =>
      if lo < hi then
        match xs[lo + (hi - lo) / 2]? with
        | none => lo
        | some x =>
            if holds x then partitionPointFrom xs holds fuel (lo + (hi - lo) / 2 + 1) hi
            else partitionPointFrom xs holds fuel lo (lo + (hi - lo) / 2)
      else lo

/-- Index of the first element for which `holds` fails, on a list that has all
elements satisfying it in front. -/
def partitionPoint (xs : List α) (holds : α → Bool) : Nat :=
  partitionPointFrom xs holds xs.length 0 xs.length

theorem partitionPointFrom_eq (front back : List α) (holds : α → Bool)
    (inFront : ∀ x ∈ front, holds x = true) (inBack : ∀ x ∈ back, holds x = false) :
    ∀ (fuel lo hi : Nat), lo ≤ front.length → front.length ≤ hi →
      hi ≤ (front ++ back).length → hi - lo ≤ fuel →
      partitionPointFrom (front ++ back) holds fuel lo hi = front.length := by
  intro fuel
  induction fuel with
  | zero =>
      intro lo hi below above _ enough
      simp only [partitionPointFrom]
      omega
  | succ fuel ih =>
      intro lo hi below above bound enough
      rw [partitionPointFrom]
      by_cases open' : lo < hi
      · rw [if_pos open']
        have inside : lo + (hi - lo) / 2 < (front ++ back).length := by omega
        rw [List.getElem?_eq_getElem inside]
        by_cases side : lo + (hi - lo) / 2 < front.length
        · have found : holds ((front ++ back)[lo + (hi - lo) / 2]) = true := by
            rw [List.getElem_append_left side]
            exact inFront _ (List.getElem_mem side)
          simp only [found, if_true]
          exact ih _ _ (by omega) above bound (by omega)
        · have found : holds ((front ++ back)[lo + (hi - lo) / 2]) = false := by
            rw [List.getElem_append_right (by omega)]
            exact inBack _ (List.getElem_mem _)
          simp only [found, Bool.false_eq_true, if_false]
          exact ih _ _ below (by omega) (by omega) (by omega)
      · rw [if_neg open']
        omega

theorem le_closed (key : α → κ) (bound : κ) :
    ∀ a b, key a ≤ key b → (key b ≤ bound : Bool) = true → (key a ≤ bound : Bool) = true := by
  intro a b le pass
  simpa using le.trans (by simpa using pass)

theorem lt_closed (key : α → κ) (bound : κ) :
    ∀ a b, key a ≤ key b → (key b < bound : Bool) = true → (key a < bound : Bool) = true := by
  intro a b le pass
  simpa using le.trans_lt (by simpa using pass)

/-- Binary search finds the border of a partitioned list. -/
theorem partitionPoint_append (front back : List α) (holds : α → Bool)
    (inFront : ∀ x ∈ front, holds x = true) (inBack : ∀ x ∈ back, holds x = false) :
    partitionPoint (front ++ back) holds = front.length := by
  apply partitionPointFrom_eq front back holds inFront inBack
  · omega
  · simp
  · exact le_rfl
  · omega

/-! ## Lists sorted by a key -/

def SortedBy (key : α → κ) (xs : List α) : Prop := xs.Pairwise fun a b => key a ≤ key b

theorem SortedBy.filter {key : α → κ} {xs : List α} (sorted : SortedBy key xs)
    (keep : α → Bool) : SortedBy key (xs.filter keep) :=
  List.Pairwise.filter _ sorted

theorem SortedBy.sublist {key : α → κ} {xs ys : List α} (sorted : SortedBy key ys)
    (sub : xs.Sublist ys) : SortedBy key xs :=
  List.Pairwise.sublist sub sorted

theorem SortedBy.le_getLast? {key : α → κ} {xs : List α} (sorted : SortedBy key xs) {last : α}
    (lastIs : xs.getLast? = some last) {x : α} (member : x ∈ xs) : key x ≤ key last := by
  obtain ⟨front, rfl⟩ := List.getLast?_eq_some_iff.mp lastIs
  rcases List.mem_append.mp member with inFront | isLast
  · exact (List.pairwise_append.mp sorted).2.2 x inFront last (by simp)
  · rw [List.mem_singleton.mp isLast]

theorem SortedBy.split {key : α → κ} {xs : List α} (sorted : SortedBy key xs)
    (holds : α → Bool)
    (closed : ∀ a b, key a ≤ key b → holds b = true → holds a = true) :
    xs = xs.filter holds ++ xs.filter (fun x => !holds x) := by
  induction xs with
  | nil => rfl
  | cons x rest ih =>
      have tailSorted : SortedBy key rest := List.Pairwise.of_cons sorted
      by_cases pass : holds x = true
      · simp only [List.filter_cons, pass, if_true, Bool.not_true, Bool.false_eq_true,
          if_false, List.cons_append]
        exact congrArg (x :: ·) (ih tailSorted)
      · have noneHolds : ∀ y ∈ rest, holds y = false := by
          intro y member
          by_contra hy
          have le : key x ≤ key y := (List.pairwise_cons.mp sorted).1 y member
          exact pass (closed x y le (by simpa using hy))
        have frontNil : (x :: rest).filter holds = [] := by
          rw [List.filter_eq_nil_iff]
          intro y member
          rcases List.mem_cons.mp member with rfl | member
          · exact pass
          · simp [noneHolds y member]
        have backAll : (x :: rest).filter (fun x => !holds x) = x :: rest := by
          rw [List.filter_eq_self]
          intro y member
          rcases List.mem_cons.mp member with rfl | member
          · simp [pass]
          · simp [noneHolds y member]
        rw [frontNil, backAll, List.nil_append]

theorem SortedBy.partitionPoint {key : α → κ} {xs : List α} (sorted : SortedBy key xs)
    (holds : α → Bool)
    (closed : ∀ a b, key a ≤ key b → holds b = true → holds a = true) :
    partitionPoint xs holds = (xs.filter holds).length := by
  have split := sorted.split holds closed
  conv_lhs => rw [split]
  apply partitionPoint_append
  · intro x member
    exact (List.mem_filter.mp member).2
  · intro x member
    simpa using (List.mem_filter.mp member).2

theorem SortedBy.take_partitionPoint {key : α → κ} {xs : List α} (sorted : SortedBy key xs)
    (holds : α → Bool)
    (closed : ∀ a b, key a ≤ key b → holds b = true → holds a = true) :
    xs.take (SortedSeq.partitionPoint xs holds) = xs.filter holds := by
  rw [sorted.partitionPoint holds closed]
  have split := congrArg (List.take (xs.filter holds).length) (sorted.split holds closed)
  exact split.trans List.take_left

theorem SortedBy.drop_partitionPoint {key : α → κ} {xs : List α} (sorted : SortedBy key xs)
    (holds : α → Bool)
    (closed : ∀ a b, key a ≤ key b → holds b = true → holds a = true) :
    xs.drop (SortedSeq.partitionPoint xs holds) = xs.filter (fun x => !holds x) := by
  rw [sorted.partitionPoint holds closed]
  have split := congrArg (List.drop (xs.filter holds).length) (sorted.split holds closed)
  exact split.trans List.drop_left

theorem SortedBy.drop_filter {key : α → κ} {xs : List α} (sorted : SortedBy key xs)
    (lower upper : α → Bool)
    (lowerClosed : ∀ a b, key a ≤ key b → lower b = true → lower a = true)
    (upperClosed : ∀ a b, key a ≤ key b → upper b = true → upper a = true) :
    (xs.filter upper).drop (xs.filter lower).length =
      (xs.filter upper).filter (fun x => !lower x) := by
  have window := (sorted.filter upper).split lower lowerClosed
  by_cases inside : ∀ x ∈ xs, lower x = true → upper x = true
  · have lowerIn : xs.filter lower = (xs.filter upper).filter lower := by
      rw [List.filter_filter]
      apply List.filter_congr
      intro x member
      by_cases pass : lower x = true
      · simp [pass, inside x member pass]
      · simp [pass]
    rw [lowerIn]
    exact (congrArg _ window).trans List.drop_left
  · -- An element below the lower bound but not below the upper one: nothing is left.
    obtain ⟨z, zIn, zLow, zHigh⟩ : ∃ z ∈ xs, lower z = true ∧ ¬ upper z = true := by
      simpa using inside
    have swallowed : ∀ x ∈ xs, upper x = true → lower x = true := by
      intro x member pass
      rcases le_total (key x) (key z) with le | ge
      · exact lowerClosed x z le zLow
      · exact absurd (upperClosed z x ge pass) zHigh
    have none : (xs.filter upper).filter (fun x => !lower x) = [] := by
      rw [List.filter_eq_nil_iff]
      intro x member
      have := List.mem_filter.mp member
      simp [swallowed x this.1 this.2]
    rw [none, List.drop_eq_nil_iff]
    have shorter : (xs.filter upper).length ≤ (xs.filter lower).length := by
      rw [← List.countP_eq_length_filter, ← List.countP_eq_length_filter]
      exact List.countP_mono_left swallowed
    exact shorter

/-! ## Stable insertion and stable sort -/

/-- Puts `x` behind every element whose key is not above its own. -/
def stableInsert (key : α → κ) (x : α) (xs : List α) : List α :=
  xs.filter (fun y => key y ≤ key x) ++
    x :: xs.filter (fun y => key x < key y)

/-- Inserting one element after the other, each behind its equals. -/
def stableSort (key : α → κ) (xs : List α) : List α :=
  xs.foldl (fun sorted x => stableInsert key x sorted) []

@[simp] theorem stableSort_concat (key : α → κ) (xs : List α) (x : α) :
    stableSort key (xs ++ [x]) = stableInsert key x (stableSort key xs) := by
  simp [stableSort]

theorem filter_lt_eq_not_le (key : α → κ) (x : α) (xs : List α) :
    xs.filter (fun y => key x < key y) = xs.filter (fun y => !(key y ≤ key x : Bool)) := by
  congr 1
  funext y
  simp [← not_le]

@[simp] theorem mem_stableInsert (key : α → κ) (x y : α) (xs : List α) :
    y ∈ stableInsert key x xs ↔ y = x ∨ y ∈ xs := by
  simp only [stableInsert, List.mem_append, List.mem_filter, List.mem_cons, decide_eq_true_eq]
  constructor
  · rintro (⟨member, _⟩ | rfl | ⟨member, _⟩)
    · exact Or.inr member
    · exact Or.inl rfl
    · exact Or.inr member
  · rintro (rfl | member)
    · exact Or.inr (Or.inl rfl)
    · rcases le_or_gt (key y) (key x) with le | gt
      · exact Or.inl ⟨member, le⟩
      · exact Or.inr (Or.inr ⟨member, gt⟩)

theorem stableInsert_perm (key : α → κ) (x : α) (xs : List α) :
    (stableInsert key x xs).Perm (x :: xs) := by
  have halves : (xs.filter (fun y => key y ≤ key x) ++
      xs.filter (fun y => key x < key y)).Perm xs := by
    rw [filter_lt_eq_not_le]
    exact List.filter_append_perm _ xs
  exact List.perm_middle.trans (halves.cons x)

theorem stableInsert_sorted (key : α → κ) (x : α) {xs : List α} (sorted : SortedBy key xs) :
    SortedBy key (stableInsert key x xs) := by
  unfold SortedBy stableInsert
  rw [List.pairwise_append]
  refine ⟨sorted.filter _, ?_, ?_⟩
  · rw [List.pairwise_cons]
    refine ⟨?_, sorted.filter _⟩
    intro y member
    exact le_of_lt (by simpa using (List.mem_filter.mp member).2)
  · intro y front z back
    have low : key y ≤ key x := by simpa using (List.mem_filter.mp front).2
    rcases List.mem_cons.mp back with rfl | back
    · exact low
    · exact low.trans (le_of_lt (by simpa using (List.mem_filter.mp back).2))

theorem insert_at_partitionPoint (key : α → κ) (x : α) {xs : List α} (sorted : SortedBy key xs) :
    xs.take (partitionPoint xs fun y => key y ≤ key x) ++
        x :: xs.drop (partitionPoint xs fun y => key y ≤ key x) =
      stableInsert key x xs := by
  rw [sorted.take_partitionPoint _ (le_closed key (key x)),
    sorted.drop_partitionPoint _ (le_closed key (key x)), stableInsert, filter_lt_eq_not_le]

theorem stableInsert_of_le (key : α → κ) (x : α) {xs : List α}
    (above : ∀ y ∈ xs, key y ≤ key x) : stableInsert key x xs = xs ++ [x] := by
  have front : xs.filter (fun y => key y ≤ key x) = xs := by
    rw [List.filter_eq_self]
    intro y member
    simpa using above y member
  have back : xs.filter (fun y => key x < key y) = [] := by
    rw [List.filter_eq_nil_iff]
    intro y member
    simpa using above y member
  rw [stableInsert, front, back]

theorem stableInsert_of_lt (key : α → κ) (x : α) {xs : List α}
    (below : ∀ y ∈ xs, key x < key y) : stableInsert key x xs = x :: xs := by
  have front : xs.filter (fun y => key y ≤ key x) = [] := by
    rw [List.filter_eq_nil_iff]
    intro y member
    simpa using below y member
  have back : xs.filter (fun y => key x < key y) = xs := by
    rw [List.filter_eq_self]
    intro y member
    simpa using below y member
  rw [stableInsert, front, back, List.nil_append]

theorem stableInsert_append_of_le (key : α → κ) (x : α) (front back : List α)
    (below : ∀ y ∈ front, key y ≤ key x) :
    stableInsert key x (front ++ back) = front ++ stableInsert key x back := by
  have frontAll : front.filter (fun y => key y ≤ key x) = front := by
    rw [List.filter_eq_self]
    intro y member
    simpa using below y member
  have frontNone : front.filter (fun y => key x < key y) = [] := by
    rw [List.filter_eq_nil_iff]
    intro y member
    simpa using below y member
  simp only [stableInsert, List.filter_append, frontAll, frontNone, List.nil_append,
    List.append_assoc]

theorem stableInsert_append_of_lt (key : α → κ) (x : α) (front back : List α)
    (above : ∀ y ∈ back, key x < key y) :
    stableInsert key x (front ++ back) = stableInsert key x front ++ back := by
  have backNone : back.filter (fun y => key y ≤ key x) = [] := by
    rw [List.filter_eq_nil_iff]
    intro y member
    simpa using above y member
  have backAll : back.filter (fun y => key x < key y) = back := by
    rw [List.filter_eq_self]
    intro y member
    simpa using above y member
  simp only [stableInsert, List.filter_append, backNone, backAll, List.append_nil,
    List.append_assoc, List.cons_append]

theorem filter_stableInsert (key : α → κ) (x : α) {xs : List α} (sorted : SortedBy key xs)
    (keep : α → Bool) :
    (stableInsert key x xs).filter keep =
      if keep x then stableInsert key x (xs.filter keep) else xs.filter keep := by
  have swap : ∀ test : α → Bool, (xs.filter test).filter keep = (xs.filter keep).filter test := by
    intro test
    simp only [List.filter_filter]
    congr 1
    funext y
    exact Bool.and_comm _ _
  by_cases pass : keep x = true
  · simp only [stableInsert, List.filter_append, List.filter_cons, pass, if_true, swap]
  · simp only [stableInsert, List.filter_append, List.filter_cons, pass, if_false, swap,
      Bool.false_eq_true]
    rw [filter_lt_eq_not_le]
    exact ((sorted.filter keep).split (fun y => key y ≤ key x) (le_closed key (key x))).symm

theorem stableSort_sorted (key : α → κ) (xs : List α) : SortedBy key (stableSort key xs) := by
  induction xs using List.reverseRecOn with
  | nil => exact List.Pairwise.nil
  | append_singleton xs x ih =>
      rw [stableSort_concat]
      exact stableInsert_sorted key x ih

theorem stableSort_perm (key : α → κ) (xs : List α) : (stableSort key xs).Perm xs := by
  induction xs using List.reverseRecOn with
  | nil => exact List.Perm.nil
  | append_singleton xs x ih =>
      rw [stableSort_concat]
      exact (stableInsert_perm key x _).trans
        ((ih.cons x).trans (List.perm_append_singleton x xs).symm)

@[simp] theorem mem_stableSort (key : α → κ) (x : α) (xs : List α) :
    x ∈ stableSort key xs ↔ x ∈ xs := (stableSort_perm key xs).mem_iff

theorem filter_stableSort (key : α → κ) (keep : α → Bool) (xs : List α) :
    (stableSort key xs).filter keep = stableSort key (xs.filter keep) := by
  induction xs using List.reverseRecOn with
  | nil => rfl
  | append_singleton xs x ih =>
      rw [stableSort_concat, filter_stableInsert key x (stableSort_sorted key xs) keep, ih,
        List.filter_append]
      by_cases pass : keep x = true
      · simp [pass]
      · simp [pass]

theorem stableSort_of_sorted (key : α → κ) {xs : List α} (sorted : SortedBy key xs) :
    stableSort key xs = xs := by
  induction xs using List.reverseRecOn with
  | nil => rfl
  | append_singleton xs x ih =>
      obtain ⟨front, _, cross⟩ := List.pairwise_append.mp sorted
      rw [stableSort_concat, ih front]
      apply stableInsert_of_le
      intro y member
      exact cross y member x (List.mem_singleton.mpr rfl)

theorem run_sorted (key : α → κ) (xs : List α) (k : κ) :
    SortedBy key (xs.filter fun x => key x = k) := by
  rw [SortedBy, List.pairwise_iff_forall_sublist]
  intro a b pair
  have inRun : ∀ z ∈ [a, b], key z = k := fun z member =>
    by simpa using (List.mem_filter.mp (pair.subset member)).2
  rw [inRun a (by simp), inRun b (by simp)]

/-- Stable sorting keeps every run of equal keys in its order. -/
theorem run_stableSort (key : α → κ) (xs : List α) (k : κ) :
    (stableSort key xs).filter (fun x => key x = k) = xs.filter fun x => key x = k := by
  rw [filter_stableSort, stableSort_of_sorted key (run_sorted key xs k)]

/-- A sorted list is determined by its runs of equal keys. -/
theorem SortedBy.eq_of_runs {key : α → κ} {xs ys : List α}
    (xsSorted : SortedBy key xs) (ysSorted : SortedBy key ys)
    (runs : ∀ k, xs.filter (fun x => key x = k) =
      ys.filter (fun x => key x = k)) : xs = ys := by
  induction xs generalizing ys with
  | nil =>
      cases ys with
      | nil => rfl
      | cons y rest =>
          have run := runs (key y)
          simp at run
  | cons x xs ih =>
      cases ys with
      | nil =>
          have run := runs (key x)
          simp at run
      | cons y ys =>
          -- The least key heads both lists, so their first runs start alike.
          have inYs : x ∈ (y :: ys).filter (fun z => key z = key x) := by
            rw [← runs (key x)]
            simp
          have inXs : y ∈ (x :: xs).filter (fun z => key z = key y) := by
            rw [runs (key y)]
            simp
          have yLe : key y ≤ key x := by
            rcases List.mem_cons.mp (List.mem_filter.mp inYs).1 with same | later
            · exact (congrArg key same).ge
            · exact (List.pairwise_cons.mp ysSorted).1 x later
          have xLe : key x ≤ key y := by
            rcases List.mem_cons.mp (List.mem_filter.mp inXs).1 with same | later
            · exact (congrArg key same).ge
            · exact (List.pairwise_cons.mp xsSorted).1 y later
          have keyEq : key y = key x := le_antisymm yLe xLe
          have headRun := runs (key x)
          simp only [List.filter_cons, decide_true, if_true, keyEq] at headRun
          obtain ⟨headEq, _⟩ := List.cons.inj headRun
          subst headEq
          refine congrArg (x :: ·) (ih (List.Pairwise.of_cons xsSorted)
            (List.Pairwise.of_cons ysSorted) ?_)
          intro k
          have run := runs k
          by_cases here : key x = k
          · simpa [List.filter_cons, here] using run
          · simpa [List.filter_cons, here] using run

theorem stableSort_eq_of_runs {key : α → κ} {xs ys : List α}
    (runs : ∀ k, xs.filter (fun x => key x = k) = ys.filter (fun x => key x = k)) :
    stableSort key xs = stableSort key ys := by
  refine (stableSort_sorted key xs).eq_of_runs (stableSort_sorted key ys) fun k => ?_
  rw [run_stableSort, run_stableSort, runs k]

/-- Insertion in order is the stable merge sort of the standard library. -/
theorem stableSort_eq_mergeSort (key : α → κ) (xs : List α) :
    stableSort key xs = xs.mergeSort (fun a b => key a ≤ key b) := by
  have trans : ∀ a b c : α, (key a ≤ key b : Bool) → (key b ≤ key c : Bool) →
      (key a ≤ key c : Bool) := by
    intro a b c ab bc
    exact le_closed key (key c) a b (by simpa using ab) bc
  have total : ∀ a b : α, ((key a ≤ key b : Bool) || (key b ≤ key a : Bool)) = true := by
    intro a b
    simpa using le_total (key a) (key b)
  have mergeSorted : SortedBy key (xs.mergeSort (fun a b => key a ≤ key b)) := by
    have ordered := List.pairwise_mergeSort trans total xs
    exact ordered.imp (by simp)
  apply (stableSort_sorted key xs).eq_of_runs mergeSorted
  intro k
  have runSorted := run_sorted key xs k
  rw [run_stableSort]
  have kept : (xs.filter fun x => key x = k).Sublist
      (xs.mergeSort (fun a b => key a ≤ key b)) := by
    apply List.sublist_mergeSort trans total
    · exact List.Pairwise.imp (by simp) runSorted
    · exact List.filter_sublist
  have keptRun := kept.filter (fun x => key x = k)
  rw [List.filter_filter] at keptRun
  simp only [Bool.and_self] at keptRun
  apply keptRun.eq_of_length
  exact (((List.mergeSort_perm xs _).filter _).length_eq).symm

theorem stableSort_eq_of_perm {xs ys : List κ} (perm : xs.Perm ys)
    (sorted : ys.Pairwise (· ≤ ·)) : stableSort id xs = ys := by
  have left : (stableSort id xs).Pairwise (· ≤ ·) := stableSort_sorted id xs
  exact ((stableSort_perm id xs).trans perm).eq_of_pairwise (fun _ _ _ _ => le_antisymm) left sorted

theorem stableSort_map_key (key : α → κ) (xs : List α) :
    (stableSort key xs).map key = stableSort id (xs.map key) := by
  have sorted : ((stableSort key xs).map key).Pairwise (· ≤ ·) :=
    List.pairwise_map.mpr (stableSort_sorted key xs)
  exact (stableSort_eq_of_perm ((stableSort_perm key xs).map key).symm sorted).symm

theorem stableSort_strict {xs : List κ} (nodup : xs.Nodup) :
    (stableSort id xs).Pairwise (· < ·) := by
  have distinct := (stableSort_perm id xs).nodup_iff.mpr nodup
  have sorted : (stableSort id xs).Pairwise (· ≤ ·) := stableSort_sorted id xs
  exact sorted.imp₂ (fun _ _ below different => lt_of_le_of_ne below different) distinct

/-- What lies between two neighbours of a rising list is not in it. -/
theorem notMem_of_between {front back : List κ} {x low high : κ}
    (sorted : (front ++ back).Pairwise (· < ·)) (lowIs : front.getLast? = some low)
    (highIs : back.head? = some high) (above : low < x) (below : x < high) :
    x ∉ front ++ back := by
  obtain ⟨frontSorted, backSorted, _⟩ := List.pairwise_append.mp sorted
  intro member
  rcases List.mem_append.mp member with inFront | inBack
  · obtain ⟨start, rfl⟩ := List.getLast?_eq_some_iff.mp lowIs
    rcases List.mem_append.mp inFront with earlier | isLast
    · have less := (List.pairwise_append.mp frontSorted).2.2 x earlier low (by simp)
      exact absurd (above.trans less) (lt_irrefl low)
    · exact absurd (List.mem_singleton.mp isLast) above.ne'
  · obtain ⟨rest, rfl⟩ := List.head?_eq_some_iff.mp highIs
    rcases List.mem_cons.mp inBack with isFirst | later
    · exact absurd isFirst below.ne
    · have less := (List.pairwise_cons.mp backSorted).1 x later
      exact absurd (below.trans less) (lt_irrefl x)

/-! ## One element of each run -/

/-- Drops every element that is the same as the one kept last. -/
def dedupAfter (same : α → α → Bool) (kept : α) : List α → List α
  | [] => []
  | x :: rest => if same x kept then dedupAfter same kept rest else x :: dedupAfter same x rest

/-- `dedup_by`. -/
def dedupBy (same : α → α → Bool) : List α → List α
  | [] => []
  | x :: rest => x :: dedupAfter same x rest

theorem dedupAfter_spec (key : α → κ) {kept : α} {xs : List α}
    (sorted : SortedBy key (kept :: xs)) :
    ((kept :: dedupAfter (fun x y => key x = key y) kept xs).Pairwise fun a b => key a < key b) ∧
      ∀ k, (dedupAfter (fun x y => key x = key y) kept xs).filter (fun x => key x = k) =
        if key kept = k then [] else (xs.filter fun x => key x = k).take 1 := by
  induction xs generalizing kept with
  | nil => simp [dedupAfter]
  | cons x rest ih =>
      obtain ⟨below, tailSorted⟩ := List.pairwise_cons.mp sorted
      have xAbove : key kept ≤ key x := below x (List.mem_cons_self ..)
      by_cases repeated : key x = key kept
      · have keptSorted : SortedBy key (kept :: rest) :=
          List.pairwise_cons.mpr ⟨fun y member => below y (List.mem_cons_of_mem _ member),
            List.Pairwise.of_cons tailSorted⟩
        obtain ⟨rising, runs⟩ := ih keptSorted
        have stepIs : dedupAfter (fun x y => key x = key y) kept (x :: rest) =
            dedupAfter (fun x y => key x = key y) kept rest := by
          simp [dedupAfter, repeated]
        rw [stepIs]
        refine ⟨rising, fun k => ?_⟩
        rw [runs k]
        by_cases here : key kept = k
        · rw [if_pos here, if_pos here]
        · have notX : ¬ key x = k := repeated ▸ here
          rw [if_neg here, if_neg here, List.filter_cons_of_neg (by simpa using notX)]
      · obtain ⟨rising, runs⟩ := ih tailSorted
        have stepIs : dedupAfter (fun x y => key x = key y) kept (x :: rest) =
            x :: dedupAfter (fun x y => key x = key y) x rest := by
          simp [dedupAfter, repeated]
        have strict : key kept < key x := lt_of_le_of_ne xAbove (Ne.symm repeated)
        rw [stepIs]
        constructor
        · refine List.pairwise_cons.mpr ⟨fun y member => ?_, rising⟩
          rcases List.mem_cons.mp member with rfl | later
          · exact strict
          · exact strict.trans ((List.pairwise_cons.mp rising).1 y later)
        · intro k
          by_cases here : key x = k
          · have notKept : ¬ key kept = k := fun isKept => repeated (here.trans isKept.symm)
            rw [List.filter_cons_of_pos (by simpa using here), runs k, if_pos here, if_neg notKept,
              List.filter_cons_of_pos (by simpa using here)]
            rfl
          · rw [List.filter_cons_of_neg (by simpa using here), runs k, if_neg here,
              List.filter_cons_of_neg (by simpa using here)]
            by_cases isKept : key kept = k
            · -- Nothing behind a greater key has the kept one.
              rw [if_pos isKept, List.take_eq_nil_iff, List.filter_eq_nil_iff]
              refine Or.inr fun y member => ?_
              have above := (List.pairwise_cons.mp tailSorted).1 y member
              have different := (strict.trans_le above).ne'
              simpa [← isKept] using different
            · rw [if_neg isKept]

/-- Deduplicating a stable sort leaves one element of each key, in key order:
the first of the original list that has it. -/
theorem dedupBy_stableSort (key : α → κ) (xs : List α) :
    ((dedupBy (fun x y => key x = key y) (stableSort key xs)).Pairwise fun a b => key a < key b) ∧
      ∀ k, (dedupBy (fun x y => key x = key y) (stableSort key xs)).filter (fun x => key x = k) =
        (xs.filter fun x => key x = k).take 1 := by
  have sorted := stableSort_sorted key xs
  have runs := run_stableSort key xs
  cases sort : stableSort key xs with
  | nil =>
      rw [sort] at runs
      refine ⟨List.Pairwise.nil, fun k => ?_⟩
      rw [← runs k]
      rfl
  | cons x rest =>
      rw [sort] at sorted runs
      obtain ⟨rising, tailRuns⟩ := dedupAfter_spec key sorted
      refine ⟨rising, fun k => ?_⟩
      rw [← runs k, dedupBy]
      by_cases here : key x = k
      · rw [List.filter_cons_of_pos (by simpa using here), tailRuns k, if_pos here,
          List.filter_cons_of_pos (by simpa using here)]
        rfl
      · rw [List.filter_cons_of_neg (by simpa using here), tailRuns k, if_neg here,
          List.filter_cons_of_neg (by simpa using here)]

theorem dedupBy_stableSort_of_test (key : α → κ) {same : α → α → Bool}
    (sameKey : ∀ x y, same x y = true ↔ key x = key y) (xs : List α) :
    ((dedupBy same (stableSort key xs)).Pairwise fun a b => key a < key b) ∧
      ∀ (test : α → Bool) (k : κ), (∀ x, test x = true ↔ key x = k) →
        (dedupBy same (stableSort key xs)).filter test = (xs.filter test).take 1 := by
  have sameIs : same = fun x y => decide (key x = key y) := by
    funext x y
    rw [Bool.eq_iff_iff, sameKey, decide_eq_true_iff]
  obtain ⟨rising, runs⟩ := dedupBy_stableSort key xs
  rw [sameIs]
  refine ⟨rising, fun test k hasKey => ?_⟩
  have testIs : test = fun x => decide (key x = k) := by
    funext x
    rw [Bool.eq_iff_iff, hasKey, decide_eq_true_iff]
  rw [testIs]
  exact runs k

/-! ## The newest key -/

def IsNewest (key : α → κ) (xs : List α) (newest : κ) : Prop :=
  IsGreatest {k | k ∈ xs.map key} newest

theorem isNewest_singleton (key : α → κ) (x : α) : IsNewest key [x] (key x) := by
  simp [IsNewest]

theorem IsNewest.exists_holder {key : α → κ} {xs : List α} {newest : κ}
    (top : IsNewest key xs newest) : ∃ x ∈ xs, key x = newest :=
  List.mem_map.mp top.1

theorem IsNewest.le {key : α → κ} {xs : List α} {newest : κ} (top : IsNewest key xs newest)
    {x : α} (member : x ∈ xs) : key x ≤ newest :=
  top.2 (List.mem_map_of_mem member)

theorem isNewest_of_holder {key : α → κ} {xs : List α} {x : α} (member : x ∈ xs)
    (above : ∀ y ∈ xs, key y ≤ key x) : IsNewest key xs (key x) := by
  refine ⟨List.mem_map_of_mem member, ?_⟩
  rintro k inKeys
  obtain ⟨y, inList, rfl⟩ := List.mem_map.mp inKeys
  exact above y inList

theorem IsNewest.insert {key : α → κ} {xs ys : List α} {x : α} {newest : κ}
    (top : IsNewest key xs newest) (members : ∀ y, y ∈ ys ↔ y = x ∨ y ∈ xs) :
    IsNewest key ys (max newest (key x)) := by
  obtain ⟨holder, inList, rfl⟩ := top.exists_holder
  rcases le_total (key holder) (key x) with low | high
  · rw [max_eq_right low]
    refine isNewest_of_holder ((members x).mpr (Or.inl rfl)) fun y member => ?_
    rcases (members y).mp member with rfl | earlier
    · exact le_rfl
    · exact (top.le earlier).trans low
  · rw [max_eq_left high]
    refine isNewest_of_holder ((members holder).mpr (Or.inr inList)) fun y member => ?_
    rcases (members y).mp member with rfl | earlier
    · exact high
    · exact top.le earlier

theorem exists_newest (key : α → κ) {xs : List α} (given : xs ≠ []) :
    ∃ newest, IsNewest key xs newest := by
  induction xs with
  | nil => exact absurd rfl given
  | cons x rest ih =>
      by_cases single : rest = []
      · rw [single]
        exact ⟨key x, isNewest_singleton key x⟩
      · obtain ⟨newest, top⟩ := ih single
        exact ⟨_, top.insert fun y => List.mem_cons⟩

theorem IsNewest.of_mem_iff {key : α → κ} {xs ys : List α} {newest : κ}
    (top : IsNewest key xs newest) (members : ∀ y, y ∈ ys ↔ y ∈ xs) :
    IsNewest key ys newest := by
  obtain ⟨holder, inList, rfl⟩ := top.exists_holder
  exact isNewest_of_holder ((members holder).mpr inList) fun y member =>
    top.le ((members y).mp member)

theorem IsNewest.sublist {key : α → κ} {xs ys : List α} {x : α}
    (top : IsNewest key ys (key x)) (sub : ∀ y ∈ xs, y ∈ ys) (kept : x ∈ xs) :
    IsNewest key xs (key x) :=
  isNewest_of_holder kept fun y member => top.le (sub y member)

theorem IsNewest.filter_le {key : α → κ} {xs : List α} {newest low : κ}
    (top : IsNewest key xs newest) (below : low ≤ newest) :
    IsNewest key (xs.filter fun y => low ≤ key y) newest := by
  obtain ⟨holder, inList, rfl⟩ := top.exists_holder
  refine top.sublist (fun y member => (List.mem_filter.mp member).1) ?_
  exact List.mem_filter.mpr ⟨inList, by simpa using below⟩

theorem SortedBy.getLast?_of_isNewest {key : α → κ} {xs : List α} (sorted : SortedBy key xs)
    {newest : κ} (top : IsNewest key xs newest) :
    ∃ last, xs.getLast? = some last ∧ key last = newest := by
  obtain ⟨holder, inList, rfl⟩ := top.exists_holder
  cases lastIs : xs.getLast? with
  | none =>
      rw [List.getLast?_eq_none_iff] at lastIs
      subst lastIs
      cases inList
  | some last =>
      obtain ⟨front, split⟩ := List.getLast?_eq_some_iff.mp lastIs
      refine ⟨last, rfl, le_antisymm (top.le (by rw [split]; simp)) ?_⟩
      rw [split] at inList sorted
      rcases List.mem_append.mp inList with inFront | isLast
      · exact (List.pairwise_append.mp sorted).2.2 holder inFront last (by simp)
      · rw [List.mem_singleton.mp isLast]

/-! ## Retention: a rising lower bound and a count bound -/

theorem filter_insert_filter (key : α → κ) (x : α) {xs : List α} (sorted : SortedBy key xs)
    (keep strict : α → Bool) (stricter : ∀ y ∈ xs, strict y = true → keep y = true) :
    (stableInsert key x (xs.filter keep)).filter strict =
      (stableInsert key x xs).filter strict := by
  have absorb : (xs.filter keep).filter strict = xs.filter strict := by
    rw [List.filter_filter]
    apply List.filter_congr
    intro y member
    by_cases pass : strict y = true
    · simp [pass, stricter y member pass]
    · simp [pass]
  rw [filter_stableInsert key x (sorted.filter _), filter_stableInsert key x sorted, absorb]

theorem filter_insert_filter_le (key : α → κ) (x : α) {xs : List α} (sorted : SortedBy key xs)
    {low high : κ} (rising : low ≤ high) :
    (stableInsert key x (xs.filter fun y => low ≤ key y)).filter (fun y => high ≤ key y) =
      (stableInsert key x xs).filter (fun y => high ≤ key y) := by
  apply filter_insert_filter key x sorted
  intro y _ pass
  simpa using rising.trans (by simpa using pass)

theorem rtake_append_of_length_le (front back : List α) (n : Nat) (long : n ≤ back.length) :
    (front ++ back).rtake n = back.rtake n := by
  rw [List.rtake, List.rtake, List.length_append, List.drop_append]
  have wholeFront : front.length ≤ front.length + back.length - n := by omega
  rw [List.drop_eq_nil_of_le wholeFront, List.nil_append]
  congr 1
  omega

theorem rtake_eq_self (xs : List α) (n : Nat) (short : xs.length ≤ n) : xs.rtake n = xs := by
  rw [List.rtake, Nat.sub_eq_zero_of_le short, List.drop_zero]

theorem rtake_split (xs : List α) (n : Nat) :
    ∃ front, xs = front ++ xs.rtake n ∧ (front = [] ∨ (xs.rtake n).length = n) := by
  refine ⟨xs.take (xs.length - n), (List.take_append_drop _ xs).symm, ?_⟩
  by_cases short : xs.length ≤ n
  · exact Or.inl (by simp [Nat.sub_eq_zero_of_le short])
  · exact Or.inr (by simp only [List.rtake, List.length_drop]; omega)

theorem IsNewest.rtake {key : α → κ} {xs : List α} (sorted : SortedBy key xs) {newest : κ}
    (top : IsNewest key xs newest) {n : Nat} (positive : 0 < n) :
    IsNewest key (xs.rtake n) newest := by
  obtain ⟨last, lastIs, rfl⟩ := sorted.getLast?_of_isNewest top
  refine top.sublist (fun y member => List.mem_of_mem_drop member) ?_
  obtain ⟨front, split⟩ := List.getLast?_eq_some_iff.mp lastIs
  obtain ⟨m, rfl⟩ := Nat.exists_eq_succ_of_ne_zero positive.ne'
  rw [split, Nat.succ_eq_add_one, List.rtake_concat_succ]
  simp

/-- The last `n` of a sorted list are the last `n` of its window exactly when
nothing lies above the window and what lies below it is not reached. -/
theorem SortedBy.rtake_eq_rtake_window_iff {key : α → κ} {xs : List α} (sorted : SortedBy key xs)
    (low high : κ) {n : Nat} (positive : 0 < n) :
    xs.rtake n = (xs.filter fun x => low ≤ key x ∧ key x ≤ high).rtake n ↔
      (∀ x ∈ xs, key x ≤ high) ∧
        ((∀ x ∈ xs, low ≤ key x) ∨ n ≤ (xs.filter fun x => low ≤ key x).length) := by
  constructor
  · intro same
    have inWindow : ∀ x ∈ xs.rtake n, low ≤ key x ∧ key x ≤ high := by
      intro x member
      rw [same] at member
      simpa using (List.mem_filter.mp (List.mem_of_mem_drop member)).2
    constructor
    · intro x member
      obtain ⟨last, lastIs⟩ : ∃ last, xs.getLast? = some last := by
        cases lastIs : xs.getLast? with
        | none => simp [List.getLast?_eq_none_iff.mp lastIs] at member
        | some last => exact ⟨last, rfl⟩
      obtain ⟨front, split⟩ := List.getLast?_eq_some_iff.mp lastIs
      have top : IsNewest key xs (key last) := by
        refine isNewest_of_holder (by rw [split]; simp) fun y yIn => ?_
        rw [split] at yIn sorted
        rcases List.mem_append.mp yIn with inFront | isLast
        · exact (List.pairwise_append.mp sorted).2.2 y inFront last (by simp)
        · rw [List.mem_singleton.mp isLast]
      obtain ⟨holder, kept, holderKey⟩ := (top.rtake sorted positive).exists_holder
      exact (top.le member).trans (holderKey ▸ (inWindow holder kept).2)
    · obtain ⟨front, split, rfl | full⟩ := rtake_split xs n
      · refine Or.inl fun x member => (inWindow x ?_).1
        rwa [split, List.nil_append] at member
      · refine Or.inr ?_
        have allPass : (xs.rtake n).filter (fun x => low ≤ key x) = xs.rtake n := by
          rw [List.filter_eq_self]
          intro x member
          simpa using (inWindow x member).1
        have sub := (List.drop_sublist (xs.length - n) xs).filter fun x => (low ≤ key x : Bool)
        calc n = ((xs.rtake n).filter fun x => low ≤ key x).length := by rw [allPass, full]
          _ ≤ _ := sub.length_le
  · rintro ⟨below, above⟩
    have windowIs : (xs.filter fun x => low ≤ key x ∧ key x ≤ high) =
        xs.filter fun x => low ≤ key x := by
      apply List.filter_congr
      intro x member
      simp [below x member]
    rw [windowIs]
    rcases above with all | enough
    · rw [List.filter_eq_self.mpr]
      intro x member
      simpa using all x member
    · have halves := sorted.split (fun x => key x < low) (lt_closed key low)
      have upper : (xs.filter fun x => !(key x < low : Bool)) =
          xs.filter fun x => low ≤ key x := by
        congr 1
        funext x
        simp [← not_lt]
      rw [upper] at halves
      exact (congrArg (List.rtake · n) halves).trans (rtake_append_of_length_le _ _ n enough)

/-- Cutting to the last `n` before an insertion does not change the last `n`
above a bound after it. -/
theorem rtake_filter_insert_rtake (key : α → κ) (x : α) {xs : List α} (sorted : SortedBy key xs)
    (bound : κ) (n : Nat) :
    ((stableInsert key x (xs.rtake n)).filter (fun y => bound ≤ key y)).rtake n =
      ((stableInsert key x xs).filter (fun y => bound ≤ key y)).rtake n := by
  obtain ⟨front, split, cut⟩ := rtake_split xs n
  rcases cut with rfl | full
  · rw [List.nil_append] at split
    rw [← split]
  · generalize kept : xs.rtake n = back at split full
    subst split
    obtain ⟨frontSorted, backSorted, cross⟩ := List.pairwise_append.mp sorted
    cases back with
    | nil =>
        have zero : n = 0 := by simpa using full.symm
        subst zero
        simp
    | cons b rest =>
        have headLeast : ∀ y ∈ b :: rest, key b ≤ key y := by
          intro y member
          rcases List.mem_cons.mp member with rfl | later
          · exact le_rfl
          · exact (List.pairwise_cons.mp backSorted).1 y later
        by_cases reach : bound ≤ key b
        · -- The whole kept part passes: `n` elements are there already.
          have backPass : (b :: rest).filter (fun y => bound ≤ key y) = b :: rest := by
            rw [List.filter_eq_self]
            intro y member
            simpa using reach.trans (headLeast y member)
          rcases le_or_gt (key b) (key x) with goesBehind | goesFront
          · rw [stableInsert_append_of_le key x front (b :: rest) fun y member =>
              (cross y member b (List.mem_cons_self ..)).trans goesBehind]
            rw [List.filter_append, rtake_append_of_length_le]
            rw [filter_stableInsert key x backSorted, backPass]
            split
            · rw [(stableInsert_perm key x (b :: rest)).length_eq, List.length_cons, full]
              omega
            · exact full.ge
          · have frontOf : ∀ y ∈ b :: rest, key x < key y := fun y member =>
              goesFront.trans_le (headLeast y member)
            rw [stableInsert_append_of_lt key x front (b :: rest) frontOf,
              stableInsert_of_lt key x frontOf, List.filter_append, backPass,
              rtake_append_of_length_le _ _ _ full.ge, List.filter_cons, backPass]
            split
            · exact rtake_append_of_length_le [x] (b :: rest) n full.ge
            · rfl
        · -- The bound lies above the kept head, hence above everything cut away.
          have frontGone : front.filter (fun y => bound ≤ key y) = [] := by
            rw [List.filter_eq_nil_iff]
            intro y member
            have le := cross y member b (List.mem_cons_self ..)
            simpa using le.trans_lt (not_le.mp reach)
          rw [filter_stableInsert key x backSorted, filter_stableInsert key x sorted,
            List.filter_append, frontGone, List.nil_append]

end SortedSeq
