import Mathlib.Data.List.Induction
import Mathlib.Data.List.Sort
import Mathlib.Order.Basic

/-!
# Ordered maps and sets

A map is its list of entries with strictly increasing keys, so equal maps have
equal lists and iterating a map visits the keys in order.
-/

set_option autoImplicit false

structure SortedMap (κ ν : Type) [LinearOrder κ] where
  toList : List (κ × ν)
  sorted : (toList.map Prod.fst).Pairwise (· < ·)

namespace SortedMap

variable {κ ν : Type} [LinearOrder κ]

instance [DecidableEq ν] : DecidableEq (SortedMap κ ν) := fun left right =>
  decidable_of_iff (left.toList = right.toList)
    ⟨fun same => by cases left; cases right; cases same; rfl, congrArg toList⟩

def empty : SortedMap κ ν := ⟨[], List.Pairwise.nil⟩

instance : Inhabited (SortedMap κ ν) := ⟨empty⟩

def isEmpty (m : SortedMap κ ν) : Bool := m.toList.isEmpty

def keys (m : SortedMap κ ν) : List κ := m.toList.map Prod.fst

def mapValues {μ : Type} (f : ν → μ) (m : SortedMap κ ν) : SortedMap κ μ :=
  ⟨m.toList.map fun entry => (entry.1, f entry.2), by
    rw [List.map_map]
    exact m.sorted⟩

def lookupEntry (k : κ) : List (κ × ν) → Option ν
  | [] => none
  | (k', v') :: rest => if k = k' then some v' else lookupEntry k rest

def get? (m : SortedMap κ ν) (k : κ) : Option ν := lookupEntry k m.toList

def contains (m : SortedMap κ ν) (k : κ) : Bool := (m.get? k).isSome

/-- Replaces the entry of `k`, or adds one at its place. -/
def insertEntry (k : κ) (v : ν) : List (κ × ν) → List (κ × ν)
  | [] => [(k, v)]
  | (k', v') :: rest =>
      if k < k' then (k, v) :: (k', v') :: rest
      else if k = k' then (k, v) :: rest
      else (k', v') :: insertEntry k v rest

theorem mem_keys_insertEntry (k : κ) (v : ν) (entries : List (κ × ν)) (x : κ) :
    x ∈ (insertEntry k v entries).map Prod.fst ↔ x = k ∨ x ∈ entries.map Prod.fst := by
  induction entries with
  | nil => simp [insertEntry]
  | cons entry rest ih =>
      obtain ⟨k', v'⟩ := entry
      rw [insertEntry]
      split_ifs with below same
      · simp
      · subst same
        simp
      · simp only [List.map_cons, List.mem_cons, ih]
        exact or_left_comm

theorem insertEntry_sorted (k : κ) (v : ν) (entries : List (κ × ν))
    (sorted : (entries.map Prod.fst).Pairwise (· < ·)) :
    ((insertEntry k v entries).map Prod.fst).Pairwise (· < ·) := by
  induction entries with
  | nil => simp [insertEntry]
  | cons entry rest ih =>
      obtain ⟨k', v'⟩ := entry
      obtain ⟨head, tail⟩ := List.pairwise_cons.mp sorted
      rw [insertEntry]
      split_ifs with below same
      · refine List.pairwise_cons.mpr ⟨?_, sorted⟩
        intro x member
        rcases List.mem_cons.mp member with rfl | later
        · exact below
        · exact below.trans (head x later)
      · subst same
        exact List.pairwise_cons.mpr ⟨head, tail⟩
      · refine List.pairwise_cons.mpr ⟨?_, ih tail⟩
        intro x member
        rcases (mem_keys_insertEntry k v rest x).mp member with rfl | later
        · exact lt_of_le_of_ne (not_lt.mp below) (Ne.symm same)
        · exact head x later

def insert (m : SortedMap κ ν) (k : κ) (v : ν) : SortedMap κ ν :=
  ⟨insertEntry k v m.toList, insertEntry_sorted k v m.toList m.sorted⟩

def erase (m : SortedMap κ ν) (k : κ) : SortedMap κ ν :=
  ⟨m.toList.filter fun entry => entry.1 ≠ k,
    m.sorted.sublist (List.Sublist.map _ List.filter_sublist)⟩

def ofList (entries : List (κ × ν)) : SortedMap κ ν :=
  entries.foldl (fun m entry => m.insert entry.1 entry.2) empty

theorem keys_nodup (m : SortedMap κ ν) : m.keys.Nodup := m.sorted.imp ne_of_lt

theorem eq_empty_of_isEmpty {m : SortedMap κ ν} (none : m.isEmpty = true) : m = empty := by
  cases m
  cases List.isEmpty_iff.mp none
  rfl

@[simp] theorem keys_empty : (empty : SortedMap κ ν).keys = [] := rfl

@[simp] theorem mem_keys_insert (m : SortedMap κ ν) (k : κ) (v : ν) (x : κ) :
    x ∈ (m.insert k v).keys ↔ x = k ∨ x ∈ m.keys :=
  mem_keys_insertEntry k v m.toList x

theorem lookupEntry_insertEntry (k : κ) (v : ν) (entries : List (κ × ν)) (x : κ) :
    lookupEntry x (insertEntry k v entries) =
      if x = k then some v else lookupEntry x entries := by
  induction entries with
  | nil => rfl
  | cons entry rest ih =>
      obtain ⟨k', v'⟩ := entry
      rw [insertEntry]
      by_cases below : k < k'
      · rw [if_pos below]
        rfl
      · rw [if_neg below]
        by_cases same : k = k'
        · subst same
          rw [if_pos rfl]
          by_cases here : x = k <;> simp [lookupEntry, here]
        · rw [if_neg same]
          by_cases here : x = k
          · subst here
            simp only [lookupEntry, if_neg same, ih]
          · simp only [lookupEntry, ih, if_neg here]

@[simp] theorem get?_insert (m : SortedMap κ ν) (k : κ) (v : ν) (x : κ) :
    (m.insert k v).get? x = if x = k then some v else m.get? x :=
  lookupEntry_insertEntry k v m.toList x

theorem lookupEntry_filter_ne (k : κ) (entries : List (κ × ν)) (x : κ) :
    lookupEntry x (entries.filter fun entry => entry.1 ≠ k) =
      if x = k then none else lookupEntry x entries := by
  induction entries with
  | nil => simp [lookupEntry]
  | cons entry rest ih =>
      obtain ⟨k', v'⟩ := entry
      by_cases gone : k' = k
      · rw [List.filter_cons_of_neg (by simpa using gone), ih, lookupEntry]
        by_cases here : x = k
        · rw [if_pos here, if_pos here]
        · rw [if_neg here, if_neg here, if_neg (gone ▸ here)]
      · rw [List.filter_cons_of_pos (by simpa using gone), lookupEntry, ih, lookupEntry]
        by_cases here : x = k
        · rw [if_pos here, if_pos here, if_neg (here ▸ Ne.symm gone)]
        · rw [if_neg here, if_neg here]

@[simp] theorem get?_erase (m : SortedMap κ ν) (k x : κ) :
    (m.erase k).get? x = if x = k then none else m.get? x :=
  lookupEntry_filter_ne k m.toList x

theorem contains_iff_mem_keys (m : SortedMap κ ν) (k : κ) :
    m.contains k = true ↔ k ∈ m.keys := by
  unfold contains get? keys
  induction m.toList with
  | nil => simp [lookupEntry]
  | cons entry rest ih =>
      obtain ⟨k', v'⟩ := entry
      rw [List.map_cons, List.mem_cons, lookupEntry]
      by_cases here : k = k'
      · simp [here]
      · rw [if_neg here, ih]
        simp [here]

@[simp] theorem contains_insert (m : SortedMap κ ν) (k : κ) (v : ν) (x : κ) :
    (m.insert k v).contains x = true ↔ x = k ∨ m.contains x = true := by
  simp only [contains_iff_mem_keys, mem_keys_insert]

theorem mem_keys_foldl_insert (entries : List (κ × ν)) (m : SortedMap κ ν) (x : κ) :
    x ∈ (entries.foldl (fun m entry => m.insert entry.1 entry.2) m).keys ↔
      x ∈ m.keys ∨ x ∈ entries.map Prod.fst := by
  induction entries generalizing m with
  | nil => simp
  | cons entry rest ih =>
      rw [List.foldl_cons, ih, mem_keys_insert, List.map_cons, List.mem_cons]
      tauto

@[simp] theorem mem_keys_ofList (entries : List (κ × ν)) (x : κ) :
    x ∈ (ofList entries).keys ↔ x ∈ entries.map Prod.fst := by
  simp [ofList, mem_keys_foldl_insert]

theorem insertEntry_above {k : κ} (v : ν) {entries : List (κ × ν)}
    (above : ∀ x ∈ entries.map Prod.fst, x < k) :
    insertEntry k v entries = entries ++ [(k, v)] := by
  induction entries with
  | nil => rfl
  | cons entry rest ih =>
      obtain ⟨first, others⟩ := List.forall_mem_cons.mp above
      rw [insertEntry, if_neg (not_lt.mpr first.le), if_neg (ne_of_gt first), ih others,
        List.cons_append]

theorem ofList_toList (m : SortedMap κ ν) : ofList m.toList = m := by
  have entries : ∀ front : List (κ × ν), (front.map Prod.fst).Pairwise (· < ·) →
      (ofList front).toList = front := by
    intro front
    induction front using List.reverseRecOn with
    | nil => exact fun _ => rfl
    | append_singleton front last ih =>
        intro sorted
        rw [List.map_append, List.pairwise_append] at sorted
        obtain ⟨frontSorted, _, below⟩ := sorted
        have above : ∀ x ∈ front.map Prod.fst, x < last.1 := fun x member =>
          below x member last.1 (List.mem_singleton_self last.1)
        have unfolded : (ofList (front ++ [last])).toList =
            insertEntry last.1 last.2 (ofList front).toList := by
          rw [ofList, List.foldl_append]
          rfl
        rw [unfolded, ih frontSorted, insertEntry_above last.2 above]
  have same := entries m.toList m.sorted
  cases made : ofList m.toList
  rw [made] at same
  cases m
  cases same
  rfl

theorem mem_toList_iff (m : SortedMap κ ν) (k : κ) (v : ν) :
    (k, v) ∈ m.toList ↔ m.get? k = some v := by
  obtain ⟨entries, sorted⟩ := m
  unfold get?
  induction entries with
  | nil => simp [lookupEntry]
  | cons entry rest ih =>
      obtain ⟨k', v'⟩ := entry
      obtain ⟨above, restSorted⟩ := List.pairwise_cons.mp sorted
      rw [List.mem_cons, ih restSorted, lookupEntry]
      by_cases here : k = k'
      · subst here
        have absent : lookupEntry k rest ≠ some v := by
          intro found
          have later : (k, v) ∈ rest := (ih restSorted).mpr found
          exact lt_irrefl k (above k (List.mem_map_of_mem later))
        simp [absent, eq_comm]
      · simp [here]

theorem ext_get? {m n : SortedMap κ ν} (same : ∀ k, m.get? k = n.get? k) : m = n := by
  have distinct (m : SortedMap κ ν) : m.toList.Nodup := m.keys_nodup.of_map Prod.fst
  have perm : m.toList.Perm n.toList := by
    refine (List.perm_ext_iff_of_nodup (distinct m) (distinct n)).mpr fun entry => ?_
    rw [mem_toList_iff, mem_toList_iff, same]
  have lists : m.toList = n.toList :=
    perm.eq_of_pairwise (fun _ _ _ _ below above => absurd below above.asymm)
      (List.pairwise_map.mp m.sorted) (List.pairwise_map.mp n.sorted)
  cases m
  cases n
  cases lists
  rfl

/-! ## Entries written one after the other -/

/-- The value in the last entry of `k`. -/
def lastValue (k : κ) : List (κ × ν) → Option ν
  | [] => none
  | (k', v) :: rest => (lastValue k rest).or (if k = k' then some v else none)

theorem lastValue_append (k : κ) (front back : List (κ × ν)) :
    lastValue k (front ++ back) = (lastValue k back).or (lastValue k front) := by
  induction front with
  | nil => simp [lastValue]
  | cons entry rest ih => rw [List.cons_append, lastValue, lastValue, ih, Option.or_assoc]

theorem lastValue_eq_none_iff {k : κ} {entries : List (κ × ν)} :
    lastValue k entries = none ↔ ∀ v, (k, v) ∉ entries := by
  induction entries with
  | nil => simp [lastValue]
  | cons entry rest ih =>
      obtain ⟨k', v'⟩ := entry
      rw [lastValue, Option.or_eq_none_iff, ih]
      simp only [List.mem_cons, not_or, forall_and, Prod.mk.injEq, not_and]
      rw [and_comm]
      refine and_congr_left fun _ => ?_
      by_cases here : k = k' <;> simp [here]

theorem lastValue_eq_some_iff {k : κ} {v : ν} {entries : List (κ × ν)} :
    lastValue k entries = some v ↔
      ∃ front back, entries = front ++ (k, v) :: back ∧ ∀ v', (k, v') ∉ back := by
  constructor
  · intro found
    induction entries with
    | nil => cases found
    | cons entry rest ih =>
        rw [lastValue] at found
        cases later : lastValue k rest with
        | some v' =>
            rw [later, Option.some_or] at found
            obtain ⟨front, back, parts, last⟩ := ih (later.trans found)
            exact ⟨entry :: front, back, by rw [parts, List.cons_append], last⟩
        | none =>
            rw [later, Option.none_or] at found
            split_ifs at found with here
            cases found
            refine ⟨[], rest, ?_, lastValue_eq_none_iff.mp later⟩
            rw [here, List.nil_append]
  · rintro ⟨front, back, rfl, last⟩
    rw [lastValue_append, lastValue, lastValue_eq_none_iff.mpr last]
    simp

theorem lastValue_filter (k : κ) (entries : List (κ × ν)) (p : κ → Bool) :
    lastValue k (entries.filter fun entry => p entry.1) =
      if p k then lastValue k entries else none := by
  induction entries with
  | nil => simp [lastValue]
  | cons entry rest ih =>
      obtain ⟨k', v⟩ := entry
      rw [lastValue]
      by_cases kept : p k' = true
      · rw [List.filter_cons, if_pos kept, lastValue, ih]
        by_cases here : k = k'
        · rw [here, if_pos kept, if_pos kept]
        · simp [here]
      · rw [List.filter_cons, if_neg kept, ih]
        by_cases here : k = k'
        · rw [here, if_neg kept, if_neg kept]
        · simp [here]

theorem get?_foldl_insert (entries : List (κ × ν)) (m : SortedMap κ ν) (k : κ) :
    (entries.foldl (fun m entry => m.insert entry.1 entry.2) m).get? k =
      (lastValue k entries).or (m.get? k) := by
  induction entries generalizing m with
  | nil => rfl
  | cons entry rest ih =>
      rw [List.foldl_cons, ih, get?_insert, lastValue, Option.or_assoc]
      split_ifs <;> rfl

theorem get?_ofList (entries : List (κ × ν)) (k : κ) :
    (ofList entries).get? k = lastValue k entries := by
  rw [ofList, get?_foldl_insert]
  exact Option.or_none

theorem mem_of_mem_ofList {entries : List (κ × ν)} {e : κ × ν}
    (member : e ∈ (ofList entries).toList) : e ∈ entries := by
  obtain ⟨k, v⟩ := e
  rw [mem_toList_iff, get?_ofList, lastValue_eq_some_iff] at member
  obtain ⟨front, back, split, _⟩ := member
  rw [split]
  exact List.mem_append_right _ (List.mem_cons_self ..)

/-- Passes over the same entries, each writing what it admits, write what some pass
admits: a later pass repeats the last write of an earlier one. -/
theorem ofList_passes {ι : Type} (passes : List ι) (admits : ι → κ → Bool)
    (entries : List (κ × ν)) :
    ofList (passes.flatMap fun i => entries.filter fun entry => admits i entry.1) =
      ofList (entries.filter fun entry => passes.any fun i => admits i entry.1) := by
  refine ext_get? fun k => ?_
  rw [get?_ofList, get?_ofList, lastValue_filter k entries fun k => passes.any fun i => admits i k]
  induction passes with
  | nil => rfl
  | cons i rest ih =>
      rw [List.flatMap_cons, lastValue_append, ih, lastValue_filter k entries (admits i),
        List.any_cons]
      cases admits i k <;> cases rest.any fun i => admits i k <;> simp

end SortedMap

/-- A set is a map that stores nothing at its keys. -/
abbrev SortedSet (κ : Type) [LinearOrder κ] := SortedMap κ Unit

namespace SortedSet

variable {κ : Type} [LinearOrder κ]

/-- Adds every element of `ks`. -/
def extend (s : SortedSet κ) (ks : List κ) : SortedSet κ :=
  ks.foldl (fun s k => SortedMap.insert s k ()) s

def ofKeys (ks : List κ) : SortedSet κ := SortedMap.ofList (ks.map fun k => (k, ()))

@[simp] theorem mem_keys_ofKeys (ks : List κ) (x : κ) : x ∈ (ofKeys ks).keys ↔ x ∈ ks := by
  simp [ofKeys]

@[simp] theorem mem_keys_extend (s : SortedSet κ) (ks : List κ) (x : κ) :
    x ∈ (extend s ks).keys ↔ x ∈ s.keys ∨ x ∈ ks := by
  induction ks generalizing s with
  | nil => simp [extend]
  | cons k rest ih =>
      have unfolded : extend s (k :: rest) = extend (SortedMap.insert s k ()) rest := rfl
      rw [unfolded, ih, SortedMap.mem_keys_insert, List.mem_cons]
      tauto

theorem ext_keys {s t : SortedSet κ} (same : ∀ x, x ∈ s.keys ↔ x ∈ t.keys) : s = t := by
  refine SortedMap.ext_get? fun k => ?_
  have present : (s.get? k).isSome = true ↔ (t.get? k).isSome = true :=
    ((s.contains_iff_mem_keys k).trans (same k)).trans (t.contains_iff_mem_keys k).symm
  cases inS : s.get? k <;> cases inT : t.get? k <;> simp [inS, inT] at present <;> rfl

theorem length_extend_eq_iff (s : SortedSet κ) (ks : List κ) :
    (extend s ks).keys.length = s.keys.length ↔ ∀ k ∈ ks, k ∈ s.keys := by
  have grows : s.keys.Subperm (extend s ks).keys := by
    apply List.subperm_of_subset s.keys_nodup
    intro x member
    exact (mem_keys_extend s ks x).mpr (Or.inl member)
  constructor
  · intro same k member
    have perm := grows.perm_of_length_le same.le
    exact perm.mem_iff.mpr ((mem_keys_extend s ks k).mpr (Or.inr member))
  · intro present
    have shrinks : (extend s ks).keys.Subperm s.keys := by
      apply List.subperm_of_subset (SortedMap.keys_nodup _)
      intro x member
      rcases (mem_keys_extend s ks x).mp member with old | added
      · exact old
      · exact present x added
    exact le_antisymm shrinks.length_le grows.length_le

end SortedSet
