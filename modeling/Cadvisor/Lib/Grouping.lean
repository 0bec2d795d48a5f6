import Mathlib.Algebra.BigOperators.Group.Finset.Basic
import Mathlib.Algebra.GroupWithZero.Nat
import Mathlib.Data.Finset.Card
import Mathlib.Data.List.Forall2
import Mathlib.Data.List.Induction

/-!
# Elements grouped by a key

A list of groups, each with a key and members, groups a list of elements when there is
one group for each key that occurs and its members are the elements of that key.  Groups
are built by putting one element after the other into the group of its key.  Where the
lists of a list each have an element of their own, there are at most as many lists as
distinct elements, and at most `n` of them lie inside a set of `n` elements.
-/

set_option autoImplicit false

namespace Grouping

variable {α γ κ : Type} (keyOf : γ → κ)

section Put

variable [DecidableEq κ]

/-- Replaces the first group of the same key, or adds the group at the end. -/
def put (group : γ) : List γ → List γ
  | [] => [group]
  | g :: rest => if keyOf g = keyOf group then group :: rest else g :: put group rest

theorem mem_put_keys (group : γ) (groups : List γ) (k : κ) :
    k ∈ (put keyOf group groups).map keyOf ↔ k = keyOf group ∨ k ∈ groups.map keyOf := by
  induction groups with
  | nil => simp [put]
  | cons g rest ih =>
      rw [put]
      split
      · rename_i same
        simp only [List.map_cons, List.mem_cons, same, or_self_left]
      · rw [List.map_cons, List.mem_cons, ih, List.map_cons, List.mem_cons]
        exact or_left_comm

theorem put_keys_nodup {group : γ} {groups : List γ} (distinct : (groups.map keyOf).Nodup) :
    ((put keyOf group groups).map keyOf).Nodup := by
  induction groups with
  | nil => simp [put]
  | cons g rest ih =>
      rw [List.map_cons, List.nodup_cons] at distinct
      rw [put]
      split
      · rename_i same
        rw [List.map_cons, List.nodup_cons, ← same]
        exact distinct
      · rename_i differ
        rw [List.map_cons, List.nodup_cons, mem_put_keys]
        refine ⟨?_, ih distinct.2⟩
        rintro (same | member)
        · exact differ same
        · exact distinct.1 member

theorem mem_put {group : γ} {groups : List γ} (distinct : (groups.map keyOf).Nodup) (g : γ) :
    g ∈ put keyOf group groups ↔ g = group ∨ g ∈ groups ∧ keyOf g ≠ keyOf group := by
  induction groups with
  | nil => simp [put]
  | cons h rest ih =>
      rw [List.map_cons, List.nodup_cons] at distinct
      rw [put]
      split
      · rename_i same
        rw [List.mem_cons, List.mem_cons]
        constructor
        · rintro (new | old)
          · exact Or.inl new
          · refine Or.inr ⟨Or.inr old, ?_⟩
            intro again
            exact distinct.1 (List.mem_map.mpr ⟨g, old, again.trans same.symm⟩)
        · rintro (new | ⟨replaced | old, differ⟩)
          · exact Or.inl new
          · exact absurd (replaced ▸ same) differ
          · exact Or.inr old
      · rename_i differ
        rw [List.mem_cons, ih distinct.2, List.mem_cons]
        constructor
        · rintro (first | new | ⟨old, other⟩)
          · exact Or.inr ⟨Or.inl first, first ▸ differ⟩
          · exact Or.inl new
          · exact Or.inr ⟨Or.inr old, other⟩
        · rintro (new | ⟨first | old, other⟩)
          · exact Or.inr (Or.inl new)
          · exact Or.inl first
          · exact Or.inr (Or.inr ⟨old, other⟩)

end Put

variable (members : γ → List α) (key : α → κ)

structure Grouped (groups : List γ) (xs : List α) : Prop where
  distinct : (groups.map keyOf).Nodup
  keys : ∀ k, k ∈ groups.map keyOf ↔ k ∈ xs.map key
  holds : ∀ g ∈ groups, ∀ x, x ∈ members g ↔ x ∈ xs ∧ key x = keyOf g

variable {keyOf members key} {groups : List γ} {xs : List α}

theorem Grouped.nil : Grouped keyOf members key [] [] :=
  ⟨List.nodup_nil, fun _ => Iff.rfl, fun _ absent => absurd absent List.not_mem_nil⟩

theorem Grouped.put [DecidableEq κ] (grouped : Grouped keyOf members key groups xs) {x : α}
    {group : γ} (ofKey : keyOf group = key x)
    (grown : ∀ y, y ∈ members group ↔ y = x ∨ y ∈ xs ∧ key y = key x) :
    Grouped keyOf members key (Grouping.put keyOf group groups) (xs ++ [x]) := by
  refine ⟨put_keys_nodup keyOf grouped.distinct, ?_, ?_⟩
  · intro k
    rw [mem_put_keys, grouped.keys, ofKey, List.map_append, List.mem_append, List.map_singleton,
      List.mem_singleton]
    exact Or.comm
  · intro g member y
    rw [List.mem_append, List.mem_singleton]
    rcases (mem_put keyOf grouped.distinct g).mp member with rfl | ⟨old, other⟩
    · rw [grown, ofKey]
      constructor
      · rintro (new | ⟨old, same⟩)
        · exact ⟨Or.inr new, new ▸ rfl⟩
        · exact ⟨Or.inl old, same⟩
      · rintro ⟨old | new, same⟩
        · exact Or.inr ⟨old, same⟩
        · exact Or.inl new
    · rw [grouped.holds g old]
      constructor
      · rintro ⟨held, same⟩
        exact ⟨Or.inl held, same⟩
      · rintro ⟨held | new, same⟩
        · exact ⟨held, same⟩
        · rw [new, ← ofKey] at same
          exact absurd same.symm other

theorem Grouped.exists_group (grouped : Grouped keyOf members key groups xs) {x : α}
    (member : x ∈ xs) : ∃ g ∈ groups, keyOf g = key x :=
  List.mem_map.mp ((grouped.keys (key x)).mpr (List.mem_map.mpr ⟨x, member, rfl⟩))

theorem keyOf_find [DecidableEq κ] (keyOf : γ → κ) (groups : List γ) {k : κ} {fresh : γ}
    (ofKey : keyOf fresh = k) : keyOf ((groups.find? fun g => keyOf g = k).getD fresh) = k := by
  cases found : groups.find? fun g => keyOf g = k with
  | none => exact ofKey
  | some g => simpa using List.find?_some found

theorem Grouped.mem_find [DecidableEq κ] (grouped : Grouped keyOf members key groups xs) (k : κ)
    {fresh : γ} (empty : members fresh = []) (x : α) :
    x ∈ members ((groups.find? fun g => keyOf g = k).getD fresh) ↔ x ∈ xs ∧ key x = k := by
  cases found : groups.find? fun g => keyOf g = k with
  | none =>
      rw [Option.getD_none, empty]
      constructor
      · intro absent
        exact absurd absent List.not_mem_nil
      · rintro ⟨member, ofKey⟩
        obtain ⟨g, inGroups, same⟩ := grouped.exists_group member
        have other := List.find?_eq_none.mp found g inGroups
        rw [same, ofKey] at other
        exact absurd (decide_eq_true rfl) other
  | some g =>
      have ofKey : keyOf g = k := by simpa using List.find?_some found
      rw [Option.getD_some, grouped.holds g (List.mem_of_find?_eq_some found), ofKey]

theorem Grouped.of_perm_map (grouped : Grouped keyOf members key groups xs) {groups' : List γ}
    (perm : groups'.Perm groups) {f : γ → γ} (sameKey : ∀ g, keyOf (f g) = keyOf g)
    (sameMembers : ∀ g, members (f g) = members g) :
    Grouped keyOf members key (groups'.map f) xs := by
  have keys : (groups'.map f).map keyOf = groups'.map keyOf := by
    rw [List.map_map]
    exact List.map_congr_left fun g _ => sameKey g
  refine ⟨?_, ?_, ?_⟩
  · rw [keys]
    exact (perm.map keyOf).nodup_iff.mpr grouped.distinct
  · intro k
    rw [keys, (perm.map keyOf).mem_iff, grouped.keys]
  · intro g member x
    obtain ⟨h, inGroups, rfl⟩ := List.mem_map.mp member
    rw [sameKey, sameMembers]
    exact grouped.holds h (perm.mem_iff.mp inGroups) x

/-- Two elements share a group exactly when they have one key. -/
theorem Grouped.together_iff (grouped : Grouped keyOf members key groups xs) (x y : α) :
    (∃ g ∈ groups, x ∈ members g ∧ y ∈ members g) ↔ x ∈ xs ∧ y ∈ xs ∧ key x = key y := by
  constructor
  · rintro ⟨g, member, first, second⟩
    obtain ⟨xIn, xKey⟩ := (grouped.holds g member x).mp first
    obtain ⟨yIn, yKey⟩ := (grouped.holds g member y).mp second
    exact ⟨xIn, yIn, xKey.trans yKey.symm⟩
  · rintro ⟨xIn, yIn, same⟩
    obtain ⟨g, member, ofKey⟩ := grouped.exists_group xIn
    exact ⟨g, member, (grouped.holds g member x).mpr ⟨xIn, ofKey.symm⟩,
      (grouped.holds g member y).mpr ⟨yIn, same.symm.trans ofKey.symm⟩⟩

theorem Grouped.length_eq [DecidableEq κ] (grouped : Grouped keyOf members key groups xs) :
    groups.length = (xs.map key).toFinset.card := by
  have sameKeys : (groups.map keyOf).toFinset = (xs.map key).toFinset := by
    ext k
    rw [List.mem_toFinset, List.mem_toFinset, grouped.keys]
  rw [← sameKeys, List.toFinset_card_of_nodup grouped.distinct, List.length_map]

/-! ## Counting keys -/

theorem card_keys_congr {α κ κ' : Type} [DecidableEq κ] [DecidableEq κ'] {f : α → κ} {g : α → κ'}
    {xs : List α} (same : ∀ a ∈ xs, ∀ b ∈ xs, f a = f b ↔ g a = g b) :
    (xs.map f).toFinset.card = (xs.map g).toFinset.card := by
  induction xs with
  | nil => rfl
  | cons a rest ih =>
      have fewer := ih fun b bIn c cIn =>
        same b (List.mem_cons_of_mem _ bIn) c (List.mem_cons_of_mem _ cIn)
      have seen : f a ∈ (rest.map f).toFinset ↔ g a ∈ (rest.map g).toFinset := by
        rw [List.mem_toFinset, List.mem_toFinset, List.mem_map, List.mem_map]
        constructor
        · rintro ⟨b, member, equal⟩
          exact ⟨b, member,
            (same b (List.mem_cons_of_mem _ member) a (List.mem_cons_self ..)).mp equal⟩
        · rintro ⟨b, member, equal⟩
          exact ⟨b, member,
            (same b (List.mem_cons_of_mem _ member) a (List.mem_cons_self ..)).mpr equal⟩
      rw [List.map_cons, List.map_cons, List.toFinset_cons, List.toFinset_cons,
        Finset.card_insert_eq_ite, Finset.card_insert_eq_ite, fewer]
      simp only [seen]

/-- Keys that occur in one part each are counted part by part. -/
theorem card_keys_parts {α κ ι : Type} [DecidableEq κ] [DecidableEq ι] {key : α → κ} {part : α → ι}
    {xs : List α} (onePart : ∀ a ∈ xs, ∀ b ∈ xs, key a = key b → part a = part b) {parts : List ι}
    (distinct : parts.Nodup) (covered : ∀ a ∈ xs, part a ∈ parts) :
    (parts.map fun p => ((xs.filter fun a => part a = p).map key).toFinset.card).sum =
      (xs.map key).toFinset.card := by
  have union : (xs.map key).toFinset = parts.toFinset.biUnion fun p =>
      ((xs.filter fun a => part a = p).map key).toFinset := by
    ext k
    simp only [List.mem_toFinset, Finset.mem_biUnion, List.mem_map, List.mem_filter,
      decide_eq_true_eq]
    constructor
    · rintro ⟨a, member, rfl⟩
      exact ⟨part a, covered a member, a, ⟨member, rfl⟩, rfl⟩
    · rintro ⟨p, _, a, ⟨member, _⟩, ofKey⟩
      exact ⟨a, member, ofKey⟩
  rw [union, Finset.card_biUnion, List.sum_toFinset _ distinct]
  intro p _ q _ differ
  apply Finset.disjoint_left.mpr
  intro k inP inQ
  simp only [List.mem_toFinset, List.mem_map, List.mem_filter, decide_eq_true_eq] at inP inQ
  obtain ⟨a, ⟨aIn, aPart⟩, aKey⟩ := inP
  obtain ⟨b, ⟨bIn, bPart⟩, bKey⟩ := inQ
  have equal := onePart a aIn b bIn (aKey.trans bKey.symm)
  exact differ (aPart.symm.trans (equal.trans bPart))

end Grouping

/-! ## Distinct representatives -/

namespace Representatives

variable {α : Type}

/-- `keys` are distinct, and each is in the list at its place. -/
def Represents (keys : List α) (lists : List (List α)) : Prop :=
  keys.Nodup ∧ List.Forall₂ (fun key list => key ∈ list) keys lists

theorem Represents.nil : Represents ([] : List α) [] := ⟨List.nodup_nil, .nil⟩

theorem Represents.concat {keys : List α} {lists : List (List α)} (rep : Represents keys lists)
    {key : α} {list : List α} (member : key ∈ list) (fresh : key ∉ keys) :
    Represents (keys ++ [key]) (lists ++ [list]) := by
  refine ⟨?_, List.rel_append rep.2 (.cons member .nil)⟩
  rw [List.nodup_append]
  refine ⟨rep.1, List.nodup_singleton key, fun a old b last => ?_⟩
  rw [List.mem_singleton.mp last]
  exact fun same => fresh (same ▸ old)

theorem Represents.exists_filter {keys : List α} {lists : List (List α)}
    (rep : Represents keys lists) (inside : List α → Bool) :
    ∃ kept, kept.Sublist keys ∧ Represents kept (lists.filter inside) := by
  obtain ⟨nodup, each⟩ := rep
  induction each with
  | nil => exact ⟨[], List.Sublist.refl _, .nil⟩
  | @cons key list keys lists member each ih =>
      obtain ⟨fresh, nodup⟩ := List.nodup_cons.mp nodup
      obtain ⟨kept, sub, keptNodup, keptEach⟩ := ih nodup
      cases test : inside list with
      | true =>
          rw [List.filter_cons_of_pos test]
          refine ⟨key :: kept, sub.cons_cons key, ?_, .cons member keptEach⟩
          exact List.nodup_cons.mpr ⟨fun old => fresh (sub.subset old), keptNodup⟩
      | false =>
          rw [List.filter_cons_of_neg (by simp [test])]
          exact ⟨kept, sub.cons key, keptNodup, keptEach⟩

variable [DecidableEq α]

theorem Represents.length_le_card {keys : List α} {lists : List (List α)}
    (rep : Represents keys lists) {set : Finset α}
    (inside : ∀ list ∈ lists, ∀ key ∈ list, key ∈ set) : lists.length ≤ set.card := by
  rw [← rep.2.length_eq, ← List.toFinset_card_of_nodup rep.1]
  apply Finset.card_le_card
  intro key member
  obtain ⟨n, bound, rfl⟩ := List.mem_iff_getElem.mp (List.mem_toFinset.mp member)
  have inList := rep.2.get bound (rep.2.length_eq ▸ bound)
  exact inside _ (List.getElem_mem _) _ inList

theorem Represents.filter_length_le_card {keys : List α} {lists : List (List α)}
    (rep : Represents keys lists) (set : Finset α) :
    (lists.filter fun list => ∀ key ∈ list, key ∈ set).length ≤ set.card := by
  obtain ⟨kept, _, keptRep⟩ := rep.exists_filter fun list => ∀ key ∈ list, key ∈ set
  refine keptRep.length_le_card fun list member => ?_
  simpa using (List.mem_filter.mp member).2

end Representatives
