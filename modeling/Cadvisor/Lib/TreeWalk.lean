import Mathlib.Data.List.Nodup
import Mathlib.Data.List.Perm.Subperm

/-!
# Walking a tree with a stack

One node is taken off the stack, its children are listed, and all of them go to
the stack and to the output.  On a finite tree that stays as it is, the walk
ends with every node in the output once.
-/

set_option autoImplicit false

/-- The stack, top first, and what has been found so far. -/
structure TreeWalk (α : Type) where
  stack : List α
  out : List α
  deriving DecidableEq

namespace TreeWalk

variable {α : Type}

def start (root : α) : TreeWalk α := ⟨[root], [root]⟩

/-- One round; a node whose listing fails is passed over. -/
def step (list : α → Option (List α)) (w : TreeWalk α) : TreeWalk α :=
  match w.stack with
  | [] => w
  | node :: rest =>
      match list node with
      | none => { w with stack := rest }
      | some children => ⟨children.reverse ++ rest, w.out ++ children⟩

/-- Rounds until the stack is empty; `none` when the fuel does not last. -/
def run (list : α → Option (List α)) (fuel : Nat) (w : TreeWalk α) : Option (List α) :=
  if w.stack.isEmpty then some w.out
  else
    match fuel with
    | 0 => none
    | fuel + 1 => run list fuel (step list w)

/-- The listings of `nodes` make a finite tree. -/
structure IsTree (list : α → Option (List α)) (root : α) (nodes : List α) : Prop where
  rootIn : root ∈ nodes
  listed : ∀ node ∈ nodes, ∃ children, list node = some children ∧ children.Nodup ∧
    ∀ child ∈ children, child ∈ nodes ∧ child ≠ root
  oneParent : ∀ a ∈ nodes, ∀ b ∈ nodes, ∀ as bs, list a = some as → list b = some bs →
    ∀ child ∈ as, child ∈ bs → a = b
  reached : ∀ P : α → Prop, P root →
    (∀ node ∈ nodes, P node → ∀ children, list node = some children →
      ∀ child ∈ children, P child) →
    ∀ node ∈ nodes, P node

/-- The invariant of a walk: what is found has its parent visited, and what is
visited (found and off the stack) has its children found. -/
structure Covers (list : α → Option (List α)) (root : α) (nodes : List α) (w : TreeWalk α) :
    Prop where
  outNodup : w.out.Nodup
  stackNodup : w.stack.Nodup
  rootFound : root ∈ w.out
  stackFound : ∀ node ∈ w.stack, node ∈ w.out
  outInTree : ∀ node ∈ w.out, node ∈ nodes
  closed : ∀ node ∈ w.out, node ∉ w.stack → ∀ children, list node = some children →
    ∀ child ∈ children, child ∈ w.out
  parentVisited : ∀ node ∈ nodes, ∀ children, list node = some children →
    ∀ child ∈ children, child ∈ w.out → node ∈ w.out ∧ node ∉ w.stack

variable {list : α → Option (List α)} {root : α} {nodes : List α}

theorem covers_start (tree : IsTree list root nodes) : Covers list root nodes (start root) where
  outNodup := List.nodup_singleton root
  stackNodup := List.nodup_singleton root
  rootFound := List.mem_singleton.mpr rfl
  stackFound := fun _ member => member
  outInTree := fun node member => by
    rw [List.mem_singleton.mp member]
    exact tree.rootIn
  closed := fun _ member off => absurd member off
  parentVisited := by
    intro node inTree children listing child member isRoot
    obtain ⟨found, same, _, inner⟩ := tree.listed node inTree
    rw [listing, Option.some.injEq] at same
    subst same
    exact absurd (List.mem_singleton.mp isRoot) (inner child member).2

theorem Covers.step (tree : IsTree list root nodes) {w : TreeWalk α}
    (inv : Covers list root nodes w) : Covers list root nodes (w.step list) := by
  obtain ⟨stack, out⟩ := w
  cases stack with
  | nil => exact inv
  | cons node rest =>
      have nodeFound : node ∈ out := inv.stackFound node (List.mem_cons_self ..)
      have inTree := inv.outInTree node nodeFound
      obtain ⟨children, listing, childrenNodup, inner⟩ := tree.listed node inTree
      have stepIs : TreeWalk.step list ⟨node :: rest, out⟩ =
          ⟨children.reverse ++ rest, out ++ children⟩ := by
        simp only [TreeWalk.step, listing]
      have fresh : ∀ child ∈ children, child ∉ out := by
        intro child member found
        exact (inv.parentVisited node inTree children listing child member found).2
          (List.mem_cons_self ..)
      obtain ⟨nodeOff, restNodup⟩ := List.nodup_cons.mp inv.stackNodup
      rw [stepIs]
      refine ⟨?_, ?_, ?_, ?_, ?_, ?_, ?_⟩
      · refine List.nodup_append.mpr ⟨inv.outNodup, childrenNodup, ?_⟩
        intro a inOut b inChildren same
        exact fresh b inChildren (same ▸ inOut)
      · refine List.nodup_append.mpr ⟨List.nodup_reverse.mpr childrenNodup, restNodup, ?_⟩
        intro a inChildren b inRest same
        exact fresh a (List.mem_reverse.mp inChildren)
          (same ▸ inv.stackFound b (List.mem_cons_of_mem _ inRest))
      · exact List.mem_append_left _ inv.rootFound
      · intro a member
        rcases List.mem_append.mp member with inChildren | inRest
        · exact List.mem_append_right _ (List.mem_reverse.mp inChildren)
        · exact List.mem_append_left _ (inv.stackFound a (List.mem_cons_of_mem _ inRest))
      · intro a member
        rcases List.mem_append.mp member with inOut | inChildren
        · exact inv.outInTree a inOut
        · exact (inner a inChildren).1
      · intro a member off others otherListing child inOthers
        have offChildren : a ∉ children := fun inChildren =>
          off (List.mem_append_left _ (List.mem_reverse.mpr inChildren))
        have offRest : a ∉ rest := fun inRest => off (List.mem_append_right _ inRest)
        rcases List.mem_append.mp member with inOut | inChildren
        · by_cases isNode : a = node
          · subst isNode
            rw [listing, Option.some.injEq] at otherListing
            subst otherListing
            exact List.mem_append_right _ inOthers
          · have wasOff : a ∉ node :: rest := by simp [isNode, offRest]
            exact List.mem_append_left _
              (inv.closed a inOut wasOff others otherListing child inOthers)
        · exact absurd inChildren offChildren
      · intro a aInTree others otherListing child inOthers found
        rcases List.mem_append.mp found with inOut | inChildren
        · obtain ⟨aFound, aOff⟩ :=
            inv.parentVisited a aInTree others otherListing child inOthers inOut
          refine ⟨List.mem_append_left _ aFound, fun member => ?_⟩
          rcases List.mem_append.mp member with isChild | inRest
          · exact fresh a (List.mem_reverse.mp isChild) aFound
          · exact aOff (List.mem_cons_of_mem _ inRest)
        · have same := tree.oneParent a aInTree node inTree others children otherListing listing
            child inOthers inChildren
          subst same
          refine ⟨List.mem_append_left _ nodeFound, fun member => ?_⟩
          rcases List.mem_append.mp member with isChild | inRest
          · exact fresh a (List.mem_reverse.mp isChild) nodeFound
          · exact nodeOff inRest

theorem Covers.complete (tree : IsTree list root nodes) {out : List α}
    (inv : Covers list root nodes ⟨[], out⟩) (node : α) : node ∈ out ↔ node ∈ nodes := by
  constructor
  · exact inv.outInTree node
  · apply tree.reached (· ∈ out) inv.rootFound
    intro a _ found children listing child member
    exact inv.closed a found List.not_mem_nil children listing child member

theorem Covers.visited_step (tree : IsTree list root nodes) {w : TreeWalk α}
    (inv : Covers list root nodes w) (more : w.stack ≠ []) :
    (w.step list).out.length + w.stack.length = w.out.length + (w.step list).stack.length + 1 := by
  obtain ⟨stack, out⟩ := w
  cases stack with
  | nil => exact absurd rfl more
  | cons node rest =>
      have inTree := inv.outInTree node (inv.stackFound node (List.mem_cons_self ..))
      obtain ⟨children, listing, _, _⟩ := tree.listed node inTree
      simp only [TreeWalk.step, listing, List.length_append, List.length_reverse, List.length_cons]
      omega

theorem Covers.run_eq (tree : IsTree list root nodes) (fuel : Nat) {w : TreeWalk α}
    (inv : Covers list root nodes w)
    (enough : nodes.length + w.stack.length ≤ w.out.length + fuel) :
    ∃ out, run list fuel w = some out ∧ out.Nodup ∧ ∀ node, node ∈ out ↔ node ∈ nodes := by
  induction fuel generalizing w with
  | zero =>
      obtain ⟨stack, out⟩ := w
      have bound := (List.subperm_of_subset inv.outNodup inv.outInTree).length_le
      have empty : stack = [] := by
        rw [← List.length_eq_zero_iff]
        simp only at bound enough
        omega
      subst empty
      exact ⟨out, rfl, inv.outNodup, inv.complete tree⟩
  | succ fuel ih =>
      obtain ⟨stack, out⟩ := w
      cases stack with
      | nil => exact ⟨out, rfl, inv.outNodup, inv.complete tree⟩
      | cons node rest =>
          have visited := inv.visited_step tree (List.cons_ne_nil node rest)
          have unfolded : run list (fuel + 1) ⟨node :: rest, out⟩ =
              run list fuel (TreeWalk.step list ⟨node :: rest, out⟩) := rfl
          rw [unfolded]
          apply ih (inv.step tree)
          omega

theorem run_start (tree : IsTree list root nodes) (fuel : Nat) (enough : nodes.length ≤ fuel) :
    ∃ out, run list fuel (start root) = some out ∧ out.Nodup ∧
      ∀ node, node ∈ out ↔ node ∈ nodes := by
  apply (covers_start tree).run_eq tree fuel
  simp only [start, List.length_singleton]
  omega

end TreeWalk
