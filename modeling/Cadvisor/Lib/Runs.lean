import Mathlib.Data.List.Basic

/-!
# Maximal runs

A run is a stretch of a list whose elements all have a property and whose
neighbours have it not.  A scanner that keeps the run it is in finds the first run
of a given length.
-/

set_option autoImplicit false

namespace Runs

variable {α : Type} {p : α → Bool} {n : Nat}

/-- `run`, of `n` elements, stands between `front` and `back` and cannot be extended. -/
structure IsRun (p : α → Bool) (n : Nat) (xs front run back : List α) : Prop where
  parts : xs = front ++ run ++ back
  wide : run.length = n
  inside : ∀ a ∈ run, p a = true
  before : ∀ a ∈ front.getLast?, p a = false
  behind : ∀ a ∈ back.head?, p a = false

/-- No run of the same length starts further left. -/
def IsLeftmostRun (p : α → Bool) (n : Nat) (xs run : List α) : Prop :=
  ∃ front back, IsRun p n xs front run back ∧
    ∀ front' run' back', IsRun p n xs front' run' back' → front.length ≤ front'.length

/-- Reads on from inside of `run`. -/
def firstRun (p : α → Bool) (n : Nat) (run : List α) : List α → Option (List α)
  | [] => if run.length = n then some run else none
  | a :: rest =>
      if p a then firstRun p n (run ++ [a]) rest
      else if run.length = n then some run
      else firstRun p n [] rest

theorem IsRun.first_or_behind {run rest front other back : List α}
    (all : ∀ a ∈ run, p a = true) (stops : ∀ a ∈ rest.head?, p a = false)
    (isRun : IsRun p n (run ++ rest) front other back) :
    (front = [] ∧ other = run) ∨
      ∃ a front', rest.head? = some a ∧ front = run ++ a :: front' := by
  have parts := isRun.parts
  rw [List.append_assoc] at parts
  rcases List.eq_nil_or_concat front with rfl | ⟨init, last, rfl⟩
  · left
    refine ⟨rfl, ?_⟩
    rw [List.nil_append] at parts
    rcases List.append_eq_append_iff.mp parts with ⟨more, otherIs, restIs⟩ | ⟨more, runIs, backIs⟩
    · cases more with
      | nil => simpa using otherIs
      | cons a more =>
          have inside : p a = true := isRun.inside a (by simp [otherIs])
          have outside : p a = false := stops a (by simp [restIs])
          exact absurd inside (by simp [outside])
    · cases more with
      | nil => simpa using runIs.symm
      | cons a more =>
          have inside : p a = true := all a (by simp [runIs])
          have outside : p a = false := isRun.behind a (by simp [backIs])
          exact absurd inside (by simp [outside])
  · right
    rw [List.concat_eq_append] at parts
    have outside : p last = false := isRun.before last (by simp)
    have absent : last ∉ run := fun member => absurd (all last member) (by simp [outside])
    rcases List.append_eq_append_iff.mp parts with ⟨more, frontIs, restIs⟩ | ⟨more, runIs, _⟩
    · cases more with
      | nil =>
          have runIs : run = init ++ [last] := by simpa using frontIs.symm
          exact absurd (by simp [runIs]) absent
      | cons a front' => exact ⟨a, front', by simp [restIs], by simp [frontIs]⟩
    · exact absurd (by simp [runIs]) absent

theorem isRun_behind_iff {a : α} (stops : p a = false) {run rest front other back : List α} :
    IsRun p n (run ++ a :: rest) (run ++ a :: front) other back ↔
      IsRun p n rest front other back := by
  have last : (∀ x ∈ (run ++ a :: front).getLast?, p x = false) ↔
      ∀ x ∈ front.getLast?, p x = false := by
    rcases List.eq_nil_or_concat front with rfl | ⟨init, z, rfl⟩
    · simp [stops]
    · have concat : run ++ a :: init.concat z = (run ++ a :: init).concat z := by simp
      rw [concat, List.concat_eq_append, List.concat_eq_append, List.getLast?_concat,
        List.getLast?_concat]
  constructor
  · intro isRun
    refine ⟨?_, isRun.wide, isRun.inside, last.mp isRun.before, isRun.behind⟩
    simpa using isRun.parts
  · intro isRun
    refine ⟨?_, isRun.wide, isRun.inside, last.mpr isRun.before, isRun.behind⟩
    simp [isRun.parts]

theorem firstRun_isLeftmost {run rest found : List α} (all : ∀ a ∈ run, p a = true)
    (reads : firstRun p n run rest = some found) : IsLeftmostRun p n (run ++ rest) found := by
  induction rest generalizing run with
  | nil =>
      rw [firstRun] at reads
      split_ifs at reads with wide
      cases reads
      refine ⟨[], [], ⟨by simp, wide, all, by simp, by simp⟩, ?_⟩
      exact fun _ _ _ _ => Nat.zero_le _
  | cons a rest ih =>
      rw [firstRun] at reads
      split_ifs at reads with inside wide
      · have longer : ∀ x ∈ run ++ [a], p x = true := by
          simpa [or_imp, forall_and] using ⟨all, inside⟩
        simpa using ih longer reads
      · cases reads
        refine ⟨[], a :: rest, ⟨by simp, wide, all, by simp, by simpa using inside⟩, ?_⟩
        exact fun _ _ _ _ => Nat.zero_le _
      · have stops : p a = false := by simpa using inside
        obtain ⟨front, back, isRun, leftmost⟩ := ih (by simp) reads
        refine ⟨run ++ a :: front, back, (isRun_behind_iff stops).mpr isRun, ?_⟩
        intro front' run' back' other
        rcases other.first_or_behind all (by simpa using stops) with
          ⟨_, isFirst⟩ | ⟨a', behind, isHead, rfl⟩
        · exact absurd (isFirst ▸ other.wide) wide
        · cases isHead
          have further := leftmost behind run' back' ((isRun_behind_iff stops).mp other)
          simp only [List.length_append, List.length_cons]
          omega

theorem firstRun_eq_none {run rest : List α} (all : ∀ a ∈ run, p a = true)
    (reads : firstRun p n run rest = none) (front other back : List α) :
    ¬ IsRun p n (run ++ rest) front other back := by
  induction rest generalizing run front with
  | nil =>
      rw [firstRun] at reads
      split_ifs at reads with wide
      intro isRun
      rcases isRun.first_or_behind all (by simp) with ⟨_, isFirst⟩ | ⟨_, _, isHead, _⟩
      · exact wide (isFirst ▸ isRun.wide)
      · cases isHead
  | cons a rest ih =>
      rw [firstRun] at reads
      split_ifs at reads with inside wide
      · have longer : ∀ x ∈ run ++ [a], p x = true := by
          simpa [or_imp, forall_and] using ⟨all, inside⟩
        simpa using ih longer reads front
      · have stops : p a = false := by simpa using inside
        intro isRun
        rcases isRun.first_or_behind all (by simpa using stops) with
          ⟨_, isFirst⟩ | ⟨a', behind, isHead, rfl⟩
        · exact wide (isFirst ▸ isRun.wide)
        · cases isHead
          exact ih (by simp) reads behind ((isRun_behind_iff stops).mp isRun)

theorem firstRun_spec (p : α → Bool) (n : Nat) (xs : List α) :
    ((firstRun p n [] xs).isSome = true ↔ ∃ front run back, IsRun p n xs front run back) ∧
    ∀ run, firstRun p n [] xs = some run → IsLeftmostRun p n xs run := by
  have leftmost : ∀ run, firstRun p n [] xs = some run → IsLeftmostRun p n xs run :=
    fun run reads => firstRun_isLeftmost (by simp) reads
  refine ⟨?_, leftmost⟩
  constructor
  · intro found
    obtain ⟨run, reads⟩ := Option.isSome_iff_exists.mp found
    obtain ⟨front, back, isRun, _⟩ := leftmost run reads
    exact ⟨front, run, back, isRun⟩
  · rintro ⟨front, run, back, isRun⟩
    by_contra missing
    rw [Bool.not_eq_true, Option.isSome_eq_false_iff, Option.isNone_iff_eq_none] at missing
    exact firstRun_eq_none (by simp) missing front run back isRun

end Runs
