import Cadvisor.Host.Parse
import Cadvisor.Lib.Fields
import Cadvisor.Lib.Slice

/-!
# The command line

Long flags may be written with one dash, and the arguments are rewritten to two before
they are parsed.  A dash in front of a digit is a negative number's.
-/

set_option autoImplicit false

namespace Cadvisor

/-- One argument; `none` where the slice ends the program, inside of a character. -/
def goStyleArg (i : Nat) (a : String) : Option String :=
  if 0 < i ∧ 2 < Slice.byteLen a.toList ∧ Str.startsWith a "-" ∧ ¬ Str.startsWith a "--" then
    (Slice.slice a.toList 1 2).map fun second =>
      if ¬ second.all Parse.isAsciiDigit then "-" ++ a else a
  else some a

def goStyleArgv (argv : List String) : Option (List String) :=
  argv.zipIdx.mapM fun entry => goStyleArg entry.2 entry.1

def SingleDash (a : String) : Prop := Str.startsWith a "-" = true ∧ Str.startsWith a "--" = false

/-- Every argument is in its place, the first and those without a single dash as they
were, any other with at most one dash more. -/
structure Restyled (argv out : List String) : Prop where
  length : out.length = argv.length
  first : out.head? = argv.head?
  plain : ∀ (i : Nat) (a b : String), argv[i]? = some a → out[i]? = some b →
    ¬ SingleDash a → b = a
  dashed : ∀ (i : Nat) (a b : String), argv[i]? = some a → out[i]? = some b →
    b = a ∨ b = "-" ++ a

/-- A dash and then a character that is not ASCII. -/
def WideFlag (a : String) : Prop := ∃ c rest, a.toList = '-' :: c :: rest ∧ ¬ c.toNat < 128

/-! ## One argument -/

theorem exists_second {a : String} (long : 2 < Slice.byteLen a.toList)
    (dash : Str.startsWith a "-" = true) : ∃ c rest, a.toList = '-' :: c :: rest := by
  obtain ⟨behind, parts⟩ := Str.startsWith_iff.mp dash
  rw [parts] at long
  cases behind with
  | nil => exact absurd long (by decide)
  | cons c rest => exact ⟨c, rest, parts⟩

theorem slice_second {c : Char} (ascii : c.toNat < 128) (rest : List Char) :
    Slice.slice ('-' :: c :: rest) 1 2 = some [c] := by
  have cursor : Slice.From ('-' :: c :: rest) 1 ([c] ++ rest) := ⟨['-'], rfl, rfl⟩
  exact (cursor.append (Slice.byteLen_ascii ascii [])).1

theorem slice_second_wide {c : Char} (wide : ¬ c.toNat < 128) (rest : List Char) :
    Slice.slice ('-' :: c :: rest) 1 2 = none := by
  have bytes : ¬ c.utf8Size ≤ 1 := not_le.mpr (Slice.one_lt_utf8Size wide)
  have dash : '-'.utf8Size = 1 := rfl
  rw [Slice.slice, Slice.takeBytes, dash, if_pos (by decide), Slice.takeBytes, if_neg bytes]
  rfl

theorem goStyleArg_wide {i : Nat} {a : String} (later : 0 < i) (wideFlag : WideFlag a) :
    goStyleArg i a = none := by
  obtain ⟨c, rest, parts, wide⟩ := wideFlag
  have long : 2 < Slice.byteLen a.toList := by
    have bytes := Slice.one_lt_utf8Size wide
    rw [parts, Slice.byteLen_ascii (by decide), Slice.byteLen_cons]
    omega
  have dash : Str.startsWith a "-" = true := Str.startsWith_iff.mpr ⟨c :: rest, parts⟩
  have single : ¬ Str.startsWith a "--" = true := by
    intro double
    obtain ⟨behind, isDouble⟩ := Str.startsWith_iff.mp double
    rw [parts] at isDouble
    cases isDouble
    exact wide (by decide)
  rw [goStyleArg, if_pos ⟨later, long, dash, single⟩, parts, slice_second_wide wide,
    Option.map_none]

theorem goStyleArg_double (i : Nat) {a : String} (dash : Str.startsWith a "-" = true) :
    goStyleArg i ("-" ++ a) = some ("-" ++ a) := by
  obtain ⟨behind, parts⟩ := Str.startsWith_iff.mp dash
  have double : Str.startsWith ("-" ++ a) "--" = true := by
    refine Str.startsWith_iff.mpr ⟨behind, ?_⟩
    rw [String.toList_append, parts]
    rfl
  exact if_neg fun guards => guards.2.2.2 double

/-- `b` is what becomes of `a` as argument `i`. -/
structure Becomes (i : Nat) (a b : String) : Prop where
  result : goStyleArg i a = some b
  first : i = 0 → b = a
  plain : ¬ SingleDash a → b = a
  dashed : b = a ∨ b = "-" ++ a
  again : goStyleArg i b = some b

theorem exists_becomes {i : Nat} {a : String} (fits : 0 < i → ¬ WideFlag a) :
    ∃ b, Becomes i a b := by
  by_cases guards : 0 < i ∧ 2 < Slice.byteLen a.toList ∧ Str.startsWith a "-" ∧
      ¬ Str.startsWith a "--"
  · obtain ⟨later, long, dash, single⟩ := guards
    obtain ⟨c, rest, parts⟩ := exists_second long dash
    have ascii : c.toNat < 128 := by
      by_contra wide
      exact fits later ⟨c, rest, parts, wide⟩
    have result : goStyleArg i a =
        some (if ¬ [c].all Parse.isAsciiDigit then "-" ++ a else a) := by
      rw [goStyleArg, if_pos ⟨later, long, dash, single⟩, parts, slice_second ascii,
        Option.map_some]
    have isSingle : SingleDash a := ⟨dash, Bool.eq_false_of_not_eq_true single⟩
    refine ⟨_, result, fun first => absurd first later.ne', fun notSingle =>
      absurd isSingle notSingle, ?_, ?_⟩
    · split_ifs
      · exact Or.inl rfl
      · exact Or.inr rfl
    · split_ifs with digit
      · rw [result, if_neg (not_not.mpr digit)]
      · exact goStyleArg_double i dash
  · have result : goStyleArg i a = some a := if_neg guards
    exact ⟨a, result, fun _ => rfl, fun _ => rfl, Or.inl rfl, result⟩

/-! ## All arguments -/

section Traversal

variable {α β : Type} {f : α → Option β} {xs : List α}

theorem mapM_eq_some {g : α → β} (each : ∀ x ∈ xs, f x = some (g x)) :
    xs.mapM f = some (xs.map g) := by
  induction xs with
  | nil => rfl
  | cons x rest ih =>
      obtain ⟨first, others⟩ := List.forall_mem_cons.mp each
      rw [List.mapM_cons, first, ih others]
      rfl

theorem mapM_eq_none {x : α} (member : x ∈ xs) (fails : f x = none) : xs.mapM f = none := by
  induction xs with
  | nil => cases member
  | cons y rest ih =>
      rw [List.mapM_cons]
      rcases List.mem_cons.mp member with rfl | later
      · rw [fails]
        rfl
      · rw [ih later]
        cases f y <;> rfl

end Traversal

theorem fits_of_tail {argv : List String} (fits : ∀ a ∈ argv.tail, ¬ WideFlag a) {i : Nat}
    {a : String} (here : argv[i]? = some a) (later : 0 < i) : ¬ WideFlag a := by
  refine fits a (List.mem_of_getElem? (i := i - 1) ?_)
  rw [List.getElem?_tail, Nat.sub_add_cancel later, here]

theorem goStyleArgv_completes {argv : List String} (fits : ∀ a ∈ argv.tail, ¬ WideFlag a) :
    ∃ out, goStyleArgv argv = some out ∧ Restyled argv out ∧ goStyleArgv out = some out := by
  let restyle : String × Nat → String := fun entry => (goStyleArg entry.2 entry.1).getD entry.1
  have becomes : ∀ (i : Nat) (a : String), argv[i]? = some a → Becomes i a (restyle (a, i)) := by
    intro i a here
    obtain ⟨b, isB⟩ := exists_becomes (fits_of_tail fits here)
    have restyled : restyle (a, i) = b := by
      change (goStyleArg i a).getD a = b
      rw [isB.result, Option.getD_some]
    exact restyled ▸ isB
  have place : ∀ i : Nat, (argv.zipIdx.map restyle)[i]? = argv[i]?.map fun a => restyle (a, i) := by
    intro i
    rw [List.getElem?_map, List.getElem?_zipIdx, Option.map_map, Nat.zero_add]
    rfl
  have byPlace : ∀ (i : Nat) (a b : String), argv[i]? = some a →
      (argv.zipIdx.map restyle)[i]? = some b → Becomes i a b := by
    intro i a b inArgv inOut
    rw [place, inArgv, Option.map_some, Option.some.injEq] at inOut
    exact inOut ▸ becomes i a inArgv
  have again : goStyleArgv (argv.zipIdx.map restyle) =
      some ((argv.zipIdx.map restyle).zipIdx.map Prod.fst) := by
    refine mapM_eq_some fun entry member => ?_
    have inOut := List.mem_zipIdx_iff_getElem?.mp member
    rw [place] at inOut
    obtain ⟨a, inArgv, isB⟩ := Option.map_eq_some_iff.mp inOut
    rw [← isB]
    exact (becomes entry.2 a inArgv).again
  refine ⟨argv.zipIdx.map restyle, ?_, ⟨?_, ?_, ?_, ?_⟩, ?_⟩
  · refine mapM_eq_some fun entry member => ?_
    exact (becomes entry.2 entry.1 (List.mem_zipIdx_iff_getElem?.mp member)).result
  · rw [List.length_map, List.length_zipIdx]
  · rw [List.head?_eq_getElem?, List.head?_eq_getElem?, place]
    cases first : argv[0]? with
    | none => rfl
    | some a => rw [Option.map_some, (becomes 0 a first).first rfl]
  · exact fun i a b inArgv inOut => (byPlace i a b inArgv inOut).plain
  · exact fun i a b inArgv inOut => (byPlace i a b inArgv inOut).dashed
  · rw [again, List.zipIdx_map_fst]

theorem goStyleArgv_wide {argv : List String} {a : String} (later : a ∈ argv.tail)
    (wide : WideFlag a) : goStyleArgv argv = none := by
  obtain ⟨i, here⟩ := List.mem_iff_getElem?.mp later
  rw [List.getElem?_tail] at here
  have member : (a, i + 1) ∈ argv.zipIdx := List.mk_mem_zipIdx_iff_getElem?.mpr here
  exact mapM_eq_none member (goStyleArg_wide (Nat.succ_pos i) wide)

/-- The rewriting completes, changes what it should and is done after one pass exactly
when no argument behind the first is a dash in front of a character that is not ASCII. -/
theorem goStyleArgv_iff (argv : List String) :
    (∃ out, goStyleArgv argv = some out ∧ Restyled argv out ∧ goStyleArgv out = some out) ↔
      ∀ a ∈ argv.tail, ¬ WideFlag a := by
  constructor
  · rintro ⟨out, completes, _⟩ a later wide
    rw [goStyleArgv_wide later wide] at completes
    cases completes
  · exact goStyleArgv_completes

theorem goStyleArgv_accented :
    ¬ ∃ out, goStyleArgv ["cadvisor", "-é"] = some out ∧ Restyled ["cadvisor", "-é"] out ∧
      goStyleArgv out = some out := by
  rintro ⟨out, completes, _⟩
  have ends : goStyleArgv ["cadvisor", "-é"] = none :=
    goStyleArgv_wide (List.mem_cons_self ..) ⟨'é', [], rfl, by decide⟩
  rw [ends] at completes
  cases completes

end Cadvisor
