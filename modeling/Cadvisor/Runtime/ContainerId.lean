import Cadvisor.Lib.Runs
import Cadvisor.Lib.Slice

/-!
# Container ids

A container's cgroup carries the container's id in its name, as a run of 64
hexadecimal digits.  The name is read byte by byte and cut at byte offsets.
-/

set_option autoImplicit false

namespace Cadvisor

/-- `is_hex`. -/
def isHex (b : UInt8) : Bool := (48 ≤ b ∧ b ≤ 57) ∨ (97 ≤ b ∧ b ≤ 102)

/-- The loop over the indices.  `none` where the slice ends the program, out of range or
inside of a character. -/
def scanContainerId (basename : List Char) :
    List Nat → Nat → Nat → Option (Option (List Char))
  | [], _, _ => some none
  | i :: later, runStart, runLen =>
      if (Slice.byteAt basename i).any isHex then
        scanContainerId basename later (if runLen = 0 then i else runStart) (runLen + 1)
      else if runLen = 64 then (Slice.slice basename runStart (runStart + 64)).map some
      else scanContainerId basename later runStart 0

def extractContainerId (basename : String) : Option (Option String) :=
  if Str.endsWith basename ".mount" then some none
  else
    (scanContainerId basename.toList (List.range (Slice.byteLen basename.toList + 1)) 0 0).map
      (Option.map String.ofList)

/-! ## Bytes and characters -/

/-- `0-9`, `a-f`. -/
def isHexDigit (c : Char) : Bool := ('0' ≤ c ∧ c ≤ '9') ∨ ('a' ≤ c ∧ c ≤ 'f')

theorem isHexDigit_iff (c : Char) :
    isHexDigit c = true ↔ (48 ≤ c.toNat ∧ c.toNat ≤ 57) ∨ (97 ≤ c.toNat ∧ c.toNat ≤ 102) := by
  have order : ∀ a b : Char, a ≤ b ↔ a.toNat ≤ b.toNat := fun _ _ => UInt32.le_iff_toNat_le
  rw [isHexDigit, decide_eq_true_eq, order, order, order, order]
  rfl

theorem isHex_iff (b : UInt8) :
    isHex b = true ↔ (48 ≤ b.toNat ∧ b.toNat ≤ 57) ∨ (97 ≤ b.toNat ∧ b.toNat ≤ 102) := by
  rw [isHex, decide_eq_true_eq, UInt8.le_iff_toNat_le, UInt8.le_iff_toNat_le,
    UInt8.le_iff_toNat_le, UInt8.le_iff_toNat_le]
  rfl

theorem ascii_of_isHexDigit {c : Char} (hex : isHexDigit c = true) : c.toNat < 128 := by
  rw [isHexDigit_iff] at hex
  omega

theorem isHex_of_mem {c : Char} {b : UInt8} (member : b ∈ String.utf8EncodeChar c) :
    isHex b = isHexDigit c := by
  rw [Bool.eq_iff_iff, isHex_iff, isHexDigit_iff]
  by_cases ascii : c.toNat < 128
  · rw [Str.utf8EncodeChar_ascii ascii] at member
    rw [List.mem_singleton.mp member, UInt8.toNat_ofNat']
    omega
  · have wide := Slice.le_of_mem_utf8EncodeChar ascii member
    omega

theorem byteAt_mem {c : Char} {i : Nat} (inside : i < c.utf8Size) (front rest : List Char) :
    ∃ b ∈ String.utf8EncodeChar c,
      Slice.byteAt (front ++ c :: rest) (Slice.byteLen front + i) = some b := by
  rw [← String.length_utf8EncodeChar] at inside
  refine ⟨(String.utf8EncodeChar c)[i], List.getElem_mem inside, ?_⟩
  rw [Slice.byteAt_append, Slice.byteAt, Slice.encode, List.flatMap_cons,
    List.getElem?_append_left inside, List.getElem?_eq_getElem inside]

theorem scanContainerId_skip {c : Char} (notHex : isHexDigit c = false) (front rest : List Char)
    (later : List Nat) (runStart : Nat) {i n : Nat} (fits : i + n = c.utf8Size) :
    scanContainerId (front ++ c :: rest) (List.range' (Slice.byteLen front + i) n ++ later)
        runStart 0 =
      scanContainerId (front ++ c :: rest) later runStart 0 := by
  induction n generalizing i with
  | zero => rfl
  | succ n ih =>
      obtain ⟨b, member, here⟩ := byteAt_mem (by omega : i < c.utf8Size) front rest
      have step := ih (by omega : i + 1 + n = c.utf8Size)
      rw [List.range'_succ, List.cons_append, scanContainerId, here, Option.any_some,
        isHex_of_mem member, notHex, if_neg (by decide), if_neg (by decide)]
      exact step

/-- The indices from the byte on where `rest` begins, and the one past the end. -/
def indicesFrom (front rest : List Char) : List Nat :=
  List.range' (Slice.byteLen front) (Slice.byteLen rest + 1)

theorem indicesFrom_cons (front : List Char) (c : Char) (rest : List Char) :
    indicesFrom front (c :: rest) =
      Slice.byteLen front ::
        (List.range' (Slice.byteLen front + 1) (c.utf8Size - 1) ++
          indicesFrom (front ++ [c]) rest) := by
  have positive := c.utf8Size_pos
  have width : Slice.byteLen (c :: rest) + 1 =
      c.utf8Size - 1 + (Slice.byteLen rest + 1) + 1 := by
    rw [Slice.byteLen_cons]
    omega
  have behind : Slice.byteLen (front ++ [c]) = Slice.byteLen front + 1 + (c.utf8Size - 1) := by
    have single : Slice.byteLen [c] = c.utf8Size := Slice.byteLen_cons c []
    rw [Slice.byteLen_append, single]
    omega
  rw [indicesFrom, indicesFrom, width, List.range'_succ, behind, List.range'_append_1]

theorem scanContainerId_end (front : List Char) (runStart runLen : Nat) :
    scanContainerId front (indicesFrom front []) runStart runLen =
      if runLen = 64 then (Slice.slice front runStart (runStart + 64)).map some
      else some none := by
  have past : Slice.byteAt front (Slice.byteLen front) = none := List.getElem?_eq_none le_rfl
  have last : indicesFrom front [] = [Slice.byteLen front] := rfl
  rw [last, scanContainerId, past, Option.any_none, if_neg Bool.false_ne_true]
  rfl

theorem scanContainerId_digit {c : Char} (digit : isHexDigit c = true) (front rest : List Char)
    (runStart runLen : Nat) :
    scanContainerId (front ++ c :: rest) (indicesFrom front (c :: rest)) runStart runLen =
      scanContainerId (front ++ c :: rest) (indicesFrom (front ++ [c]) rest)
        (if runLen = 0 then Slice.byteLen front else runStart) (runLen + 1) := by
  obtain ⟨b, member, here⟩ := byteAt_mem c.utf8Size_pos front rest
  have one : c.utf8Size = 1 := by
    have ascii := Slice.byteLen_ascii (ascii_of_isHexDigit digit) []
    rw [Slice.byteLen_cons] at ascii
    omega
  rw [Nat.add_zero] at here
  rw [indicesFrom_cons, one, scanContainerId, here, Option.any_some, isHex_of_mem member,
    if_pos digit]
  rfl

theorem scanContainerId_other {c : Char} (notHex : isHexDigit c = false) (front rest : List Char)
    (runStart runLen : Nat) :
    scanContainerId (front ++ c :: rest) (indicesFrom front (c :: rest)) runStart runLen =
      if runLen = 64 then (Slice.slice (front ++ c :: rest) runStart (runStart + 64)).map some
      else
        scanContainerId (front ++ c :: rest) (indicesFrom (front ++ [c]) rest) runStart 0 := by
  obtain ⟨b, member, here⟩ := byteAt_mem c.utf8Size_pos front rest
  have positive := c.utf8Size_pos
  rw [Nat.add_zero] at here
  rw [indicesFrom_cons, scanContainerId, here, Option.any_some, isHex_of_mem member, notHex,
    if_neg Bool.false_ne_true, scanContainerId_skip notHex _ _ _ _ (by omega)]

theorem slice_run {front run rest : List Char} {runStart : Nat}
    (hex : ∀ c ∈ run, isHexDigit c = true) (start : run ≠ [] → runStart = Slice.byteLen front)
    (wide : run.length = 64) :
    Slice.slice (front ++ run ++ rest) runStart (runStart + 64) = some run := by
  have bytes : Slice.byteLen run = 64 :=
    (Slice.byteLen_of_ascii fun c member => ascii_of_isHexDigit (hex c member)).trans wide
  have nonempty : run ≠ [] := by
    rintro rfl
    cases wide
  have cursor : Slice.From (front ++ run ++ rest) runStart (run ++ rest) :=
    ⟨front, List.append_assoc .., (start nonempty).symm⟩
  exact (cursor.append bytes).1

theorem scanContainerId_eq {front run rest : List Char} {runStart : Nat}
    (hex : ∀ c ∈ run, isHexDigit c = true)
    (start : run ≠ [] → runStart = Slice.byteLen front) :
    scanContainerId (front ++ run ++ rest) (indicesFrom (front ++ run) rest) runStart run.length =
      some (Runs.firstRun isHexDigit 64 run rest) := by
  induction rest generalizing front run runStart with
  | nil =>
      rw [List.append_nil, scanContainerId_end, Runs.firstRun]
      split_ifs with wide
      · have cut := @slice_run front run [] runStart hex start wide
        rw [List.append_nil] at cut
        rw [cut, Option.map_some]
      · rfl
  | cons c rest ih =>
      rw [Runs.firstRun]
      by_cases digit : isHexDigit c = true
      · have longer : ∀ x ∈ run ++ [c], isHexDigit x = true := by
          simpa [or_imp, forall_and] using ⟨hex, digit⟩
        have started : run ++ [c] ≠ [] →
            (if run.length = 0 then Slice.byteLen (front ++ run) else runStart) =
              Slice.byteLen front := by
          intro _
          split_ifs with empty
          · rw [List.length_eq_zero_iff.mp empty, List.append_nil]
          · exact start (mt List.length_eq_zero_iff.mpr empty)
        have step := ih longer started
        rw [← List.append_assoc, List.length_append, List.append_assoc (front ++ run)] at step
        rw [scanContainerId_digit digit, if_pos digit]
        exact step
      · have notHex : isHexDigit c = false := Bool.eq_false_of_not_eq_true digit
        have step : scanContainerId (front ++ run ++ [c] ++ [] ++ rest)
            (indicesFrom (front ++ run ++ [c] ++ []) rest) runStart 0 =
              some (Runs.firstRun isHexDigit 64 [] rest) := ih (by simp) (by simp)
        rw [List.append_nil, List.append_assoc (front ++ run)] at step
        rw [scanContainerId_other notHex, if_neg digit]
        split_ifs with wide
        · rw [slice_run hex start wide, Option.map_some]
        · exact step

theorem scanContainerId_range (basename : List Char) :
    scanContainerId basename (List.range (Slice.byteLen basename + 1)) 0 0 =
      some (Runs.firstRun isHexDigit 64 [] basename) := by
  have whole : scanContainerId ([] ++ [] ++ basename) (indicesFrom ([] ++ []) basename) 0 0 =
      some (Runs.firstRun isHexDigit 64 [] basename) := scanContainerId_eq (by simp) (by simp)
  rw [List.range_eq_range']
  exact whole

/-- The id is the leftmost run of exactly 64 digits, and every slice is in range. -/
theorem extractContainerId_spec (basename : String) :
    ∃ found, extractContainerId basename = some found ∧
      (found.isSome = true ↔ Str.endsWith basename ".mount" = false ∧
        ∃ front run back, Runs.IsRun isHexDigit 64 basename.toList front run back) ∧
      ∀ s, found = some s → Runs.IsLeftmostRun isHexDigit 64 basename.toList s.toList := by
  unfold extractContainerId
  by_cases mount : Str.endsWith basename ".mount" = true
  · refine ⟨none, if_pos mount, ?_, fun s found => by cases found⟩
    simp [mount]
  · have notMount : Str.endsWith basename ".mount" = false := Bool.eq_false_of_not_eq_true mount
    obtain ⟨present, leftmost⟩ := Runs.firstRun_spec isHexDigit 64 basename.toList
    refine ⟨(Runs.firstRun isHexDigit 64 [] basename.toList).map String.ofList, ?_, ?_, ?_⟩
    · rw [if_neg mount, scanContainerId_range, Option.map_some]
    · rw [Option.isSome_map, present]
      exact (and_iff_right notMount).symm
    · intro s found
      obtain ⟨run, isFirst, rfl⟩ := Option.map_eq_some_iff.mp found
      rw [String.toList_ofList]
      exact leftmost run isFirst

end Cadvisor
