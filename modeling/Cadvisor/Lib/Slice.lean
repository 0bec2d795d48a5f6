import Cadvisor.Lib.Str
import Mathlib.Data.List.DropRight

/-!
# Text by byte offsets

A text is its list of characters, but a program may look at single bytes of it and
cut it at byte offsets.  Behind a whole number of characters both views agree: the
byte there is an ASCII character's exactly when the character there is that one.
-/

set_option autoImplicit false

namespace Slice

open Str

def encode (s : List Char) : List UInt8 := s.flatMap String.utf8EncodeChar

def byteLen (s : List Char) : Nat := (encode s).length

def byteAt (s : List Char) (i : Nat) : Option UInt8 := (encode s)[i]?

/-- The text from byte `i` on; `none` if no character starts there. -/
def dropBytes : Nat → List Char → Option (List Char)
  | 0, s => some s
  | _ + 1, [] => none
  | i + 1, c :: rest => if c.utf8Size ≤ i + 1 then dropBytes (i + 1 - c.utf8Size) rest else none

/-- The text in front of byte `i`. -/
def takeBytes : Nat → List Char → Option (List Char)
  | 0, _ => some []
  | _ + 1, [] => none
  | i + 1, c :: rest =>
      if c.utf8Size ≤ i + 1 then (takeBytes (i + 1 - c.utf8Size) rest).map (c :: ·) else none

/-- `get(a..z)`. -/
def slice (s : List Char) (a z : Nat) : Option (List Char) := (takeBytes z s).bind (dropBytes a)

/-- The byte offset of the first character that has the property. -/
def find (p : Char → Bool) (s : List Char) : Option Nat :=
  if s.any p then some (byteLen (s.takeWhile fun c => ¬ p c)) else none

variable {front back : List Char}

theorem encode_append (front back : List Char) :
    encode (front ++ back) = encode front ++ encode back :=
  List.flatMap_append

theorem byteLen_append (front back : List Char) :
    byteLen (front ++ back) = byteLen front + byteLen back := by
  rw [byteLen, encode_append, List.length_append]
  rfl

theorem byteLen_cons (c : Char) (rest : List Char) :
    byteLen (c :: rest) = c.utf8Size + byteLen rest := by
  rw [byteLen, encode, List.flatMap_cons, List.length_append, String.length_utf8EncodeChar]
  rfl

/-! ## Behind whole characters -/

theorem byteAt_append (front back : List Char) (i : Nat) :
    byteAt (front ++ back) (byteLen front + i) = byteAt back i := by
  rw [byteAt, encode_append]
  have behind : (encode front).length ≤ byteLen front + i := Nat.le_add_right _ _
  rw [List.getElem?_append_right behind]
  exact congrArg (fun j => (encode back)[j]?) (Nat.add_sub_cancel_left (byteLen front) i)

theorem cut_cons (c : Char) (n : Nat) (rest : List Char) :
    dropBytes (c.utf8Size + n) (c :: rest) = dropBytes n rest ∧
      takeBytes (c.utf8Size + n) (c :: rest) = (takeBytes n rest).map (c :: ·) := by
  have positive := c.utf8Size_pos
  obtain ⟨i, isSucc⟩ : ∃ i, c.utf8Size + n = i + 1 := ⟨c.utf8Size + n - 1, by omega⟩
  have left : i + 1 - c.utf8Size = n := by omega
  rw [isSucc, dropBytes, takeBytes, if_pos (by omega), if_pos (by omega), left]
  exact ⟨rfl, rfl⟩

theorem dropBytes_append (front back : List Char) :
    dropBytes (byteLen front) (front ++ back) = some back := by
  induction front with
  | nil => cases back <;> rfl
  | cons c rest ih =>
      rw [byteLen_cons, List.cons_append, (cut_cons c _ _).1]
      exact ih

theorem takeBytes_append (front back : List Char) :
    takeBytes (byteLen front) (front ++ back) = some front := by
  induction front with
  | nil => cases back <;> rfl
  | cons c rest ih => rw [byteLen_cons, List.cons_append, (cut_cons c _ _).2, ih, Option.map_some]

theorem find_append {p : Char → Bool} {c : Char} (front back : List Char)
    (before : ∀ x ∈ front, p x = false) (here : p c = true) :
    find p (front ++ c :: back) = some (byteLen front) := by
  have found : (front ++ c :: back).any p = true := by simp [here]
  have stops : (front ++ c :: back).takeWhile (fun x => ¬ p x) = front := by
    rw [List.takeWhile_append_of_pos (by simpa using before),
      List.takeWhile_cons_of_neg (by simp [here]), List.append_nil]
  rw [find, if_pos found, stops]

/-! ## ASCII -/

theorem byteLen_ascii {c : Char} (ascii : c.toNat < 128) (rest : List Char) :
    byteLen (c :: rest) = 1 + byteLen rest := by
  have one : c.utf8Size = 1 := by
    rw [← String.length_utf8EncodeChar, utf8EncodeChar_ascii ascii]
    rfl
  rw [byteLen_cons, one]

theorem byteLen_of_ascii {s : List Char} (ascii : ∀ c ∈ s, c.toNat < 128) :
    byteLen s = s.length := by
  induction s with
  | nil => rfl
  | cons c rest ih =>
      obtain ⟨first, others⟩ := List.forall_mem_cons.mp ascii
      rw [byteLen_ascii first, ih others, List.length_cons, Nat.add_comm]

theorem takeBytes_of_ascii {s : List Char} (ascii : ∀ c ∈ s, c.toNat < 128) {n : Nat}
    (inside : n ≤ s.length) : takeBytes n s = some (s.take n) := by
  have front : byteLen (s.take n) = n := by
    rw [byteLen_of_ascii fun c member => ascii c (List.mem_of_mem_take member),
      List.length_take_of_le inside]
  have cut := takeBytes_append (s.take n) (s.drop n)
  rw [front, List.take_append_drop] at cut
  exact cut

theorem one_lt_utf8Size {c : Char} (wide : ¬ c.toNat < 128) : 1 < c.utf8Size := by
  have positive := c.utf8Size_pos
  have notOne : c.utf8Size ≠ 1 := by
    rw [ne_eq, Char.utf8Size_eq_one_iff, UInt32.le_iff_toNat_le]
    exact fun small => wide (Nat.lt_succ_of_le small)
  omega

theorem le_of_mem_utf8EncodeChar {c : Char} (wide : ¬ c.toNat < 128) {b : UInt8}
    (member : b ∈ String.utf8EncodeChar c) : 128 ≤ b.toNat := by
  have valIs : c.val.toNat = c.toNat := rfl
  have large (n : Nat) (small : n < 128) : 128 ≤ (UInt8.ofNat (n + 128)).toNat := by
    rw [UInt8.toNat_ofNat']
    omega
  unfold String.utf8EncodeChar at member
  dsimp only at member
  rw [if_neg (by omega)] at member
  split_ifs at member <;> simp only [List.mem_cons, List.not_mem_nil, or_false] at member
  · rcases member with rfl | rfl
    · exact large (c.val.toNat / 64 % 32 + 64) (by omega)
    · exact large _ (by omega)
  · rcases member with rfl | rfl | rfl
    · exact large (c.val.toNat / 4096 % 16 + 96) (by omega)
    · exact large _ (by omega)
    · exact large _ (by omega)
  · rcases member with rfl | rfl | rfl | rfl
    · exact large (c.val.toNat / 262144 % 8 + 112) (by omega)
    · exact large _ (by omega)
    · exact large _ (by omega)
    · exact large _ (by omega)

theorem byteAt_zero_ascii {c d : Char} (ascii : d.toNat < 128) (rest : List Char) :
    byteAt (c :: rest) 0 = some (UInt8.ofNat d.toNat) ↔ c = d := by
  have headIs : byteAt (c :: rest) 0 = (String.utf8EncodeChar c)[0]? := by
    rw [byteAt, encode, List.flatMap_cons]
    refine List.getElem?_append_left ?_
    rw [String.length_utf8EncodeChar]
    exact c.utf8Size_pos
  rw [headIs]
  constructor
  · intro same
    by_cases cAscii : c.toNat < 128
    · rw [utf8EncodeChar_ascii cAscii, List.getElem?_cons_zero, Option.some.injEq] at same
      have numbers := congrArg UInt8.toNat same
      rw [UInt8.toNat_ofNat', UInt8.toNat_ofNat'] at numbers
      have equal : c.toNat = d.toNat := by omega
      rw [← Char.ofNat_toNat c, equal, Char.ofNat_toNat]
    · exfalso
      have wide := le_of_mem_utf8EncodeChar cAscii (List.mem_of_getElem? same)
      rw [UInt8.toNat_ofNat'] at wide
      omega
  · intro same
    rw [same, utf8EncodeChar_ascii ascii]
    rfl

theorem byteAt_ascii {c d : Char} (ascii : d.toNat < 128) (front rest : List Char) :
    byteAt (front ++ c :: rest) (byteLen front) = some (UInt8.ofNat d.toNat) ↔ c = d := by
  have here := byteAt_append front (c :: rest) 0
  rw [Nat.add_zero] at here
  rw [here, byteAt_zero_ascii ascii]

/-! ## Cursors -/

/-- A character starts at byte `i`, and `rest` is the text from there on. -/
def From (s : List Char) (i : Nat) (rest : List Char) : Prop :=
  ∃ front, s = front ++ rest ∧ byteLen front = i

namespace From

variable {s field rest : List Char} {i : Nat}

theorem zero (s : List Char) : From s 0 s := ⟨[], rfl, rfl⟩

theorem dropBytes (cut : From s i rest) : dropBytes i s = some rest := by
  obtain ⟨front, rfl, rfl⟩ := cut
  exact dropBytes_append front rest

theorem byteLen_eq (cut : From s i rest) : byteLen s = i + byteLen rest := by
  obtain ⟨front, rfl, rfl⟩ := cut
  exact byteLen_append front rest

theorem append {width : Nat} (cut : From s i (field ++ rest)) (wide : byteLen field = width) :
    slice s i (i + width) = some field ∧ From s (i + width) rest := by
  obtain ⟨front, rfl, rfl⟩ := cut
  rw [← wide, ← byteLen_append, ← List.append_assoc]
  refine ⟨?_, front ++ field, rfl, rfl⟩
  rw [slice, takeBytes_append, Option.bind_some, dropBytes_append]

theorem cons {c : Char} (ascii : c.toNat < 128) (cut : From s i (c :: rest)) :
    byteAt s i = some (UInt8.ofNat c.toNat) ∧ From s (i + 1) rest := by
  obtain ⟨front, rfl, rfl⟩ := cut
  refine ⟨(byteAt_ascii ascii front rest).mpr rfl, front ++ [c], ?_, ?_⟩
  · rw [List.append_assoc]
    rfl
  · rw [byteLen_append, byteLen_ascii ascii]
    rfl

end From

end Slice
