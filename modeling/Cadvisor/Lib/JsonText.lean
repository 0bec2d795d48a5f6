import Cadvisor.Lib.Decimal
import Cadvisor.Lib.Serde

/-!
# The spellings of a JSON object

One value has many texts: a character of a string stands as itself or as an escape, a
number with a point or an exponent or without, and there is space between the parts.
What a deserializer is handed can depend on the spelling: a string is lent from the
text if nothing in it is an escape, and a number is an integer if it is written as one.
-/

set_option autoImplicit false

namespace JsonText

open Serde

variable {σ φ : Type}

/-! ## Strings -/

def shortEscapes : List (Char × Char) :=
  [('"', '"'), ('\\', '\\'), ('/', '/'), ('b', '\x08'), ('f', '\x0c'), ('n', '\n'), ('r', '\r'),
    ('t', '\t')]

/-- A character of a string, as it is written: as itself, with a short escape, or with
hexadecimal digits, each in upper or lower case. -/
inductive Letter where
  | plain (c : Char) (allowed : c ≠ '"' ∧ c ≠ '\\' ∧ 0x20 ≤ c.toNat)
  | short (mark c : Char) (pair : (mark, c) ∈ shortEscapes)
  | unicode (c : Char) (upper : Nat → Bool)

namespace Letter

def char : Letter → Char
  | plain c _ => c
  | short _ c _ => c
  | unicode c _ => c

def isEscape : Letter → Bool
  | plain _ _ => false
  | short _ _ _ => true
  | unicode _ _ => true

def hexDigit (upper : Bool) (d : Nat) : Char :=
  if upper then (Nat.digitChar d).toUpper else Nat.digitChar d

/-- Four digits, the first of them digit number `first` of the escape. -/
def codeUnit (upper : Nat → Bool) (first unit : Nat) : List Char :=
  '\\' :: 'u' :: [hexDigit (upper first) (unit / 16 ^ 3 % 16),
    hexDigit (upper (first + 1)) (unit / 16 ^ 2 % 16),
    hexDigit (upper (first + 2)) (unit / 16 % 16), hexDigit (upper (first + 3)) (unit % 16)]

/-- A character beyond the first plane is a pair of surrogates. -/
def unicodeText (c : Char) (upper : Nat → Bool) : List Char :=
  if c.toNat < 0x10000 then codeUnit upper 0 c.toNat
  else codeUnit upper 0 (0xD800 + (c.toNat - 0x10000) / 0x400) ++
    codeUnit upper 4 (0xDC00 + (c.toNat - 0x10000) % 0x400)

def text : Letter → List Char
  | plain c _ => [c]
  | short mark _ _ => ['\\', mark]
  | unicode c upper => unicodeText c upper

end Letter

def quoted (letters : List Letter) : List Char := '"' :: (letters.flatMap Letter.text ++ ['"'])

def content (letters : List Letter) : String := String.ofList (letters.map Letter.char)

def escaped (letters : List Letter) : Bool := letters.any Letter.isEscape

/-! ## Numbers -/

/-- A number, with the parts of its text.  The exponent has a mark and perhaps a sign. -/
structure Number where
  negative : Bool
  whole : List Char
  fraction : Option (List Char)
  exponent : Option (Char × Option Char × List Char)
  wholeDigits : whole ≠ [] ∧ ∀ c ∈ whole, c.isDigit = true
  noLeadingZero : whole.head? = some '0' → whole = ['0']
  fractionDigits : ∀ f ∈ fraction, f ≠ [] ∧ ∀ c ∈ f, c.isDigit = true
  exponentForm : ∀ e ∈ exponent, (e.1 = 'e' ∨ e.1 = 'E') ∧ (∀ s ∈ e.2.1, s = '+' ∨ s = '-') ∧
    e.2.2 ≠ [] ∧ ∀ c ∈ e.2.2, c.isDigit = true

namespace Number

def text (n : Number) : List Char :=
  (if n.negative then ['-'] else []) ++ (n.whole ++
    ((n.fraction.elim [] fun f => '.' :: f) ++
      n.exponent.elim [] fun e => e.1 :: (e.2.1.toList ++ e.2.2)))

def integer (n : Number) : Int :=
  if n.negative then -(Decimal.digits n.whole : Int) else Decimal.digits n.whole

def power (n : Number) : Int :=
  n.exponent.elim 0 fun e => Decimal.exponent (e.2.1.toList ++ e.2.2)

def value (n : Number) : ℚ :=
  let fraction := n.fraction.getD []
  (if n.negative then -1 else 1) *
    (Decimal.digits (n.whole ++ fraction) * 10 ^ (n.power - fraction.length))

/-- Written as an integer.  A zero with a sign is not. -/
def isPlain (n : Number) : Bool :=
  n.fraction.isNone && n.exponent.isNone && !(n.negative && n.integer = 0)

/-- An integer of 64 bits, with a sign or without one, is handed over as it is. -/
def json (approx : Number → φ) (n : Number) : Json σ φ :=
  if n.isPlain ∧ -2 ^ 63 ≤ n.integer ∧ n.integer < 2 ^ 64 then .int n.integer else .float (approx n)

theorem value_eq_integer {n : Number} (plain : n.isPlain = true) : n.value = n.integer := by
  simp only [isPlain, Bool.and_eq_true, Option.isNone_iff_eq_none] at plain
  obtain ⟨⟨noFraction, noExponent⟩, _⟩ := plain
  simp only [value, power, integer, noFraction, noExponent, Option.getD_none, Option.elim_none]
  by_cases negative : n.negative = true
  · simp [negative]
  · simp [negative]

theorem no_fraction : ∀ f ∈ (none : Option (List Char)), f ≠ [] ∧ ∀ c ∈ f, c.isDigit = true :=
  nofun

theorem no_exponent : ∀ e ∈ (none : Option (Char × Option Char × List Char)),
    (e.1 = 'e' ∨ e.1 = 'E') ∧ (∀ s ∈ e.2.1, s = '+' ∨ s = '-') ∧
      e.2.2 ≠ [] ∧ ∀ c ∈ e.2.2, c.isDigit = true :=
  nofun

theorem toString_digits (n : Nat) :
    (toString n).toList ≠ [] ∧ ∀ c ∈ (toString n).toList, c.isDigit = true := by
  refine ⟨?_, Str.digits_of_toString n⟩
  rw [Str.toString_nat_toList]
  exact Nat.toDigits_ne_nil

theorem toString_head (n : Nat) :
    (toString n).toList.head? = some '0' → (toString n).toList = ['0'] := by
  rw [Str.toString_nat_toList]
  induction n using Nat.strong_induction_on with
  | _ n ih =>
      by_cases small : n < 10
      · rw [Nat.toDigits_of_lt_base small]
        intro zero
        rw [Option.some.inj zero]
      · intro zero
        rw [Nat.toDigits_of_base_le (by decide) (by omega),
          List.head?_append_of_ne_nil _ Nat.toDigits_ne_nil] at zero
        -- The digits in front would be those of zero.
        have front := ih (n / 10) (by omega) zero
        have isZero := Str.parseDigits_toDigits (n / 10)
        rw [front] at isZero
        have : n / 10 = 0 := (Option.some.inj isZero).symm
        omega

def ofNat (n : Nat) : Number where
  negative := false
  whole := (toString n).toList
  fraction := none
  exponent := none
  wholeDigits := toString_digits n
  noLeadingZero := toString_head n
  fractionDigits := no_fraction
  exponentForm := no_exponent

theorem text_ofNat (n : Nat) : (ofNat n).text = (toString n).toList := by
  simp [text, ofNat]

theorem integer_ofNat (n : Nat) : (ofNat n).integer = n := by
  have plain : (ofNat n).negative = false := rfl
  rw [integer, plain, if_neg Bool.false_ne_true]
  exact congrArg Nat.cast (Decimal.digits_toString n)

theorem json_ofNat (approx : Number → φ) {n : Nat} (small : n < 2 ^ 64) :
    (ofNat n).json (σ := σ) approx = .int n := by
  have plain : (ofNat n).isPlain = true := rfl
  rw [json, integer_ofNat, if_pos ⟨plain, by omega, by omega⟩]

end Number

/-! ## Values -/

structure Spaces where
  chars : List Char
  only : ∀ c ∈ chars, c = ' ' ∨ c = '\t' ∨ c = '\n' ∨ c = '\r'

theorem nothing_only : ∀ c ∈ ([] : List Char), c = ' ' ∨ c = '\t' ∨ c = '\n' ∨ c = '\r' :=
  List.forall_mem_nil _

theorem space_only : ∀ c ∈ [' '], c = ' ' ∨ c = '\t' ∨ c = '\n' ∨ c = '\r' :=
  List.forall_mem_singleton.mpr (Or.inl rfl)

def Spaces.none : Spaces := ⟨[], nothing_only⟩

def Spaces.one : Spaces := ⟨[' '], space_only⟩

structure Item (V : Type) where
  before : Spaces
  value : V
  after : Spaces

structure Member (V : Type) where
  beforeKey : Spaces
  key : List Letter
  afterKey : Spaces
  beforeValue : Spaces
  value : V
  afterValue : Spaces

/-- A value with its spelling.  The space inside the brackets is what an empty array or
object has. -/
inductive Value where
  | null
  | bool (b : Bool)
  | number (n : Number)
  | string (letters : List Letter)
  | array (inside : Spaces) (items : List (Item Value))
  | object (inside : Spaces) (members : List (Member Value))

mutual

def Value.text : Value → List Char
  | .null => ['n', 'u', 'l', 'l']
  | .bool true => ['t', 'r', 'u', 'e']
  | .bool false => ['f', 'a', 'l', 's', 'e']
  | .number n => n.text
  | .string letters => quoted letters
  | .array inside items =>
      '[' :: (inside.chars ++ (List.intercalate [','] (itemTexts items) ++ [']']))
  | .object inside members =>
      '\x7b' :: (inside.chars ++ (List.intercalate [','] (memberTexts members) ++ ['\x7d']))

def itemTexts : List (Item Value) → List (List Char)
  | [] => []
  | i :: rest => itemText i :: itemTexts rest

def itemText : Item Value → List Char
  | ⟨before, value, after⟩ => before.chars ++ (value.text ++ after.chars)

def memberTexts : List (Member Value) → List (List Char)
  | [] => []
  | m :: rest => memberText m :: memberTexts rest

def memberText : Member Value → List Char
  | ⟨beforeKey, key, afterKey, beforeValue, value, afterValue⟩ =>
      beforeKey.chars ++ (quoted key ++ (afterKey.chars ++ ':' ::
        (beforeValue.chars ++ (value.text ++ afterValue.chars))))

end

/-- How strings and floats are handed over. -/
structure Handing (σ φ : Type) where
  lend : String → σ
  own : String → σ
  approx : Number → φ

mutual

def Value.json (h : Handing σ φ) : Value → Json σ φ
  | .null => .null
  | .bool b => .bool b
  | .number n => n.json h.approx
  | .string letters =>
      .str (if escaped letters then h.own (content letters) else h.lend (content letters))
  | .array _ items => .arr (itemsJson h items)
  | .object _ members => .obj (membersJson h members)

def itemsJson (h : Handing σ φ) : List (Item Value) → List (Json σ φ)
  | [] => []
  | i :: rest => itemJson h i :: itemsJson h rest

def itemJson (h : Handing σ φ) : Item Value → Json σ φ
  | ⟨_, value, _⟩ => value.json h

def membersJson (h : Handing σ φ) : List (Member Value) → List (String × Json σ φ)
  | [] => []
  | m :: rest => memberJson h m :: membersJson h rest

def memberJson (h : Handing σ φ) : Member Value → String × Json σ φ
  | ⟨_, key, _, _, value, _⟩ => (content key, value.json h)

end

theorem memberTexts_eq_map (members : List (Member Value)) :
    memberTexts members = members.map memberText := by
  induction members with
  | nil => rfl
  | cons m rest ih => rw [memberTexts, ih, List.map_cons]

theorem membersJson_eq_map (h : Handing σ φ) (members : List (Member Value)) :
    membersJson h members = members.map fun m => (content m.key, m.value.json h) := by
  induction members with
  | nil => rfl
  | cons m rest ih =>
      cases m
      rw [membersJson, memberJson, ih, List.map_cons]

/-! ## Objects -/

structure Document where
  before : Spaces
  inside : Spaces
  members : List (Member Value)
  after : Spaces

namespace Document

def value (d : Document) : Value := .object d.inside d.members

def text (d : Document) : List Char := d.before.chars ++ (d.value.text ++ d.after.chars)

def entries (h : Handing σ φ) (d : Document) : List (String × Json σ φ) :=
  d.members.map fun m => (content m.key, m.value.json h)

theorem json_value (h : Handing σ φ) (d : Document) : d.value.json h = .obj (d.entries h) := by
  rw [value, Value.json, membersJson_eq_map, entries]

theorem text_eq (d : Document) :
    d.text = d.before.chars ++ '\x7b' :: (d.inside.chars ++
      (List.intercalate [','] (d.members.map memberText) ++ '\x7d' :: d.after.chars)) := by
  rw [text, value, Value.text, memberTexts_eq_map]
  simp

/-- What stands at the key, however the key is spelled. -/
def valuesAt (d : Document) (key : String) : List Value :=
  (d.members.filter fun m => content m.key = key).map fun m => m.value

theorem valuesAt_entries (h : Handing σ φ) (d : Document) (key : String) :
    Serde.valuesAt key (d.entries h) = (d.valuesAt key).map (Value.json h) := by
  rw [Serde.valuesAt, entries, valuesAt, List.filter_map, List.map_map, List.map_map]
  rfl

end Document

end JsonText
