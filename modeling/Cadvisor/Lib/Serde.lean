import Cadvisor.Lib.SortedMap
import Mathlib.Algebra.Group.Int.Defs
import Mathlib.Data.List.Forall2
import Mathlib.Data.List.Induction
import Mathlib.Data.String.Basic

/-!
# Values read back from what was written of them

A codec writes values as JSON and reads JSON back, with no promise that the two
belong together: that is what `Reads` says of two values.  A record is written field
by field, and what it reads back is the record that every field moves to.
-/

set_option autoImplicit false

namespace Serde

/-- JSON as a deserializer hands it over.  What a string and a float are handed over as
is left open. -/
inductive Json (σ φ : Type) where
  | null
  | bool (b : Bool)
  | int (n : Int)
  | float (x : φ)
  | str (s : σ)
  | arr (items : List (Json σ φ))
  | obj (entries : List (String × Json σ φ))

structure Codec (σ φ α : Type) where
  enc : α → Json σ φ
  dec : Json σ φ → Option α

variable {σ φ α κ ν ρ ι τ : Type}

/-- Where `a` was written, `b` is read. -/
def Codec.Reads (c : Codec σ φ α) (a b : α) : Prop := c.dec (c.enc a) = some b

/-! ## Values without parts -/

def boolean : Codec σ φ Bool where
  enc := .bool
  dec
    | .bool b => some b
    | _ => none

/-- An integer type with the values from `low` up to `high`. -/
def integer (low high : Int) (toInt : α → Int) (ofInt : Int → α) : Codec σ φ α where
  enc a := .int (toInt a)
  dec
    | .int n => if low ≤ n ∧ n < high then some (ofInt n) else none
    | _ => none

def u64 : Codec σ φ UInt64 := integer 0 (2 ^ 64) (fun n => n.toNat) fun n => UInt64.ofNat n.toNat

def i64 : Codec σ φ Int64 := integer (-2 ^ 63) (2 ^ 63) Int64.toInt Int64.ofInt

def i32 : Codec σ φ Int := integer (-2 ^ 31) (2 ^ 31) id id

/-- A string is read however it is handed over. -/
def string (written : String → σ) (text : σ → String) : Codec σ φ String where
  enc s := .str (written s)
  dec
    | .str s => some (text s)
    | _ => none

/-- A float as it comes back from its digits.  One that has none is written as null. -/
def floating (reread : φ → Option φ) (ofInt : Int → φ) : Codec σ φ φ where
  enc x :=
    match reread x with
    | some y => .float y
    | none => .null
  dec
    | .float x => some x
    | .int n => some (ofInt n)
    | _ => none

/-- What there is none of is null. -/
def optional (c : Codec σ φ α) : Codec σ φ (Option α) where
  enc
    | none => .null
    | some a => c.enc a
  dec
    | .null => some none
    | j => (c.dec j).map some

@[simp] theorem boolean_reads (b : Bool) : (boolean : Codec σ φ Bool).Reads b b := rfl

theorem integer_reads {low high : Int} {toInt : α → Int} {ofInt : Int → α} {a : α}
    (inRange : low ≤ toInt a ∧ toInt a < high) (inverse : ofInt (toInt a) = a) :
    (integer low high toInt ofInt : Codec σ φ α).Reads a a := by
  unfold Codec.Reads integer
  dsimp only
  rw [if_pos inRange, inverse]

@[simp] theorem u64_reads (n : UInt64) : (u64 : Codec σ φ UInt64).Reads n n := by
  apply integer_reads
  · have bound := n.toNat_lt
    omega
  · exact UInt64.ofNat_toNat

@[simp] theorem i64_reads (n : Int64) : (i64 : Codec σ φ Int64).Reads n n := by
  apply integer_reads
  · exact ⟨n.le_toInt, n.toInt_lt⟩
  · exact Int64.ofInt_toInt n

theorem i32_reads {n : Int} (inRange : -2 ^ 31 ≤ n ∧ n < 2 ^ 31) :
    (i32 : Codec σ φ Int).Reads n n :=
  integer_reads inRange rfl

theorem string_reads {written : String → σ} {text : σ → String}
    (faithful : ∀ s, text (written s) = s) (s : String) :
    (string written text : Codec σ φ String).Reads s s :=
  congrArg some (faithful s)

theorem floating_reads {reread : φ → Option φ} {ofInt : Int → φ} {x : φ}
    (exact' : reread x = some x) : (floating reread ofInt : Codec σ φ φ).Reads x x := by
  unfold Codec.Reads floating
  simp only [exact']

theorem optional_reads {c : Codec σ φ α} {a : α} (notNull : c.enc a ≠ .null)
    (reads : c.Reads a a) : (optional c).Reads (some a) (some a) := by
  have decoded : c.dec (c.enc a) = some a := reads
  unfold Codec.Reads optional
  dsimp only
  cases written : c.enc a with
  | null => exact absurd written notNull
  | _ =>
      rw [written] at decoded
      dsimp only
      rw [decoded]
      rfl

theorem optional_reads_self {c : Codec σ φ α} (notNull : ∀ a, c.enc a ≠ .null) {v : Option α}
    (reads : ∀ a ∈ v, c.Reads a a) : (optional c).Reads v v := by
  cases v with
  | none => rfl
  | some a => exact optional_reads (notNull a) (reads a rfl)

/-! ## Sequences and maps -/

def list (c : Codec σ φ α) : Codec σ φ (List α) where
  enc items := .arr (items.map c.enc)
  dec
    | .arr items => items.mapM c.dec
    | _ => none

def map [LinearOrder κ] (printKey : κ → String) (readKey : String → Option κ) (c : Codec σ φ ν) :
    Codec σ φ (SortedMap κ ν) where
  enc m := .obj (m.toList.map fun entry => (printKey entry.1, c.enc entry.2))
  dec
    | .obj entries => (entries.mapM fun entry => (readKey entry.1).bind fun k =>
        (c.dec entry.2).map fun v => (k, v)).map SortedMap.ofList
    | _ => none

theorem mapM_of_forall₂ {α β γ : Type} (write : α → γ) (read : γ → Option β) {items : List α}
    {others : List β} (each : List.Forall₂ (fun a b => read (write a) = some b) items others) :
    (items.map write).mapM read = some others := by
  induction each with
  | nil => rfl
  | cons first _ ih =>
      rw [List.map_cons, List.mapM_cons, first, ih]
      rfl

theorem list_reads {c : Codec σ φ α} {items others : List α}
    (each : List.Forall₂ c.Reads items others) : (list c).Reads items others :=
  mapM_of_forall₂ c.enc c.dec each

@[simp] theorem list_reads_self {c : Codec σ φ α} {items : List α}
    (all : ∀ a ∈ items, c.Reads a a) : (list c).Reads items items :=
  list_reads (List.forall₂_same.mpr all)

/-- The entries of `m` and `m'` have the same keys, and values that are related. -/
def MapForall₂ [LinearOrder κ] (r : ν → ν → Prop) (m m' : SortedMap κ ν) : Prop :=
  List.Forall₂ (fun e e' => e.1 = e'.1 ∧ r e.2 e'.2) m.toList m'.toList

theorem map_reads [LinearOrder κ] {printKey : κ → String} {readKey : String → Option κ}
    (keys : ∀ k, readKey (printKey k) = some k) {c : Codec σ φ ν} {m m' : SortedMap κ ν}
    (each : MapForall₂ c.Reads m m') : (map printKey readKey c).Reads m m' := by
  have entries := mapM_of_forall₂ (fun entry => (printKey entry.1, c.enc entry.2))
    (fun entry => (readKey entry.1).bind fun k => (c.dec entry.2).map fun v => (k, v))
    (each.imp fun e e' related => by
      rw [keys, Option.bind_some, related.2, Option.map_some, related.1])
  unfold Codec.Reads map
  dsimp only
  rw [entries, Option.map_some, SortedMap.ofList_toList]

theorem map_reads_self [LinearOrder κ] {printKey : κ → String} {readKey : String → Option κ}
    (keys : ∀ k, readKey (printKey k) = some k) {c : Codec σ φ ν} {m : SortedMap κ ν}
    (all : ∀ e ∈ m.toList, c.Reads e.2 e.2) : (map printKey readKey c).Reads m m :=
  map_reads keys (List.forall₂_same.mpr fun e member => ⟨rfl, all e member⟩)

/-! ## Fields -/

/-- The fields of `ρ`, in the order of its constructor: `γ` is what the constructor
takes, with `ρ` at the end.  `skip` is `skip_serializing_if`. -/
inductive Fields (σ φ ρ : Type) : Type → Type 1 where
  | nil : Fields σ φ ρ ρ
  | cons {τ γ : Type} (key : String) (c : Codec σ φ τ) (get : ρ → τ) (skip : τ → Bool)
      (rest : Fields σ φ ρ γ) : Fields σ φ ρ (τ → γ)

/-- No `skip_serializing_if`. -/
def never (_ : τ) : Bool := false

/-- What is skipped of `v` comes back as `v'`, which is then the default's. -/
def Omits (skip : τ → Bool) (v dflt v' : τ) : Prop := skip v = true → dflt = v'

@[simp] theorem never_omits (v dflt v' : τ) : Omits never v dflt v' := by
  intro skipped
  cases skipped

theorem omits_self {skip : τ → Bool} {v dflt : τ} (only : skip v = true → v = dflt) :
    Omits skip v dflt v := fun skipped => (only skipped).symm

@[simp] theorem string_omits (s : String) : Omits String.isEmpty s "" s :=
  omits_self String.isEmpty_iff.mp

@[simp] theorem list_omits (items : List α) : Omits List.isEmpty items [] items :=
  omits_self List.isEmpty_iff.mp

@[simp] theorem map_omits [LinearOrder κ] (m : SortedMap κ ν) :
    Omits SortedMap.isEmpty m SortedMap.empty m :=
  omits_self SortedMap.eq_empty_of_isEmpty

@[simp] theorem option_omits (v : Option α) : Omits Option.isNone v none v :=
  omits_self Option.isNone_iff_eq_none.mp

/-- A field that is there twice is an error. -/
def single : List (Json σ φ) → Option (Option (Json σ φ))
  | [] => some none
  | [j] => some (some j)
  | _ :: _ :: _ => none

def valuesAt (key : String) (entries : List (String × Json σ φ)) : List (Json σ φ) :=
  (entries.filter fun entry => entry.1 = key).map Prod.snd

/-- A field that is absent is that of the default. -/
def Codec.decOr (c : Codec σ φ τ) (missing : τ) : Option (Json σ φ) → Option τ
  | none => some missing
  | some j => c.dec j

namespace Fields

variable {γ : Type}

def keys : {γ : Type} → Fields σ φ ρ γ → List String
  | _, nil => []
  | _, cons key _ _ _ rest => key :: rest.keys

def write (r : ρ) : {γ : Type} → Fields σ φ ρ γ → List (String × Json σ φ)
  | _, nil => []
  | _, cons key c get skip rest =>
      if skip (get r) then rest.write r else (key, c.enc (get r)) :: rest.write r

/-- What has another key is ignored. -/
def read (dflt : ρ) (entries : List (String × Json σ φ)) :
    {γ : Type} → Fields σ φ ρ γ → γ → Option ρ
  | _, nil, r => some r
  | _, cons key c get _ rest, make =>
      (single (valuesAt key entries)).bind fun found =>
        (c.decOr (get dflt) found).bind fun v => rest.read dflt entries (make v)

/-- Fields by their place; those that are missing at the end are the default's. -/
def readSeq (dflt : ρ) : {γ : Type} → Fields σ φ ρ γ → List (Json σ φ) → γ → Option ρ
  | _, nil, [], r => some r
  | _, nil, _ :: _, _ => none
  | _, cons _ c get _ rest, items, make =>
      (c.decOr (get dflt) items.head?).bind fun v => rest.readSeq dflt items.tail (make v)

/-- The fields of `r`, handed to the constructor. -/
def build (r : ρ) : {γ : Type} → Fields σ φ ρ γ → γ → ρ
  | _, nil, made => made
  | _, cons _ _ get _ rest, make => rest.build r (make (get r))

/-- Every field of `r`, written, is read as that of `r'`; what is skipped is the
default's. -/
@[simp] def Moves (dflt r r' : ρ) : {γ : Type} → Fields σ φ ρ γ → Prop
  | _, nil => True
  | _, cons _ c get skip rest =>
      (Omits skip (get r) (get dflt) (get r') ∧
        (skip (get r) = false → c.Reads (get r) (get r'))) ∧ rest.Moves dflt r r'

theorem valuesAt_append (key : String) (front back : List (String × Json σ φ)) :
    valuesAt key (front ++ back) = valuesAt key front ++ valuesAt key back := by
  rw [valuesAt, List.filter_append, List.map_append]
  rfl

theorem valuesAt_of_notMem {key : String} {entries : List (String × Json σ φ)}
    (absent : ∀ entry ∈ entries, entry.1 ≠ key) : valuesAt key entries = [] := by
  rw [valuesAt, List.filter_eq_nil_iff.mpr, List.map_nil]
  intro entry member
  simpa using absent entry member

theorem key_of_mem_write {fields : Fields σ φ ρ γ} {r : ρ} {entry : String × Json σ φ}
    (member : entry ∈ fields.write r) : entry.1 ∈ fields.keys := by
  induction fields with
  | nil => exact absurd member List.not_mem_nil
  | cons key c get skip rest ih =>
      rw [write] at member
      rw [keys, List.mem_cons]
      split_ifs at member
      · exact Or.inr (ih member)
      · rcases List.mem_cons.mp member with rfl | inRest
        · exact Or.inl rfl
        · exact Or.inr (ih inRest)

section

variable {c : Codec σ φ τ} {get : ρ → τ} {skip : τ → Bool} {rest : Fields σ φ ρ γ} {r : ρ}

theorem lastValue_here {key : String} (fresh : key ∉ rest.keys) (kept : skip (get r) = false) :
    SortedMap.lastValue key ((cons key c get skip rest).write r) = some (c.enc (get r)) := by
  have noOther : SortedMap.lastValue key (rest.write r) = none :=
    SortedMap.lastValue_eq_none_iff.mpr fun v member => fresh (key_of_mem_write member)
  rw [write, kept, if_neg Bool.false_ne_true, SortedMap.lastValue, noOther, if_pos rfl]
  rfl

theorem lastValue_there {key other : String} (differ : key ≠ other) :
    SortedMap.lastValue key ((cons other c get skip rest).write r) =
      SortedMap.lastValue key (rest.write r) := by
  rw [write]
  split_ifs
  · rfl
  · rw [SortedMap.lastValue, if_neg differ, Option.or_none]

end

/-- Among the entries written of all fields, in any company that has none of their keys,
every field finds its own: the fields are read as those of `r'`. -/
theorem read_write {fields : Fields σ φ ρ γ} {dflt r r' : ρ} (nodup : fields.keys.Nodup)
    (moves : fields.Moves dflt r r') (front back : List (String × Json σ φ))
    (apart : ∀ entry ∈ front ++ back, entry.1 ∉ fields.keys) (make : γ) :
    fields.read dflt (front ++ (fields.write r ++ back)) make = some (fields.build r' make) := by
  induction fields generalizing front with
  | nil => rfl
  | cons key c get skip rest ih =>
      obtain ⟨⟨omitted, kept⟩, others⟩ := moves
      rw [keys, List.nodup_cons] at nodup
      simp only [keys, List.mem_cons, not_or] at apart
      have noFront : valuesAt key front = [] := valuesAt_of_notMem fun entry member =>
        (apart entry (List.mem_append_left _ member)).1
      have noBack : valuesAt key back = [] := valuesAt_of_notMem fun entry member =>
        (apart entry (List.mem_append_right _ member)).1
      have noRest : valuesAt key (rest.write r) = [] := valuesAt_of_notMem fun entry member same =>
        nodup.1 (same ▸ key_of_mem_write member)
      rw [read, write, build]
      cases skipped : skip (get r) with
      | true =>
          rw [if_pos rfl, valuesAt_append, valuesAt_append, noFront, noRest, noBack,
            ← omitted skipped]
          exact ih nodup.2 others front (fun entry member => (apart entry member).2) _
      | false =>
          have here : valuesAt key [(key, c.enc (get r))] = [c.enc (get r)] := by simp [valuesAt]
          have split : front ++ ((key, c.enc (get r)) :: rest.write r ++ back) =
              (front ++ [(key, c.enc (get r))]) ++ (rest.write r ++ back) := by simp
          have decoded : c.decOr (get dflt) (some (c.enc (get r))) = some (get r') := kept skipped
          rw [if_neg Bool.false_ne_true, split, valuesAt_append, valuesAt_append, valuesAt_append,
            noFront, here, noRest, noBack]
          simp only [List.nil_append, List.append_nil, single, Option.bind_some, decoded]
          refine ih nodup.2 others (front ++ [(key, c.enc (get r))]) (fun entry member => ?_) _
          rw [List.append_assoc, List.mem_append, List.singleton_append, List.mem_cons] at member
          rcases member with inFront | rfl | inBack
          · exact (apart entry (List.mem_append_left _ inFront)).2
          · exact nodup.1
          · exact (apart entry (List.mem_append_right _ inBack)).2

end Fields

/-! ## Records -/

/-- Fields with keys that differ, and the constructor that has no others. -/
structure Record (σ φ ρ : Type) where
  {Make : Type}
  make : Make
  dflt : ρ
  fields : Fields σ φ ρ Make
  nodup : fields.keys.Nodup
  complete : ∀ r, fields.build r make = r

namespace Record

variable {r r' : ρ}

def codec (record : Record σ φ ρ) : Codec σ φ ρ where
  enc r := .obj (record.fields.write r)
  dec
    | .obj entries => record.fields.read record.dflt entries record.make
    | .arr items => record.fields.readSeq record.dflt items record.make
    | _ => none

@[simp] def Moves (record : Record σ φ ρ) (r r' : ρ) : Prop :=
  record.fields.Moves record.dflt r r'

theorem read_write (record : Record σ φ ρ) (moves : record.Moves r r') :
    record.fields.read record.dflt (record.fields.write r) record.make = some r' := by
  have moved := Fields.read_write record.nodup moves [] []
    (fun entry member => absurd member List.not_mem_nil) record.make
  rw [List.nil_append, List.append_nil, record.complete] at moved
  exact moved

theorem reads (record : Record σ φ ρ) (moves : record.Moves r r') : record.codec.Reads r r' :=
  record.read_write moves

end Record

/-- A record with the fields of another in front of its own.  The entries that have none
of its own keys are kept for the other. -/
structure Flattened (σ φ ι ρ : Type) where
  {Make : Type}
  make : ι → Make
  dflt : ρ
  part : Record σ φ ι
  get : ρ → ι
  fields : Fields σ φ ρ Make
  nodup : (part.fields.keys ++ fields.keys).Nodup
  complete : ∀ r, fields.build r (make (get r)) = r

namespace Flattened

def codec (record : Flattened σ φ ι ρ) : Codec σ φ ρ where
  enc r := .obj (record.part.fields.write (record.get r) ++ record.fields.write r)
  dec
    | .obj entries =>
        let kept := entries.filter fun entry => entry.1 ∉ record.fields.keys
        (record.part.fields.read record.part.dflt kept record.part.make).bind fun part =>
          record.fields.read record.dflt entries (record.make part)
    | _ => none

theorem reads (record : Flattened σ φ ι ρ) {r r' : ρ}
    (part : record.part.Moves (record.get r) (record.get r'))
    (moves : record.fields.Moves record.dflt r r') : record.codec.Reads r r' := by
  obtain ⟨_, ownNodup, disjoint⟩ := List.nodup_append.mp record.nodup
  have apart : ∀ entry ∈ record.part.fields.write (record.get r),
      entry.1 ∉ record.fields.keys := fun entry member own =>
    disjoint entry.1 (Fields.key_of_mem_write member) entry.1 own rfl
  have kept : (record.part.fields.write (record.get r) ++ record.fields.write r).filter
      (fun entry => entry.1 ∉ record.fields.keys) =
        record.part.fields.write (record.get r) := by
    rw [List.filter_append, List.filter_eq_self.mpr, List.filter_eq_nil_iff.mpr, List.append_nil]
    · intro entry member absent
      exact of_decide_eq_true absent (Fields.key_of_mem_write member)
    · exact fun entry member => decide_eq_true (apart entry member)
  have own := Fields.read_write ownNodup moves
    (record.part.fields.write (record.get r)) []
    (fun entry member => apart entry (by simpa using member)) (record.make (record.get r'))
  rw [List.append_nil, record.complete] at own
  unfold Codec.Reads codec
  dsimp only
  rw [kept, record.part.read_write part, Option.bind_some, own]

end Flattened

end Serde
