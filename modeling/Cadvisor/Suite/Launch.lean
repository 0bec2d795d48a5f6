import Cadvisor.Lib.Slice
import Cadvisor.Lib.Fallible
import Cadvisor.Suite.Workloads

/-!
# What the suite starts

A workload's pod runs the suite's own binary with a marker and a load as its arguments.  The
marker is made of the run's id and the workload's name, so that a command line carries the
marker of its own workload and of no other.
-/

set_option autoImplicit false

namespace Cadvisor

/-! ## The load -/

structure Load where
  cpuMillis : UInt32
  memMib : UInt32
  secs : UInt32
  oomAfter : Option UInt32
  limitMib : Option UInt32
  deriving DecidableEq

namespace Load

def idle (secs : UInt32) : Load := ⟨0, 0, secs, none, none⟩

def setting (key : String) (n : UInt32) : String := key ++ "=" ++ toString n.toNat

def args (l : Load) (marker : String) : List String :=
  ["workload", marker, setting "cpu" l.cpuMillis, setting "mem" l.memMib,
      setting "secs" l.secs] ++
    ((l.oomAfter.map (setting "oom_after")).toList ++ (l.limitMib.map (setting "limit")).toList)

inductive Error where
  | notKeyValue (arg : String)
  | notNumber (key value : String)
  | unknown (key : String)

/-- `quoted` is how a text is shown in a message. -/
def Error.message (quoted : String → String) : Error → String
  | notKeyValue arg => quoted arg ++ " is not key=value"
  | notNumber key value => key ++ ": " ++ quoted value ++ " is not a number"
  | unknown key => "unknown workload argument " ++ quoted key

def parseU32 (s : String) : Option UInt32 := (Str.parseUnsigned (2 ^ 32) s).map UInt32.ofNat

def put (l : Load) (arg : String) : Except Error Load :=
  match Str.splitOnce arg '=' with
  | none => .error (.notKeyValue arg)
  | some (key, value) =>
      match parseU32 value with
      | none => .error (.notNumber key value)
      | some n =>
          if key = "cpu" then .ok { l with cpuMillis := n }
          else if key = "mem" then .ok { l with memMib := n }
          else if key = "secs" then .ok { l with secs := n }
          else if key = "oom_after" then .ok { l with oomAfter := some n }
          else if key = "limit" then .ok { l with limitMib := some n }
          else .error (.unknown key)

def parse (args : List String) : Except Error Load := args.foldlM put (idle 0)

theorem parseU32_toString (n : UInt32) : parseU32 (toString n.toNat) = some n := by
  rw [parseU32, Str.parseUnsigned_nat, if_pos n.toNat_lt, Option.map_some, UInt32.ofNat_toNat]

theorem splitOnce_setting {key : String} (plain : '=' ∉ key.toList) (n : UInt32) :
    Str.splitOnce (setting key n) '=' = some (key, toString n.toNat) := by
  refine Str.splitOnce_eq_some_iff.mpr ⟨?_, plain⟩
  rw [setting, String.toList_append, String.toList_append, List.append_assoc]
  rfl

section

variable (l : Load) (n : UInt32)

theorem put_setting {key : String} (plain : '=' ∉ key.toList) :
    l.put (setting key n) =
      if key = "cpu" then .ok { l with cpuMillis := n }
      else if key = "mem" then .ok { l with memMib := n }
      else if key = "secs" then .ok { l with secs := n }
      else if key = "oom_after" then .ok { l with oomAfter := some n }
      else if key = "limit" then .ok { l with limitMib := some n }
      else .error (.unknown key) := by
  rw [put, splitOnce_setting plain]
  dsimp only
  rw [parseU32_toString]

@[simp] theorem put_cpu : l.put (setting "cpu" n) = .ok { l with cpuMillis := n } :=
  put_setting l n (by decide)

@[simp] theorem put_mem : l.put (setting "mem" n) = .ok { l with memMib := n } :=
  put_setting l n (by decide)

@[simp] theorem put_secs : l.put (setting "secs" n) = .ok { l with secs := n } :=
  put_setting l n (by decide)

@[simp] theorem put_oomAfter : l.put (setting "oom_after" n) = .ok { l with oomAfter := some n } :=
  put_setting l n (by decide)

@[simp] theorem put_limit : l.put (setting "limit" n) = .ok { l with limitMib := some n } :=
  put_setting l n (by decide)

end

/-- A load is read back from its arguments. -/
theorem parse_args (l : Load) (marker : String) : parse ((l.args marker).drop 2) = .ok l := by
  obtain ⟨cpuMillis, memMib, secs, oomAfter, limitMib⟩ := l
  have goesOn : ∀ (l' : Load) (f : Load → Except Error Load), (Except.ok l' >>= f) = f l' :=
    fun _ _ => rfl
  have always : ∀ rest : List String, (["cpu", "mem", "secs"].zipWith setting
      [cpuMillis, memMib, secs] ++ rest).foldlM put (idle 0) =
        rest.foldlM put ⟨cpuMillis, memMib, secs, none, none⟩ := by
    intro rest
    simp [goesOn, idle]
  cases oomAfter with
  | none =>
      cases limitMib with
      | none => exact always []
      | some mib => exact (always [setting "limit" mib]).trans (by simp [goesOn]; rfl)
  | some after =>
      cases limitMib with
      | none => exact (always [setting "oom_after" after]).trans (by simp [goesOn]; rfl)
      | some mib =>
          exact (always [setting "oom_after" after, setting "limit" mib]).trans
            (by simp [goesOn]; rfl)

end Load

/-! ## The binary -/

inductive Role where
  | workload (load : Except Load.Error Load)
  | oomChild (capMib : UInt32)
  | suite (arg : Option String)

/-- The arguments behind the binary's name. -/
def role (args : List String) : Role :=
  if args.head? = some "workload" then .workload (Load.parse (args.drop 2))
  else if args.head? = some "oomchild" then .oomChild ((args[1]?.bind Load.parseU32).getD 256)
  else .suite args.head?

def binary : String := "/test"

def podCommand (marker : String) (l : Load) : List String := binary :: l.args marker

/-- The command line of the child that allocates until it is killed. -/
def childCommand (capMib : UInt32) : List String :=
  [binary, "oomchild", toString capMib.toNat]

theorem role_podCommand (marker : String) (l : Load) :
    role (podCommand marker l).tail = .workload (.ok l) := by
  have first : (l.args marker).head? = some "workload" := rfl
  change role (l.args marker) = _
  rw [role, if_pos first, Load.parse_args]

theorem role_childCommand (capMib : UInt32) :
    role (childCommand capMib).tail = .oomChild capMib := by
  have first : ["oomchild", toString capMib.toNat].head? = some "oomchild" := rfl
  have second : ["oomchild", toString capMib.toNat][1]? = some (toString capMib.toNat) := rfl
  change role ["oomchild", toString capMib.toNat] = _
  rw [role, first, if_neg (by decide), if_pos rfl, second, Option.bind_some,
    Load.parseU32_toString, Option.getD_some]

/-! ## Names of a run -/

/-- The environment of a run, as far as names are made of it. -/
structure Env where
  runId : String

def labelChar (c : Char) : Char := if c.isAlphanum then c else '-'

namespace Env

/-- `none` is a cut inside a character. -/
def slug (e : Env) : Option String :=
  let mapped := String.ofList ((Str.asciiLowercase e.runId).toList.map labelChar)
  let trimmed := Str.trimMatches mapped (· == '-')
  (Slice.takeBytes (min (Slice.byteLen trimmed.toList) 30) trimmed.toList).map fun cut =>
    let name := Str.trimEndMatches (String.ofList cut) '-'
    if name = "" then "run" else name

def marker (e : Env) (what : String) : Option String :=
  e.slug.map fun slug => "cadvt-" ++ slug ++ "-" ++ what

def podName (e : Env) (what : String) : Option String :=
  e.slug.bind fun slug =>
    let name := ("w-" ++ slug ++ "-" ++ what).toList
    (Slice.takeBytes (min (Slice.byteLen name) 63) name).map fun cut =>
      Str.trimEndMatches (String.ofList cut) '-'

end Env

/-- Lower case letters, digits and dashes. -/
def IsLabelChar (c : Char) : Prop := c.isLower = true ∨ c.isDigit = true ∨ c = '-'

/-- What the cluster takes for a name. -/
structure IsLabel (cs : List Char) : Prop where
  nonempty : cs ≠ []
  chars : ∀ c ∈ cs, IsLabelChar c
  first : cs.head? ≠ some '-'
  last : cs.getLast? ≠ some '-'

theorem IsLabelChar.range {c : Char} (label : IsLabelChar c) : 0x21 ≤ c.toNat ∧ c.toNat ≤ 0x7E := by
  have code : c.toNat = c.val.toNat := rfl
  rcases label with lower | digit | rfl
  · have cases : (decide (97 ≤ c.val) && decide (c.val ≤ 122)) = true := lower
    simp [UInt32.le_iff_toNat_le] at cases
    omega
  · simp [Char.isDigit, UInt32.le_iff_toNat_le] at digit
    omega
  · decide

theorem IsLabelChar.ascii {c : Char} (label : IsLabelChar c) : c.toNat < 128 := by
  have := label.range
  omega

theorem isUpper_toLower (c : Char) : c.toLower.isUpper = false := by
  have isUpper : ∀ d : Char, d.isUpper = decide (65 ≤ d.val ∧ d.val ≤ 90) := fun _ => rfl
  rw [isUpper, decide_eq_false_iff_not, UInt32.le_iff_toNat_le, UInt32.le_iff_toNat_le]
  change ¬(65 ≤ c.toLower.val.toNat ∧ c.toLower.val.toNat ≤ 90)
  unfold Char.toLower
  split_ifs with upper
  · rw [ge_iff_le, UInt32.le_iff_toNat_le, UInt32.le_iff_toNat_le] at upper
    have range : 65 ≤ c.val.toNat ∧ c.val.toNat ≤ 90 := upper
    have shift : ('a'.val - 'A'.val).toNat = 32 := by decide
    change ¬(65 ≤ (c.val + ('a'.val - 'A'.val)).toNat ∧ (c.val + ('a'.val - 'A'.val)).toNat ≤ 90)
    rw [UInt32.toNat_add, shift]
    omega
  · rw [ge_iff_le, UInt32.le_iff_toNat_le, UInt32.le_iff_toNat_le] at upper
    exact upper

theorem isLabelChar_labelChar (c : Char) : IsLabelChar (labelChar c.toLower) := by
  unfold labelChar
  split_ifs with alnum
  · have cases : ((c.toLower.isUpper || c.toLower.isLower) || c.toLower.isDigit) = true := alnum
    rw [isUpper_toLower, Bool.false_or, Bool.or_eq_true] at cases
    exact cases.imp_right Or.inl
  · exact Or.inr (Or.inr rfl)

theorem getLast?_trimEndMatches (s : String) (c : Char) :
    (Str.trimEndMatches s c).toList.getLast? ≠ some c := by
  rw [Str.trimEndMatches, String.toList_ofList]
  change (s.toList.rdropWhile (· == c)).getLast? ≠ some c
  intro isLast
  have nonempty : s.toList.rdropWhile (· == c) ≠ [] := by
    intro empty
    rw [empty] at isLast
    cases isLast
  rw [List.getLast?_eq_some_getLast nonempty, Option.some.injEq] at isLast
  exact List.rdropWhile_last_not (· == c) s.toList nonempty (by simp [isLast])

theorem trimEndMatches_front (s : String) (c : Char) :
    (Str.trimEndMatches s c).toList <+: s.toList := by
  rw [Str.trimEndMatches, String.toList_ofList]
  exact List.rdropWhile_prefix (· == c) s.toList

theorem toList_trimMatches (s : String) (strip : Char → Bool) :
    (Str.trimMatches s strip).toList = (s.toList.dropWhile strip).rdropWhile strip := by
  rw [Str.trimMatches, String.toList_ofList]
  rfl

theorem mem_of_mem_trimMatches {s : String} {strip : Char → Bool} {c : Char}
    (member : c ∈ (Str.trimMatches s strip).toList) : c ∈ s.toList := by
  rw [toList_trimMatches] at member
  exact (List.dropWhile_suffix _).subset ((List.rdropWhile_prefix _ _).subset member)

theorem head?_trimMatches {s : String} {strip : Char → Bool} {c : Char}
    (stripped : strip c = true) : (Str.trimMatches s strip).toList.head? ≠ some c := by
  rw [toList_trimMatches]
  intro isFirst
  obtain ⟨rest, isAll⟩ := List.rdropWhile_prefix strip (s.toList.dropWhile strip)
  have nonempty : (s.toList.dropWhile strip).rdropWhile strip ≠ [] := by
    intro empty
    rw [empty] at isFirst
    cases isFirst
  have stops := List.head?_dropWhile_not strip s.toList
  rw [← isAll, List.head?_append_of_ne_nil _ nonempty, isFirst] at stops
  have kept : strip c = false := stops
  rw [stripped] at kept
  cases kept

/-- A cut of a text of label characters that starts with a letter or a digit, with the dashes
at its end taken off. -/
theorem isLabel_trimmed {cs : List Char} (chars : ∀ c ∈ cs, IsLabelChar c)
    (first : cs.head? ≠ some '-') {n : Nat}
    (left : (Str.trimEndMatches (String.ofList (cs.take n)) '-').toList ≠ []) :
    IsLabel (Str.trimEndMatches (String.ofList (cs.take n)) '-').toList := by
  have kept := trimEndMatches_front (String.ofList (cs.take n)) '-'
  rw [String.toList_ofList] at kept
  have isPrefix := kept.trans (List.take_prefix n cs)
  constructor
  · exact left
  · exact fun c member => chars c (isPrefix.subset member)
  · obtain ⟨rest, isAll⟩ := isPrefix
    rw [← isAll, List.head?_append_of_ne_nil _ left] at first
    exact first
  · exact getLast?_trimEndMatches _ _

theorem isLabel_run : IsLabel "run".toList where
  nonempty := by decide
  chars := by
    change ∀ c ∈ ['r', 'u', 'n'], IsLabelChar c
    refine List.forall_mem_cons.mpr ⟨Or.inl (by decide), ?_⟩
    refine List.forall_mem_cons.mpr ⟨Or.inl (by decide), ?_⟩
    exact List.forall_mem_singleton.mpr (Or.inl (by decide))
  first := by decide
  last := by decide

namespace Env

theorem slug_label (e : Env) :
    ∃ slug, e.slug = some slug ∧ IsLabel slug.toList ∧ slug.toList.length ≤ 30 := by
  obtain ⟨trimmed, isTrimmed⟩ : ∃ trimmed, Str.trimMatches
      (String.ofList ((Str.asciiLowercase e.runId).toList.map labelChar)) (· == '-') = trimmed :=
    ⟨_, rfl⟩
  have chars : ∀ c ∈ trimmed.toList, IsLabelChar c := by
    intro c member
    rw [← isTrimmed] at member
    have inMapped := mem_of_mem_trimMatches member
    rw [String.toList_ofList, Str.asciiLowercase, String.toList_ofList, List.map_map] at inMapped
    obtain ⟨d, _, rfl⟩ := List.mem_map.mp inMapped
    exact isLabelChar_labelChar d
  have first : trimmed.toList.head? ≠ some '-' := by
    rw [← isTrimmed]
    exact head?_trimMatches rfl
  have ascii : ∀ c ∈ trimmed.toList, c.toNat < 128 := fun c member => (chars c member).ascii
  have cut := Slice.takeBytes_of_ascii ascii (Nat.min_le_left trimmed.toList.length 30)
  rw [← Slice.byteLen_of_ascii ascii] at cut
  have isSlug : e.slug = some (if Str.trimEndMatches (String.ofList (trimmed.toList.take
      (min (Slice.byteLen trimmed.toList) 30))) '-' = "" then "run"
        else Str.trimEndMatches (String.ofList (trimmed.toList.take
          (min (Slice.byteLen trimmed.toList) 30))) '-') := by
    unfold slug
    dsimp only
    rw [isTrimmed, cut, Option.map_some]
  refine ⟨_, isSlug, ?_⟩
  split_ifs with empty
  · exact ⟨isLabel_run, by decide⟩
  · refine ⟨isLabel_trimmed chars first fun none => empty (String.toList_injective none), ?_⟩
    have short := (trimEndMatches_front (String.ofList (trimmed.toList.take
      (min (Slice.byteLen trimmed.toList) 30))) '-').length_le
    rw [String.toList_ofList, List.length_take] at short
    omega

theorem marker_eq (e : Env) :
    ∃ slug, IsLabel slug.toList ∧
      ∀ what, e.marker what = some ("cadvt-" ++ slug ++ "-" ++ what) := by
  obtain ⟨slug, isSlug, label, _⟩ := e.slug_label
  refine ⟨slug, label, fun what => ?_⟩
  rw [marker, isSlug, Option.map_some]

theorem podName_label (e : Env) {what : String} (chars : ∀ c ∈ what.toList, IsLabelChar c) :
    ∃ name, e.podName what = some name ∧ IsLabel name.toList ∧ name.toList.length ≤ 63 := by
  obtain ⟨slug, isSlug, label, _⟩ := e.slug_label
  obtain ⟨cs, isName⟩ : ∃ cs, ("w-" ++ slug ++ "-" ++ what).toList = cs := ⟨_, rfl⟩
  have spelled : cs = 'w' :: '-' :: (slug.toList ++ '-' :: what.toList) := by
    rw [← isName]
    simp
  have allChars : ∀ c ∈ cs, IsLabelChar c := by
    intro c member
    rw [spelled, List.mem_cons, List.mem_cons, List.mem_append, List.mem_cons] at member
    rcases member with rfl | rfl | inSlug | rfl | inWhat
    · exact Or.inl (by decide)
    · exact Or.inr (Or.inr rfl)
    · exact label.chars c inSlug
    · exact Or.inr (Or.inr rfl)
    · exact chars c inWhat
  have ascii : ∀ c ∈ cs, c.toNat < 128 := fun c member => (allChars c member).ascii
  have cut := Slice.takeBytes_of_ascii ascii (Nat.min_le_left cs.length 63)
  have isPod : e.podName what = some (Str.trimEndMatches (String.ofList
      (cs.take (min cs.length 63))) '-') := by
    rw [podName, isSlug, Option.bind_some]
    dsimp only
    rw [isName, Slice.byteLen_of_ascii ascii, cut, Option.map_some]
  have first : cs.head? = some 'w' := by
    rw [spelled]
    rfl
  have short := (trimEndMatches_front (String.ofList (cs.take (min cs.length 63))) '-').length_le
  rw [String.toList_ofList, List.length_take] at short
  refine ⟨_, isPod, isLabel_trimmed allChars (by rw [first]; decide) ?_, by omega⟩
  -- The first character is no dash, so that something is left.
  rw [Str.trimEndMatches, String.toList_ofList, String.toList_ofList]
  change (cs.take (min cs.length 63)).rdropWhile (· == '-') ≠ []
  rw [ne_eq, List.rdropWhile_eq_nil_iff]
  intro dashes
  have start : 'w' ∈ cs.take (min cs.length 63) := by
    have positive : 0 < cs.length := by
      rw [spelled]
      exact Nat.succ_pos _
    obtain ⟨n, isSucc⟩ : ∃ n, min cs.length 63 = n + 1 := ⟨min cs.length 63 - 1, by omega⟩
    rw [isSucc, spelled, List.take_succ_cons]
    exact List.mem_cons_self
  exact absurd (dashes 'w' start) (by decide)

end Env

/-! ## Whose marker a command line carries -/

/-- The first characters of a marker. -/
def Marked (m : String) : Prop := ['c', 'a'] <+: m.toList

theorem marker_notMem {arg : String} (plain : ∀ c ∈ arg.toList, Str.isWhitespace c = false)
    (other : arg.toList.take 2 ≠ ['c', 'a']) {m : String} (marked : Marked m) :
    m ∉ Str.splitWhitespace arg := by
  intro member
  rw [Str.splitWhitespace_eq] at member
  by_cases empty : arg.toList = []
  · rw [empty] at member
    cases member
  · rw [Str.words_of_plain empty plain, List.map_singleton, List.mem_singleton,
      String.ofList_toList] at member
    rw [Marked, member] at marked
    exact other (List.prefix_iff_eq_take.mp marked).symm

theorem marker_mem {marker : String} (plain : ∀ c ∈ marker.toList, Str.isWhitespace c = false)
    {m : String} :
    m ∈ Str.splitWhitespace marker ↔ marker.toList ≠ [] ∧ m = marker := by
  by_cases empty : marker.toList = []
  · rw [Str.splitWhitespace_eq, empty]
    simp [Str.words_nil]
  · rw [Str.splitWhitespace_eq, Str.words_of_plain empty plain, List.map_singleton,
      List.mem_singleton, String.ofList_toList]
    simp [empty]

theorem setting_plain {key : String} (plain : ∀ c ∈ key.toList, Str.isWhitespace c = false)
    (n : UInt32) : ∀ c ∈ (Load.setting key n).toList, Str.isWhitespace c = false := by
  intro c member
  rw [Load.setting, String.toList_append, String.toList_append, List.mem_append,
    List.mem_append] at member
  rcases member with (inKey | isEquals) | isDigit
  · exact plain c inKey
  · rw [List.mem_singleton.mp isEquals]
    decide
  · exact Str.toString_black n.toNat c isDigit

theorem marker_notMem_setting {key : String}
    (plain : key.toList.all (fun c => !Str.isWhitespace c) = true)
    (other : 2 ≤ key.toList.length ∧ key.toList.take 2 ≠ ['c', 'a']) (n : UInt32) {m : String}
    (marked : Marked m) : m ∉ Str.splitWhitespace (Load.setting key n) := by
  refine marker_notMem (setting_plain (Str.black_of_all plain) n) ?_ marked
  rw [Load.setting, String.toList_append, String.toList_append, List.append_assoc,
    List.take_append_of_le_length other.1]
  exact other.2

theorem mem_podCommand {marker : String}
    (plain : ∀ c ∈ marker.toList, Str.isWhitespace c = false) (l : Load) {m : String}
    (marked : Marked m) :
    (∃ arg ∈ podCommand marker l, m ∈ Str.splitWhitespace arg) ↔ m = marker := by
  constructor
  · rintro ⟨arg, isArg, isWord⟩
    simp only [podCommand, Load.args, List.mem_cons, List.mem_append, List.not_mem_nil, or_false,
      Option.mem_toList, Option.map_eq_some_iff] at isArg
    rcases isArg with rfl | (rfl | rfl | rfl | rfl | rfl) | ⟨n, _, rfl⟩ | ⟨n, _, rfl⟩
    · exact absurd isWord (marker_notMem (Str.black_of_all rfl) (by decide) marked)
    · exact absurd isWord (marker_notMem (Str.black_of_all rfl) (by decide) marked)
    · exact ((marker_mem plain).mp isWord).2
    · exact absurd isWord (marker_notMem_setting rfl (by decide) _ marked)
    · exact absurd isWord (marker_notMem_setting rfl (by decide) _ marked)
    · exact absurd isWord (marker_notMem_setting rfl (by decide) _ marked)
    · exact absurd isWord (marker_notMem_setting rfl (by decide) _ marked)
    · exact absurd isWord (marker_notMem_setting rfl (by decide) _ marked)
  · rintro rfl
    refine ⟨m, List.mem_cons_of_mem _ (List.mem_cons_of_mem _ List.mem_cons_self), ?_⟩
    refine (marker_mem plain).mpr ⟨?_, rfl⟩
    intro empty
    rw [Marked, empty] at marked
    exact absurd marked (by decide)

theorem notMem_childCommand (capMib : UInt32) {m : String} (marked : Marked m) :
    ∀ arg ∈ childCommand capMib, m ∉ Str.splitWhitespace arg := by
  have digits : (toString capMib.toNat).toList.take 2 ≠ ['c', 'a'] := by
    intro isMark
    have inDigits : 'c' ∈ (toString capMib.toNat).toList := by
      refine List.mem_of_mem_take (i := 2) ?_
      rw [isMark]
      exact List.mem_cons_self
    exact Str.notMem_toString_nat (by decide) _ inDigits
  unfold childCommand
  simp only [List.forall_mem_cons]
  refine ⟨?_, ?_, ?_, List.forall_mem_nil _⟩
  · exact marker_notMem (Str.black_of_all rfl) (by decide) marked
  · exact marker_notMem (Str.black_of_all rfl) (by decide) marked
  · exact marker_notMem (Str.toString_black _) digits marked

def Env.markers (e : Env) (loads : List (String × Load)) : Option (List String) :=
  loads.mapM fun l => e.marker l.1

/-- The markers of a run are a common front with the workloads' names behind it. -/
structure Env.Spells (e : Env) (front : String) : Prop where
  marked : Marked front
  black : ∀ c ∈ front.toList, Str.isWhitespace c = false
  isMarker : ∀ what, e.marker what = some (front ++ what)

theorem Env.exists_spells (e : Env) : ∃ front, e.Spells front := by
  obtain ⟨slug, label, isMarker⟩ := e.marker_eq
  refine ⟨"cadvt-" ++ slug ++ "-", ?_, ?_, isMarker⟩
  · rw [Marked, String.toList_append, String.toList_append]
    exact ⟨_, rfl⟩
  · intro c member
    rw [String.toList_append, String.toList_append, List.mem_append, List.mem_append] at member
    rcases member with (inStart | inSlug) | isDash
    · exact Str.black_of_all (by decide) c inStart
    · obtain ⟨low, high⟩ := (label.chars c inSlug).range
      exact Str.black_of_graphic low high
    · exact Str.black_of_all (by decide) c isDash

namespace Env.Spells

variable {e : Env} {front : String}

theorem marked_append (spells : e.Spells front) (what : String) : Marked (front ++ what) := by
  rw [Marked, String.toList_append]
  exact spells.marked.trans (List.prefix_append _ _)

theorem append_black (spells : e.Spells front) {what : String}
    (plain : ∀ c ∈ what.toList, Str.isWhitespace c = false) :
    ∀ c ∈ (front ++ what).toList, Str.isWhitespace c = false := by
  intro c member
  rw [String.toList_append, List.mem_append] at member
  exact member.elim (spells.black c) (plain c)

theorem markers_eq (spells : e.Spells front) (loads : List (String × Load)) :
    e.markers loads = some (loads.map fun l => front ++ l.1) := by
  rw [markers, Traverse.mapM_eq_some_iff, List.map_map]
  exact List.map_congr_left fun l _ => spells.isMarker l.1

end Env.Spells

theorem append_left_cancel {front what what' : String} (same : front ++ what = front ++ what') :
    what = what' := by
  have lists := congrArg String.toList same
  rw [String.toList_append, String.toList_append] at lists
  exact String.toList_injective (List.append_cancel_left lists)

namespace Cad

open Serde

/-- The command lines in a container: of the workload that is at home there, of its child, or
of processes that have nothing to do with the run. -/
def OfRun (e : Env) (loads : List (String × Load)) (home : String → String) (name : String)
    (args : List String) : Prop :=
  (∃ l ∈ loads, home l.1 = name ∧ ∃ m, e.marker l.1 = some m ∧ args = podCommand m l.2) ∨
    (∃ capMib, args = childCommand capMib) ∨
      ∀ arg ∈ args, ∀ word ∈ Str.splitWhitespace arg, ¬ Marked word

theorem OfRun.home_eq {e : Env} {front : String} (spells : e.Spells front)
    {loads : List (String × Load)}
    (plain : ∀ l ∈ loads, ∀ c ∈ l.1.toList, Str.isWhitespace c = false)
    {home : String → String} {name : String} {args : List String}
    (ofRun : OfRun e loads home name args) {arg : String} (inArgs : arg ∈ args) {what : String}
    (isWord : front ++ what ∈ Str.splitWhitespace arg) : home what = name := by
  have marked := spells.marked_append what
  rcases ofRun with ⟨l, inLoads, atHome, m, isOwn, isPod⟩ | ⟨capMib, isChild⟩ | other
  · cases (spells.isMarker l.1).symm.trans isOwn
    rw [isPod] at inArgs
    have own := (mem_podCommand (spells.append_black (plain l inLoads)) l.2 marked).mp
      ⟨arg, inArgs, isWord⟩
    rw [append_left_cancel own]
    exact atHome
  · rw [isChild] at inArgs
    exact absurd isWord (notMem_childCommand capMib marked arg inArgs)
  · exact absurd marked (other arg inArgs _ isWord)

variable {percentDecode : String → Option String} {t : ApiText} {w : PayloadText}

/-- The workloads that the suite starts are found where they run. -/
theorem find_loads (decodes : Decodes percentDecode) (parse : String → Option Value)
    {watches : List Watch}
    (requestable : ∀ s ∈ watches, ∀ k ∈ s.listing.1.manager.containers.names, Requestable k)
    (e : Env) {loads : List (String × Load)}
    (plain : ∀ l ∈ loads, ∀ c ∈ l.1.toList, Str.isWhitespace c = false)
    {before : List String} {deadline : Int} {home : String → String}
    (apart : ∀ l ∈ loads, ∀ l' ∈ loads, home l.1 = home l'.1 → l.1 = l'.1)
    (own : ∀ s ∈ watches, ∀ name, s.Registered name → name ∉ before →
      s.ListsOnly name (OfRun e loads home name))
    (running : ∀ s ∈ watches, deadline ≤ s.ended → ∀ l ∈ loads,
      s.Registered (home l.1) ∧ home l.1 ∉ before ∧ ∃ procs, s.Holds (home l.1) procs ∧
        ∃ p ∈ procs, ∃ m, e.marker l.1 = some m ∧ p.2 = podCommand m l.2)
    {markers : List String} (isMarkers : e.markers loads = some markers) :
    ((∃ s ∈ watches, deadline ≤ s.ended) →
        (find parse markers before deadline
          (watches.map (Watch.turn percentDecode t w))).isSome = true) ∧
      ∀ found, find parse markers before deadline
          (watches.map (Watch.turn percentDecode t w)) = some found →
        ∀ what name, (∃ f ∈ found, e.marker what = some f.marker ∧ f.name = name) ↔
          what ∈ loads.map Prod.fst ∧ name = home what := by
  constructor
  · rintro ⟨s, member, late⟩
    exact findFrom_isSome ⟨_, List.mem_map_of_mem member, late⟩ []
  intro found returns what name
  obtain ⟨front, spells⟩ := e.exists_spells
  cases (spells.markers_eq loads).symm.trans isMarkers
  -- Where the workload of a marker is at home.
  obtain ⟨homeOf, isHome⟩ : ∃ homeOf : String → String,
      ∀ what, homeOf (front ++ what) = home what := by
    refine ⟨fun m => home (String.ofList (m.toList.drop front.toList.length)), fun what => ?_⟩
    dsimp only
    rw [String.toList_append, List.drop_left, String.ofList_toList]
  have start : Matched parse (loads.map fun l => front ++ l.1) before [] [] :=
    ⟨List.nodup_nil, List.nodup_nil, List.forall_mem_nil _⟩
  obtain ⟨matched, ends⟩ := findFrom_returns start returns
  rw [List.nil_append] at matched
  have atHome : ∀ f ∈ found, f.marker ∈ loads.map (fun l => front ++ l.1) ∧
      f.name = homeOf f.marker := found_at_home decodes parse requestable ?own matched
  have all := found_all decodes parse requestable ?apart ?running matched atHome ends
  case own =>
    intro s member name registered new row inRows
    obtain ⟨args, noNul, isCommand, ofRun⟩ := own s member name registered new row inRows
    refine ⟨args, noNul, isCommand, fun arg inArgs m isMark isWord => ?_⟩
    obtain ⟨l, _, rfl⟩ := List.mem_map.mp isMark
    rw [isHome]
    exact ofRun.home_eq spells plain inArgs isWord
  case apart =>
    intro m isMark m' isMark' sameHome
    obtain ⟨l, inLoads, rfl⟩ := List.mem_map.mp isMark
    obtain ⟨l', inLoads', rfl⟩ := List.mem_map.mp isMark'
    rw [isHome, isHome] at sameHome
    rw [apart l inLoads l' inLoads' sameHome]
  case running =>
    intro s member late m isMark
    obtain ⟨l, inLoads, rfl⟩ := List.mem_map.mp isMark
    rw [isHome]
    obtain ⟨registered, new, procs, holds, p, inProcs, m, isOwn, isPod⟩ :=
      running s member late l inLoads
    cases (spells.isMarker l.1).symm.trans isOwn
    refine ⟨registered, new, procs, holds, p, inProcs, ?_⟩
    rw [isPod]
    exact (mem_podCommand (spells.append_black (plain l inLoads)) l.2
      (spells.marked_append l.1)).mpr rfl
  constructor
  · rintro ⟨f, inFound, isOwn, rfl⟩
    obtain ⟨isMark, named⟩ := atHome f inFound
    obtain ⟨l, inLoads, isFound⟩ := List.mem_map.mp isMark
    have isWhat := Option.some.inj ((spells.isMarker what).symm.trans isOwn)
    rw [append_left_cancel (isWhat.trans isFound.symm), named, ← isFound, isHome]
    exact ⟨List.mem_map_of_mem inLoads, rfl⟩
  · rintro ⟨isWhat, rfl⟩
    obtain ⟨l, inLoads, rfl⟩ := List.mem_map.mp isWhat
    obtain ⟨f, inFound, isFound⟩ :=
      List.mem_map.mp (all (front ++ l.1) (List.mem_map.mpr ⟨l, inLoads, rfl⟩))
    refine ⟨f, inFound, (spells.isMarker l.1).trans (congrArg some isFound.symm), ?_⟩
    rw [(atHome f inFound).2, isFound, isHome]

/-! ## Two launches -/

def launchEnv : Env := ⟨"R_1"⟩

theorem launchEnv_markers :
    launchEnv.marker "a" = some "cadvt-r-1-a" ∧ launchEnv.marker "b" = some "cadvt-r-1-b" := by
  decide +kernel

def launchLoad : Load := { Load.idle 30 with cpuMillis := 250, limitMib := some 64 }

def firstCommand : List String := podCommand "cadvt-r-1-a" launchLoad

def secondCommand : List String := podCommand "cadvt-r-1-b" (Load.idle 60)

theorem commands_noNul : (∀ arg ∈ firstCommand, Char.ofNat 0 ∉ arg.toList) ∧
    ∀ arg ∈ secondCommand, Char.ofNat 0 ∉ arg.toList := by
  decide +kernel

def launchWatches : List Watch := twoWatches firstCommand secondCommand

def launchLoads : List (String × Load) := [("a", launchLoad), ("b", Load.idle 60)]

def launchHome (what : String) : String := if what = "a" then "/a" else "/a/b"

theorem launchLoads_markers :
    launchEnv.markers launchLoads = some ["cadvt-r-1-a", "cadvt-r-1-b"] := by
  rw [Env.markers, Traverse.mapM_eq_some_iff, launchLoads]
  simp only [List.map_cons, List.map_nil, launchEnv_markers]

theorem find_loads_launch : ∃ found,
    find (fun _ => none) ["cadvt-r-1-a", "cadvt-r-1-b"] ["/", "/ab"] 2
        (launchWatches.map (Watch.turn plainDecode plainText civilText)) = some found ∧
      (∃ f ∈ found, launchEnv.marker "a" = some f.marker ∧ f.name = "/a") ∧
        ∃ f ∈ found, launchEnv.marker "b" = some f.marker ∧ f.name = "/a/b" := by
  have all := @find_loads plainDecode plainText civilText decodes_plainDecode (fun _ => none)
    launchWatches requestable_twoWatches launchEnv launchLoads ?plain ["/", "/ab"] 2 launchHome
    ?apart ?own ?running _ launchLoads_markers
  · obtain ⟨found, returns⟩ := Option.isSome_iff_exists.mp
      (all.1 ⟨_, List.mem_cons_of_mem _ (List.mem_singleton_self _), le_rfl⟩)
    have inFound := all.2 found returns
    exact ⟨found, returns, (inFound "a" "/a").mpr (by decide),
      (inFound "b" "/a/b").mpr (by decide)⟩
  case plain =>
    exact List.forall_mem_cons.mpr
      ⟨Str.black_of_all rfl, List.forall_mem_singleton.mpr (Str.black_of_all rfl)⟩
  case apart =>
    refine List.forall_mem_cons.mpr ⟨List.forall_mem_cons.mpr ⟨fun _ => rfl, ?_⟩,
      List.forall_mem_singleton.mpr (List.forall_mem_cons.mpr ⟨?_, ?_⟩)⟩
    · exact List.forall_mem_singleton.mpr fun same => absurd same (by decide)
    · exact fun same => absurd same (by decide)
    · exact List.forall_mem_singleton.mpr fun _ => rfl
  case own =>
    refine twoWatches_listsOnly (OfRun launchEnv launchLoads launchHome) commands_noNul.1
      commands_noNul.2 ?_ ?_
    · exact Or.inl ⟨_, List.mem_cons_self, rfl, _, launchEnv_markers.1, rfl⟩
    · exact Or.inl ⟨_, List.mem_cons_of_mem _ (List.mem_singleton_self _), rfl, _,
        launchEnv_markers.2, rfl⟩
  case running =>
    refine List.forall_mem_cons.mpr ⟨fun late => absurd late (by decide),
      List.forall_mem_singleton.mpr fun _ => ?_⟩
    refine List.forall_mem_cons.mpr ⟨?_, List.forall_mem_singleton.mpr ?_⟩
    · exact ⟨⟨by decide, by decide⟩, by decide, _, twoWatch_holds_first commands_noNul.1, _,
        List.mem_singleton_self _, _, launchEnv_markers.1, rfl⟩
    · exact ⟨⟨by decide, by decide⟩, by decide, _, twoWatch_holds_second commands_noNul.2, _,
        List.mem_singleton_self _, _, launchEnv_markers.2, rfl⟩

end Cad

end Cadvisor
