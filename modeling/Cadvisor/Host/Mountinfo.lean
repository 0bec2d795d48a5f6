import Cadvisor.Host.Parse
import Cadvisor.Lib.Fields

/-!
# The mount table as the kernel prints it

The kernel writes a space, tab, line feed or backslash of a name as three octal
digits, and the parser keeps them as they are.  A row has the mount's own names
as long as there is nothing to write so in them, and nothing that splits a word.
-/

set_option autoImplicit false

namespace Cadvisor

def mangleChar (c : Char) : List Char :=
  if c = ' ' then ['\\', '0', '4', '0']
  else if c = '\t' then ['\\', '0', '1', '1']
  else if c = '\n' then ['\\', '0', '1', '2']
  else if c = '\\' then ['\\', '1', '3', '4']
  else [c]

def mangle (name : String) : List Char := name.toList.flatMap mangleChar

/-- A field that the kernel makes up itself. -/
def FieldWord (s : String) : Prop :=
  s ≠ "" ∧ s ≠ "-" ∧ ∀ c ∈ s.toList, Str.isWhitespace c = false

theorem fieldWord_of_all {s : String} (nonempty : s ≠ "") (notDash : s ≠ "-")
    (black : (s.toList.all fun c => !Str.isWhitespace c) = true) : FieldWord s := by
  refine ⟨nonempty, notDash, fun c member => ?_⟩
  simpa using List.all_eq_true.mp black c member

/-- A mount.  Its root is a path, or a name such as that of a namespace; its
mountpoint is an absolute path. -/
structure Mount where
  id : Nat
  parent : Nat
  major : UInt64
  minor : UInt64
  root : String
  mountpoint : String
  options : String
  optional : List String
  fsType : String
  source : String
  superOptions : String
  rootNamed : ∃ c rest, root.toList = c :: rest ∧ (c = '/' ∨ c.isAlpha = true)
  mountpointAbsolute : ∃ rest, mountpoint.toList = '/' :: rest
  optionsWord : FieldWord options
  optionalWords : ∀ field ∈ optional, FieldWord field
  fsTypeNamed : fsType ≠ ""
  sourceNamed : source ≠ ""
  superOptionsOneLine : '\n' ∉ superOptions.toList

namespace Mount

def fields (m : Mount) : List (List Char) :=
  (toString m.parent).toList ::
    ((toString m.major.toNat).toList ++ ':' :: (toString m.minor.toNat).toList) ::
      mangle m.root :: mangle m.mountpoint :: m.options.toList :: m.optional.map String.toList

def behind (m : Mount) (rest : List Char) : List Char :=
  mangle m.fsType ++ ' ' :: (mangle m.source ++ ' ' :: rest)

def line (m : Mount) : List Char :=
  (toString m.id).toList ++ (Str.spaced m.fields ++
    ' ' :: '-' :: ' ' :: m.behind m.superOptions.toList)

def row (m : Mount) : Parse.MountInfoLine :=
  { major := m.major
    minor := m.minor
    mountpoint := m.mountpoint
    fsType := m.fsType
    source := m.source }

def table (mounts : List Mount) : String :=
  String.ofList ((mounts.map line).flatMap fun line => line ++ ['\n'])

end Mount

/-- Nothing to escape, and nothing that splits a word. -/
def PlainField (name : String) : Prop :=
  ∀ c ∈ name.toList, Str.isWhitespace c = false ∧ c ≠ '\\'

/-- The names come through: type and source are plain, and the mountpoint is where
it is expected, or the root's second word is the same text. -/
def Mount.Restored (m : Mount) : Prop :=
  PlainField m.fsType ∧ PlainField m.source ∧
    ((Str.words (mangle m.root)).length = 1 ∧ PlainField m.mountpoint ∨
      (Str.words (mangle m.root))[1]? = some m.mountpoint.toList)

/-! ## Escaped names -/

theorem mangleChar_plain {c : Char} (black : Str.isWhitespace c = false) (notBackslash : c ≠ '\\') :
    mangleChar c = [c] := by
  have differs : ∀ d, Str.isWhitespace d = true → c ≠ d := by
    intro d white same
    rw [← same, black] at white
    cases white
  unfold mangleChar
  rw [if_neg (differs ' ' (by decide)), if_neg (differs '\t' (by decide)),
    if_neg (differs '\n' (by decide)), if_neg notBackslash]

theorem mangle_plain {name : String} (plain : PlainField name) : mangle name = name.toList := by
  unfold mangle
  rw [List.flatMap_congr fun c member => mangleChar_plain (plain c member).1 (plain c member).2]
  exact List.flatMap_singleton' name.toList

theorem mem_mangleChar_white {c d : Char} (member : c ∈ mangleChar d)
    (white : Str.isWhitespace c = true) : c = d ∧ mangleChar d = [d] := by
  have escape : ∀ code : List Char, (code.all fun e => !Str.isWhitespace e) = true → c ∉ code := by
    intro code black
    apply Str.white_notMem_of_black white
    simpa using List.all_eq_true.mp black
  unfold mangleChar at member ⊢
  split_ifs at member ⊢
  · exact absurd member (escape ['\\', '0', '4', '0'] (by decide))
  · exact absurd member (escape ['\\', '0', '1', '1'] (by decide))
  · exact absurd member (escape ['\\', '0', '1', '2'] (by decide))
  · exact absurd member (escape ['\\', '1', '3', '4'] (by decide))
  · exact ⟨List.mem_singleton.mp member, rfl⟩

theorem mem_of_mem_mangle {name : String} {c : Char} (member : c ∈ mangle name)
    (white : Str.isWhitespace c = true) : c ∈ name.toList := by
  obtain ⟨d, inName, inChar⟩ := List.mem_flatMap.mp member
  rw [(mem_mangleChar_white inChar white).1]
  exact inName

theorem notMem_mangle {c : Char} (white : Str.isWhitespace c = true)
    (escaped : mangleChar c ≠ [c]) (name : String) : c ∉ mangle name := by
  intro member
  obtain ⟨d, _, inChar⟩ := List.mem_flatMap.mp member
  obtain ⟨same, kept⟩ := mem_mangleChar_white inChar white
  rw [← same] at kept
  exact escaped kept

theorem length_mangleChar (c : Char) :
    1 ≤ (mangleChar c).length ∧ (c = '\\' → (mangleChar c).length = 4) := by
  constructor
  · unfold mangleChar
    split_ifs <;> simp
  · rintro rfl
    rfl

theorem no_backslash_of_length (cs : List Char) :
    cs.length ≤ (cs.flatMap mangleChar).length ∧
      ((cs.flatMap mangleChar).length = cs.length → ∀ c ∈ cs, c ≠ '\\') := by
  induction cs with
  | nil => exact ⟨Nat.le_refl 0, fun _ c member => absurd member List.not_mem_nil⟩
  | cons c rest ih =>
      obtain ⟨atLeast, four⟩ := length_mangleChar c
      rw [List.flatMap_cons, List.length_append, List.length_cons]
      refine ⟨by omega, fun same d member => ?_⟩
      rcases List.mem_cons.mp member with rfl | inRest
      · intro isBackslash
        have := four isBackslash
        omega
      · exact ih.2 (by omega) d inRest

theorem head_words_mangle {name : String} (named : name ≠ "") {more : List (List Char)}
    (black : ∀ word ∈ more, ∀ c ∈ word, Str.isWhitespace c = false) :
    (Str.words (mangle name) ++ more).head? = some name.toList ↔ PlainField name := by
  have nonempty : name.toList ≠ [] := fun empty => named (String.toList_eq_nil_iff.mp empty)
  constructor
  · intro first
    have nameBlack : ∀ c ∈ name.toList, Str.isWhitespace c = false := by
      rcases List.mem_append.mp (List.mem_of_head? first) with inName | inMore
      · exact (Str.word_plain inName).2
      · exact black _ inMore
    have written : ∀ c ∈ mangle name, Str.isWhitespace c = false := by
      intro c member
      by_contra white
      have isWhite : Str.isWhitespace c = true := by simpa using white
      exact white (nameBlack c (mem_of_mem_mangle member isWhite))
    have atLeast := (no_backslash_of_length name.toList).1
    have writtenNonempty : mangle name ≠ [] := by
      intro empty
      rw [mangle] at empty
      rw [empty] at atLeast
      exact nonempty (List.length_eq_zero_iff.mp (Nat.le_zero.mp atLeast))
    rw [Str.words_of_plain writtenNonempty written, List.singleton_append, List.head?_cons,
      Option.some.injEq] at first
    have noBackslash := (no_backslash_of_length name.toList).2 (congrArg List.length first)
    exact fun c member => ⟨nameBlack c member, noBackslash c member⟩
  · intro plain
    rw [mangle_plain plain, Str.words_of_plain nonempty fun c member => (plain c member).1]
    rfl

/-! ## One line -/

theorem mangle_starts {name : String} {c : Char} {rest : List Char}
    (spelled : name.toList = c :: rest) (black : Str.isWhitespace c = false)
    (notBackslash : c ≠ '\\') : ∃ more, mangle name = c :: more := by
  rw [mangle, spelled, List.flatMap_cons, mangleChar_plain black notBackslash]
  exact ⟨_, rfl⟩

namespace Mount

theorem mangle_root (m : Mount) :
    ∃ c more, mangle m.root = c :: more ∧ Str.isWhitespace c = false ∧ c ≠ '-' := by
  obtain ⟨c, rest, spelled, start⟩ := m.rootNamed
  have kind : Str.isWhitespace c = false ∧ c ≠ '\\' ∧ c ≠ '-' := by
    rcases start with rfl | letter
    · exact ⟨by decide, by decide, by decide⟩
    · refine ⟨Str.black_of_isAlpha letter, ?_, ?_⟩
      · rintro rfl
        exact absurd letter (by decide)
      · rintro rfl
        exact absurd letter (by decide)
  obtain ⟨more, written⟩ := mangle_starts spelled kind.1 kind.2.1
  exact ⟨c, more, written, kind.1, kind.2.2⟩

theorem mangle_mountpoint (m : Mount) : ∃ more, mangle m.mountpoint = '/' :: more := by
  obtain ⟨rest, spelled⟩ := m.mountpointAbsolute
  exact mangle_starts spelled (by decide) (by decide)

theorem device_black (m : Mount) : ∀ c ∈ (toString m.major.toNat).toList ++
    ':' :: (toString m.minor.toNat).toList, Str.isWhitespace c = false := by
  intro c member
  rcases List.mem_append.mp member with inMajor | behindMajor
  · exact Str.toString_black _ c inMajor
  · rcases List.mem_cons.mp behindMajor with rfl | inMinor
    · decide
    · exact Str.toString_black _ c inMinor

theorem fields_spaceless (m : Mount) : ∀ field ∈ m.fields, ' ' ∉ field ∧ field ≠ ['-'] := by
  have escaped : ∀ name, ' ' ∉ mangle name := notMem_mangle (by decide) (by decide)
  have word : ∀ s, FieldWord s → ' ' ∉ s.toList ∧ s.toList ≠ ['-'] := by
    intro s isWord
    refine ⟨Str.space_notMem_of_black isWord.2.2, fun dash => isWord.2.1 ?_⟩
    rw [← String.toList_inj, dash]
    rfl
  intro field member
  unfold fields at member
  simp only [List.mem_cons, List.mem_map] at member
  rcases member with rfl | rfl | rfl | rfl | rfl | ⟨s, inOptional, rfl⟩
  · refine ⟨Str.space_notMem_of_black (Str.toString_black m.parent), fun dash => ?_⟩
    have inNumber : '-' ∈ (toString m.parent).toList := dash ▸ List.mem_singleton_self '-'
    exact Str.notMem_toString_nat (by decide) m.parent inNumber
  · refine ⟨Str.space_notMem_of_black m.device_black, fun dash => ?_⟩
    have colon : ':' ∈ ['-'] := dash ▸ List.mem_append_right _ (List.mem_cons_self ..)
    exact absurd colon (by decide)
  · refine ⟨escaped m.root, fun dash => ?_⟩
    obtain ⟨c, more, written, _, notDash⟩ := m.mangle_root
    rw [written] at dash
    exact notDash (List.cons.inj dash).1
  · refine ⟨escaped m.mountpoint, fun dash => ?_⟩
    obtain ⟨more, written⟩ := m.mangle_mountpoint
    rw [written] at dash
    exact absurd (List.cons.inj dash).1 (by decide)
  · exact word m.options m.optionsWord
  · exact word s (m.optionalWords s inOptional)

theorem words_front (m : Mount) :
    Str.words ((toString m.id).toList ++ Str.spaced m.fields) =
      (toString m.id).toList :: (toString m.parent).toList ::
        ((toString m.major.toNat).toList ++ ':' :: (toString m.minor.toNat).toList) ::
          (Str.words (mangle m.root) ++ (Str.words (mangle m.mountpoint) ++
            (m.options.toList :: m.optional.map String.toList).flatMap Str.words)) := by
  have device : Str.words ((toString m.major.toNat).toList ++
      ':' :: (toString m.minor.toNat).toList) =
        [(toString m.major.toNat).toList ++ ':' :: (toString m.minor.toNat).toList] :=
    Str.words_of_plain (by simp) m.device_black
  rw [Str.words_append_spaced, fields, List.flatMap_cons, List.flatMap_cons, List.flatMap_cons,
    List.flatMap_cons, Str.words_toString, Str.words_toString, device]
  rfl

/-- The fifth word is the mountpoint exactly if the root is one word and the
mountpoint is plain, or the root's second word is the same text. -/
theorem fifth_word (m : Mount) {more : List (List Char)}
    (black : ∀ word ∈ more, ∀ c ∈ word, Str.isWhitespace c = false) :
    ((Str.words (mangle m.root) ++ (Str.words (mangle m.mountpoint) ++ more)).tail.head? =
        some m.mountpoint.toList) ↔
      (Str.words (mangle m.root)).length = 1 ∧ PlainField m.mountpoint ∨
        (Str.words (mangle m.root))[1]? = some m.mountpoint.toList := by
  obtain ⟨c, rest, written, cBlack, _⟩ := m.mangle_root
  have named : m.mountpoint ≠ "" := by
    obtain ⟨tail, spelled⟩ := m.mountpointAbsolute
    intro empty
    rw [empty] at spelled
    cases spelled
  have someWord : Str.words (mangle m.root) ≠ [] :=
    Str.words_ne_nil (written ▸ List.mem_cons_self ..) cBlack
  match wordsAre : Str.words (mangle m.root) with
  | [] => exact absurd wordsAre someWord
  | [only] =>
      rw [List.singleton_append, List.tail_cons, head_words_mangle named black]
      simp
  | first :: second :: others => simp

theorem mountinfoLine_eq (m : Mount) (rest : List Char) :
    ∃ front : List (List Char),
      front = Str.words (mangle m.root) ++ (Str.words (mangle m.mountpoint) ++
        (m.options.toList :: m.optional.map String.toList).flatMap Str.words) ∧
      Parse.mountinfoLine (String.ofList ((toString m.id).toList ++ (Str.spaced m.fields ++
          ' ' :: '-' :: ' ' :: m.behind rest))) =
        match front, Str.words (mangle m.fsType) ++ (Str.words (mangle m.source) ++
            Str.words rest) with
        | _ :: mountpoint :: _, fsType :: source :: _ =>
            some
              { major := m.major
                minor := m.minor
                mountpoint := String.ofList mountpoint
                fsType := String.ofList fsType
                source := String.ofList source }
        | _, _ => none := by
  refine ⟨_, rfl, ?_⟩
  have idSpaceless : ' ' ∉ (toString m.id).toList :=
    Str.space_notMem_of_black (Str.toString_black m.id)
  have cut : Str.splitOnceAt (String.ofList ((toString m.id).toList ++ (Str.spaced m.fields ++
      ' ' :: '-' :: ' ' :: m.behind rest))) " - " =
        some (String.ofList ((toString m.id).toList ++ Str.spaced m.fields),
          String.ofList (m.behind rest)) := by
    rw [Str.splitOnceAt, String.toList_ofList, String.toList_ofList,
      Str.cutAt_append idSpaceless, Str.cutAt_spaced _ m.fields_spaceless]
    rfl
  have post : Str.words (m.behind rest) = Str.words (mangle m.fsType) ++
      (Str.words (mangle m.source) ++ Str.words rest) := by
    rw [behind, Str.words_append (by decide), Str.words_append (by decide)]
  have numbers : Str.splitOnce (String.ofList ((toString m.major.toNat).toList ++
      ':' :: (toString m.minor.toNat).toList)) ':' =
        some (toString m.major.toNat, toString m.minor.toNat) := by
    rw [Str.splitOnce_eq_some_iff, String.toList_ofList]
    refine ⟨rfl, fun colon => ?_⟩
    exact Str.notMem_toString_nat (by decide) _ colon
  unfold Parse.mountinfoLine
  rw [cut, Option.bind_eq_bind, Option.bind_some]
  dsimp only
  rw [Str.splitWhitespace_eq, Str.splitWhitespace_eq, String.toList_ofList, String.toList_ofList,
    m.words_front, post]
  generalize Str.words (mangle m.root) ++ _ = front
  generalize Str.words (mangle m.fsType) ++ _ = back
  match front, back with
  | [], _ => rfl
  | [_], _ => rfl
  | _ :: mountpoint :: _, [] => rfl
  | _ :: mountpoint :: _, [_] => rfl
  | _ :: mountpoint :: _, fsType :: source :: _ =>
      simp only [List.map_cons, numbers, Option.bind_some, Parse.u64Field, Str.parseU64_toString,
        Option.getD_some]

theorem mountinfoLine_restores_iff (m : Mount) (rest : List Char) :
    Parse.mountinfoLine (String.ofList ((toString m.id).toList ++ (Str.spaced m.fields ++
        ' ' :: '-' :: ' ' :: m.behind rest))) = some m.row ↔ m.Restored := by
  obtain ⟨front, frontIs, lineIs⟩ := m.mountinfoLine_eq rest
  have black : ∀ (fields : List (List Char)), ∀ word ∈ fields.flatMap Str.words,
      ∀ c ∈ word, Str.isWhitespace c = false := by
    intro fields word member
    obtain ⟨field, _, inField⟩ := List.mem_flatMap.mp member
    exact (Str.word_plain inField).2
  have fifth := m.fifth_word (black (m.options.toList :: m.optional.map String.toList))
  rw [← frontIs] at fifth
  have sourceBlack : ∀ word ∈ Str.words (mangle m.source) ++ Str.words rest,
      ∀ c ∈ word, Str.isWhitespace c = false := by
    intro word member
    rcases List.mem_append.mp member with inSource | inRest
    · exact (Str.word_plain inSource).2
    · exact (Str.word_plain inRest).2
  have typeHead := head_words_mangle m.fsTypeNamed sourceBlack
  have sourceHead : (Str.words (mangle m.source) ++ Str.words rest).head? =
      some m.source.toList ↔ PlainField m.source :=
    head_words_mangle m.sourceNamed fun word member => (Str.word_plain member).2
  have typeWord : PlainField m.fsType → Str.words (mangle m.fsType) = [m.fsType.toList] := by
    intro plain
    rw [mangle_plain plain]
    exact Str.words_of_plain (fun empty => m.fsTypeNamed (String.toList_eq_nil_iff.mp empty))
      fun c member => (plain c member).1
  rw [lineIs, Restored, ← fifth]
  constructor
  · intro isRow
    generalize backIs : Str.words (mangle m.fsType) ++ (Str.words (mangle m.source) ++
      Str.words rest) = back at isRow typeHead
    match front, back with
    | [], _ => cases isRow
    | [_], _ => cases isRow
    | _ :: _ :: _, [] => cases isRow
    | _ :: _ :: _, [_] => cases isRow
    | _ :: mountpoint :: _, fsType :: source :: _ =>
        rw [Option.some.injEq, Parse.MountInfoLine.mk.injEq] at isRow
        obtain ⟨_, _, mountpointIs, typeIs, sourceIs⟩ := isRow
        have typePlain : PlainField m.fsType := by
          rw [← typeHead, List.head?_cons, ← String.toList_ofList (l := fsType)]
          exact congrArg (fun s => some (String.toList s)) typeIs
        rw [typeWord typePlain, List.singleton_append] at backIs
        refine ⟨typePlain, ?_, ?_⟩
        · rw [← sourceHead, (List.cons.inj backIs).2, List.head?_cons,
            ← String.toList_ofList (l := source)]
          exact congrArg (fun s => some (String.toList s)) sourceIs
        · rw [List.tail_cons, List.head?_cons, ← String.toList_ofList (l := mountpoint)]
          exact congrArg (fun s => some (String.toList s)) mountpointIs
  · rintro ⟨typePlain, sourcePlain, mountpointIs⟩
    obtain ⟨first, tailIs⟩ : ∃ first, front = first :: front.tail := by
      cases front with
      | nil => cases mountpointIs
      | cons first tail => exact ⟨first, rfl⟩
    obtain ⟨others, othersAre⟩ := List.head?_eq_some_iff.mp mountpointIs
    obtain ⟨more, moreAre⟩ := List.head?_eq_some_iff.mp (sourceHead.mpr sourcePlain)
    rw [tailIs, othersAre, typeWord typePlain, moreAre]
    simp only [List.singleton_append, String.ofList_toList]
    rfl

theorem dropCarriageReturn_line (m : Mount) :
    ∃ rest, Str.dropCarriageReturn m.line = (toString m.id).toList ++ (Str.spaced m.fields ++
      ' ' :: '-' :: ' ' :: m.behind rest) := by
  have parts : ∀ rest, (toString m.id).toList ++ (Str.spaced m.fields ++
      ' ' :: '-' :: ' ' :: m.behind rest) =
        ((toString m.id).toList ++ (Str.spaced m.fields ++
          ' ' :: '-' :: ' ' :: (mangle m.fsType ++ ' ' :: mangle m.source))) ++ ' ' :: rest := by
    intro rest
    simp [behind]
  obtain ⟨kept, dropped⟩ := Str.dropCarriageReturn_spaced ((toString m.id).toList ++
    (Str.spaced m.fields ++ ' ' :: '-' :: ' ' :: (mangle m.fsType ++ ' ' :: mangle m.source)))
    m.superOptions.toList
  refine ⟨kept, ?_⟩
  rw [line, parts, parts, dropped]

theorem line_oneLine (m : Mount) : '\n' ∉ m.line := by
  have white : Str.isWhitespace '\n' = true := by decide
  have notSpace : '\n' ≠ ' ' := by decide
  have escaped : ∀ name, '\n' ∉ mangle name := notMem_mangle white (by decide)
  have inFields : ∀ field ∈ m.fields, '\n' ∉ field := by
    simp only [fields, List.forall_mem_cons, List.forall_mem_map]
    refine ⟨?_, ?_, escaped m.root, escaped m.mountpoint, ?_, ?_⟩
    · exact Str.white_notMem_of_black white (Str.toString_black m.parent)
    · exact Str.white_notMem_of_black white m.device_black
    · exact Str.white_notMem_of_black white m.optionsWord.2.2
    · intro s inOptional
      exact Str.white_notMem_of_black white (m.optionalWords s inOptional).2.2
  have front := Str.white_notMem_of_black white (Str.toString_black m.id)
  simp only [line, behind, List.mem_append, List.mem_cons, not_or]
  exact ⟨front, Str.notMem_spaced notSpace inFields, notSpace, by decide, notSpace,
    escaped m.fsType, notSpace, escaped m.source, notSpace, m.superOptionsOneLine⟩

end Mount

/-- A table that the kernel prints is read back as its mounts, one row for each
and in order, exactly when every mount's names come through. -/
theorem mountinfo_restores_iff (mounts : List Mount) :
    Parse.mountinfo (Mount.table mounts) = mounts.map Mount.row ↔
      ∀ m ∈ mounts, m.Restored := by
  have plain : ∀ line ∈ mounts.map Mount.line, '\n' ∉ line :=
    List.forall_mem_map.mpr fun m _ => m.line_oneLine
  rw [Parse.mountinfo, Mount.table, Str.lines_terminated plain, List.map_map, List.map_map,
    List.filterMap_map, List.filterMap_eq_map_iff_forall_eq_some]
  refine forall₂_congr fun m _ => ?_
  obtain ⟨rest, dropped⟩ := m.dropCarriageReturn_line
  simp only [Function.comp_apply, dropped]
  exact m.mountinfoLine_restores_iff rest

def spacedMount : Mount where
  id := 50
  parent := 22
  major := 8
  minor := 17
  root := "/"
  mountpoint := "/mnt/a b"
  options := "rw"
  optional := ["shared:2"]
  fsType := "ext4"
  source := "/dev/sdb1"
  superOptions := "rw"
  rootNamed := ⟨'/', [], rfl, Or.inl rfl⟩
  mountpointAbsolute := ⟨_, rfl⟩
  optionsWord := fieldWord_of_all (by decide) (by decide) (by decide)
  optionalWords := List.forall_mem_singleton.mpr
    (fieldWord_of_all (by decide) (by decide) (by decide))
  fsTypeNamed := by decide
  sourceNamed := by decide
  superOptionsOneLine := by decide

/-- The parser keeps the octal digits. -/
theorem spaced_mountpoint_escaped :
    ¬ ∀ mounts : List Mount, Parse.mountinfo (Mount.table mounts) = mounts.map Mount.row := by
  intro claimed
  have rows := claimed [spacedMount]
  have differ : (Parse.mountinfo (Mount.table [spacedMount])).map (fun m => m.mountpoint) =
      ["/mnt/a\\040b"] := by
    decide +kernel
  rw [rows] at differ
  exact absurd differ (by decide)

end Cadvisor
