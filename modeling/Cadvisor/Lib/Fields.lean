import Cadvisor.Lib.Str
import Mathlib.Data.List.Induction

/-!
# Fields printed with single spaces

A line of fields is read back by cutting it at a separating field and splitting
the two parts at white space.  Fields without spaces hide no separator, and the
words of the parts are the words of the fields, one after the other.
-/

set_option autoImplicit false

namespace Str

/-- The maximal runs of characters that are not white space, by characters. -/
def words (cs : List Char) : List (List Char) := (cs.splitOnP isWhitespace).filter (· ≠ [])

theorem splitWhitespace_eq (s : String) : splitWhitespace s = (words s.toList).map String.ofList :=
  rfl

theorem words_nil : words [] = [] := rfl

theorem words_append {c : Char} (white : isWhitespace c = true) (front back : List Char) :
    words (front ++ c :: back) = words front ++ words back := by
  unfold words
  rw [List.splitOnP_append_cons front back white, List.filter_append]

theorem words_of_plain {cs : List Char} (nonempty : cs ≠ [])
    (plain : ∀ c ∈ cs, isWhitespace c = false) : words cs = [cs] := by
  unfold words
  rw [List.splitOnP_eq_singleton plain, List.filter_cons_of_pos (by simpa using nonempty),
    List.filter_nil]

/-- A text is its first word, or white space and a shorter text. -/
theorem words_induction {motive : List Char → Prop} (nil : motive [])
    (plain : ∀ cs, cs ≠ [] → (∀ c ∈ cs, isWhitespace c = false) → motive cs)
    (white : ∀ front c back, (∀ d ∈ front, isWhitespace d = false) → isWhitespace c = true →
      motive back → motive (front ++ c :: back)) (cs : List Char) : motive cs := by
  induction lengthIs : cs.length using Nat.strong_induction_on generalizing cs with
  | _ n ih =>
      cases behind : cs.dropWhile (fun c => !isWhitespace c) with
      | nil =>
          have none : ∀ c ∈ cs, isWhitespace c = false := by
            simpa using List.dropWhile_eq_nil_iff.mp behind
          cases cs with
          | nil => exact nil
          | cons c rest => exact plain _ (by simp) none
      | cons c back =>
          have parts : cs = cs.takeWhile (fun c => !isWhitespace c) ++ c :: back := by
            rw [← behind, List.takeWhile_append_dropWhile]
          have stops := List.head?_dropWhile_not (fun c => !isWhitespace c) cs
          rw [behind] at stops
          have shorter : back.length < n := by
            rw [← lengthIs, parts]
            simp
            omega
          rw [parts]
          refine white _ c back (fun d member => ?_) (by simpa using stops) (ih _ shorter back rfl)
          simpa using List.mem_takeWhile_imp member

theorem words_append_plain {front : List Char} (plain : ∀ c ∈ front, isWhitespace c = false)
    {c : Char} (white : isWhitespace c = true) (back : List Char) :
    words (front ++ c :: back) = if front = [] then words back else front :: words back := by
  rw [words_append white]
  split_ifs with empty
  · rw [empty, words_nil, List.nil_append]
  · rw [words_of_plain empty plain, List.singleton_append]

theorem word_plain {cs word : List Char} (member : word ∈ words cs) :
    word ≠ [] ∧ ∀ c ∈ word, isWhitespace c = false := by
  induction cs using words_induction with
  | nil => cases member
  | plain cs nonempty plain =>
      rw [words_of_plain nonempty plain, List.mem_singleton] at member
      rw [member]
      exact ⟨nonempty, plain⟩
  | white front c back plain isWhite ih =>
      rw [words_append_plain plain isWhite] at member
      split_ifs at member with empty
      · exact ih member
      · rcases List.mem_cons.mp member with isFront | inBack
        · rw [isFront]
          exact ⟨empty, plain⟩
        · exact ih inBack

theorem words_ne_nil {cs : List Char} {c : Char} (member : c ∈ cs)
    (black : isWhitespace c = false) : words cs ≠ [] := by
  induction cs using words_induction with
  | nil => cases member
  | plain cs nonempty plain => simp [words_of_plain nonempty plain]
  | white front d back plain isWhite ih =>
      rw [words_append_plain plain isWhite]
      split_ifs with empty
      · subst empty
        rcases List.mem_cons.mp member with rfl | inBack
        · simp [isWhite] at black
        · exact ih inBack
      · exact List.cons_ne_nil _ _

theorem dropCarriageReturn_spaced (front rest : List Char) :
    ∃ kept, dropCarriageReturn (front ++ ' ' :: rest) = front ++ ' ' :: kept := by
  unfold dropCarriageReturn
  split_ifs with ends
  · cases rest using List.reverseRecOn with
    | nil =>
        rw [List.getLast?_concat] at ends
        cases ends
    | append_singleton init last =>
        refine ⟨init, ?_⟩
        rw [← List.cons_append, ← List.append_assoc, List.dropLast_concat]
  · exact ⟨rest, rfl⟩

/-! ## Characters that are not white space -/

theorem black_of_graphic {c : Char} (low : 0x21 ≤ c.toNat) (high : c.toNat ≤ 0x7E) :
    isWhitespace c = false := by
  have code : c.toNat = c.val.toNat := rfl
  unfold isWhitespace
  simp only [UInt32.le_iff_toNat_le, ← UInt32.toNat_inj, decide_eq_false_iff_not]
  simp
  omega

theorem black_of_isDigit {c : Char} (digit : c.isDigit = true) : isWhitespace c = false := by
  have range : 48 ≤ c.toNat ∧ c.toNat ≤ 57 := by
    simp [Char.isDigit, UInt32.le_iff_toNat_le] at digit
    exact digit
  exact black_of_graphic (by omega) (by omega)

theorem black_of_isAlpha {c : Char} (letter : c.isAlpha = true) : isWhitespace c = false := by
  have code : c.toNat = c.val.toNat := rfl
  have cases : (decide (65 ≤ c.val ∧ c.val ≤ 90) || (decide (97 ≤ c.val) && decide (c.val ≤ 122))) =
      true := letter
  simp [UInt32.le_iff_toNat_le] at cases
  exact black_of_graphic (by omega) (by omega)

theorem black_of_all {cs : List Char} (all : cs.all (fun c => !isWhitespace c) = true) :
    ∀ c ∈ cs, isWhitespace c = false := by
  intro c member
  exact (Bool.not_eq_true' _).mp (List.all_eq_true.mp all c member)

theorem toString_nat_ne_nil (n : Nat) : (toString n).toList ≠ [] := by
  rw [toString_nat_toList]
  exact Nat.toDigits_ne_nil

theorem toString_black (n : Nat) : ∀ c ∈ (toString n).toList, isWhitespace c = false :=
  fun c member => black_of_isDigit (digits_of_toString n c member)

theorem words_toString (n : Nat) : words (toString n).toList = [(toString n).toList] :=
  words_of_plain (toString_nat_ne_nil n) (toString_black n)

theorem white_notMem_of_black {w : Char} (white : isWhitespace w = true) {cs : List Char}
    (black : ∀ c ∈ cs, isWhitespace c = false) : w ∉ cs := by
  intro member
  rw [black w member] at white
  cases white

theorem space_notMem_of_black {cs : List Char} (black : ∀ c ∈ cs, isWhitespace c = false) :
    ' ' ∉ cs :=
  white_notMem_of_black (by decide) black

/-! ## The separating field -/

theorem cutAt_append {field : List Char} (spaceless : ' ' ∉ field) (sep rest : List Char) :
    cutAt (' ' :: sep) (field ++ rest) =
      (cutAt (' ' :: sep) rest).map fun parts => (field ++ parts.1, parts.2) := by
  induction field with
  | nil =>
      rw [List.nil_append]
      cases cutAt (' ' :: sep) rest <;> rfl
  | cons c field ih =>
      obtain ⟨other, fieldOther⟩ := not_or.mp (List.mem_cons.not.mp spaceless)
      have differs : (' ' == c) = false := beq_eq_false_iff_ne.mpr other
      have noPrefix : (' ' :: sep).isPrefixOf (c :: (field ++ rest)) = false := by
        rw [List.isPrefixOf, differs, Bool.false_and]
      rw [List.cons_append, cutAt, noPrefix, if_neg (by simp), ih fieldOther, Option.map_map]
      rfl

def spaced (fields : List (List Char)) : List Char := fields.flatMap fun field => ' ' :: field

theorem spaced_cons (field : List Char) (fields : List (List Char)) :
    spaced (field :: fields) = ' ' :: (field ++ spaced fields) := by
  rw [spaced, List.flatMap_cons]
  rfl

theorem notMem_spaced {c : Char} (notSpace : c ≠ ' ') {fields : List (List Char)}
    (notInField : ∀ field ∈ fields, c ∉ field) : c ∉ spaced fields := by
  intro member
  obtain ⟨field, isField, inField⟩ := List.mem_flatMap.mp member
  rcases List.mem_cons.mp inField with isSpace | behind
  · exact notSpace isSpace
  · exact notInField field isField behind

theorem words_append_spaced (first : List Char) (fields : List (List Char)) :
    words (first ++ spaced fields) = words first ++ fields.flatMap words := by
  induction fields generalizing first with
  | nil => simp [spaced]
  | cons field fields ih =>
      rw [spaced_cons, words_append (by decide), ih, List.flatMap_cons]

theorem not_dash_ahead {field more : List Char} (spaceless : ' ' ∉ field)
    (notDash : field ≠ ['-']) :
    [' ', '-', ' '].isPrefixOf (' ' :: (field ++ ' ' :: more)) = false := by
  match field with
  | [] => rfl
  | [c] =>
      have other : ('-' == c) = false := beq_eq_false_iff_ne.mpr fun same => notDash (by rw [same])
      simp [List.isPrefixOf, other]
  | c :: d :: field =>
      have other : (' ' == d) = false :=
        beq_eq_false_iff_ne.mpr fun same => spaceless (by rw [same]; simp)
      simp [List.isPrefixOf, other]

theorem cutAt_spaced {fields : List (List Char)} (behind : List Char)
    (spaceless : ∀ field ∈ fields, ' ' ∉ field ∧ field ≠ ['-']) :
    cutAt [' ', '-', ' '] (spaced fields ++ ' ' :: '-' :: ' ' :: behind) =
      some (spaced fields, behind) := by
  induction fields with
  | nil => simp [spaced, cutAt, List.isPrefixOf]
  | cons field fields ih =>
      obtain ⟨fieldSpaceless, notDash⟩ := spaceless field (List.mem_cons_self ..)
      have others := ih fun f member => spaceless f (List.mem_cons_of_mem _ member)
      have next : ∃ more, spaced fields ++ ' ' :: '-' :: ' ' :: behind = ' ' :: more := by
        cases fields with
        | nil => exact ⟨_, rfl⟩
        | cons f rest => exact ⟨_, by rw [spaced_cons]; rfl⟩
      obtain ⟨more, moreIs⟩ := next
      have noPrefix : [' ', '-', ' '].isPrefixOf (' ' :: (field ++ ' ' :: more)) = false :=
        not_dash_ahead fieldSpaceless notDash
      rw [spaced_cons, List.cons_append, List.append_assoc, moreIs, cutAt, noPrefix,
        if_neg (by simp), ← moreIs, cutAt_append fieldSpaceless, others]
      rfl

/-! ## Trimming and joining -/

theorem trim_framed (before after : List Char) {cs : List Char}
    (first : ∀ c, cs.head? = some c → isWhitespace c = false)
    (last : ∀ c, cs.getLast? = some c → isWhitespace c = false)
    (ahead : ∀ c ∈ before, isWhitespace c = true) (behind : ∀ c ∈ after, isWhitespace c = true) :
    trim (String.ofList (before ++ (cs ++ after))) = String.ofList cs := by
  rw [trim, trimMatches, String.toList_ofList, List.dropWhile_append_of_pos ahead]
  have behindReversed : ∀ c ∈ after.reverse, isWhitespace c = true := fun c member =>
    behind c (List.mem_reverse.mp member)
  cases cs with
  | nil =>
      have nothing : after.dropWhile isWhitespace = [] := List.dropWhile_eq_nil_iff.mpr behind
      rw [List.nil_append, nothing]
      rfl
  | cons c rest =>
      have start := first c rfl
      rw [List.cons_append, List.dropWhile_cons_of_neg (by simp [start]), ← List.cons_append,
        List.reverse_append, List.dropWhile_append_of_pos behindReversed]
      have stops : (c :: rest).reverse.dropWhile isWhitespace = (c :: rest).reverse := by
        obtain ⟨front, final, parts⟩ : ∃ front final, c :: rest = front ++ [final] :=
          ⟨_, _, (List.dropLast_concat_getLast (List.cons_ne_nil c rest)).symm⟩
        have ends : isWhitespace final = false := last final (by rw [parts, List.getLast?_concat])
        rw [parts, List.reverse_append, List.reverse_singleton, List.singleton_append,
          List.dropWhile_cons_of_neg (by simp [ends])]
      rw [stops, List.reverse_reverse]

theorem words_append_white (cs : List Char) {after : List Char}
    (white : ∀ c ∈ after, isWhitespace c = true) : words (cs ++ after) = words cs := by
  induction after generalizing cs with
  | nil => rw [List.append_nil]
  | cons c rest ih =>
      obtain ⟨first, others⟩ := List.forall_mem_cons.mp white
      rw [words_append first, ← List.nil_append rest, ih [] others, words_nil, List.append_nil]

theorem words_dropWhile (cs : List Char) : words (cs.dropWhile isWhitespace) = words cs := by
  induction cs with
  | nil => rfl
  | cons c rest ih =>
      cases white : isWhitespace c with
      | false => rw [List.dropWhile_cons_of_neg (by simp [white])]
      | true =>
          have gone := words_append white [] rest
          rw [List.dropWhile_cons_of_pos white, ih, ← List.nil_append (c :: rest), gone, words_nil,
            List.nil_append]

theorem splitWhitespace_trim (s : String) : splitWhitespace (trim s) = splitWhitespace s := by
  obtain ⟨cs, isStart⟩ : ∃ cs, s.toList.dropWhile isWhitespace = cs := ⟨_, rfl⟩
  have parts : cs = (cs.reverse.dropWhile isWhitespace).reverse ++
      (cs.reverse.takeWhile isWhitespace).reverse := by
    rw [← List.reverse_append, List.takeWhile_append_dropWhile, List.reverse_reverse]
  have ends : words (cs.reverse.dropWhile isWhitespace).reverse = words cs := by
    conv_rhs => rw [parts]
    refine (words_append_white _ fun c member => ?_).symm
    exact List.mem_takeWhile_imp (List.mem_reverse.mp member)
  rw [splitWhitespace_eq, splitWhitespace_eq, trim, trimMatches, String.toList_ofList, isStart,
    ends, ← isStart, words_dropWhile]

theorem words_flatMap {c : Char} (white : isWhitespace c = true) (texts : List (List Char)) :
    words (texts.flatMap fun text => text ++ [c]) = texts.flatMap words := by
  induction texts with
  | nil => rfl
  | cons text rest ih =>
      rw [List.flatMap_cons, List.flatMap_cons, List.append_assoc, List.singleton_append,
        words_append white, ih]

/-! ## Columns: fields with any number of spaces in front of each -/

def columns (fields : List (Nat × List Char)) : List Char :=
  fields.flatMap fun f => ' ' :: (List.replicate f.1 ' ' ++ f.2)

/-- A text that may stand in a column. -/
def Field (text : List Char) : Prop := text ≠ [] ∧ ∀ c ∈ text, isWhitespace c = false

theorem words_behind_spaces (n : Nat) (cs : List Char) :
    words (List.replicate n ' ' ++ cs) = words cs := by
  induction n with
  | zero => rfl
  | succ n ih =>
      have gone := words_append (by decide : isWhitespace ' ' = true) []
        (List.replicate n ' ' ++ cs)
      rw [words_nil, List.nil_append, List.nil_append] at gone
      rw [List.replicate_succ, List.cons_append, gone, ih]

theorem words_columns {fields : List (Nat × List Char)} (plain : ∀ f ∈ fields, Field f.2)
    (front : List Char) : words (front ++ columns fields) = words front ++ fields.map Prod.snd := by
  induction fields generalizing front with
  | nil => simp [columns]
  | cons f rest ih =>
      obtain ⟨first, others⟩ := List.forall_mem_cons.mp plain
      have parts : front ++ columns (f :: rest) =
          front ++ ' ' :: (List.replicate f.1 ' ' ++ (f.2 ++ columns rest)) := by
        rw [columns, List.flatMap_cons, List.cons_append, List.append_assoc]
        rfl
      rw [parts, words_append (by decide), words_behind_spaces, ih others,
        words_of_plain first.1 first.2, List.singleton_append, List.map_cons]

theorem notMem_columns {fields : List (Nat × List Char)} (plain : ∀ f ∈ fields, Field f.2)
    {c : Char} (white : isWhitespace c = true) (notSpace : c ≠ ' ') : c ∉ columns fields := by
  intro member
  obtain ⟨f, inFields, inColumn⟩ := List.mem_flatMap.mp member
  rcases List.mem_cons.mp inColumn with isSpace | behind
  · exact notSpace isSpace
  · rcases List.mem_append.mp behind with inPad | inField
    · exact notSpace (List.eq_of_mem_replicate inPad)
    · have black := (plain f inFields).2 c inField
      rw [white] at black
      cases black

theorem dropCarriageReturn_columns {fields : List (Nat × List Char)} (given : fields ≠ [])
    (plain : ∀ f ∈ fields, Field f.2) (front : List Char) :
    dropCarriageReturn (front ++ columns fields) = front ++ columns fields := by
  cases fields using List.reverseRecOn with
  | nil => exact absurd rfl given
  | append_singleton init last =>
      obtain ⟨nonempty, black⟩ := plain last (by simp)
      obtain ⟨text, final, isLast⟩ : ∃ text final, last.2 = text ++ [final] :=
        ⟨_, _, (List.dropLast_concat_getLast nonempty).symm⟩
      have ends : front ++ columns (init ++ [last]) =
          (front ++ columns init ++ ' ' :: (List.replicate last.1 ' ' ++ text)) ++ [final] := by
        rw [columns, List.flatMap_append, List.flatMap_singleton, isLast]
        simp [columns]
      rw [ends, dropCarriageReturn, List.getLast?_concat, if_neg]
      intro isReturn
      have white := black final (by rw [isLast]; simp)
      rw [Option.some.inj isReturn] at white
      cases white

theorem trim_black {cs : List Char} (after : List Char)
    (black : ∀ c ∈ cs, isWhitespace c = false) (behind : ∀ c ∈ after, isWhitespace c = true) :
    trim (String.ofList (cs ++ after)) = String.ofList cs :=
  trim_framed [] after (fun c head => black c (List.mem_of_mem_head? head))
    (fun c final => black c (List.mem_of_mem_getLast? final))
    (fun _ absent => absurd absent List.not_mem_nil) behind

theorem newline_white : ∀ c ∈ ['\n'], isWhitespace c = true := by
  intro c member
  rw [List.mem_singleton.mp member]
  decide

theorem startsWith_iff {s pre : String} :
    startsWith s pre = true ↔ ∃ rest, s.toList = pre.toList ++ rest := by
  rw [startsWith, List.isPrefixOf_iff_prefix]
  exact exists_congr fun rest => eq_comm

theorem stripPrefix_append (pre s : String) : stripPrefix (pre ++ s) pre = some s := by
  have starts : startsWith (pre ++ s) pre = true :=
    startsWith_iff.mpr ⟨s.toList, String.toList_append⟩
  rw [stripPrefix, if_pos starts, String.toList_append, List.drop_left, String.ofList_toList]

theorem stripPrefix_eq_some_iff {s pre rest : String} :
    stripPrefix s pre = some rest ↔ s.toList = pre.toList ++ rest.toList := by
  constructor
  · intro stripped
    unfold stripPrefix at stripped
    split_ifs at stripped with starts
    obtain ⟨behind, isWhole⟩ := startsWith_iff.mp starts
    rw [isWhole, List.drop_left, Option.some.injEq] at stripped
    rw [← stripped, String.toList_ofList, isWhole]
  · intro parts
    rw [← String.toList_append, String.toList_inj] at parts
    rw [parts]
    exact stripPrefix_append pre rest

theorem mem_join {glue : String} {parts : List String} {c : Char}
    (member : c ∈ (join glue parts).toList) :
    c ∈ glue.toList ∨ ∃ part ∈ parts, c ∈ part.toList := by
  rw [join, String.toList_ofList] at member
  induction parts with
  | nil => cases member
  | cons first rest ih =>
      cases rest with
      | nil =>
          rw [List.map_singleton, List.intercalate_singleton] at member
          exact Or.inr ⟨first, List.mem_cons_self .., member⟩
      | cons second rest =>
          rw [List.map_cons, List.map_cons, List.intercalate_cons_cons, List.mem_append,
            List.mem_append] at member
          rcases member with (inFirst | inGlue) | behind
          · exact Or.inr ⟨first, List.mem_cons_self .., inFirst⟩
          · exact Or.inl inGlue
          · rcases ih behind with inGlue | ⟨part, later, inPart⟩
            · exact Or.inl inGlue
            · exact Or.inr ⟨part, List.mem_cons_of_mem _ later, inPart⟩

theorem split_join {glue : String} {sep : Char} (one : glue.toList = [sep]) {parts : List String}
    (nonempty : parts ≠ []) (plain : ∀ part ∈ parts, sep ∉ part.toList) :
    split (join glue parts) sep = parts := by
  have apart : ∀ part ∈ parts.map String.toList, sep ∉ part := by
    intro part member
    obtain ⟨text, inParts, rfl⟩ := List.mem_map.mp member
    exact plain text inParts
  rw [split, join, String.toList_ofList, one,
    List.splitOn_intercalate _ apart (by simpa using nonempty), List.map_map]
  simp

theorem join_spaced (first : String) (parts : List String) :
    join " " (first :: parts) =
      String.ofList (first.toList ++ spaced (parts.map String.toList)) := by
  have glue : " ".toList = [' '] := rfl
  rw [join, glue]
  congr 1
  induction parts generalizing first with
  | nil => simp [spaced]
  | cons next rest ih =>
      have shorter := ih next
      rw [List.map_cons] at shorter
      rw [List.map_cons, List.map_cons, List.intercalate_cons_cons, shorter, spaced_cons]
      simp

theorem trim_spaced {first : List Char} {fields : List (List Char)} {after : List Char}
    (nonempty : ∀ field ∈ first :: fields, field ≠ [])
    (black : ∀ field ∈ first :: fields, ∀ c ∈ field, isWhitespace c = false)
    (behind : ∀ c ∈ after, isWhitespace c = true) :
    trim (String.ofList (first ++ spaced fields ++ after)) =
      String.ofList (first ++ spaced fields) := by
  have starts : first ≠ [] := nonempty first (List.mem_cons_self ..)
  refine trim_framed [] after ?_ ?_ (fun _ absent => absurd absent List.not_mem_nil) behind
  · intro c head
    rw [List.head?_append_of_ne_nil _ starts] at head
    exact black first (List.mem_cons_self ..) c (List.mem_of_mem_head? head)
  · intro c final
    cases fields using List.reverseRecOn with
    | nil =>
        rw [spaced, List.flatMap_nil, List.append_nil] at final
        exact black first (List.mem_cons_self ..) c (List.mem_of_mem_getLast? final)
    | append_singleton init last _ =>
        have member : last ∈ first :: (init ++ [last]) := by simp
        have ends : last ≠ [] := nonempty last member
        have cut : first ++ spaced (init ++ [last]) = (first ++ spaced init ++ [' ']) ++ last := by
          simp [spaced]
        rw [cut, List.getLast?_append_of_ne_nil _ ends] at final
        exact black last member c (List.mem_of_mem_getLast? final)

theorem behindLast_append {sep : Char} (front : List Char) {back : List Char}
    (absent : sep ∉ back) :
    behindLast (String.ofList (front ++ sep :: back)) sep = some (String.ofList back) := by
  have differ : ∀ c ∈ back.reverse, (c != sep) = true := by
    intro c member
    rw [bne_iff_ne]
    rintro rfl
    exact absent (List.mem_reverse.mp member)
  rw [behindLast, String.toList_ofList,
    if_pos (List.mem_append_right _ (List.mem_cons_self ..)), List.reverse_append,
    List.reverse_cons, List.append_assoc, List.takeWhile_append_of_pos differ,
    List.singleton_append, List.takeWhile_cons_of_neg (by simp), List.append_nil,
    List.reverse_reverse]

theorem splitWhitespace_line {fields : List (List Char)}
    (plain : ∀ field ∈ fields, field ≠ [] ∧ ∀ c ∈ field, isWhitespace c = false) :
    splitWhitespace (String.ofList (spaced fields ++ ['\n'])) = fields.map String.ofList := by
  have each : fields.flatMap words = fields := by
    calc fields.flatMap words = fields.flatMap fun field => [field] :=
          List.flatMap_congr fun field member =>
            words_of_plain (plain field member).1 (plain field member).2
      _ = fields := List.flatMap_singleton' fields
  have line := words_append_spaced [] fields
  rw [List.nil_append, words_nil, List.nil_append, each] at line
  rw [splitWhitespace_eq, String.toList_ofList, words_append (by decide), line, words_nil,
    List.append_nil]

/-! ## Rows -/

theorem filterMap_ite {α β : Type} (p : α → Prop) [DecidablePred p] (row : α → β)
    (items : List α) :
    (items.filterMap fun a => if p a then some (row a) else none) =
      (items.filter fun a => p a).map row := by
  induction items with
  | nil => rfl
  | cons a rest ih =>
      rw [List.filterMap_cons, ih]
      by_cases kept : p a
      · rw [if_pos kept, List.filter_cons_of_pos (by simpa using kept), List.map_cons]
      · rw [if_neg kept, List.filter_cons_of_neg (by simpa using kept)]

theorem length_filterMap_mono {α β : Type} {f g : α → Option β} {items : List α}
    (fewer : ∀ a ∈ items, g a = none → f a = none) :
    (items.filterMap f).length ≤ (items.filterMap g).length := by
  rw [List.length_filterMap_eq_countP, List.length_filterMap_eq_countP]
  apply List.countP_mono_left
  intro a member picked
  by_contra dropped
  rw [Bool.not_eq_true, Option.isSome_eq_false_iff, Option.isNone_iff_eq_none] at dropped
  rw [fewer a member dropped] at picked
  cases picked

/-- Two ways to pick rows, one of which passes over whatever the other passes over, give one
list only if they agree on every element. -/
theorem filterMap_eq_filterMap_iff {α β : Type} {f g : α → Option β} {items : List α}
    (fewer : ∀ a ∈ items, g a = none → f a = none) :
    items.filterMap f = items.filterMap g ↔ ∀ a ∈ items, f a = g a := by
  induction items with
  | nil => simp
  | cons a rest ih =>
      obtain ⟨first, later⟩ := List.forall_mem_cons.mp fewer
      have tail : rest.filterMap f = rest.filterMap g ↔ ∀ b ∈ rest, f b = g b := ih later
      rw [List.forall_mem_cons, ← tail]
      cases fromG : g a with
      | none =>
          have fromF := first fromG
          rw [List.filterMap_cons_none fromF, List.filterMap_cons_none fromG, fromF]
          exact (and_iff_right rfl).symm
      | some b =>
          cases fromF : f a with
          | none =>
              rw [List.filterMap_cons_none fromF, List.filterMap_cons_some fromG]
              constructor
              · intro same
                have lengths := congrArg List.length same
                have most := length_filterMap_mono later
                rw [List.length_cons] at lengths
                omega
              · rintro ⟨impossible, _⟩
                cases impossible
          | some c =>
              rw [List.filterMap_cons_some fromF, List.filterMap_cons_some fromG,
                List.cons.injEq, Option.some.injEq]

end Str
