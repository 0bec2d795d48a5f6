import Cadvisor.Lib.JsonText

/-!
# The suite's report

Every test is one line, a JSON object, and a summary is the last line; the exit code says
whether a test failed or could not run.  The results file gets the lines that are printed.
-/

set_option autoImplicit false

namespace Cadvisor

namespace Report

open JsonText

inductive Outcome where
  | pass (detail : String)
  | fail (detail : String)
  | skip (detail : String)
  | infra (detail : String)

namespace Outcome

def status : Outcome → String
  | pass _ => "pass"
  | fail _ => "fail"
  | skip _ => "skip"
  | infra _ => "fail"

def detail : Outcome → String
  | pass d => d
  | fail d => d
  | skip d => d
  | infra d => "could not run: " ++ d

def isPass : Outcome → Bool
  | pass _ => true
  | _ => false

def isFail : Outcome → Bool
  | fail _ => true
  | _ => false

def isSkip : Outcome → Bool
  | skip _ => true
  | _ => false

def isInfra : Outcome → Bool
  | infra _ => true
  | _ => false

end Outcome

/-- A character below the space that has no short escape has four hexadecimal digits. -/
def escapeChar (c : Char) : List Char :=
  if c = '"' then ['\\', '"']
  else if c = '\\' then ['\\', '\\']
  else if c = '\n' then ['\\', 'n']
  else if c = '\r' then ['\\', 'r']
  else if c = '\t' then ['\\', 't']
  else if c.toNat < 0x20 then '\\' :: 'u' :: (Nat.toDigits 16 c.toNat).leftpad 4 '0'
  else [c]

/-- A JSON string literal. -/
def json (s : String) : String :=
  "\"" ++ String.ofList (s.toList.flatMap escapeChar) ++ "\""

end Report

structure Report where
  pass : UInt32
  fail : UInt32
  skip : UInt32
  infra : UInt32
  /-- Every test's name and status, in order. -/
  outcomes : List (String × String)
  printed : String

namespace Report

open JsonText

def new : Report := ⟨0, 0, 0, 0, [], ""⟩

def line (r : Report) (l : String) : Report := { r with printed := r.printed ++ (l ++ "\n") }

def count (r : Report) : Outcome → Report
  | .pass _ => { r with pass := r.pass + 1 }
  | .fail _ => { r with fail := r.fail + 1 }
  | .skip _ => { r with skip := r.skip + 1 }
  | .infra _ => { r with infra := r.infra + 1 }

def recordLine (name : String) (outcome : Outcome) (ms : Nat) (extra : Option String) : String :=
  "\x7b\"test\": " ++ json name ++ ", \"status\": \"" ++ outcome.status ++ "\", \"ms\": " ++
    toString ms ++ ", \"detail\": " ++ json outcome.detail ++ (extra.elim "" (", " ++ ·)) ++ "\x7d"

/-- `extra` is a JSON object's members, added as they are. -/
def record (r : Report) (name : String) (outcome : Outcome) (ms : Nat) (extra : Option String) :
    Report × Bool :=
  let printed := (r.count outcome).line (recordLine name outcome ms extra)
  ({ printed with outcomes := printed.outcomes ++ [(name, outcome.status)] },
    outcome.status == "pass")

def summaryLine (pass fail skip : Nat) : String :=
  "\x7b\"summary\": \x7b\"pass\": " ++ toString pass ++ ", \"fail\": " ++ toString fail ++
    ", \"skip\": " ++ toString skip ++ "\x7d\x7d"

/-- The exit code. -/
def finish (r : Report) : Report × Int :=
  let fail := r.fail + r.infra
  (r.line (summaryLine r.pass.toNat fail.toNat r.skip.toNat),
    if r.fail = 0 then if r.infra = 0 then 0 else 2 else 1)

/-! ## A literal is a string of JSON -/

theorem exists_letter (c : Char) : ∃ letter : Letter, letter.char = c ∧
    letter.text = escapeChar c := by
  unfold escapeChar
  split_ifs with quote backslash newline carriage tab control
  · exact ⟨.short '"' '"' (by decide), quote.symm, rfl⟩
  · exact ⟨.short '\\' '\\' (by decide), backslash.symm, rfl⟩
  · exact ⟨.short 'n' '\n' (by decide), newline.symm, rfl⟩
  · exact ⟨.short 'r' '\r' (by decide), carriage.symm, rfl⟩
  · exact ⟨.short 't' '\t' (by decide), tab.symm, rfl⟩
  · refine ⟨.unicode c fun _ => false, rfl, ?_⟩
    have digits : ∀ n < 0x20, Letter.codeUnit (fun _ => false) 0 n =
        '\\' :: 'u' :: (Nat.toDigits 16 n).leftpad 4 '0' := by decide +kernel
    rw [Letter.text, Letter.unicodeText, if_pos (by omega), digits _ control]
  · exact ⟨.plain c ⟨quote, backslash, by omega⟩, rfl, rfl⟩

theorem json_toList (s : String) :
    (json s).toList = '"' :: (s.toList.flatMap escapeChar ++ ['"']) := by
  simp [json]

theorem exists_letters (s : String) : ∃ letters : List Letter, content letters = s ∧
    quoted letters = (json s).toList := by
  have each : ∀ cs : List Char, ∃ letters : List Letter, letters.map Letter.char = cs ∧
      letters.flatMap Letter.text = cs.flatMap escapeChar := by
    intro cs
    induction cs with
    | nil => exact ⟨[], rfl, rfl⟩
    | cons c rest ih =>
        obtain ⟨letters, chars, texts⟩ := ih
        obtain ⟨letter, isChar, isText⟩ := exists_letter c
        exact ⟨letter :: letters, by rw [List.map_cons, chars, isChar],
          by rw [List.flatMap_cons, List.flatMap_cons, texts, isText]⟩
  obtain ⟨letters, chars, texts⟩ := each s.toList
  refine ⟨letters, ?_, ?_⟩
  · rw [content, chars, String.ofList_toList]
  · rw [quoted, texts, json_toList]

theorem newline_notMem_json (s : String) : '\n' ∉ (json s).toList := by
  have each : ∀ c, '\n' ∉ escapeChar c := by
    intro c
    unfold escapeChar
    split_ifs with quote backslash newline carriage tab control
    · decide
    · decide
    · decide
    · decide
    · decide
    · have digits : ∀ n < 0x20, '\n' ∉ '\\' :: 'u' :: (Nat.toDigits 16 n).leftpad 4 '0' := by
        decide +kernel
      exact digits _ control
    · exact fun member => newline (List.mem_singleton.mp member).symm
  rw [json_toList]
  simp only [List.mem_cons, List.mem_append, List.mem_flatMap, not_or, not_exists, not_and]
  exact ⟨by decide, fun c _ => each c, by decide, List.not_mem_nil⟩

/-! ## A line is an object -/

def handing {φ : Type} (approx : Number → φ) : Handing String φ := ⟨id, id, approx⟩

noncomputable def lettersOf (s : String) : List Letter := (exists_letters s).choose

@[simp] theorem content_lettersOf (s : String) : content (lettersOf s) = s :=
  (exists_letters s).choose_spec.1

@[simp] theorem quoted_lettersOf (s : String) : quoted (lettersOf s) = (json s).toList :=
  (exists_letters s).choose_spec.2

noncomputable def member (before : Spaces) (key : String) (value : Value) :
    Member Value :=
  ⟨before, lettersOf key, Spaces.none, Spaces.one, value, Spaces.none⟩

def document (members : List (Member Value)) : Document :=
  ⟨Spaces.none, Spaces.none, members, Spaces.none⟩

@[simp] theorem memberText_member (before : Spaces) (key : String) (value : Value) :
    memberText (member before key value) =
      before.chars ++ ((json key).toList ++ ':' :: ' ' :: value.text) := by
  rw [member, memberText]
  simp [Spaces.none, Spaces.one]

theorem text_document (members : List (Member Value)) :
    (document members).text =
      '\x7b' :: (List.intercalate [','] (members.map memberText) ++ ['\x7d']) := by
  simp [Document.text_eq, document, Spaces.none]

/-- The members that are added are written behind a comma and a space. -/
def Spelled (extra : Option String) (members : List (Member Value)) : Prop :=
  extra.elim (members = []) fun e =>
    members ≠ [] ∧ ' ' :: e.toList = List.intercalate [','] (members.map memberText)

theorem json_status (outcome : Outcome) :
    json outcome.status = "\"" ++ outcome.status ++ "\"" := by
  have pass : json "pass" = "\"" ++ "pass" ++ "\"" := by decide
  have fail : json "fail" = "\"" ++ "fail" ++ "\"" := by decide
  have skip : json "skip" = "\"" ++ "skip" ++ "\"" := by decide
  cases outcome with
  | pass _ => exact pass
  | fail _ => exact fail
  | skip _ => exact skip
  | infra _ => exact fail

noncomputable def testMembers (name : String) (outcome : Outcome) (ms : Nat) :
    List (Member Value) :=
  [member Spaces.none "test" (.string (lettersOf name)),
    member Spaces.one "status" (.string (lettersOf outcome.status)),
    member Spaces.one "ms" (.number (Number.ofNat ms)),
    member Spaces.one "detail" (.string (lettersOf outcome.detail))]

theorem text_testMembers (name : String) (outcome : Outcome) (ms : Nat)
    (rest : List (List Char)) :
    List.intercalate [','] ((testMembers name outcome ms).map memberText ++
        rest) =
      ("\"test\": " ++ json name ++ ", \"status\": \"" ++ outcome.status ++ "\", \"ms\": " ++
        toString ms ++ ", \"detail\": " ++ json outcome.detail).toList ++
          (if rest = [] then [] else ',' :: List.intercalate [','] rest) := by
  have test : json "test" = "\"test\"" := rfl
  have status : json "status" = "\"status\"" := rfl
  have millis : json "ms" = "\"ms\"" := rfl
  have detail : json "detail" = "\"detail\"" := rfl
  cases rest with
  | nil =>
      simp [testMembers, Value.text, Spaces.none, Spaces.one, json_status, test, status, millis,
        detail, Number.text_ofNat, List.intercalate_cons_cons]
  | cons first more =>
      simp [testMembers, Value.text, Spaces.none, Spaces.one, json_status, test, status, millis,
        detail, Number.text_ofNat, List.intercalate_cons_cons]

theorem recordLine_toList (name : String) (outcome : Outcome) (ms : Nat)
    (extra : Option String) :
    (recordLine name outcome ms extra).toList = '\x7b' :: (("\"test\": " ++ json name ++
      ", \"status\": \"" ++ outcome.status ++ "\", \"ms\": " ++ toString ms ++ ", \"detail\": " ++
        json outcome.detail).toList ++ ((extra.elim "" (", " ++ ·)).toList ++ ['\x7d'])) := by
  have front : "\x7b\"test\": ".toList = '\x7b' :: "\"test\": ".toList := by decide
  have back : "\x7d".toList = ['\x7d'] := by decide
  unfold recordLine
  simp only [String.toList_append, front, back, List.append_assoc, List.cons_append]

theorem recordLine_object {φ : Type} (approx : Number → φ) (name : String) (outcome : Outcome)
    (ms : Nat) {extra : Option String} {members : List (Member Value)} (spelled : Spelled extra members) :
    ∃ d : Document, d.text = (recordLine name outcome ms extra).toList ∧
      d.entries (handing approx) =
        [("test", .str name), ("status", .str outcome.status),
            ("ms", (Number.ofNat ms).json approx), ("detail", .str outcome.detail)] ++
          members.map fun m => (content m.key, m.value.json (handing approx)) := by
  refine ⟨document (testMembers name outcome ms ++ members), ?_, ?_⟩
  · have added : (if members.map memberText = [] then []
        else ',' :: List.intercalate [','] (members.map memberText)) =
          (extra.elim "" (", " ++ ·)).toList := by
      cases extra with
      | none =>
          cases (spelled : members = [])
          have empty : "".toList = [] := by decide
          rw [List.map_nil, if_pos rfl, Option.elim_none, empty]
      | some e =>
          obtain ⟨some', isText⟩ := spelled
          have left : members.map memberText ≠ [] := fun none =>
            some' (List.map_eq_nil_iff.mp none)
          have comma : ", ".toList = [',', ' '] := by decide
          rw [if_neg left, ← isText, Option.elim_some, String.toList_append, comma]
          rfl
    rw [text_document, List.map_append, text_testMembers, recordLine_toList, added,
      List.append_assoc]
  · rw [Document.entries, document, List.map_append]
    simp [testMembers, member, Value.json, handing]

/-! ## A whole run -/

structure Test where
  name : String
  outcome : Outcome
  ms : Nat
  extra : Option String

def Test.line (t : Test) : String := recordLine t.name t.outcome t.ms t.extra

def recordAll (r : Report) (tests : List Test) : Report :=
  tests.foldl (fun r t => (r.record t.name t.outcome t.ms t.extra).1) r

theorem recordAll_cons (r : Report) (t : Test) (rest : List Test) :
    r.recordAll (t :: rest) =
      (r.record t.name t.outcome t.ms t.extra).1.recordAll rest :=
  rfl

theorem record_counts (r : Report) (t : Test) :
    (r.record t.name t.outcome t.ms t.extra).1.pass =
        r.pass + (if t.outcome.isPass then 1 else 0) ∧
      (r.record t.name t.outcome t.ms t.extra).1.fail =
        r.fail + (if t.outcome.isFail then 1 else 0) ∧
      (r.record t.name t.outcome t.ms t.extra).1.skip =
        r.skip + (if t.outcome.isSkip then 1 else 0) ∧
      (r.record t.name t.outcome t.ms t.extra).1.infra =
        r.infra + (if t.outcome.isInfra then 1 else 0) := by
  cases isOutcome : t.outcome <;>
    simp [record, line, count, Outcome.isPass, Outcome.isFail, Outcome.isSkip, Outcome.isInfra]

theorem ofNat_countP_cons (p : Test → Bool) (t : Test) (rest : List Test) :
    UInt32.ofNat ((t :: rest).countP p) =
      (if p t then 1 else 0) + UInt32.ofNat (rest.countP p) := by
  rw [List.countP_cons, UInt32.ofNat_add, UInt32.add_comm]
  congr 1
  split_ifs <;> rfl

/-- The counters go round at 32 bits. -/
theorem recordAll_counts (r : Report) (tests : List Test) :
    (r.recordAll tests).pass = r.pass + UInt32.ofNat (tests.countP (·.outcome.isPass)) ∧
      (r.recordAll tests).fail = r.fail + UInt32.ofNat (tests.countP (·.outcome.isFail)) ∧
      (r.recordAll tests).skip = r.skip + UInt32.ofNat (tests.countP (·.outcome.isSkip)) ∧
      (r.recordAll tests).infra = r.infra + UInt32.ofNat (tests.countP (·.outcome.isInfra)) := by
  induction tests generalizing r with
  | nil => simp [recordAll]
  | cons t rest ih =>
      obtain ⟨pass, fail, skip, infra⟩ := ih (r.record t.name t.outcome t.ms t.extra).1
      obtain ⟨onePass, oneFail, oneSkip, oneInfra⟩ := record_counts r t
      rw [recordAll_cons, pass, fail, skip, infra, onePass, oneFail, oneSkip, oneInfra]
      simp only [ofNat_countP_cons, UInt32.add_assoc, and_self]

theorem recordAll_printed (r : Report) (tests : List Test) :
    (r.recordAll tests).printed.toList =
      r.printed.toList ++ tests.flatMap fun t => t.line.toList ++ ['\n'] := by
  induction tests generalizing r with
  | nil => simp [recordAll]
  | cons t rest ih =>
      have printed : (r.record t.name t.outcome t.ms t.extra).1.printed =
          r.printed ++ (t.line ++ "\n") := by
        cases isOutcome : t.outcome <;> simp [record, line, count, Test.line, isOutcome]
      rw [recordAll_cons, ih, printed]
      simp

theorem recordAll_outcomes (r : Report) (tests : List Test) :
    (r.recordAll tests).outcomes =
      r.outcomes ++ tests.map fun t => (t.name, t.outcome.status) := by
  induction tests generalizing r with
  | nil => simp [recordAll]
  | cons t rest ih =>
      have outcomes : (r.record t.name t.outcome t.ms t.extra).1.outcomes =
          r.outcomes ++ [(t.name, t.outcome.status)] := by
        cases isOutcome : t.outcome <;> simp [record, line, count]
      rw [recordAll_cons, ih, outcomes, List.append_assoc]
      rfl

theorem newline_notMem_line {t : Test} (oneLine : ∀ e ∈ t.extra, '\n' ∉ e.toList) :
    '\n' ∉ t.line.toList := by
  have status : '\n' ∉ t.outcome.status.toList := by
    cases t.outcome <;> simp [Outcome.status]
  have added : '\n' ∉ (t.extra.elim "" (", " ++ ·)).toList := by
    cases isExtra : t.extra with
    | none => simp
    | some e => simpa using oneLine e isExtra
  have number : '\n' ∉ Nat.toDigits 10 t.ms := by
    rw [← Str.toString_nat_toList]
    exact Str.notMem_toString_nat (by decide) t.ms
  rw [Test.line, recordLine_toList]
  simp [newline_notMem_json, status, added, number]

theorem dropCarriageReturn_brace (front : List Char) :
    Str.dropCarriageReturn (front ++ ['\x7d']) = front ++ ['\x7d'] := by
  rw [Str.dropCarriageReturn, List.getLast?_concat, if_neg (by decide)]

theorem dropCarriageReturn_line (t : Test) :
    Str.dropCarriageReturn t.line.toList = t.line.toList := by
  rw [Test.line, recordLine_toList, ← List.append_assoc, ← List.cons_append]
  exact dropCarriageReturn_brace _

theorem newline_notMem_summaryLine (pass fail skip : Nat) :
    '\n' ∉ (summaryLine pass fail skip).toList := by
  have number : ∀ n : Nat, '\n' ∉ (toString n).toList := Str.notMem_toString_nat (by decide)
  unfold summaryLine
  simp only [String.toList_append, List.mem_append, not_or]
  exact ⟨⟨⟨⟨⟨⟨by decide, number pass⟩, by decide⟩, number fail⟩, by decide⟩, number skip⟩,
    by decide⟩

theorem dropCarriageReturn_summaryLine (pass fail skip : Nat) :
    Str.dropCarriageReturn (summaryLine pass fail skip).toList =
      (summaryLine pass fail skip).toList := by
  have back : "\x7d\x7d".toList = ['\x7d'] ++ ['\x7d'] := by decide
  unfold summaryLine
  rw [String.toList_append, back, ← List.append_assoc]
  exact dropCarriageReturn_brace _

noncomputable def countMembers (pass fail skip : Nat) : List (Member Value) :=
  [member Spaces.none "pass" (.number (Number.ofNat pass)),
    member Spaces.one "fail" (.number (Number.ofNat fail)),
    member Spaces.one "skip" (.number (Number.ofNat skip))]

/-- A summary is an object with one member, which is the object of the counts. -/
noncomputable def summaryDocument (pass fail skip : Nat) : Document :=
  document [member Spaces.none "summary" (document (countMembers pass fail skip)).value]

theorem text_counts (pass fail skip : Nat) :
    (document (countMembers pass fail skip)).value.text =
      ("\x7b\"pass\": " ++ toString pass ++ ", \"fail\": " ++ toString fail ++ ", \"skip\": " ++
        toString skip ++ "\x7d").toList := by
  have passKey : json "pass" = "\"pass\"" := by decide
  have failKey : json "fail" = "\"fail\"" := by decide
  have skipKey : json "skip" = "\"skip\"" := by decide
  rw [Document.value, Value.text, memberTexts_eq_map]
  simp [document, countMembers, Value.text, Spaces.none, Spaces.one, passKey, failKey, skipKey,
    Number.text_ofNat, List.intercalate_cons_cons]

theorem summaryDocument_text (pass fail skip : Nat) :
    (summaryDocument pass fail skip).text = (summaryLine pass fail skip).toList := by
  have summaryKey : json "summary" = "\"summary\"" := by decide
  have front : "\x7b\"summary\": \x7b\"pass\": ".toList = '\x7b' :: ("\"summary\"".toList ++
      ':' :: ' ' :: "\x7b\"pass\": ".toList) := by decide
  have back : "\x7d\x7d".toList = "\x7d".toList ++ ['\x7d'] := by decide
  rw [summaryDocument, text_document, List.map_singleton, memberText_member, summaryKey,
    text_counts, List.intercalate_singleton]
  unfold summaryLine
  simp only [String.toList_append, front, back, List.append_assoc, List.cons_append, Spaces.none,
    List.nil_append]

theorem summaryDocument_entries {φ : Type} (approx : Number → φ) {pass fail skip : Nat}
    (passFits : pass < 2 ^ 64) (failFits : fail < 2 ^ 64) (skipFits : skip < 2 ^ 64) :
    (summaryDocument pass fail skip).entries (handing approx) =
      [("summary", .obj [("pass", .int pass), ("fail", .int fail), ("skip", .int skip)])] := by
  have counts : (document (countMembers pass fail skip)).entries (handing approx) =
      [("pass", .int pass), ("fail", .int fail), ("skip", .int skip)] := by
    simp only [Document.entries, document, countMembers, member, List.map_cons, List.map_nil,
      content_lettersOf, Value.json, Number.json_ofNat _ passFits, Number.json_ofNat _ failFits,
      Number.json_ofNat _ skipFits]
  rw [← counts, ← Document.json_value, summaryDocument, Document.entries]
  simp only [document, member, List.map_cons, List.map_nil, content_lettersOf]

theorem countP_status (tests : List Test) :
    tests.countP (·.outcome.isPass) = tests.countP (·.outcome.status = "pass") ∧
      tests.countP (·.outcome.isFail) + tests.countP (·.outcome.isInfra) =
        tests.countP (·.outcome.status = "fail") ∧
      tests.countP (·.outcome.isSkip) = tests.countP (·.outcome.status = "skip") := by
  induction tests with
  | nil => exact ⟨rfl, rfl, rfl⟩
  | cons t rest ih =>
      obtain ⟨pass, fail, skip⟩ := ih
      simp only [List.countP_cons, pass, ← fail, skip]
      cases t.outcome <;>
        simp [Outcome.isPass, Outcome.isFail, Outcome.isSkip, Outcome.isInfra, Outcome.status]
          <;> omega

theorem toNat_ofNat_countP {tests : List Test} (few : tests.length < 2 ^ 32) (p : Test → Bool) :
    (UInt32.ofNat (tests.countP p)).toNat = tests.countP p :=
  UInt32.toNat_ofNat_of_lt' (List.countP_le_length.trans_lt few)

theorem ofNat_countP_eq_zero {tests : List Test} (few : tests.length < 2 ^ 32)
    (p : Test → Bool) : UInt32.ofNat (tests.countP p) = 0 ↔ ¬ ∃ t ∈ tests, p t = true := by
  rw [← UInt32.toNat_inj, toNat_ofNat_countP few]
  simp [List.countP_eq_zero]

theorem counts_of_new {tests : List Test} (few : tests.length < 2 ^ 32) :
    (new.recordAll tests).pass.toNat = tests.countP (·.outcome.status = "pass") ∧
      ((new.recordAll tests).fail + (new.recordAll tests).infra).toNat =
        tests.countP (·.outcome.status = "fail") ∧
      (new.recordAll tests).skip.toNat = tests.countP (·.outcome.status = "skip") := by
  obtain ⟨pass, fail, skip, infra⟩ := recordAll_counts new tests
  obtain ⟨isPass, isFail, isSkip⟩ := countP_status tests
  have zero : ∀ n : UInt32, 0 + n = n := UInt32.zero_add
  rw [pass, fail, skip, infra, ← isPass, ← isSkip]
  refine ⟨?_, ?_, ?_⟩
  · exact (congrArg UInt32.toNat (zero _)).trans (toNat_ofNat_countP few _)
  · have sum : new.fail + UInt32.ofNat (tests.countP (·.outcome.isFail)) +
        (new.infra + UInt32.ofNat (tests.countP (·.outcome.isInfra))) =
          UInt32.ofNat (tests.countP (·.outcome.status = "fail")) := by
      rw [← isFail, UInt32.ofNat_add]
      exact congrArg₂ (· + ·) (zero _) (zero _)
    rw [sum, toNat_ofNat_countP few]
  · exact (congrArg UInt32.toNat (zero _)).trans (toNat_ofNat_countP few _)

theorem exitCode_of_new {tests : List Test} (few : tests.length < 2 ^ 32) :
    (new.recordAll tests).finish.2 =
      (if ∃ t ∈ tests, t.outcome.isFail = true then 1
      else if ∃ t ∈ tests, t.outcome.isInfra = true then 2 else 0) := by
  obtain ⟨_, fail, _, infra⟩ := recordAll_counts new tests
  have failed : (new.recordAll tests).fail = 0 ↔ ¬ ∃ t ∈ tests, t.outcome.isFail = true := by
    rw [fail, ← ofNat_countP_eq_zero few]
    exact Eq.congr_left (UInt32.zero_add _)
  have unable : (new.recordAll tests).infra = 0 ↔ ¬ ∃ t ∈ tests, t.outcome.isInfra = true := by
    rw [infra, ← ofNat_countP_eq_zero few]
    exact Eq.congr_left (UInt32.zero_add _)
  rw [finish]
  simp only [failed, unable]
  split_ifs <;> rfl

theorem lines_finish {r : Report} {lines : List (List Char)}
    (printed : r.printed.toList = lines.flatMap fun part => part ++ ['\n'])
    (oneByOne : ∀ part ∈ lines, '\n' ∉ part ∧ Str.dropCarriageReturn part = part) :
    Str.lines r.finish.1.printed = lines.map String.ofList ++
      [summaryLine r.pass.toNat (r.fail + r.infra).toNat r.skip.toNat] := by
  obtain ⟨summary, isSummary⟩ : ∃ summary,
      summaryLine r.pass.toNat (r.fail + r.infra).toNat r.skip.toNat = summary := ⟨_, rfl⟩
  have plain : '\n' ∉ summary.toList := by
    rw [← isSummary]
    exact newline_notMem_summaryLine _ _ _
  have kept : Str.dropCarriageReturn summary.toList = summary.toList := by
    rw [← isSummary]
    exact dropCarriageReturn_summaryLine _ _ _
  have all : r.finish.1.printed = String.ofList
      ((lines ++ [summary.toList]).flatMap fun part => part ++ ['\n']) := by
    apply String.toList_injective
    have last : r.finish.1.printed = r.printed ++ (summary ++ "\n") := by
      rw [← isSummary]
      rfl
    rw [last, String.toList_append, printed, String.toList_ofList, List.flatMap_append,
      List.flatMap_singleton, String.toList_append]
    rfl
  have allPlain : ∀ part ∈ lines ++ [summary.toList], '\n' ∉ part := by
    intro part isPart
    rcases List.mem_append.mp isPart with inLines | isLast
    · exact (oneByOne part inLines).1
    · rw [List.mem_singleton.mp isLast]
      exact plain
  rw [all, Str.lines_terminated allPlain, List.map_append, List.map_append, List.map_singleton,
    List.map_singleton, kept, String.ofList_toList, isSummary,
    List.map_congr_left fun part member => (oneByOne part member).2, List.map_id']

/-- What was printed reads back, line by line, as what was recorded, and the summary, the
outcomes that are kept and the exit code tell the same. -/
theorem report_of_tests {φ : Type} (approx : Number → φ) {tests : List Test}
    (few : tests.length < 2 ^ 32) {extras : Test → List (Member Value)}
    (spelled : ∀ t ∈ tests, Spelled t.extra (extras t))
    (oneLine : ∀ t ∈ tests, ∀ e ∈ t.extra, '\n' ∉ e.toList) :
    (∃ objects : List Document, ∃ summary : Document,
        Str.lines (new.recordAll tests).finish.1.printed =
            (objects ++ [summary]).map (fun d => String.ofList d.text) ∧
          objects.map (Document.entries (handing approx)) = tests.map (fun t =>
            [("test", .str t.name), ("status", .str t.outcome.status),
                ("ms", (Number.ofNat t.ms).json approx), ("detail", .str t.outcome.detail)] ++
              (extras t).map fun m => (content m.key, m.value.json (handing approx))) ∧
          summary.entries (handing approx) = [("summary", .obj
            [("pass", .int (tests.countP (·.outcome.status = "pass"))),
              ("fail", .int (tests.countP (·.outcome.status = "fail"))),
              ("skip", .int (tests.countP (·.outcome.status = "skip")))])]) ∧
      (new.recordAll tests).outcomes = tests.map (fun t => (t.name, t.outcome.status)) ∧
      (new.recordAll tests).finish.2 =
        (if ∃ t ∈ tests, t.outcome.isFail = true then 1
        else if ∃ t ∈ tests, t.outcome.isInfra = true then 2 else 0) := by
  refine ⟨?_, recordAll_outcomes new tests, exitCode_of_new few⟩
  obtain ⟨pass, fail, skip⟩ := counts_of_new few
  have small : ∀ p : Test → Bool, tests.countP p < 2 ^ 64 := fun p =>
    (List.countP_le_length.trans_lt few).trans (by decide)
  have counts := summaryDocument_entries approx (small (·.outcome.status = "pass"))
    (small (·.outcome.status = "fail")) (small (·.outcome.status = "skip"))
  have : Nonempty Document := ⟨document []⟩
  choose! object text entries using fun (t : Test) (inTests : t ∈ tests) =>
    recordLine_object approx t.name t.outcome t.ms (spelled t inTests)
  refine ⟨tests.map object, _, ?_, ?_, counts⟩
  · have printed : (new.recordAll tests).printed.toList =
        (tests.map fun t => t.line.toList).flatMap fun part => part ++ ['\n'] := by
      rw [recordAll_printed, List.flatMap_map]
      rfl
    have oneByOne : ∀ part ∈ tests.map (fun t => t.line.toList),
        '\n' ∉ part ∧ Str.dropCarriageReturn part = part := by
      intro part isPart
      obtain ⟨t, inTests, rfl⟩ := List.mem_map.mp isPart
      exact ⟨newline_notMem_line (oneLine t inTests), dropCarriageReturn_line t⟩
    have ends := lines_finish printed oneByOne
    rw [pass, fail, skip] at ends
    rw [ends, List.map_append, List.map_singleton, summaryDocument_text, String.ofList_toList]
    refine congrArg (· ++ _) ?_
    rw [List.map_map, List.map_map]
    refine List.map_congr_left fun t inTests => ?_
    exact congrArg String.ofList (text t inTests).symm
  · rw [List.map_map]
    exact List.map_congr_left entries

/-- The name of the one has a quote and a line break. -/
def twoTests : List Test :=
  [⟨"a \"b\"\n", .pass "ok", 3, none⟩, ⟨"many", .infra "no apiserver", 12, some "\"pods\": 2"⟩]

theorem report_of_twoTests :
    (∃ objects : List Document, ∃ summary : Document,
        Str.lines (new.recordAll twoTests).finish.1.printed =
            (objects ++ [summary]).map (fun d => String.ofList d.text) ∧
          objects.map (Document.entries (handing fun _ => ())) =
            [[("test", .str "a \"b\"\n"), ("status", .str "pass"), ("ms", .int 3),
                ("detail", .str "ok")],
              [("test", .str "many"), ("status", .str "fail"), ("ms", .int 12),
                ("detail", .str "could not run: no apiserver"), ("pods", .int 2)]] ∧
          summary.entries (handing fun _ => ()) =
            [("summary", .obj [("pass", .int 1), ("fail", .int 1), ("skip", .int 0)])]) ∧
      (new.recordAll twoTests).finish.2 = 2 := by
  have podsKey : json "pods" = "\"pods\"" := by decide
  have small : ∀ n ∈ [2, 3, 12], (Number.ofNat n).json (fun _ => ()) = (.int n : Serde.Json String _) :=
    fun n member => Number.json_ofNat _ (by simp at member; omega)
  have read := @report_of_tests Unit (fun _ => ()) twoTests (by decide)
    (fun t => if t.extra = none then [] else
      [member Spaces.one "pods" (.number (Number.ofNat 2))]) ?spelled ?oneLine
  · obtain ⟨⟨objects, summary, lines, entries, counts⟩, _, code⟩ := read
    refine ⟨⟨objects, summary, lines, entries.trans ?_, counts.trans ?_⟩, code.trans (by decide)⟩
    · simp [twoTests, member, Value.json, handing, small, Outcome.status, Outcome.detail]
    · simp [twoTests, Outcome.status]
  case spelled =>
    refine List.forall_mem_cons.mpr ⟨rfl, List.forall_mem_singleton.mpr ⟨List.cons_ne_nil _ _, ?_⟩⟩
    rw [if_neg (by decide), List.map_singleton, memberText_member, podsKey, Value.text,
      Number.text_ofNat, List.intercalate_singleton]
    decide
  case oneLine =>
    refine List.forall_mem_cons.mpr ⟨?_, List.forall_mem_singleton.mpr fun e isExtra => ?_⟩
    · intro e isExtra
      cases isExtra
    · rw [← Option.some.inj isExtra]
      decide

end Report

end Cadvisor
