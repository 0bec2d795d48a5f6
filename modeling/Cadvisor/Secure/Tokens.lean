import Cadvisor.Lib.Str
import Cadvisor.Secure.Watched

/-!
# Bearer tokens

The token file and the header are normalised separately: the file line by line as
text, the header from its bytes.  They meet in a comparison of bytes.
-/

set_option autoImplicit false

namespace Cadvisor

abbrev Tokens := List (List UInt8)

def parseTokens (text : String) : Tokens :=
  (((Str.lines text).map Str.trim).filter fun l => l ≠ "" ∧ ¬ Str.startsWith l "#").map
    Str.utf8Bytes

/-- `file` is what `read_to_string` returns, and nothing for a file that cannot be
read or is not UTF-8. -/
def loadTokens (path : String) (file : Option String) : Except String Tokens :=
  match file with
  | none => .error ("read " ++ path)
  | some text =>
      let tokens := parseTokens text
      if tokens = [] then
        .error (path ++ ": no tokens (every request would be refused)")
      else .ok tokens

/-- Equal without an early exit on the first differing byte. -/
def ctEq (a b : List UInt8) : Bool :=
  if a.length ≠ b.length then false
  else (a.zip b).foldl (fun acc xy => acc ||| (xy.1 ^^^ xy.2)) 0 = 0

def isVisibleAscii (b : UInt8) : Bool := (32 ≤ b ∧ b < 127) ∨ b = 9

/-- `HeaderValue::to_str`. -/
def toStr (header : List UInt8) : Option String :=
  if header.all isVisibleAscii then
    some (String.ofList (header.map fun b => Char.ofNat b.toNat))
  else none

def bearer (h : Option (List UInt8)) : Option (List UInt8) := do
  let v ← toStr (← h)
  let (scheme, token) ← Str.splitOnce v ' '
  let token := Str.trim token
  if Str.asciiLowercase scheme = "bearer" ∧ token ≠ "" then some (Str.utf8Bytes token) else none

def accepted (tokens : Tokens) (presented : Option (List UInt8)) : Bool :=
  match presented with
  | some p => tokens.any fun t => ctEq t p
  | none => false

def healthPaths : List String := ["/healthz", "/-/healthy", "/-/ready"]

/-- What the middleware reads of a request; header names are lower case. -/
structure Request where
  path : String
  headers : List (String × List UInt8)

/-- `HeaderMap::get`: the first value under a name. -/
def Request.header (req : Request) (name : String) : Option (List UInt8) :=
  (req.headers.find? fun entry => entry.1 == name).map Prod.snd

structure Response where
  status : Nat
  headers : List (String × String)
  body : String
deriving DecidableEq

def unauthorized : Response := ⟨401, [("www-authenticate", "Bearer")], "Unauthorized\n"⟩

inductive Admission where
  | forwarded (req : Request)
  | answered (res : Response)

/-- `tokens` is what `get` returns for the watched file. -/
def requireBearer (tokens : Tokens) (req : Request) : Admission :=
  if req.path ∈ healthPaths ∨ accepted tokens (bearer (req.header "authorization")) then
    .forwarded req
  else .answered unauthorized

/-! ## The comparison -/

theorem foldl_or_xor_eq_zero_iff {pairs : List (UInt8 × UInt8)} {acc : UInt8} :
    pairs.foldl (fun acc xy => acc ||| (xy.1 ^^^ xy.2)) acc = 0 ↔
      acc = 0 ∧ ∀ xy ∈ pairs, xy.1 = xy.2 := by
  induction pairs generalizing acc with
  | nil => simp
  | cons xy rest ih =>
      rw [List.foldl_cons, ih, UInt8.or_eq_zero_iff, UInt8.xor_eq_zero_iff, and_assoc,
        List.forall_mem_cons]

theorem zip_eq_iff : ∀ {a b : List UInt8}, a.length = b.length →
    ((∀ xy ∈ a.zip b, xy.1 = xy.2) ↔ a = b) := by
  intro a
  induction a with
  | nil =>
      intro b size
      obtain rfl := List.length_eq_zero_iff.mp size.symm
      simp
  | cons x rest ih =>
      intro b size
      cases b with
      | nil => cases size
      | cons y others =>
          rw [List.zip_cons_cons, List.forall_mem_cons, ih (Nat.succ.inj size), List.cons.injEq]

theorem ctEq_iff {a b : List UInt8} : ctEq a b = true ↔ a = b := by
  unfold ctEq
  split_ifs with size
  · exact ⟨nofun, fun same => absurd (same ▸ rfl) size⟩
  · rw [decide_eq_true_eq, foldl_or_xor_eq_zero_iff, zip_eq_iff (not_not.mp size)]
    exact and_iff_right rfl

theorem accepted_iff {tokens : Tokens} {presented : Option (List UInt8)} :
    accepted tokens presented = true ↔ ∃ p ∈ tokens, presented = some p := by
  unfold accepted
  cases presented with
  | none => simp
  | some p =>
      simp only [List.any_eq_true, ctEq_iff, Option.some.injEq]
      exact ⟨fun ⟨t, member, same⟩ => ⟨t, member, same.symm⟩,
        fun ⟨t, member, same⟩ => ⟨t, member, same.symm⟩⟩

/-! ## The file -/

/-- A line of the text, trimmed, that is neither blank nor a comment. -/
def Lists (text token : String) : Prop :=
  token ≠ "" ∧ ¬ Str.startsWith token "#" ∧ ∃ part ∈ Str.split text '\n', Str.trim part = token

theorem mem_parseTokens_iff {text token : String} :
    Str.utf8Bytes token ∈ parseTokens text ↔ Lists text token := by
  have listed : Str.utf8Bytes token ∈ parseTokens text ↔
      (∃ line ∈ Str.lines text, Str.trim line = token) ∧
        token ≠ "" ∧ ¬ Str.startsWith token "#" := by
    simp only [parseTokens, List.mem_map, List.mem_filter, decide_eq_true_eq]
    constructor
    · rintro ⟨l, ⟨trimmed, kept⟩, bytes⟩
      obtain rfl := Str.utf8Bytes_injective bytes
      exact ⟨trimmed, kept⟩
    · rintro ⟨trimmed, kept⟩
      exact ⟨token, ⟨trimmed, kept⟩, rfl⟩
  rw [listed]
  constructor
  · rintro ⟨line, nonempty, notComment⟩
    exact ⟨nonempty, notComment, (Str.exists_lines_trim_iff nonempty).mp line⟩
  · rintro ⟨nonempty, notComment, part⟩
    exact ⟨(Str.exists_lines_trim_iff nonempty).mpr part, nonempty, notComment⟩

theorem loadTokens_eq_ok {path text : String} {tokens : Tokens}
    (loads : loadTokens path (some text) = .ok tokens) : tokens = parseTokens text := by
  simp only [loadTokens] at loads
  split_ifs at loads
  cases loads
  rfl

/-! ## The header -/

/-- Visible ASCII, spaces and tabs only: the scheme, a space, and the token with
white space around it. -/
def Presents (header : List UInt8) (token : String) : Prop :=
  (∀ b ∈ header, isVisibleAscii b) ∧
    ∃ scheme rest : String, header = Str.utf8Bytes (scheme ++ " " ++ rest) ∧
      ' ' ∉ scheme.toList ∧ Str.asciiLowercase scheme = "bearer" ∧ Str.trim rest = token ∧
        token ≠ ""

theorem isVisibleAscii_lt {b : UInt8} (visible : isVisibleAscii b = true) : b < 128 := by
  rw [isVisibleAscii, decide_eq_true_eq] at visible
  obtain ⟨_, small⟩ | rfl := visible
  · exact UInt8.lt_trans small (by decide)
  · decide

theorem toStr_eq_some_iff {header : List UInt8} {v : String} :
    toStr header = some v ↔
      (∀ b ∈ header, isVisibleAscii b) ∧ header = Str.utf8Bytes v := by
  have bytes (visible : ∀ b ∈ header, isVisibleAscii b) :
      Str.utf8Bytes (String.ofList (header.map fun b => Char.ofNat b.toNat)) = header :=
    Str.utf8Bytes_ascii fun b member => isVisibleAscii_lt (visible b member)
  unfold toStr
  split_ifs with visible
  · rw [List.all_eq_true] at visible
    rw [Option.some.injEq]
    constructor
    · rintro rfl
      exact ⟨visible, (bytes visible).symm⟩
    · rintro ⟨_, same⟩
      exact Str.utf8Bytes_injective ((bytes visible).trans same)
  · rw [List.all_eq_true] at visible
    exact ⟨nofun, fun readable => absurd readable.1 visible⟩

theorem splitOnce_space_iff {v scheme rest : String} :
    Str.splitOnce v ' ' = some (scheme, rest) ↔
      v = scheme ++ " " ++ rest ∧ ' ' ∉ scheme.toList := by
  rw [Str.splitOnce_eq_some_iff, ← String.toList_inj]
  simp [String.toList_append, List.append_assoc]

theorem bearer_eq_some_iff {h : Option (List UInt8)} {p : List UInt8} :
    bearer h = some p ↔
      ∃ header token, h = some header ∧ Presents header token ∧ p = Str.utf8Bytes token := by
  simp only [bearer, Option.bind_eq_bind, Option.bind_eq_some_iff, Prod.exists,
    Option.ite_none_right_eq_some, Option.some.injEq]
  constructor
  · rintro ⟨header, isHeader, v, read, scheme, rest, parts, ⟨isBearer, nonempty⟩, rfl⟩
    obtain ⟨visible, bytes⟩ := toStr_eq_some_iff.mp read
    obtain ⟨text, noSpace⟩ := splitOnce_space_iff.mp parts
    exact ⟨header, _, isHeader,
      ⟨visible, scheme, rest, text ▸ bytes, noSpace, isBearer, rfl, nonempty⟩, rfl⟩
  · rintro ⟨header, token, isHeader, presents, rfl⟩
    obtain ⟨visible, scheme, rest, bytes, noSpace, isBearer, rfl, nonempty⟩ := presents
    exact ⟨header, isHeader, _, toStr_eq_some_iff.mpr ⟨visible, bytes⟩, scheme, rest,
      splitOnce_space_iff.mpr ⟨rfl, noSpace⟩, ⟨isBearer, nonempty⟩, rfl⟩

/-! ## The middleware -/

/-- A request that is let through: for a health path, or with a listed token. -/
def Entitled (text : String) (req : Request) : Prop :=
  req.path ∈ healthPaths ∨
    ∃ header token, req.header "authorization" = some header ∧ Presents header token ∧
      Lists text token

theorem accepted_parseTokens_iff {text : String} {h : Option (List UInt8)} :
    accepted (parseTokens text) (bearer h) = true ↔
      ∃ header token, h = some header ∧ Presents header token ∧ Lists text token := by
  rw [accepted_iff]
  constructor
  · rintro ⟨p, member, presented⟩
    obtain ⟨header, token, isHeader, presents, rfl⟩ := bearer_eq_some_iff.mp presented
    exact ⟨header, token, isHeader, presents, mem_parseTokens_iff.mp member⟩
  · rintro ⟨header, token, isHeader, presents, listed⟩
    exact ⟨Str.utf8Bytes token, mem_parseTokens_iff.mpr listed,
      bearer_eq_some_iff.mpr ⟨header, token, isHeader, presents, rfl⟩⟩

theorem requireBearer_parseTokens (text : String) (req : Request) :
    (Entitled text req → requireBearer (parseTokens text) req = .forwarded req) ∧
      (¬ Entitled text req → requireBearer (parseTokens text) req = .answered unauthorized) := by
  have entitled : Entitled text req ↔ req.path ∈ healthPaths ∨
      accepted (parseTokens text) (bearer (req.header "authorization")) = true :=
    or_congr_right accepted_parseTokens_iff.symm
  rw [entitled]
  exact ⟨fun holds => if_pos holds, fun fails => if_neg fails⟩

theorem forwarded_parseTokens_iff (text : String) (req : Request) :
    requireBearer (parseTokens text) req = .forwarded req ↔ Entitled text req := by
  obtain ⟨forwards, refuses⟩ := requireBearer_parseTokens text req
  refine ⟨fun forwarded => ?_, forwards⟩
  by_contra notEntitled
  rw [refuses notEntitled] at forwarded
  cases forwarded

theorem requireBearer_forwards_iff {path text : String} {tokens : Tokens}
    (loads : loadTokens path (some text) = .ok tokens) (req : Request) :
    (requireBearer tokens req = .forwarded req ↔ Entitled text req) ∧
      (¬ Entitled text req → requireBearer tokens req = .answered unauthorized) := by
  obtain rfl := loadTokens_eq_ok loads
  exact ⟨forwarded_parseTokens_iff text req, (requireBearer_parseTokens text req).2⟩

theorem requireBearer_forwards_iff_indented :
    requireBearer [Str.utf8Bytes "abc", Str.utf8Bytes "def"]
      ⟨"/metrics", [("authorization", Str.utf8Bytes "bearer  def ")]⟩ =
        .forwarded ⟨"/metrics", [("authorization", Str.utf8Bytes "bearer  def ")]⟩ := by
  have loads : loadTokens "tokens" (some "# scraper\nabc\n\n  def  \r\n") =
      .ok [Str.utf8Bytes "abc", Str.utf8Bytes "def"] := by decide
  refine (requireBearer_forwards_iff loads _).1.mpr (Or.inr ⟨_, "def", rfl, ?_, ?_⟩)
  · exact ⟨List.all_eq_true.mp (by decide), "bearer", " def ", by decide, by decide, by decide,
      by decide, by decide⟩
  · exact ⟨by decide, by decide, "  def  \r", by decide, by decide⟩

def loadWatched (path : String) : List (Option String) → Option Tokens
  | [file] => (loadTokens path file).toOption
  | _ => none

/-- However the token file is replaced while requests come in, the tokens a request is
compared with are those of one text that was read from it. -/
theorem served_forwards_iff {path : String} {files : List (WatchedFile (Option String))}
    {actions : List (WatchAction (Option String))} {w : Watched (Option String) Tokens}
    (run : Run.exec (Watched.step (loadWatched path)) (Watched.new files) actions = some w)
    {tokens : Tokens} (served : tokens ∈ w.returned) :
    ∃ text, [some text] ∈ w.loads ∧
      ∀ req, requireBearer tokens req = .forwarded req ↔ Entitled text req := by
  have inv : Watched.Inv (loadWatched path) w :=
    Run.exec_keeps_all (fun _ _ _ inv step => Watched.step_inv inv step)
      (Watched.inv_new files) run
  obtain ⟨read, member, loads⟩ := inv.returned tokens served
  unfold loadWatched at loads
  split at loads
  · rename_i file
    cases file with
    | none => cases loads
    | some text =>
        refine ⟨text, member, fun req => ?_⟩
        cases outcome : loadTokens path (some text) with
        | error message =>
            rw [outcome] at loads
            cases loads
        | ok found =>
            rw [outcome] at loads
            cases loads
            rw [loadTokens_eq_ok outcome]
            exact forwarded_parseTokens_iff text req
  · cases loads

end Cadvisor
