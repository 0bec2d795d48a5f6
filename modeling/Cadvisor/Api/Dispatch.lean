import Cadvisor.Api.V1
import Cadvisor.Manager.Info

/-!
# From a container's name to its URL and back

The test client writes a container name as a URL path behind version and request
type.  The router decodes the path once, and `dispatch` splits it into components
and joins them to a name again.
-/

set_option autoImplicit false

namespace Cadvisor

/-- `encoded` is a percent-encoding of `plain`: a byte stands for itself unless it
is a percent sign, and a percent sign and two digits stand for any byte. -/
inductive PercentEncodes : List UInt8 → List UInt8 → Prop where
  | done : PercentEncodes [] []
  | literal (b : UInt8) (plain encoded : List UInt8) (notPercent : b ≠ 0x25)
      (tail : PercentEncodes plain encoded) : PercentEncodes (b :: plain) (b :: encoded)
  | percent (b high low : UInt8) (plain encoded : List UInt8) (value : digitPair high low = some b)
      (tail : PercentEncodes plain encoded) :
      PercentEncodes (b :: plain) (0x25 :: high :: low :: encoded)

namespace PercentEncodes

theorem append {plain encoded plain' encoded' : List UInt8} (first : PercentEncodes plain encoded)
    (second : PercentEncodes plain' encoded') :
    PercentEncodes (plain ++ plain') (encoded ++ encoded') := by
  induction first with
  | done => exact second
  | literal b plain encoded notPercent _ ih => exact .literal b _ _ notPercent ih
  | percent b high low plain encoded value _ ih => exact .percent b high low _ _ value ih

theorem self {bytes : List UInt8} (plain : 0x25 ∉ bytes) : PercentEncodes bytes bytes := by
  induction bytes with
  | nil => exact .done
  | cons b rest ih =>
      rw [List.mem_cons, not_or] at plain
      obtain ⟨differs, others⟩ := plain
      exact .literal b _ _ (Ne.symm differs) (ih others)

end PercentEncodes

/-! ## The client -/

/-- The bytes that `enc` leaves as they are: ASCII letters and digits, the
slash, and `-_.~@:`. -/
def unescaped (b : UInt8) : Bool :=
  (0x30 ≤ b ∧ b ≤ 0x39) ∨ (0x41 ≤ b ∧ b ≤ 0x5A) ∨ (0x61 ≤ b ∧ b ≤ 0x7A) ∨
    b ∈ [0x2F, 0x2D, 0x5F, 0x2E, 0x7E, 0x40, 0x3A]

/-- `{:X}` of one digit. -/
def hexUpper (d : UInt8) : UInt8 := if d < 10 then d + 0x30 else d + 0x37

def encByte (b : UInt8) : List UInt8 :=
  if unescaped b then [b] else [0x25, hexUpper (b / 16), hexUpper (b % 16)]

/-- The bytes pushed are ASCII characters. -/
def enc (name : String) : String :=
  String.ofList (((Str.utf8Bytes name).flatMap encByte).map fun b => Char.ofNat b.toNat)

theorem hexUpper_spec (b : UInt8) (small : b.toNat < 16) :
    hexDigit (hexUpper b) = some b ∧ hexUpper b < 128 := by
  have digits : ∀ n : Fin 16, hexDigit (hexUpper (UInt8.ofNat n)) = some (UInt8.ofNat n) ∧
      hexUpper (UInt8.ofNat n) < 128 := by decide
  have spelled := digits ⟨b.toNat, small⟩
  simpa using spelled

theorem encByte_spec (b : UInt8) :
    PercentEncodes [b] (encByte b) ∧ ∀ c ∈ encByte b, c < 128 := by
  unfold encByte
  by_cases plain : unescaped b = true
  · rw [if_pos plain]
    have notPercent : b ≠ 0x25 := by
      rintro rfl
      exact absurd plain (by decide)
    have ascii : b < 128 := by
      unfold unescaped at plain
      simp only [Bool.decide_or, Bool.or_eq_true, decide_eq_true_eq, List.mem_cons,
        List.not_mem_nil, or_false, UInt8.le_iff_toNat_le, UInt8.lt_iff_toNat_lt,
        ← UInt8.toNat_inj] at plain ⊢
      have bounds : (0x39 : UInt8).toNat = 57 ∧ (0x5A : UInt8).toNat = 90 := by decide
      grind
    exact ⟨.literal b _ _ notPercent .done, List.forall_mem_singleton.mpr ascii⟩
  · rw [if_neg plain]
    have bound := b.toNat_lt
    have high : (b / 16).toNat = b.toNat / 16 := UInt8.toNat_div b 16
    have low : (b % 16).toNat = b.toNat % 16 := UInt8.toNat_mod b 16
    obtain ⟨highDigit, highAscii⟩ := hexUpper_spec (b / 16) (by omega)
    obtain ⟨lowDigit, lowAscii⟩ := hexUpper_spec (b % 16) (by omega)
    have value : digitPair (hexUpper (b / 16)) (hexUpper (b % 16)) = some b := by
      have sum : b / 16 * 16 + b % 16 = b := by
        rw [← UInt8.toNat_inj, UInt8.toNat_add, UInt8.toNat_mul, high, low]
        change (b.toNat / 16 * 16 % 256 + b.toNat % 16) % 256 = b.toNat
        omega
      rw [digitPair, highDigit, lowDigit, Option.bind_eq_bind, Option.bind_some,
        Option.bind_some, sum]
    refine ⟨.percent b _ _ _ _ value .done, ?_⟩
    intro c member
    simp only [List.mem_cons, List.not_mem_nil, or_false] at member
    rcases member with rfl | rfl | rfl
    · decide
    · exact highAscii
    · exact lowAscii

theorem enc_encodes (name : String) :
    PercentEncodes (Str.utf8Bytes name) (Str.utf8Bytes (enc name)) := by
  have ascii : ∀ b ∈ (Str.utf8Bytes name).flatMap encByte, b < 128 := by
    intro b member
    obtain ⟨source, _, inByte⟩ := List.mem_flatMap.mp member
    exact (encByte_spec source).2 b inByte
  rw [enc, Str.utf8Bytes_ascii ascii]
  clear ascii
  induction Str.utf8Bytes name with
  | nil => exact .done
  | cons b rest ih => exact (encByte_spec b).1.append ih

/-! ## The server -/

/-- What the route `/api/{*rest}` takes of a path. -/
def wildcard (path : String) : Option String := (Str.stripPrefix path "/api/").filter (· ≠ "")

/-- `dispatch`'s name of the container, behind version and request type. -/
def dispatchContainer (rest : String) : String := containerNameOf ((Str.split rest '/').drop 2)

/-- The name for a whole path; `percentDecode` is what the router makes of the
wildcard before it hands it over. -/
def requestedContainer (percentDecode : String → Option String) (path : String) : Option String :=
  (wildcard path).bind fun raw => (percentDecode raw).map dispatchContainer

theorem wildcard_api {raw : String} (nonempty : raw ≠ "") :
    wildcard ("/api/" ++ raw) = some raw := by
  have starts : Str.startsWith ("/api/" ++ raw) "/api/" = true := by
    rw [Str.startsWith, List.isPrefixOf_iff_prefix, String.toList_append]
    exact List.prefix_append _ _
  rw [wildcard, Str.stripPrefix, if_pos starts, String.toList_append, List.drop_left,
    String.ofList_toList]
  exact if_pos (decide_eq_true nonempty)

theorem join_slash (first : String) (rest : List String) :
    ("/" ++ Str.join "/" (first :: rest)).toList = slashed (first :: rest) := by
  simp only [String.toList_append, Str.join, String.toList_ofList]
  change '/' :: List.intercalate ['/'] ((first :: rest).map String.toList) = _
  induction rest generalizing first with
  | nil => simp [slashed, List.intercalate]
  | cons next rest ih =>
      have spread : List.intercalate ['/'] ((first :: next :: rest).map String.toList) =
          first.toList ++ '/' :: List.intercalate ['/'] ((next :: rest).map String.toList) := by
        simp [List.intercalate]
      rw [spread, ih]
      rfl

theorem containerNameOf_components {path : List String} (valid : ∀ c ∈ path, Component c)
    (notRoot : path ≠ []) : containerNameOf path = cgroupName path := by
  obtain ⟨first, rest, pathIs⟩ := List.exists_cons_of_ne_nil notRoot
  have notBlank : ¬ (path.isEmpty = true ∨ path = [""]) := by
    rintro (empty | blank)
    · exact notRoot (List.isEmpty_iff.mp empty)
    · exact (valid "" (blank ▸ List.mem_singleton_self "")).1 rfl
  have joined : "/" ++ Str.join "/" path = cgroupName path := by
    apply String.toList_injective
    rw [cgroupName_toList notRoot, pathIs]
    exact join_slash first rest
  have trimmed : Str.trimEndMatches (cgroupName path) '/' = cgroupName path := by
    have slash := trimEndMatches_cgroupName valid
    rw [childPrefix, if_neg (cgroupName_ne_slash valid notRoot)] at slash
    apply String.toList_injective
    have chars := congrArg String.toList slash
    rw [String.toList_append, String.toList_append] at chars
    exact List.append_cancel_right chars
  have notEmpty : cgroupName path ≠ "" := by
    intro empty
    have chars := congrArg String.toList empty
    rw [cgroupName_toList notRoot, pathIs] at chars
    cases chars
  unfold containerNameOf
  dsimp only
  rw [if_neg notBlank, joined, trimmed, if_neg notEmpty]

theorem split_behind {front : String} (noSlash : '/' ∉ front.toList) (back : String) :
    Str.split (front ++ "/" ++ back) '/' = front :: Str.split back '/' := by
  rw [Str.split, String.toList_append, String.toList_append, List.append_assoc]
  change (List.splitOn '/' (front.toList ++ '/' :: back.toList)).map String.ofList = _
  rw [List.splitOn_append_cons_self_of_not_mem noSlash, List.map_cons, String.ofList_toList]
  rfl

theorem dispatchContainer_eq {version requestType name : String} (named : WellNamed name)
    (noSlash : '/' ∉ version.toList) (noSlash' : '/' ∉ requestType.toList) :
    dispatchContainer (version ++ "/" ++ (requestType ++ name)) = name := by
  obtain ⟨path, valid, rfl⟩ := named
  rw [dispatchContainer, split_behind noSlash, List.drop_succ_cons]
  by_cases isRoot : path = []
  · subst isRoot
    have whole : requestType ++ cgroupName [] = requestType ++ "/" ++ "" := by
      rw [String.append_empty]
      rfl
    rw [whole, split_behind noSlash', List.drop_succ_cons, List.drop_zero]
    decide
  · have parts : Str.split (requestType ++ cgroupName path) '/' = requestType :: path := by
      rw [Str.split, String.toList_append, cgroupName_toList isRoot]
      obtain ⟨first, rest, rfl⟩ := List.exists_cons_of_ne_nil isRoot
      have behind := splitOn_slashed valid
      have unfolded : slashed (first :: rest) = '/' :: (first.toList ++ slashed rest) := rfl
      have skipped : ([] ++ '/' :: (first.toList ++ slashed rest)).splitOn '/' =
          [] :: (first.toList ++ slashed rest).splitOn '/' :=
        List.splitOn_append_cons_self_of_not_mem List.not_mem_nil _
      rw [List.nil_append, ← unfolded, behind, List.cons.injEq] at skipped
      rw [unfolded, List.splitOn_append_cons_self_of_not_mem noSlash', ← skipped.2, List.map_cons,
        String.ofList_toList, List.map_map]
      simp [Function.comp_def]
    rw [parts, List.drop_succ_cons, List.drop_zero]
    exact containerNameOf_components valid isRoot

def requestPath (version requestType name : String) : String :=
  "/api/" ++ (version ++ "/" ++ (requestType ++ enc name))

/-- Whatever the version and the request type, and however the URL spells them, the
name that `dispatch` computes for the client's path is the name encoded in it. -/
theorem requestedContainer_eq (percentDecode : String → Option String)
    (decodes : ∀ plain encoded, PercentEncodes (Str.utf8Bytes plain) (Str.utf8Bytes encoded) →
      percentDecode encoded = some plain)
    (name : String) (named : WellNamed name) (version requestType : String)
    (noSlash : '/' ∉ version.toList) (noSlash' : '/' ∉ requestType.toList)
    (versionInUrl requestTypeInUrl : String)
    (versionSpelled : PercentEncodes (Str.utf8Bytes version) (Str.utf8Bytes versionInUrl))
    (requestTypeSpelled :
      PercentEncodes (Str.utf8Bytes requestType) (Str.utf8Bytes requestTypeInUrl)) :
    requestedContainer percentDecode (requestPath versionInUrl requestTypeInUrl name) =
      some name := by
  have concat : ∀ a b : String, Str.utf8Bytes (a ++ b) = Str.utf8Bytes a ++ Str.utf8Bytes b := by
    intro a b
    rw [Str.utf8Bytes, String.toList_append, List.flatMap_append]
    rfl
  have slash : PercentEncodes (Str.utf8Bytes "/") (Str.utf8Bytes "/") := by
    apply PercentEncodes.self
    decide
  have encodes : PercentEncodes (Str.utf8Bytes (version ++ "/" ++ (requestType ++ name)))
      (Str.utf8Bytes (versionInUrl ++ "/" ++ (requestTypeInUrl ++ enc name))) := by
    simp only [concat]
    exact (versionSpelled.append slash).append (requestTypeSpelled.append (enc_encodes name))
  have nonempty : versionInUrl ++ "/" ++ (requestTypeInUrl ++ enc name) ≠ "" := by
    intro empty
    have chars := congrArg String.toList empty
    simp at chars
  rw [requestedContainer, requestPath, wildcard_api nonempty, Option.bind_some,
    decodes _ _ encodes, Option.map_some, dispatchContainer_eq named noSlash noSlash']

/-- Percent-decoding as a function; what is no escape stands for itself. -/
def percentBytes : List UInt8 → List UInt8
  | b :: high :: low :: rest =>
      match if b = 0x25 then digitPair high low else none with
      | some v => v :: percentBytes rest
      | none => b :: percentBytes (high :: low :: rest)
  | short => short

theorem percentBytes_of_encodes {plain encoded : List UInt8}
    (encodes : PercentEncodes plain encoded) : percentBytes encoded = plain := by
  induction encodes with
  | done => rfl
  | literal b plain encoded notPercent _ ih =>
      match encoded with
      | [] =>
          rw [← ih]
          rfl
      | [c] =>
          rw [← ih]
          rfl
      | high :: low :: rest => rw [percentBytes, if_neg notPercent, ih]
  | percent b high low plain encoded value _ ih =>
      rw [percentBytes, if_pos rfl, value, ih]

theorem escaped_name_requested :
    requestedContainer (fun raw => Str.fromUtf8 (percentBytes (Str.utf8Bytes raw)))
      (requestPath "v1.3" "%63ontainers" "/system.slice/a\\x2dé.service") =
        some "/system.slice/a\\x2dé.service" := by
  refine requestedContainer_eq _ (fun plain encoded encodes => ?_) _
    ⟨["system.slice", "a\\x2dé.service"],
      List.forall_mem_cons.mpr ⟨by decide, List.forall_mem_singleton.mpr (by decide)⟩, by decide⟩
    "v1.3" "containers" (by decide) (by decide) "v1.3" "%63ontainers"
    (PercentEncodes.self (by decide)) ?_
  · rw [percentBytes_of_encodes encodes]
    exact (Str.fromUtf8_eq_some_iff _ _).mpr rfl
  · exact .percent 0x63 0x36 0x33 _ _ (by decide) (PercentEncodes.self (by decide))

end Cadvisor
