import Cadvisor.Lib.JsonText
import Cadvisor.Manager.Info
import Cadvisor.Model.Wire

/-!
# The body of a request

A request comes as JSON in the body, and a body that does not deserialise is taken for
the default request.  A time is asked for as a lent string, which one with an escape in
its text is not.
-/

set_option autoImplicit false

namespace Cadvisor

open Serde JsonText

/-- What chrono prints and parses, and what `serde_json` reads a body as. -/
structure BodyText where
  rfc3339Nano : GoTime → String
  parseFromRfc3339 : String → Option GoTime
  approx : Number → Float
  parse : List UInt8 → Option (Json SerdeStr Float)

namespace BodyText

def handing (b : BodyText) : Handing SerdeStr Float where
  lend := .borrowed
  own := .owned
  approx := b.approx

def time (b : BodyText) : Codec SerdeStr Float GoTime := goTime b.rfc3339Nano b.parseFromRfc3339

end BodyText

def ContainerInfoRequest.wire (b : BodyText) : Record SerdeStr Float ContainerInfoRequest where
  make := ContainerInfoRequest.mk
  dflt := {}
  fields :=
    .cons "num_stats" (integer (-2 ^ 63) (2 ^ 63) id id) (·.numStats) isZero <|
    .cons "start" b.time (·.start) never <|
    .cons "end" b.time (·.stop) never <|
    .nil
  nodup := by simp [Fields.keys]
  complete _ := rfl

def decodeRequest (b : BodyText) (body : List UInt8) : ContainerInfoRequest :=
  if body = [] then {}
  else ((b.parse body).bind (ContainerInfoRequest.wire b).codec.dec).getD {}

/-- The document denotes the request: each field is there once, with the number and the
texts of the times as they are written. -/
structure Denotes (b : BodyText) (d : Document) (r : ContainerInfoRequest)
    (num : Number) (start stop : List Letter) : Prop where
  numAt : d.valuesAt "num_stats" = [.number num]
  startAt : d.valuesAt "start" = [.string start]
  stopAt : d.valuesAt "end" = [.string stop]
  number : num.value = r.numStats
  isI64 : -2 ^ 63 ≤ r.numStats ∧ r.numStats < 2 ^ 63
  startTime : b.parseFromRfc3339 (content start) = some r.start
  stopTime : b.parseFromRfc3339 (content stop) = some r.stop

theorem numStats_dec {b : BodyText} {num : Number} {n : Int} (number : num.value = n)
    (isI64 : -2 ^ 63 ≤ n ∧ n < 2 ^ 63) :
    (integer (-2 ^ 63) (2 ^ 63) id id).dec (num.json b.approx : Json SerdeStr Float) =
      if num.isPlain then some n else none := by
  by_cases plain : num.isPlain = true
  · have same : num.integer = n := by
      rw [num.value_eq_integer plain] at number
      exact_mod_cast number
    have fits : -2 ^ 63 ≤ n ∧ n < 2 ^ 64 := ⟨isI64.1, by omega⟩
    rw [Number.json, if_pos ⟨plain, same ▸ fits⟩, if_pos plain, same]
    exact if_pos isI64
  · rw [Number.json, if_neg fun both => plain both.1, if_neg plain]
    rfl

theorem time_dec {b : BodyText} {letters : List Letter} {t : GoTime}
    (parsed : b.parseFromRfc3339 (content letters) = some t) :
    b.time.dec ((Value.string letters).json b.handing) =
      if escaped letters then none else some t := by
  have handed : (Value.string letters).json b.handing =
      .str (if escaped letters then .owned (content letters) else .borrowed (content letters)) :=
    rfl
  have read : ∀ s : SerdeStr, b.time.dec (.str s) = s.asStr.bind b.parseFromRfc3339 := fun _ => rfl
  rw [handed, read]
  by_cases isEscaped : escaped letters = true
  · rw [if_pos isEscaped, if_pos isEscaped]
    rfl
  · rw [if_neg isEscaped, if_neg isEscaped]
    exact parsed

theorem body_ne_nil (d : Document) :
    Str.utf8Bytes (String.ofList d.text) ≠ [] := by
  rw [Str.utf8Bytes, String.toList_ofList, Ne, List.flatMap_eq_nil_iff]
  intro none
  have brace : '\x7b' ∈ d.text := by
    rw [d.text_eq]
    exact List.mem_append_right _ (List.mem_cons_self ..)
  exact absurd (none '\x7b' brace) (by decide)

theorem decodeRequest_eq {b : BodyText} {d : Document} {r : ContainerInfoRequest}
    {num : Number} {start stop : List Letter} (denotes : Denotes b d r num start stop)
    (reads : b.parse (Str.utf8Bytes (String.ofList d.text)) = some (.obj (d.entries b.handing))) :
    decodeRequest b (Str.utf8Bytes (String.ofList d.text)) =
      if num.isPlain = true ∧ escaped start = false ∧ escaped stop = false then r else {} := by
  have visited : (ContainerInfoRequest.wire b).codec.dec (.obj (d.entries b.handing)) =
      (if num.isPlain then some r.numStats else none).bind fun n =>
        (if escaped start then none else some r.start).bind fun first =>
          (if escaped stop then none else some r.stop).bind fun last =>
            some { numStats := n, start := first, stop := last } := by
    have numRead := numStats_dec (b := b) denotes.number denotes.isI64
    have startRead := time_dec denotes.startTime
    have stopRead := time_dec denotes.stopTime
    rw [← numRead, ← startRead, ← stopRead]
    simp only [Record.codec, ContainerInfoRequest.wire, Fields.read, Document.valuesAt_entries,
      denotes.numAt, denotes.startAt, denotes.stopAt, List.map_cons, List.map_nil, single,
      Option.bind_some, Codec.decOr]
    rfl
  rw [decodeRequest, if_neg (body_ne_nil d), reads, Option.bind_some, visited]
  cases num.isPlain with
  | false => rfl
  | true =>
      cases escaped start with
      | true => rfl
      | false =>
          cases escaped stop with
          | true => rfl
          | false => rfl

/-- A document that denotes a request is decoded as it exactly if the number is written
as an integer and no time has an escape, or the request is the default one. -/
theorem decodeRequest_iff {b : BodyText} {d : Document} {r : ContainerInfoRequest}
    {num : Number} {start stop : List Letter} (denotes : Denotes b d r num start stop)
    (reads : b.parse (Str.utf8Bytes (String.ofList d.text)) = some (.obj (d.entries b.handing))) :
    decodeRequest b (Str.utf8Bytes (String.ofList d.text)) = r ↔
      (num.isPlain = true ∧ escaped start = false ∧ escaped stop = false) ∨ r = {} := by
  rw [decodeRequest_eq denotes reads]
  by_cases plain : num.isPlain = true ∧ escaped start = false ∧ escaped stop = false
  · rw [if_pos plain]
    exact iff_of_true rfl (Or.inl plain)
  · rw [if_neg plain, or_iff_right plain]
    exact eq_comm

/-! ## The zero times, spelled twice -/

def zeroTime : String := "0001-01-01T00:00:00Z"

def asItself (c : Char) : Letter :=
  if allowed : c ≠ '"' ∧ c ≠ '\\' ∧ 0x20 ≤ c.toNat then .plain c allowed
  else .unicode c fun _ => false

def zeroLetters : List Letter := zeroTime.toList.map asItself

/-- The first character is written as a hexadecimal escape. -/
def escapedZero : List Letter := .unicode '0' (fun _ => false) :: zeroLetters.tail

def one : Number where
  negative := false
  whole := ['1']
  fraction := none
  exponent := none
  wholeDigits := ⟨by simp, List.forall_mem_singleton.mpr rfl⟩
  noLeadingZero := by decide
  fractionDigits := by simp
  exponentForm := by simp

def noSpaces : Spaces := ⟨[], by simp⟩

def unspaced (key : String) (value : Value) : Member Value :=
  ⟨noSpaces, key.toList.map asItself, noSpaces, noSpaces, value, noSpaces⟩

def oneSample (start : List Letter) : Document where
  before := noSpaces
  inside := noSpaces
  members :=
    [unspaced "num_stats" (.number one), unspaced "start" (.string start),
      unspaced "end" (.string zeroLetters)]
  after := noSpaces

def bodyOf (d : Document) : BodyText where
  rfc3339Nano _ := zeroTime
  parseFromRfc3339 s := if s = zeroTime then some GoTime.zero else none
  approx _ := 0
  parse _ := some (.obj (d.entries ⟨.borrowed, .owned, fun _ => 0⟩))

theorem content_zeroLetters : content zeroLetters = zeroTime := by decide

theorem value_one : one.value = 1 := by
  have digits : Decimal.digits ['1'] = 1 := by decide
  simp [Number.value, one, Number.power, digits]

theorem parse_zeroTime {s : String} (same : s = zeroTime) :
    (if s = zeroTime then some GoTime.zero else none) = some GoTime.zero :=
  if_pos same

theorem denotes_oneSample (start : List Letter) (same : content start = zeroTime) :
    Denotes (bodyOf (oneSample start)) (oneSample start) { numStats := 1 } one start
      zeroLetters where
  numAt := rfl
  startAt := rfl
  stopAt := rfl
  number := value_one
  isI64 := by decide
  startTime := parse_zeroTime same
  stopTime := parse_zeroTime content_zeroLetters

theorem decodeRequest_oneSample :
    decodeRequest (bodyOf (oneSample zeroLetters))
      (Str.utf8Bytes (String.ofList (oneSample zeroLetters).text)) = { numStats := 1 } :=
  (decodeRequest_iff (denotes_oneSample zeroLetters content_zeroLetters) rfl).mpr
    (Or.inl (by decide))

example : String.ofList (oneSample escapedZero).text =
    "\x7b\"num_stats\":1,\"start\":\"\\u0030001-01-01T00:00:00Z\",\"end\":\"0001-01-01T00:00:00Z\"\x7d" := by
  decide

/-- One escaped digit, and the request is the default one. -/
theorem escaped_digit_loses_request :
    ¬ ∀ (b : BodyText) (d : Document) (r : ContainerInfoRequest) (num : Number)
      (start stop : List Letter), Denotes b d r num start stop →
        b.parse (Str.utf8Bytes (String.ofList d.text)) = some (.obj (d.entries b.handing)) →
          decodeRequest b (Str.utf8Bytes (String.ofList d.text)) = r := by
  intro claimed
  have denotes := denotes_oneSample escapedZero (by decide)
  have decoded := claimed _ _ _ _ _ _ denotes rfl
  have isEscaped : ¬ (one.isPlain = true ∧ escaped escapedZero = false ∧
      escaped zeroLetters = false) := by
    decide
  rw [decodeRequest_eq denotes rfl, if_neg isEscaped] at decoded
  exact absurd (congrArg ContainerInfoRequest.numStats decoded) (by decide)

end Cadvisor
