import CLibs.LibevworkUsing.JsonStream
import Mathlib.Data.List.TakeWhile

/-!
# Packets with rapidjson

`Jpacket2` of `libevwork_using`, whose packets look like those of `Jpacket`. Reading and
writing JSON is left to rapidjson, which stays a parameter.
-/

set_option autoImplicit false
set_option linter.style.nameCheck false

namespace CLibs.LibevworkUsing

open General Libevwork

/-- What the packets take from rapidjson: the text that `Accept` makes a `Writer` put into
its buffer, the document that `Parse` makes of a text, and two values without content. -/
structure Rapidjson (Value : Type) where
  accept : Value → List UInt8
  parse : List UInt8 → Option Value
  kObjectType : Value
  kNullType : Value

/-- What a `const char *` into this text points to. -/
def cString (text : List UInt8) : List UInt8 := text.takeWhile (· != 0)

structure Header where
  length : UInt32

structure Jpacket2 (Value : Type) where
  header : Header
  str : List UInt8
  doc : Value
  val : Value

namespace Jpacket2

variable {Value : Type}

/-- The constructor, which leaves `header` as it finds it. -/
def new (rapid : Rapidjson Value) (header : Header) : Jpacket2 Value where
  header := header
  str := []
  doc := rapid.kNullType
  val := rapid.kObjectType

def xorfunc (str : List UInt8) : List UInt8 := Jpacket.xorfunc str

def end_ (rapid : Rapidjson Value) (p : Jpacket2 Value) : Jpacket2 Value :=
  let out := cString (rapid.accept p.val)
  let out := xorfunc out
  let header : Header := { length := UInt32.ofNat out.length }
  { p with header := header, str := word32 header.length ++ out }

/-- The result, the packet and the string, which is a reference. -/
def parse (rapid : Rapidjson Value) (q : Jpacket2 Value) (str : List UInt8) :
    Int × Jpacket2 Value × List UInt8 :=
  let str := xorfunc str
  -- A local document, which hides the member.
  let doc := rapid.parse (cString str)
  match doc with
  | none => (-1, q, str)
  | some _ => (0, q, str)

/-- One of the members is the document `v`. -/
def Holds (q : Jpacket2 Value) (v : Value) : Prop := q.val = v ∨ q.doc = v

section RoundTrip

variable {rapid : Rapidjson Value}

theorem cString_eq {text : List UInt8} (noZero : 0 ∉ text) : cString text = text := by
  refine List.takeWhile_eq_self_iff.mpr fun byte member => ?_
  rw [bne_iff_ne]
  exact ne_of_mem_of_not_mem member noZero

theorem str_end (noZero : ∀ v, 0 ∉ rapid.accept v) (p : Jpacket2 Value)
    (below : (rapid.accept p.val).length < 2 ^ 31) :
    (p.end_ rapid).str =
      LittleEndian.encode 4 (rapid.accept p.val).length ++ Jpacket.xorfunc (rapid.accept p.val) := by
  have word : (rapid.accept p.val).length < UInt32.size := by
    rw [UInt32.size]
    omega
  simp only [end_, cString_eq (noZero p.val), xorfunc, length_xorfunc below, word32]
  rw [UInt32.toNat_ofNat_of_lt' word]

theorem body_end (noZero : ∀ v, 0 ∉ rapid.accept v) (p : Jpacket2 Value)
    (below : (rapid.accept p.val).length < 2 ^ 31) :
    (p.end_ rapid).str.drop headerSize.toNat = Jpacket.xorfunc (rapid.accept p.val) := by
  rw [str_end noZero p below, List.drop_left' (by rw [LittleEndian.length_encode]; rfl)]

theorem parse_unchanged (q : Jpacket2 Value) (str : List UInt8) :
    (q.parse rapid str).2.1 = q := by
  rw [parse]
  cases rapid.parse (cString (xorfunc str)) with
  | none => rfl
  | some doc => rfl

theorem parse_returns (q : Jpacket2 Value) {str : List UInt8} {doc : Value}
    (parsed : rapid.parse (cString (xorfunc str)) = some doc) : (q.parse rapid str).1 = 0 := by
  rw [parse, parsed]

/-- `Jpacket` reads the text of the same packet into its value. -/
theorem jpacket_parse_body (json : Jsoncpp Value) (noZero : ∀ v, 0 ∉ rapid.accept v)
    (p : Jpacket2 Value) (below : (rapid.accept p.val).length < 2 ^ 31) :
    Jpacket.parse json ((p.end_ rapid).str.drop headerSize.toNat) =
      json.parse (rapid.accept p.val) := by
  rw [body_end noZero p below, Jpacket.parse, xorfunc_xorfunc below]

/-- The packet that a value was sent to has it only if it had it before. -/
theorem parse_holds_iff (roundTrip : ∀ v, rapid.parse (rapid.accept v) = some v)
    (noZero : ∀ v, 0 ∉ rapid.accept v) (p : Jpacket2 Value) (header : Header)
    (below : (rapid.accept p.val).length < 2 ^ 31) :
    let received := (new rapid header).parse rapid ((p.end_ rapid).str.drop headerSize.toNat)
    (received.1 = 0 ∧ received.2.1.Holds p.val) ↔
      p.val = rapid.kObjectType ∨ p.val = rapid.kNullType := by
  have parsed : rapid.parse
      (cString (xorfunc ((p.end_ rapid).str.drop headerSize.toNat))) = some p.val := by
    rw [body_end noZero p below, xorfunc, xorfunc_xorfunc below, cString_eq (noZero p.val), roundTrip]
  intro received
  have success : received.1 = 0 := parse_returns _ parsed
  have unchanged : received.2.1 = new rapid header := parse_unchanged _ _
  rw [unchanged, and_iff_right success]
  exact or_congr eq_comm eq_comm

end RoundTrip

inductive Sample where
  | null
  | emptyObject
  /-- The object `{"cmd":1}`. -/
  | command
  deriving DecidableEq

def Sample.text : Sample → List UInt8
  | .null => [110, 117, 108, 108]
  | .emptyObject => [123, 125]
  | .command => [123, 34, 99, 109, 100, 34, 58, 49, 125]

/-- What rapidjson does with these values. -/
def sampleJson : Rapidjson Sample where
  accept := Sample.text
  parse text := [Sample.null, .emptyObject, .command].find? fun v => v.text = text
  kObjectType := .emptyObject
  kNullType := .null

theorem sampleJson_roundTrip (v : Sample) : sampleJson.parse (sampleJson.accept v) = some v := by
  cases v with
  | null => rfl
  | emptyObject => rfl
  | command => rfl

theorem sampleJson_noZero (v : Sample) : 0 ∉ sampleJson.accept v := by
  cases v with
  | null => decide
  | emptyObject => decide
  | command => decide

theorem parse_holds_iff_command :
    let p : Jpacket2 Sample := { new sampleJson ⟨0⟩ with val := .command }
    let received := (new sampleJson ⟨0⟩).parse sampleJson
      ((p.end_ sampleJson).str.drop headerSize.toNat)
    (received.1 = 0 ∧ received.2.1.Holds p.val) ↔
      p.val = sampleJson.kObjectType ∨ p.val = sampleJson.kNullType :=
  parse_holds_iff sampleJson_roundTrip sampleJson_noZero
    { new sampleJson ⟨0⟩ with val := .command } ⟨0⟩ (by decide)

/-- The object `{"cmd":1}` arrives and is in neither member. -/
theorem command_lost :
    let p : Jpacket2 Sample := { new sampleJson ⟨0⟩ with val := .command }
    let received := (new sampleJson ⟨0⟩).parse sampleJson
      ((p.end_ sampleJson).str.drop headerSize.toNat)
    (∀ v, sampleJson.parse (sampleJson.accept v) = some v) ∧ (∀ v, 0 ∉ sampleJson.accept v) ∧
      (sampleJson.accept p.val).length < 2 ^ 31 ∧ received.1 = 0 ∧ ¬ received.2.1.Holds p.val := by
  refine ⟨sampleJson_roundTrip, sampleJson_noZero, by decide, by decide, ?_⟩
  rw [parse_unchanged, Holds]
  decide

end Jpacket2

end CLibs.LibevworkUsing
