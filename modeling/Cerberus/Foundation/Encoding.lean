import Cerberus.Foundation.GoString

/-!
# Encodings of Go's standard library

Fixed-width big-endian integers (`encoding/binary`), hexadecimal text (`encoding/hex`) and JSON
documents (`encoding/json`). A JSON text is modelled by the document it denotes: `json.Marshal`
builds the document, `json.Unmarshal` reads the fields of a struct back from it. Strings are
coerced to UTF-8 in both directions, as the package does; a missing or `null` field leaves the zero
value of the struct's field, a field of the wrong kind is an error, other fields are ignored.
-/

namespace Foundation

open List

def putUint64 (n : UInt64) : List UInt8 :=
  [56, 48, 40, 32, 24, 16, 8, 0].map fun s => (n.toNat / 2 ^ s).toUInt8

def uint64 (b : List UInt8) : UInt64 :=
  UInt64.ofNat (b.foldl (fun acc x => acc * 256 + x.toNat) 0)

@[simp] lemma length_putUint64 (n : UInt64) : (putUint64 n).length = 8 := rfl

@[simp] lemma uint64_putUint64 (n : UInt64) : uint64 (putUint64 n) = n := by
  have hn : n.toNat < 2 ^ 64 := n.toNat_lt
  refine UInt64.toNat_inj.mp ?_
  simp only [uint64, putUint64, map_cons, map_nil, foldl_cons, foldl_nil,
    UInt64.toNat_ofNat', Nat.toUInt8_eq, UInt8.toNat_ofNat']
  omega

/-- The hexadecimal digit of a number below sixteen. -/
def hexDigit (n : ℕ) : UInt8 := if n < 10 then (48 + n).toUInt8 else (87 + n).toUInt8

def hexEncode (b : List UInt8) : GoString :=
  ⟨b.flatMap fun x => [hexDigit (x.toNat / 16), hexDigit (x.toNat % 16)]⟩

example : hexEncode [0xde, 0xad] = GoString.lit "dead" := by decide

lemma hexDigit_ascii : ∀ n < 16, hexDigit n < 0x80 ∧ hexDigit n ≠ 0x5F := by decide

lemma hexDigit_inj : ∀ m < 16, ∀ n < 16, hexDigit m = hexDigit n → m = n := by decide

lemma hexEncode_injective : Function.Injective hexEncode := by
  intro b
  induction b with
  | nil =>
    intro c h
    cases c with
    | nil => rfl
    | cons y c => cases GoString.ext_iff.mp h
  | cons x b ih =>
    intro c h
    cases c with
    | nil => cases GoString.ext_iff.mp h
    | cons y c =>
      have hx := x.toNat_lt
      have hy := y.toNat_lt
      obtain ⟨h₁, h₂, h₃⟩ : hexDigit (x.toNat / 16) = hexDigit (y.toNat / 16) ∧
          hexDigit (x.toNat % 16) = hexDigit (y.toNat % 16) ∧ hexEncode b = hexEncode c := by
        simpa [hexEncode] using h
      have hdiv := hexDigit_inj _ (by omega) _ (by omega) h₁
      have hmod := hexDigit_inj _ (by omega) _ (by omega) h₂
      have hxy : x = y := UInt8.toNat_inj.mp (by omega)
      rw [hxy, ih h₃]

lemma exists_hexDigit_of_mem {b : List UInt8} {a : UInt8} (h : a ∈ (hexEncode b).bytes) :
    ∃ n < 16, a = hexDigit n := by
  obtain ⟨x, -, ha⟩ := mem_flatMap.mp h
  have hx := x.toNat_lt
  rcases mem_pair.mp ha with rfl | rfl
  · exact ⟨_, by omega, rfl⟩
  · exact ⟨_, by omega, rfl⟩

lemma valid_hexEncode (b : List UInt8) : (hexEncode b).valid = true := by
  refine validUtf8_of_ascii fun a ha => ?_
  obtain ⟨n, hn, rfl⟩ := exists_hexDigit_of_mem ha
  exact (hexDigit_ascii n hn).1

def hexValue (c : UInt8) : Option UInt8 :=
  if 48 ≤ c ∧ c ≤ 57 then some (c - 48)
  else if 97 ≤ c ∧ c ≤ 102 then some (c - 87)
  else if 65 ≤ c ∧ c ≤ 70 then some (c - 55)
  else none

/-- The bytes that pairs of hexadecimal digits stand for. -/
def hexPairs : List UInt8 → Option (List UInt8)
  | [] => some []
  | [_] => none
  | a :: b :: l => do
    let x ← hexValue a
    let y ← hexValue b
    let bs ← hexPairs l
    return (x * 16 + y) :: bs

def hexDecode (s : GoString) : Option (List UInt8) := hexPairs s.bytes

lemma hexValue_hexDigit : ∀ n < 16, hexValue (hexDigit n) = some n.toUInt8 := by decide

@[simp] lemma hexDecode_hexEncode (b : List UInt8) : hexDecode (hexEncode b) = some b := by
  rw [hexDecode, hexEncode]
  induction b with
  | nil => rfl
  | cons x b ih =>
    have hx := x.toNat_lt
    have hsum : (x.toNat / 16).toUInt8 * 16 + (x.toNat % 16).toUInt8 = x := by
      refine UInt8.toNat_inj.mp ?_
      simp only [UInt8.toNat_add, UInt8.toNat_mul, Nat.toUInt8_eq, UInt8.toNat_ofNat',
        UInt8.reduceToNat]
      omega
    rw [flatMap_cons, cons_append, cons_append, nil_append, hexPairs,
      hexValue_hexDigit _ (by omega), hexValue_hexDigit _ (by omega), ih]
    simp only [Option.bind_eq_bind, Option.bind_some, hsum]
    rfl

inductive Json
  | null
  | str (s : GoString)
  | num (n : ℤ)
  | obj (fields : List (String × Json))

namespace Json

inductive Err
  | malformed
  | kind (field : String)
  deriving DecidableEq, Repr

/-- The value of a field of a document; `null` when the document has no such field. -/
def field (j : Json) (name : String) : Json :=
  match j with
  | obj fs => (fs.lookup name).getD null
  | _ => null

def ofGoString (s : GoString) : Json := str s.coerce

def ofUInt64 (n : UInt64) : Json := num n.toNat

/-- Unmarshal a string; `name` is the field it is read into. -/
def toGoString (name : String) : Json → Except Err GoString
  | null => .ok ⟨[]⟩
  | str s => .ok s.coerce
  | _ => .error (.kind name)

def toUInt64 (name : String) : Json → Except Err UInt64
  | null => .ok 0
  | num n => if 0 ≤ n ∧ n < 2 ^ 64 then .ok (UInt64.ofNat n.toNat) else .error (.kind name)
  | _ => .error (.kind name)

def toStruct (name : String) : Json → Except Err Json
  | null => .ok (obj [])
  | obj fs => .ok (obj fs)
  | _ => .error (.kind name)

def getString (j : Json) (name : String) : Except Err GoString := (j.field name).toGoString name

def getUInt64 (j : Json) (name : String) : Except Err UInt64 := (j.field name).toUInt64 name

def getStruct (j : Json) (name : String) : Except Err Json := (j.field name).toStruct name

@[simp] lemma field_obj_cons (n name : String) (v : Json) (fs : List (String × Json)) :
    (obj ((n, v) :: fs)).field name = if name = n then v else (obj fs).field name := by
  by_cases h : name = n
  · simp [field, h]
  · rw [if_neg h, field, field, lookup_cons, beq_eq_false_iff_ne.mpr h]

@[simp] lemma toGoString_ofGoString (name : String) (s : GoString) :
    (ofGoString s).toGoString name = .ok s.coerce := by
  simp [ofGoString, toGoString]

@[simp] lemma toUInt64_ofUInt64 (name : String) (n : UInt64) :
    (ofUInt64 n).toUInt64 name = .ok n := by
  have hn : n.toNat < 2 ^ 64 := n.toNat_lt
  have hz : (0 : ℤ) ≤ n.toNat ∧ (n.toNat : ℤ) < 2 ^ 64 := by omega
  rw [ofUInt64, toUInt64, if_pos hz, Int.toNat_natCast, UInt64.ofNat_toNat]

@[simp] lemma ok_bind {α β : Type} (a : α) (f : α → Except Err β) :
    (Except.ok a >>= f) = f a := (rfl)

lemma bind_eq_ok_iff {α β : Type} {x : Except Err α} {f : α → Except Err β} {b : β} :
    (x >>= f) = .ok b ↔ ∃ a, x = .ok a ∧ f a = .ok b := by
  cases x with
  | error e => simp [bind, Except.bind]
  | ok a => simp

lemma coerce_of_getString {j : Json} {name : String} {s : GoString}
    (h : j.getString name = .ok s) : s.coerce = s := by
  unfold getString toGoString at h
  split at h
  · cases h
    rfl
  · cases h
    exact GoString.coerce_coerce _
  · cases h

end Json

/-- A value of the store: the bytes written, given either directly or as a JSON text. -/
inductive Blob
  | raw (b : List UInt8)
  | json (j : Json)

namespace Blob

/-- The integer in a value of eight bytes. -/
def uint64? : Blob → Option UInt64
  | raw b => if b.length = 8 then some (uint64 b) else none
  | json _ => none

def ofUInt64 (n : UInt64) : Blob := raw (putUint64 n)

@[simp] lemma uint64?_ofUInt64 (n : UInt64) : (ofUInt64 n).uint64? = some n := by
  simp [ofUInt64, uint64?]

/-- The document a struct is unmarshalled from: a JSON object, or `null`. -/
def document : Blob → Except Json.Err Json
  | raw _ => .error .malformed
  | json (.obj fs) => .ok (.obj fs)
  | json .null => .ok (.obj [])
  | json _ => .error .malformed

end Blob

end Foundation
