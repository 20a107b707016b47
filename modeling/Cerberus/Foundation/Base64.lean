import Cerberus.Foundation.Encoding

/-!
# Text forms of binary data

Unpadded base64 in the alphabet for URLs (`base64.RawURLEncoding`), the standard encoding, cutting a
string at a separator (`strings.SplitN` with a limit of two), and marshalling a record, of which
only the round trip is known. Decoding skips line ends and ignores the bits that are left over.
-/

namespace Foundation

open List Option

/-! ### Base64 -/

namespace Base64

/-- The character of a six-bit number. -/
def digit (n : ℕ) : UInt8 :=
  if n < 26 then (65 + n).toUInt8
  else if n < 52 then (71 + n).toUInt8
  else if n < 62 then (n - 4).toUInt8
  else if n = 62 then 0x2D
  else 0x5F

def value (c : UInt8) : Option ℕ :=
  if 65 ≤ c ∧ c ≤ 90 then some (c.toNat - 65)
  else if 97 ≤ c ∧ c ≤ 122 then some (c.toNat - 71)
  else if 48 ≤ c ∧ c ≤ 57 then some (c.toNat + 4)
  else if c = 0x2D then some 62
  else if c = 0x5F then some 63
  else none

/-- The bytes in groups of six bits; the last group is filled with zeros. -/
def sextets : List UInt8 → List ℕ
  | [] => []
  | [a] => [a.toNat / 4, a.toNat % 4 * 16]
  | [a, b] => [a.toNat / 4, a.toNat % 4 * 16 + b.toNat / 16, b.toNat % 16 * 4]
  | a :: b :: c :: rest =>
    a.toNat / 4 :: (a.toNat % 4 * 16 + b.toNat / 16) :: (b.toNat % 16 * 4 + c.toNat / 64) ::
      c.toNat % 64 :: sextets rest

/-- The bytes of groups of six bits; one group alone is an error. -/
def octets : List ℕ → Option (List UInt8)
  | [] => some []
  | [_] => none
  | [x, y] => some [(x * 4 + y / 16).toUInt8]
  | [x, y, z] => some [(x * 4 + y / 16).toUInt8, (y % 16 * 16 + z / 4).toUInt8]
  | x :: y :: z :: w :: rest =>
    (octets rest).map fun bs =>
      (x * 4 + y / 16).toUInt8 :: (y % 16 * 16 + z / 4).toUInt8 :: (z % 4 * 64 + w).toUInt8 :: bs

def encode (b : List UInt8) : GoString := ⟨(sextets b).map digit⟩

/-- The character of a six-bit number in the standard alphabet. -/
def stdDigit (n : ℕ) : UInt8 := if n = 62 then 0x2B else if n = 63 then 0x2F else digit n

/-- `base64.StdEncoding.EncodeToString`, which fills up the last group with `=`. -/
def stdEncode (b : List UInt8) : GoString :=
  ⟨(sextets b).map stdDigit ++ List.replicate ((4 - (sextets b).length % 4) % 4) 0x3D⟩

/-- The number of a character of the standard alphabet. -/
def stdValue (c : UInt8) : Option ℕ :=
  if c = 0x2B then some 62
  else if c = 0x2F then some 63
  else if c = 0x2D ∨ c = 0x5F then none
  else value c

/-- `base64.StdEncoding.DecodeString`: groups of four characters, of which the last one may end in
one or two `=`. -/
def stdDecode (s : GoString) : Option (List UInt8) :=
  let text := s.bytes.filter fun c => c ≠ 0x0D ∧ c ≠ 0x0A
  let body := text.takeWhile (· ≠ 0x3D)
  let padding := text.dropWhile (· ≠ 0x3D)
  if text.length % 4 = 0 ∧ padding.length ≤ 2 ∧ ∀ c ∈ padding, c = 0x3D then
    (body.mapM stdValue).bind octets
  else none

def decode (s : GoString) : Option (List UInt8) :=
  ((s.bytes.filter fun c => c ≠ 0x0D ∧ c ≠ 0x0A).mapM value).bind octets

example : encode [0xFB, 0xFF, 0x00, 0x41] = GoString.lit "-_8AQQ" := by decide

example : decode (GoString.lit "-_8A\nQQ") = some [0xFB, 0xFF, 0x00, 0x41] := by decide

lemma value_digit : ∀ n < 64, value (digit n) = some n := by decide

lemma digit_ne : ∀ n < 64, digit n ≠ 0x0D ∧ digit n ≠ 0x0A ∧ digit n ≠ 0x2E := by decide

variable (b : List UInt8)

lemma lt_of_mem_sextets : ∀ n ∈ sextets b, n < 64 := by
  fun_induction sextets b with
  | case1 => simp
  | case2 a =>
    have ha := a.toNat_lt
    simp only [mem_cons, not_mem_nil, or_false]
    omega
  | case3 a b =>
    have ha := a.toNat_lt
    have hb := b.toNat_lt
    simp only [mem_cons, not_mem_nil, or_false]
    omega
  | case4 a b c rest ih =>
    have ha := a.toNat_lt
    have hb := b.toNat_lt
    have hc := c.toNat_lt
    intro n hn
    simp only [mem_cons] at hn
    rcases hn with rfl | rfl | rfl | rfl | hn
    · omega
    · omega
    · omega
    · omega
    · exact ih n hn

lemma toUInt8_of_eq {n : ℕ} {a : UInt8} (h : n = a.toNat) : n.toUInt8 = a := by
  rw [h]
  exact UInt8.ofNat_toNat

lemma octets_sextets : octets (sextets b) = some b := by
  fun_induction sextets b with
  | case1 => rfl
  | case2 a =>
    have ha := a.toNat_lt
    rw [octets, toUInt8_of_eq (a := a) (by omega)]
  | case3 a b =>
    have ha := a.toNat_lt
    have hb := b.toNat_lt
    rw [octets, toUInt8_of_eq (a := a) (by omega), toUInt8_of_eq (a := b) (by omega)]
  | case4 a b c rest ih =>
    have ha := a.toNat_lt
    have hb := b.toNat_lt
    have hc := c.toNat_lt
    rw [octets, ih, toUInt8_of_eq (a := a) (by omega), toUInt8_of_eq (a := b) (by omega),
      toUInt8_of_eq (a := c) (by omega)]
    rfl

lemma mapM_map_eq_some {f : ℕ → UInt8} {g : UInt8 → Option ℕ} (hg : ∀ n < 64, g (f n) = some n)
    {l : List ℕ} (h : ∀ n ∈ l, n < 64) : (l.map f).mapM g = some l := by
  induction l with
  | nil => rfl
  | cons n l ih =>
    obtain ⟨hn, hl⟩ := forall_mem_cons.mp h
    rw [map_cons, mapM_cons, hg n hn, ih hl]
    rfl

lemma mem_encode {b : List UInt8} {c : UInt8} (h : c ∈ (encode b).bytes) :
    ∃ n < 64, c = digit n := by
  obtain ⟨n, hn, rfl⟩ := mem_map.mp h
  exact ⟨n, lt_of_mem_sextets b n hn, rfl⟩

lemma dot_notMem_encode : 0x2E ∉ (encode b).bytes := by
  intro h
  obtain ⟨n, hn, heq⟩ := mem_encode h
  exact (digit_ne n hn).2.2 heq.symm

@[simp] theorem decode_encode : decode (encode b) = some b := by
  have hfilter : (encode b).bytes.filter (fun c => c ≠ 0x0D ∧ c ≠ 0x0A) = (encode b).bytes := by
    refine filter_eq_self.mpr fun c hc => ?_
    obtain ⟨n, hn, rfl⟩ := mem_encode hc
    exact decide_eq_true ⟨(digit_ne n hn).1, (digit_ne n hn).2.1⟩
  rw [decode, hfilter, encode, mapM_map_eq_some value_digit (lt_of_mem_sextets b), bind_some,
    octets_sextets]

lemma stdValue_stdDigit : ∀ n < 64, stdValue (stdDigit n) = some n := by decide

lemma stdDigit_ne : ∀ n < 64, stdDigit n ≠ 0x0D ∧ stdDigit n ≠ 0x0A ∧ stdDigit n ≠ 0x3D := by decide

lemma length_sextets_mod : (sextets b).length % 4 ≠ 1 := by
  fun_induction sextets b with
  | case1 => decide
  | case2 a => simp
  | case3 a b => simp
  | case4 a b c rest ih =>
    simp only [length_cons]
    omega

lemma split_padding {l : List UInt8} (h : ∀ c ∈ l, c ≠ 0x3D) (k : ℕ) :
    (l ++ List.replicate k 0x3D).takeWhile (· ≠ 0x3D) = l ∧
      (l ++ List.replicate k 0x3D).dropWhile (· ≠ 0x3D) = List.replicate k 0x3D := by
  have hpos : ∀ c ∈ l, decide (c ≠ 0x3D) = true := fun c hc => decide_eq_true (h c hc)
  rw [takeWhile_append_of_pos hpos, dropWhile_append_of_pos hpos]
  cases k with
  | zero => simp
  | succ k => simp [replicate_succ]

@[simp] theorem stdDecode_stdEncode : stdDecode (stdEncode b) = some b := by
  have hdigit : ∀ c ∈ (sextets b).map stdDigit, c ≠ 0x0D ∧ c ≠ 0x0A ∧ c ≠ 0x3D := by
    intro c hc
    obtain ⟨n, hn, rfl⟩ := mem_map.mp hc
    exact stdDigit_ne n (lt_of_mem_sextets b n hn)
  have hlen := length_sextets_mod b
  obtain ⟨k, hk⟩ : ∃ k, k = (4 - (sextets b).length % 4) % 4 := ⟨_, rfl⟩
  have hfilter : ((sextets b).map stdDigit ++ List.replicate k 0x3D).filter
      (fun c => c ≠ 0x0D ∧ c ≠ 0x0A) = (sextets b).map stdDigit ++ List.replicate k 0x3D := by
    refine filter_eq_self.mpr fun c hc => decide_eq_true ?_
    rcases mem_append.mp hc with hc | hc
    · exact ⟨(hdigit c hc).1, (hdigit c hc).2.1⟩
    · rw [eq_of_mem_replicate hc]
      decide
  obtain ⟨htake, hdrop⟩ := split_padding (fun c hc => (hdigit c hc).2.2) k
  rw [stdDecode, stdEncode, ← hk]
  simp only [hfilter, htake, hdrop]
  rw [if_pos, mapM_map_eq_some stdValue_stdDigit (lt_of_mem_sextets b), bind_some,
    octets_sextets]
  refine ⟨?_, ?_, fun c hc => eq_of_mem_replicate hc⟩
  · rw [length_append, length_map, length_replicate]
    omega
  · rw [length_replicate]
    omega

end Base64

namespace GoString

/-- `strings.SplitN(s, sep, 2)` for a separator of one byte: the parts before and after the first
separator, or nothing when there is none. -/
def cut (sep : UInt8) (s : GoString) : Option (GoString × GoString) :=
  match s.bytes.dropWhile (· ≠ sep) with
  | [] => none
  | _ :: after => some (⟨s.bytes.takeWhile (· ≠ sep)⟩, ⟨after⟩)

lemma cut_append {sep : UInt8} {s : GoString} (hs : sep ∉ s.bytes) (t : GoString) :
    cut sep (s ++ ⟨[sep]⟩ ++ t) = some (s, t) := by
  have hne : ∀ c ∈ s.bytes, decide (c ≠ sep) = true := by
    intro c hc
    exact decide_eq_true fun h => hs (h ▸ hc)
  have hbytes : (s ++ ⟨[sep]⟩ ++ t).bytes = s.bytes ++ sep :: t.bytes := by simp
  have hdrop : (s.bytes ++ sep :: t.bytes).dropWhile (· ≠ sep) = sep :: t.bytes := by
    rw [dropWhile_append_of_pos hne, dropWhile_cons_of_neg (by simp)]
  have htake : (s.bytes ++ sep :: t.bytes).takeWhile (· ≠ sep) = s.bytes := by
    rw [takeWhile_append_of_pos hne, takeWhile_cons_of_neg (by simp), append_nil]
  rw [cut, hbytes, hdrop, htake]

end GoString

/-! ### Marshalling -/

/-- Marshalling records to bytes. What is read back is normal, and is the normal form of what was
written; `normal` is the identity for a format that keeps everything. -/
structure Marshaller (α : Type*) (normal : α → α) where
  marshal : α → List UInt8
  unmarshal : List UInt8 → Option α
  unmarshal_marshal : ∀ a, unmarshal (marshal a) = some (normal a)
  normal_of_unmarshal : ∀ b a, unmarshal b = some a → normal a = a

def Marshaller.unary {α : Type*} [Encodable α] {normal : α → α}
    (h : ∀ a, normal (normal a) = normal a) : Marshaller α normal where
  marshal a := List.replicate (Encodable.encode a) 0
  unmarshal b := (Encodable.decode (α := α) b.length).map normal
  unmarshal_marshal a := by rw [length_replicate, Encodable.encodek, map_some]
  normal_of_unmarshal b a hb := by
    obtain ⟨a', -, rfl⟩ := map_eq_some_iff.mp hb
    exact h a'

/-! A record of texts can be marshalled by the hexadecimal forms of its fields. -/

/-- Hexadecimal forms, separated by commas, after an opening brace. -/
def hexForm (l : List GoString) : List UInt8 :=
  [44].intercalate ([123] :: l.map fun s => (hexEncode s.bytes).bytes)

def ofHexForm (b : List UInt8) : Option (List GoString) :=
  (b.splitOn 44).tail.mapM fun f => (hexDecode ⟨f⟩).map GoString.mk

lemma hexForm_ne_nil (l : List GoString) : hexForm l ≠ [] := by
  rw [hexForm, List.intercalate, List.intersperse.eq_def]
  cases l with
  | nil => exact cons_ne_nil _ _
  | cons s l => exact cons_ne_nil _ _

@[simp] lemma ofHexForm_hexForm (l : List GoString) : ofHexForm (hexForm l) = some l := by
  have hsep : ∀ f ∈ [123] :: l.map (fun s => (hexEncode s.bytes).bytes), (44 : UInt8) ∉ f := by
    intro f hf h44
    rcases mem_cons.mp hf with rfl | hf
    · revert h44
      decide
    · obtain ⟨s, -, rfl⟩ := mem_map.mp hf
      obtain ⟨n, hn, h⟩ := exists_hexDigit_of_mem h44
      revert n
      decide
  rw [ofHexForm, hexForm, splitOn_intercalate _ hsep (cons_ne_nil _ _), tail_cons]
  induction l with
  | nil => rfl
  | cons s l ih =>
    rw [map_cons, mapM_cons, ih fun f hf => ?_, hexDecode_hexEncode]
    · rfl
    · refine hsep f ?_
      rw [map_cons]
      exact (mem_cons.mp hf).elim (fun h => h ▸ mem_cons_self) fun h =>
        mem_cons_of_mem _ (mem_cons_of_mem _ h)

def Marshaller.hex {α : Type*} {normal : α → α} (toFields : α → List GoString)
    (ofFields : List GoString → α) (hfields : ∀ a, ofFields (toFields a) = a)
    (h : ∀ a, normal (normal a) = normal a) : Marshaller α normal where
  marshal a := hexForm (toFields a)
  unmarshal b := (ofHexForm b).map fun l => normal (ofFields l)
  unmarshal_marshal a := by rw [ofHexForm_hexForm, map_some, hfields]
  normal_of_unmarshal b a hb := by
    obtain ⟨l, -, rfl⟩ := map_eq_some_iff.mp hb
    exact h _

instance encodableUInt8 : Encodable UInt8 :=
  Encodable.ofLeftInverse UInt8.toNat UInt8.ofNat fun _ => UInt8.ofNat_toNat

instance encodableInt64 : Encodable Int64 :=
  Encodable.ofLeftInverse Int64.toInt Int64.ofInt fun _ => Int64.ofInt_toInt _

instance : Encodable GoString :=
  Encodable.ofLeftInverse GoString.bytes GoString.mk fun _ => rfl

end Foundation
