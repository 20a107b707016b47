import Cerberus.Foundation.Utf8

/-!
# Go strings

A Go string is a sequence of bytes, which need not be UTF-8. It is compared bytewise, which is also
the order in which a bbolt bucket lists its keys. The file has the few functions of `strings` and
`strconv` that the code below uses: concatenation, `hasPrefix`, `trimSpace` and `formatUint`.
-/

namespace Foundation

open List

@[ext]
structure GoString where
  bytes : List UInt8
  deriving DecidableEq, Repr

namespace GoString

/-- The string written as a literal in the source. -/
def lit (s : String) : GoString := ⟨s.toList.flatMap String.utf8EncodeChar⟩

lemma bytes_toNat_injective :
    Function.Injective fun s : GoString => s.bytes.map UInt8.toNat := by
  intro s t h
  exact GoString.ext (map_injective_iff.mpr (fun _ _ => UInt8.toNat_inj.mp) h)

instance : LinearOrder GoString :=
  LinearOrder.lift' (fun s : GoString => s.bytes.map UInt8.toNat) bytes_toNat_injective

instance : Append GoString := ⟨fun s t => ⟨s.bytes ++ t.bytes⟩⟩

@[simp] lemma bytes_append (s t : GoString) : (s ++ t).bytes = s.bytes ++ t.bytes := rfl

def hasPrefix (s p : GoString) : Bool := p.bytes.isPrefixOf s.bytes

@[simp] lemma hasPrefix_append (p s : GoString) : (p ++ s).hasPrefix p = true := by
  rw [hasPrefix, isPrefixOf_iff_prefix]
  exact prefix_append p.bytes s.bytes

lemma not_hasPrefix_of_hasPrefix {p q s : GoString} (i : ℕ) {a b : UInt8}
    (hp : p.bytes[i]? = some a) (hq : q.bytes[i]? = some b) (hab : a ≠ b)
    (h : s.hasPrefix q = true) : s.hasPrefix p = false := by
  rw [hasPrefix, Bool.eq_false_iff, ne_eq, isPrefixOf_iff_prefix]
  rw [hasPrefix, isPrefixOf_iff_prefix] at h
  rintro ⟨t, ht⟩
  obtain ⟨t', ht'⟩ := h
  have heq := congrArg (fun l => l[i]?) (ht.trans ht'.symm)
  have hip : i < p.bytes.length := (List.getElem?_eq_some_iff.mp hp).1
  have hiq : i < q.bytes.length := (List.getElem?_eq_some_iff.mp hq).1
  simp only [List.getElem?_append_left hip, List.getElem?_append_left hiq, hp, hq] at heq
  exact hab (Option.some.inj heq)

lemma append_right_injective (p : GoString) : Function.Injective (p ++ ·) := by
  intro s t h
  exact GoString.ext (append_cancel_left (congrArg bytes h))

def formatUint (n : UInt64) : GoString :=
  ⟨(Nat.toDigits 10 n.toNat).map fun c => c.toNat.toUInt8⟩

lemma toNat_lt_of_mem_toDigits {n : ℕ} {c : Char} (hc : c ∈ Nat.toDigits 10 n) :
    c.toNat < 0x80 := by
  have hd := Nat.isDigit_of_mem_toDigits (by decide) (by decide) hc
  simp only [Char.isDigit, Bool.and_eq_true, decide_eq_true_eq] at hd
  exact lt_of_le_of_lt (UInt32.le_iff_toNat_le.mp hd.2) (by decide)

lemma map_ofNat_digits (n : ℕ) :
    ((Nat.toDigits 10 n).map fun c => c.toNat.toUInt8).map (fun b => Char.ofNat b.toNat) =
      Nat.toDigits 10 n := by
  rw [map_map]
  refine (map_congr_left fun c hc => ?_).trans (map_id _)
  have hlt : c.toNat < 256 := (toNat_lt_of_mem_toDigits hc).trans (by decide)
  simp only [Function.comp_apply, Nat.toUInt8_eq, UInt8.toNat_ofNat', Nat.reducePow,
    Nat.mod_eq_of_lt hlt, Char.ofNat_toNat, id_eq]

lemma formatUint_injective : Function.Injective formatUint := by
  intro m n h
  have h' := congrArg (List.map fun b => Char.ofNat b.toNat) (GoString.ext_iff.mp h)
  rw [formatUint, formatUint, map_ofNat_digits, map_ofNat_digits] at h'
  refine UInt64.toNat_inj.mp (Nat.repr_injective ?_)
  rw [Nat.repr, Nat.repr, h']

/-- The string with the bytes that are not UTF-8 replaced by U+FFFD. -/
def coerce (s : GoString) : GoString := ⟨coerceUtf8 s.bytes⟩

def valid (s : GoString) : Bool := validUtf8 s.bytes

lemma valid_nil : (⟨[]⟩ : GoString).valid = true := rfl

@[simp] lemma coerce_coerce (s : GoString) : s.coerce.coerce = s.coerce :=
  GoString.ext (coerceUtf8_idem s.bytes)

lemma coerce_of_valid {s : GoString} (h : s.valid = true) : s.coerce = s :=
  GoString.ext (coerceUtf8_of_valid h)

lemma valid_formatUint (n : UInt64) : (formatUint n).valid = true := by
  refine validUtf8_of_ascii fun b hb => ?_
  obtain ⟨c, hc, rfl⟩ := mem_map.mp hb
  have hlt : c.toNat < 0x80 := toNat_lt_of_mem_toDigits hc
  rw [UInt8.lt_iff_toNat_lt, Nat.toUInt8_eq, UInt8.toNat_ofNat', Nat.mod_eq_of_lt (by omega)]
  exact hlt

lemma eq_of_coerce_eq {s t : GoString} (h : s.coerce = t) (ht : ∀ b ∈ t.bytes, b < 0x80) :
    s = t := by
  subst h
  exact GoString.ext (eq_of_coerceUtf8_ascii ht).symm

/-- `unicode.IsSpace`, on the UTF-8 form of a rune. -/
def isSpace (c : List UInt8) : Bool :=
  match c with
  | [a] => a = 0x20 || (0x09 ≤ a && a ≤ 0x0D)
  | [0xC2, b] => b = 0x85 || b = 0xA0
  | [0xE1, 0x9A, 0x80] => true
  | [0xE2, 0x80, d] => (0x80 ≤ d && d ≤ 0x8A) || d = 0xA8 || d = 0xA9 || d = 0xAF
  | [0xE2, 0x81, 0x9F] => true
  | [0xE3, 0x80, 0x80] => true
  | _ => false

/-- `strings.TrimSpace`: the string without leading and trailing white space. -/
def trimSpace (s : GoString) : GoString :=
  ⟨((((runes s.bytes).dropWhile isSpace).reverse.dropWhile isSpace).reverse).flatten⟩

example : trimSpace (lit " \t watch dog \n") = lit "watch dog" := by decide

lemma isSpace_singleton (b : UInt8) :
    isSpace [b] = (decide (b = 0x20) || (decide (0x09 ≤ b) && decide (b ≤ 0x0D))) := rfl

lemma isSpace_visible {b : UInt8} (hb : 0x21 ≤ b) : isSpace [b] = false := by
  rw [isSpace_singleton]
  grind

lemma trimSpace_eq_self {s : GoString} (hascii : ∀ b ∈ s.bytes, b < 0x80)
    (hhead : ∀ b, s.bytes.head? = some b → 0x21 ≤ b)
    (hlast : ∀ b, s.bytes.getLast? = some b → 0x21 ≤ b) : s.trimSpace = s := by
  have hleft : (s.bytes.map fun b => [b]).dropWhile isSpace = s.bytes.map fun b => [b] := by
    refine dropWhile_eq_self_iff.mpr fun hl => ?_
    rw [getElem_map, isSpace_visible (hhead _ ?_)]
    · exact Bool.false_ne_true
    · rw [List.head?_eq_getElem?, List.getElem?_eq_getElem]
  have hright : (s.bytes.map fun b => [b]).rdropWhile isSpace = s.bytes.map fun b => [b] := by
    refine rdropWhile_eq_self_iff.mpr fun hl => ?_
    rw [getLast_map, isSpace_visible (hlast _ (List.getLast?_eq_getLast_of_ne_nil _))]
    exact Bool.false_ne_true
  rw [trimSpace, runes_ascii hascii, hleft, ← List.rdropWhile, hright, ← flatMap_def,
    flatMap_singleton']

lemma exists_trimSpace_cons {b : UInt8} (hb : 0x21 ≤ b) (hascii : b < 0x80) (l : List UInt8) :
    ∃ l', trimSpace ⟨b :: l⟩ = ⟨b :: l'⟩ := by
  have hrunes : runes (b :: l) = [b] :: runes l := runes_append (isRune_ascii hascii) l
  have hspace := isSpace_visible hb
  rw [trimSpace, hrunes, dropWhile_cons_of_neg (by rw [hspace]; exact Bool.false_ne_true),
    ← List.rdropWhile]
  obtain ⟨rest, hrest⟩ := rdropWhile_prefix isSpace ([b] :: runes l)
  rcases hcs : ([b] :: runes l).rdropWhile isSpace with _ | ⟨c, cs⟩
  · have hall := rdropWhile_eq_nil_iff.mp hcs [b] mem_cons_self
    rw [hspace] at hall
    cases hall
  · rw [hcs] at hrest
    obtain rfl := (List.cons.inj hrest).1
    exact ⟨cs.flatten, rfl⟩

end GoString

end Foundation
