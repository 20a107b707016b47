import Mathlib

/-!
# Records of a fixed size

A buffer that is a concatenation of records of `n` bytes each, cut into its records.
-/

namespace Foundation

variable {n : ℕ}

def packed (rs : List (Vector UInt8 n)) : List UInt8 := rs.flatMap Vector.toList

def records (n : ℕ) : ℕ → List UInt8 → List (Vector UInt8 n)
  | 0, _ => []
  | count + 1, buf => (Vector.ofFn fun j => buf.getD j 0) :: records n count (buf.drop n)

@[simp] lemma length_packed (rs : List (Vector UInt8 n)) :
    (packed rs).length = rs.length * n := by
  simp [packed, List.length_flatMap]

lemma ofFn_getD_append {buf : List UInt8} (h : n ≤ buf.length) (rest : List UInt8) :
    (Vector.ofFn fun j : Fin n => (buf ++ rest).getD j 0) =
      Vector.ofFn fun j : Fin n => buf.getD j 0 := by
  refine Vector.ext fun i hi => ?_
  rw [Vector.getElem_ofFn, Vector.getElem_ofFn, List.getD_eq_getElem?_getD,
    List.getD_eq_getElem?_getD, List.getElem?_append_left (by omega)]

lemma ofFn_getD_toList (r : Vector UInt8 n) :
    (Vector.ofFn fun j : Fin n => r.toList.getD j 0) = r := by
  refine Vector.ext fun i hi => ?_
  rw [Vector.getElem_ofFn]
  simp [hi]

/-- The records of a buffer are those of its parts, if the parts hold whole records. -/
theorem records_add {count m : ℕ} {buf : List UInt8} (h : buf.length = count * n)
    (rest : List UInt8) :
    records n (count + m) (buf ++ rest) = records n count buf ++ records n m rest := by
  induction count generalizing buf with
  | zero =>
    rw [Nat.zero_mul] at h
    rw [List.eq_nil_of_length_eq_zero h, Nat.zero_add]
    rfl
  | succ count ih =>
    rw [Nat.succ_mul] at h
    have hlen : (buf.drop n).length = count * n := by
      rw [List.length_drop]
      omega
    rw [Nat.add_right_comm, records, records, List.drop_append_of_le_length (by omega), ih hlen,
      ofFn_getD_append (by omega), List.cons_append]

/-- Cutting a concatenation of records gives them back. -/
theorem records_packed (rs : List (Vector UInt8 n)) : records n rs.length (packed rs) = rs := by
  induction rs with
  | nil => rfl
  | cons r rs ih =>
    have hsplit : packed (r :: rs) = r.toList ++ packed rs := List.flatMap_cons
    rw [hsplit, List.length_cons, records, ofFn_getD_append (by simp), ofFn_getD_toList,
      List.drop_left' (by simp), ih]

def unpacked (n : ℕ) (buf : List UInt8) : List (Vector UInt8 n) := records n (buf.length / n) buf

/-- Cutting a buffer into parts of whole records cuts the list of its records. -/
theorem unpacked_flatten (hn : 0 < n) {parts : List (List UInt8)}
    (h : ∀ part ∈ parts, n ∣ part.length) :
    unpacked n parts.flatten = parts.flatMap (unpacked n) := by
  induction parts with
  | nil => simp [unpacked, records]
  | cons part parts ih =>
    obtain ⟨count, hcount⟩ := h part List.mem_cons_self
    have hdiv : (part ++ parts.flatten).length / n = count + parts.flatten.length / n := by
      rw [List.length_append, hcount, Nat.mul_add_div hn]
    rw [List.flatten_cons, List.flatMap_cons, ← ih fun p hp => h p (List.mem_cons_of_mem _ hp),
      unpacked, hdiv, records_add (by rw [hcount, Nat.mul_comm]), unpacked, unpacked, hcount,
      Nat.mul_div_cancel_left _ hn]

lemma unpacked_packed (hn : 0 < n) (rs : List (Vector UInt8 n)) : unpacked n (packed rs) = rs := by
  rw [unpacked, length_packed, Nat.mul_div_cancel _ hn, records_packed]

end Foundation
