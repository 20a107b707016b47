import Mathlib

/-!
# Inputs

An input gives its bytes in pieces, which it chooses, and then ends: with the end of the file, or
with an error. `readFull` fills a buffer as `io.ReadFull` does, with as many reads as it takes. How
the bytes were cut into pieces makes no difference to it (`fst_readFull`, `bytes_readFull`).
-/

namespace Foundation

open List

inductive ReadErr (ε : Type*)
  | eof
  | unexpectedEOF
  | fault (e : ε)
  deriving DecidableEq

structure Input (ε : Type*) where
  /-- What one read gives, if the buffer is large enough. -/
  pieces : List (List UInt8)
  /-- The error after the last piece; `none` is the end of the file. -/
  fault : Option ε

namespace Input

variable {ε : Type*} {r : Input ε} {n : ℕ}

def bytes (r : Input ε) : List UInt8 := r.pieces.flatten

def ending (r : Input ε) : ReadErr ε := r.fault.elim .eof .fault

lemma ending_eq_eof_iff : r.ending = .eof ↔ r.fault = none := by
  obtain ⟨_, _ | e⟩ := r <;> simp [ending]

def read (n : ℕ) (r : Input ε) : List UInt8 × Option (ReadErr ε) × Input ε :=
  match r.pieces with
  | [] => ([], some r.ending, r)
  | p :: ps => (p.take n, none, { r with pieces := if p.length ≤ n then ps else p.drop n :: ps })

def reads : List ℕ → Input ε → List (List UInt8 × Option (ReadErr ε))
  | [], _ => []
  | n :: ns, r => ((r.read n).1, (r.read n).2.1) :: reads ns (r.read n).2.2

/-- The reads of `io.ReadFull`: one after the other until there are `n` bytes. -/
def fill : ℕ → List (List UInt8) → List UInt8 × List (List UInt8)
  | _, [] => ([], [])
  | n, p :: ps =>
    if n = 0 then ([], p :: ps)
    else if p.length ≤ n then
      let rest := fill (n - p.length) ps
      (p ++ rest.1, rest.2)
    else (p.take n, p.drop n :: ps)

/-- `io.ReadFull` with a buffer of `n` bytes. -/
def readFull (n : ℕ) (r : Input ε) : List UInt8 × Option (ReadErr ε) × Input ε :=
  let got := fill n r.pieces
  let err :=
    if n ≤ got.1.length then none
    else if got.1 ≠ [] ∧ r.fault.isNone then some .unexpectedEOF
    else some r.ending
  (got.1, err, { r with pieces := got.2 })

lemma fst_fill (n : ℕ) (ps : List (List UInt8)) : (fill n ps).1 = ps.flatten.take n := by
  induction ps generalizing n with
  | nil => rw [fill, flatten_nil, take_nil]
  | cons p ps ih =>
    rw [fill, flatten_cons, take_append]
    split_ifs with h0 hp
    · simp [h0]
    · rw [take_of_length_le hp, ← ih]
    · rw [Nat.sub_eq_zero_of_le (by omega), take_zero, append_nil]

lemma flatten_snd_fill (n : ℕ) (ps : List (List UInt8)) :
    (fill n ps).2.flatten = ps.flatten.drop n := by
  induction ps generalizing n with
  | nil => rw [fill, flatten_nil, drop_nil]
  | cons p ps ih =>
    rw [fill, flatten_cons, drop_append]
    split_ifs with h0 hp
    · simp [h0]
    · rw [drop_of_length_le hp, nil_append, ← ih]
    · rw [Nat.sub_eq_zero_of_le (by omega), drop_zero, flatten_cons]

lemma fst_readFull (n : ℕ) (r : Input ε) : (r.readFull n).1 = r.bytes.take n := fst_fill n _

lemma bytes_readFull (n : ℕ) (r : Input ε) : (r.readFull n).2.2.bytes = r.bytes.drop n :=
  flatten_snd_fill n _

@[simp] lemma fault_readFull (n : ℕ) (r : Input ε) : (r.readFull n).2.2.fault = r.fault := rfl

lemma err_readFull_of_le (h : n ≤ r.bytes.length) : (r.readFull n).2.1 = none := by
  unfold readFull
  simp only [fst_fill]
  rw [if_pos]
  rw [length_take]
  exact le_min le_rfl h

lemma err_readFull_of_lt (h : r.bytes.length < n) (hfault : r.fault = none) :
    (r.readFull n).2.1 = some .eof ∨ (r.readFull n).2.1 = some .unexpectedEOF := by
  unfold readFull ending
  simp only [fst_fill]
  rw [if_neg, hfault]
  · split_ifs
    · exact .inr rfl
    · exact .inl rfl
  · rw [length_take]
    exact fun hle => absurd (hle.trans (min_le_right _ _)) (Nat.not_le.mpr h)

lemma err_readFull_of_fault (h : r.bytes.length < n) {e : ε} (hfault : r.fault = some e) :
    (r.readFull n).2.1 = some (.fault e) := by
  unfold readFull ending
  simp only [fst_fill]
  rw [if_neg, hfault]
  · simp
  · rw [length_take]
    exact fun hle => absurd (hle.trans (min_le_right _ _)) (Nat.not_le.mpr h)

lemma isSome_err_readFull_iff : (r.readFull n).2.1.isSome = true ↔ r.bytes.length < n := by
  constructor
  · intro h
    by_contra hle
    rw [err_readFull_of_le (Nat.le_of_not_lt hle)] at h
    cases h
  · intro h
    cases hfault : r.fault with
    | none =>
      rcases err_readFull_of_lt h hfault with heq | heq
      · rw [heq]
        rfl
      · rw [heq]
        rfl
    | some e =>
      rw [err_readFull_of_fault h hfault]
      rfl

/-! ### Cutting an input short -/

/-- The front of the pieces, `n` bytes. -/
def cut : ℕ → List (List UInt8) → List (List UInt8)
  | _, [] => []
  | n, p :: ps =>
    if n = 0 then [] else if p.length ≤ n then p :: cut (n - p.length) ps else [p.take n]

@[simp] lemma cut_zero (ps : List (List UInt8)) : cut 0 ps = [] := by
  cases ps with
  | nil => rfl
  | cons p ps => rw [cut, if_pos rfl]

lemma flatten_cut (n : ℕ) (ps : List (List UInt8)) : (cut n ps).flatten = ps.flatten.take n := by
  induction ps generalizing n with
  | nil => rw [cut, flatten_nil, take_nil]
  | cons p ps ih =>
    rw [cut, flatten_cons, take_append]
    split_ifs with h0 hp
    · simp [h0]
    · rw [flatten_cons, ih, take_of_length_le hp]
    · rw [Nat.sub_eq_zero_of_le (by omega), take_zero, append_nil, flatten_singleton]

lemma ne_nil_of_mem_cut {n : ℕ} {ps : List (List UInt8)} (h : ∀ p ∈ ps, p ≠ []) :
    ∀ p ∈ cut n ps, p ≠ [] := by
  induction ps generalizing n with
  | nil => exact fun p hp => absurd hp not_mem_nil
  | cons q ps ih =>
    rw [cut]
    split_ifs with h0 hq
    · exact fun p hp => absurd hp not_mem_nil
    · intro p hp
      rcases mem_cons.mp hp with rfl | hp
      · exact h p mem_cons_self
      · exact ih (fun p' hp' => h p' (mem_cons_of_mem _ hp')) p hp
    · intro p hp
      rw [mem_singleton.mp hp, ← length_pos_iff, length_take]
      omega

lemma read_cut {left : ℕ} (hleft : 0 < left) (len : ℕ) {fault : Option ε}
    (hfault : r.pieces = [] → fault = r.fault) :
    read len ⟨cut left r.pieces, fault⟩ =
      ((r.read (min len left)).1, (r.read (min len left)).2.1,
        ⟨cut (left - (r.read (min len left)).1.length) (r.read (min len left)).2.2.pieces,
          fault⟩) := by
  obtain ⟨_ | ⟨p, ps⟩, fault'⟩ := r
  · obtain rfl := hfault rfl
    rfl
  unfold read
  simp only [cut, if_neg hleft.ne', length_take]
  by_cases hp : p.length ≤ left
  · rw [if_pos hp]
    by_cases hlen : p.length ≤ len
    · -- the whole piece
      have hmin : p.length ≤ min len left := le_min hlen hp
      simp only [if_pos hlen, if_pos hmin, take_of_length_le hlen, take_of_length_le hmin,
        min_eq_right hmin]
    · -- the buffer is smaller than the piece
      have hmin : min len left = len := min_eq_left (by omega)
      have hcut : cut (left - len) (p.drop len :: ps) = p.drop len :: cut (left - p.length) ps := by
        rw [cut, if_neg (by omega), length_drop, if_pos (by omega)]
        congr 2
        omega
      simp only [hmin, if_neg hlen, min_eq_left (Nat.le_of_not_le hlen), hcut]
  · rw [if_neg hp]
    by_cases hlen : left ≤ len
    · -- the piece is cut, and what is left of it fits
      have hmin : min len left = left := min_eq_right hlen
      have hle : min left p.length = left := min_eq_left (by omega)
      simp only [hmin, hle, length_take, if_pos hlen, Nat.sub_self, cut_zero, take_take]
    · have hmin : min len left = len := min_eq_left (by omega)
      have hlt : min left p.length = left := min_eq_left (by omega)
      have hlen' : min len p.length = len := min_eq_left (by omega)
      have hcut : cut (left - len) (p.drop len :: ps) = [(p.take left).drop len] := by
        rw [cut, if_neg (by omega), length_drop, if_neg (by omega), drop_take]
      simp only [hmin, hlt, hlen', length_take, if_neg hlen, take_take,
        if_neg (show ¬ p.length ≤ len by omega), hcut]

lemma ne_nil_of_mem_read (h : ∀ p ∈ r.pieces, p ≠ []) : ∀ p ∈ (r.read n).2.2.pieces, p ≠ [] := by
  obtain ⟨_ | ⟨q, ps⟩, fault⟩ := r
  · exact h
  · unfold read
    simp only
    split_ifs with hq
    · exact fun p hp => h p (mem_cons_of_mem _ hp)
    · intro p hp
      rcases mem_cons.mp hp with rfl | hp
      · rw [← length_pos_iff, length_drop]
        omega
      · exact h p (mem_cons_of_mem _ hp)

@[simp] lemma fault_read (n : ℕ) (r : Input ε) : (r.read n).2.2.fault = r.fault := by
  obtain ⟨_ | ⟨p, ps⟩, fault⟩ := r
  · rfl
  · rfl

lemma length_fst_read_le (n : ℕ) (r : Input ε) : (r.read n).1.length ≤ n := by
  obtain ⟨_ | ⟨p, ps⟩, fault⟩ := r
  · exact Nat.zero_le _
  · exact length_take_le n p

lemma fst_read_append_bytes (n : ℕ) (r : Input ε) :
    (r.read n).1 ++ (r.read n).2.2.bytes = r.bytes := by
  obtain ⟨_ | ⟨p, ps⟩, fault⟩ := r
  · rfl
  · unfold read bytes
    simp only
    split_ifs with hp
    · rw [take_of_length_le hp, flatten_cons]
    · rw [flatten_cons, flatten_cons, ← append_assoc, take_append_drop]

lemma err_read_cases (n : ℕ) (r : Input ε) :
    (r.pieces = [] ∧ r.read n = ([], some r.ending, r)) ∨
      (r.pieces ≠ [] ∧ (r.read n).2.1 = none) := by
  obtain ⟨_ | ⟨p, ps⟩, fault⟩ := r
  · exact .inl ⟨rfl, rfl⟩
  · exact .inr ⟨cons_ne_nil p ps, rfl⟩

lemma ending_of_err_read (n : ℕ) (r : Input ε) :
    ∀ e, (r.read n).2.1 = some e → (r.read n).2.2.bytes = [] ∧ e = (r.read n).2.2.ending := by
  intro e he
  rcases err_read_cases n r with ⟨hpieces, hread⟩ | ⟨-, hnone⟩
  · rw [hread] at he ⊢
    cases he
    rw [Input.bytes, hpieces]
    exact ⟨rfl, rfl⟩
  · rw [hnone] at he
    cases he

lemma length_read_one (h : ∀ p ∈ r.pieces, p ≠ []) (hr : r.bytes ≠ []) :
    (r.read 1).1.length = 1 := by
  obtain ⟨_ | ⟨p, ps⟩, fault⟩ := r
  · exact absurd rfl hr
  · have hpos := length_pos_iff.mpr (h p mem_cons_self)
    rw [read, length_take]
    omega

lemma size_read_lt (h : r.pieces ≠ []) (hn : 0 < n ∨ r.bytes = []) :
    (r.read n).2.2.bytes.length + (r.read n).2.2.pieces.length <
      r.bytes.length + r.pieces.length := by
  have hbytes := congrArg List.length (r.fst_read_append_bytes n)
  rw [length_append] at hbytes
  obtain ⟨_ | ⟨p, ps⟩, fault⟩ := r
  · exact absurd rfl h
  by_cases hp : p.length ≤ n
  · have hpieces : (read n ⟨p :: ps, fault⟩).2.2.pieces = ps := if_pos hp
    rw [hpieces, length_cons]
    omega
  · have hpieces : (read n ⟨p :: ps, fault⟩).2.2.pieces = p.drop n :: ps := if_neg hp
    have hgot : (read n ⟨p :: ps, fault⟩).1.length = n := by
      rw [read, length_take]
      exact min_eq_left (by omega)
    have hpos : 0 < n := by
      refine hn.resolve_right fun hnil => ?_
      rw [bytes, flatten_cons, append_eq_nil_iff] at hnil
      rw [hnil.1] at hp
      exact hp (Nat.zero_le n)
    rw [hpieces, length_cons, length_cons]
    omega

lemma ne_nil_of_mem_fill {n : ℕ} {ps : List (List UInt8)} (h : ∀ p ∈ ps, p ≠ []) :
    ∀ p ∈ (fill n ps).2, p ≠ [] := by
  induction ps generalizing n with
  | nil => exact fun p hp => absurd hp not_mem_nil
  | cons q ps ih =>
    rw [fill]
    split_ifs with h0 hq
    · exact h
    · exact ih fun p hp => h p (mem_cons_of_mem _ hp)
    · intro p hp
      rcases mem_cons.mp hp with rfl | hp
      · rw [← length_pos_iff, length_drop]
        omega
      · exact h p (mem_cons_of_mem _ hp)

end Input

end Foundation
