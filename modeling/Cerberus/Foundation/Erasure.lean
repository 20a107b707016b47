import Mathlib

/-!
# Erasure codes

A text is filled up with zeros, cut into `k` shards of one length, and `m` parity shards are
computed from these, in such a way that any `k` of the `k + m` shards determine all of them.
`ErasureCode` says what is relied on: how long the shards of a text are, and that what is missing is
found again from `k` shards (`reconstruct_eq`). Without the length of the text the zeros at its end
are lost (`shards_eq_iff`).
-/

namespace Foundation

open List Nat

/-! ### Cutting a list -/

section Slices

variable {α : Type*} {len k : ℕ} {l : List α}

def slices (len : ℕ) : ℕ → List α → List (List α)
  | 0, _ => []
  | k + 1, l => l.take len :: slices len k (l.drop len)

@[simp] lemma length_slices (len k : ℕ) (l : List α) : (slices len k l).length = k := by
  induction k generalizing l with
  | zero => rfl
  | succ k ih => rw [slices, length_cons, ih]

lemma flatten_slices (len k : ℕ) (l : List α) : (slices len k l).flatten = l.take (k * len) := by
  induction k generalizing l with
  | zero => rw [slices, zero_mul, take_zero, flatten_nil]
  | succ k ih => rw [slices, flatten_cons, ih, succ_mul, add_comm, take_add]

lemma length_of_mem_slices {s : List α} (h : k * len ≤ l.length) (hs : s ∈ slices len k l) :
    s.length = len := by
  induction k generalizing l with
  | zero => exact absurd hs not_mem_nil
  | succ k ih =>
    rw [succ_mul] at h
    rw [slices] at hs
    rcases mem_cons.mp hs with rfl | hs
    · rw [length_take]
      omega
    · refine ih ?_ hs
      rw [length_drop]
      omega

/-- The list in slices of `len` elements, of which the last one may be shorter. -/
def chunksOf (len : ℕ) (l : List α) : List (List α) := slices len ((l.length + len - 1) / len) l

lemma length_chunksOf (len : ℕ) (l : List α) :
    (chunksOf len l).length = (l.length + len - 1) / len := length_slices _ _ _

lemma slices_map {β : Type*} (f : α → β) (len k : ℕ) (l : List α) :
    slices len k (l.map f) = (slices len k l).map (List.map f) := by
  induction k generalizing l with
  | zero => rfl
  | succ k ih => rw [slices, slices, ← map_take, ← map_drop, ih, map_cons]

lemma chunksOf_map {β : Type*} (f : α → β) (len : ℕ) (l : List α) :
    chunksOf len (l.map f) = (chunksOf len l).map (List.map f) := by
  rw [chunksOf, length_map, slices_map, chunksOf]

lemma exists_of_mem_chunksOf {c : List α} (hc : c ∈ chunksOf len l) :
    ∃ i, c = (l.drop i).take len := by
  have hslices : ∀ {k : ℕ} {l : List α}, c ∈ slices len k l → ∃ i, c = (l.drop i).take len := by
    intro k l hc
    induction k generalizing l with
    | zero => exact absurd hc not_mem_nil
    | succ k ih =>
      rw [slices] at hc
      rcases mem_cons.mp hc with rfl | hc
      · exact ⟨0, rfl⟩
      · obtain ⟨i, rfl⟩ := ih hc
        exact ⟨len + i, by rw [drop_drop]⟩
  exact hslices hc

variable (hlen : 0 < len)
include hlen

lemma chunksOf_of_length_le (h : l.length ≤ len) : chunksOf len l = if l = [] then [] else [l] := by
  unfold chunksOf
  split_ifs with hl
  · subst hl
    rw [length_nil, div_eq_of_lt (by omega)]
    rfl
  · have hpos := length_pos_iff.mpr hl
    have hone : (l.length + len - 1) / len = 1 :=
      Nat.div_eq_of_lt_le (by omega) (by omega)
    rw [hone, slices, slices, take_of_length_le h]

lemma chunksOf_of_le (h : len ≤ l.length) :
    chunksOf len l = l.take len :: chunksOf len (l.drop len) := by
  unfold chunksOf
  have hcount : (l.length + len - 1) / len = ((l.drop len).length + len - 1) / len + 1 := by
    rw [length_drop, ← add_div_right _ hlen]
    congr 1
    omega
  rw [hcount, slices]

lemma chunksOf_eq_append (l : List α) : chunksOf len l =
    (if l.take len = [] then [] else [l.take len]) ++ chunksOf len (l.drop len) := by
  by_cases h : l.length < len
  · have hnil : chunksOf len (l.drop len) = [] := by
      rw [drop_of_length_le h.le, chunksOf_of_length_le hlen (zero_le _), if_pos rfl]
    rw [hnil, append_nil, chunksOf_of_length_le hlen h.le, take_of_length_le h.le]
  · have hle := Nat.le_of_not_lt h
    rw [chunksOf_of_le hlen hle, if_neg]
    · rfl
    · rw [take_eq_nil_iff]
      rintro (h0 | rfl)
      · omega
      · exact h hlen

lemma flatten_chunksOf (l : List α) : (chunksOf len l).flatten = l := by
  rw [chunksOf, flatten_slices, take_of_length_le]
  have hmod := div_add_mod (l.length + len - 1) len
  have hlt := mod_lt (l.length + len - 1) hlen
  rw [mul_comm]
  omega

lemma ne_nil_of_mem_chunksOf {c : List α} (hc : c ∈ chunksOf len l) : c ≠ [] := by
  induction hn : l.length using Nat.strong_induction_on generalizing l with
  | _ n ih =>
    by_cases h : l.length < len
    · rw [chunksOf_of_length_le hlen h.le] at hc
      split_ifs at hc with hl
      · exact absurd hc not_mem_nil
      · rw [mem_singleton.mp hc]
        exact hl
    · rw [chunksOf_of_le hlen (Nat.le_of_not_lt h)] at hc
      rcases mem_cons.mp hc with rfl | hc
      · rw [ne_eq, take_eq_nil_iff]
        rintro (h0 | rfl)
        · omega
        · exact h (by simpa using hlen)
      · refine ih _ ?_ hc rfl
        rw [length_drop]
        omega

lemma eq_of_flatten_eq {ls ls' : List (List α)} (h : ∀ l ∈ ls, l.length = len)
    (h' : ∀ l ∈ ls', l.length = len) (heq : ls.flatten = ls'.flatten) : ls = ls' := by
  induction ls generalizing ls' with
  | nil =>
    cases ls' with
    | nil => rfl
    | cons l' ls' =>
      have hl' := h' l' mem_cons_self
      rw [flatten_nil, flatten_cons, eq_comm, append_eq_nil_iff] at heq
      rw [heq.1, length_nil] at hl'
      exact absurd hl' hlen.ne
  | cons l ls ih =>
    have hl := h l mem_cons_self
    cases ls' with
    | nil =>
      rw [flatten_nil, flatten_cons, append_eq_nil_iff] at heq
      rw [heq.1, length_nil] at hl
      exact absurd hl hlen.ne
    | cons l' ls' =>
      have hl' := h' l' mem_cons_self
      rw [flatten_cons, flatten_cons] at heq
      obtain ⟨rfl, hrest⟩ := append_inj heq (hl.trans hl'.symm)
      rw [ih (fun x hx => h x (mem_cons_of_mem _ hx))
        (fun x hx => h' x (mem_cons_of_mem _ hx)) hrest]

end Slices

def padded (n : ℕ) (text : List UInt8) : List UInt8 :=
  text ++ List.replicate (n - text.length) 0

lemma length_padded {n : ℕ} {text : List UInt8} (h : text.length ≤ n) :
    (padded n text).length = n := by
  rw [padded, length_append, length_replicate]
  omega

lemma padded_eq_padded_iff {n : ℕ} {text text' : List UInt8} (h : text.length ≤ n)
    (h' : text'.length ≤ n) : padded n text = padded n text' ↔
      ∃ z, text' = text ++ List.replicate z 0 ∨ text = text' ++ List.replicate z 0 := by
  have hext : ∀ {s t : List UInt8}, t.length ≤ n → s.length ≤ t.length → padded n s = padded n t →
      t = s ++ List.replicate (t.length - s.length) 0 := by
    intro s t ht hst heq
    unfold padded at heq
    have hsplit : List.replicate (n - s.length) (0 : UInt8) =
        List.replicate (t.length - s.length) 0 ++ List.replicate (n - t.length) 0 := by
      rw [← replicate_add]
      congr 1
      omega
    rw [hsplit, ← append_assoc] at heq
    exact (append_cancel_right heq).symm
  have hpad : ∀ {s t : List UInt8} {z : ℕ}, t.length ≤ n → t = s ++ List.replicate z 0 →
      padded n s = padded n t := by
    rintro s t z ht rfl
    rw [length_append, length_replicate] at ht
    unfold padded
    rw [length_append, length_replicate, append_assoc, ← replicate_add]
    congr 2
    omega
  constructor
  · intro heq
    rcases le_total text.length text'.length with hle | hle
    · exact ⟨_, .inl (hext h' hle heq)⟩
    · exact ⟨_, .inr (hext h hle heq.symm)⟩
  · rintro ⟨z, hz | hz⟩
    · exact hpad h' hz
    · exact (hpad h hz).symm

/-! ### Codes -/

/-- Data shards: there are `k` of them, of one length, which is not zero. -/
structure IsBlock (k : ℕ) (data : List (List UInt8)) : Prop where
  length_eq : data.length = k
  uniform : ∃ len, 0 < len ∧ ∀ s ∈ data, s.length = len

def Survivors (got : List (Option (List UInt8))) (shards : List (List UInt8)) : Prop :=
  List.Forall₂ (fun o s => o = none ∨ o = some s) got shards

variable {got : List (Option (List UInt8))}

lemma Survivors.exists_of_mem {shards : List (List UInt8)}
    (h : Survivors got shards) {s : List UInt8} (hs : some s ∈ got) : s ∈ shards := by
  unfold Survivors at h
  induction h with
  | nil => exact absurd hs not_mem_nil
  | cons ho _ ih =>
    rcases mem_cons.mp hs with rfl | hs
    · rcases ho with ho | ho
      · cases ho
      · cases ho
        exact mem_cons_self
    · exact mem_cons_of_mem _ (ih hs)

structure ErasureCode (k m : ℕ) where
  shardLen : ℕ → ℕ
  le_mul_shardLen : ∀ n, n ≤ k * shardLen n
  parity : List (List UInt8) → List (List UInt8)
  length_parity : ∀ data, IsBlock k data → (parity data).length = m
  /-- Find the shards that are missing. -/
  reconstruct : List (Option (List UInt8)) → Option (List (List UInt8))
  reconstruct_eq : ∀ data got, IsBlock k data → Survivors got (data ++ parity data) →
    k ≤ got.countP Option.isSome → reconstruct got = some (data ++ parity data)
  /-- Whether the parity shards are those of the data shards. -/
  verify : List (List UInt8) → Bool
  verify_eq : ∀ data, IsBlock k data → verify (data ++ parity data) = true

namespace ErasureCode

variable {k m : ℕ} (code : ErasureCode k m) {text text' : List UInt8}

def split (text : List UInt8) : List (List UInt8) :=
  slices (code.shardLen text.length) k (padded (k * code.shardLen text.length) text)

def shards (text : List UInt8) : List (List UInt8) :=
  code.split text ++ code.parity (code.split text)

/-- The first `n` bytes of the data shards, if there are that many. -/
def join (_ : ErasureCode k m) (shards : List (List UInt8)) (n : ℕ) : Option (List UInt8) :=
  if (shards.take k).flatten.length < n then none else some ((shards.take k).flatten.take n)

lemma shardLen_pos (h : text ≠ []) : 0 < code.shardLen text.length := by
  refine pos_of_ne_zero fun h0 => h ?_
  have hle := code.le_mul_shardLen text.length
  rw [h0, mul_zero] at hle
  exact eq_nil_of_length_eq_zero (le_zero.mp hle)

lemma pos_of_ne_nil (code : ErasureCode k m) (h : text ≠ []) : 0 < k := by
  refine pos_of_ne_zero ?_
  rintro rfl
  have hle := code.le_mul_shardLen text.length
  rw [zero_mul] at hle
  exact h (eq_nil_of_length_eq_zero (le_zero.mp hle))

lemma length_of_mem_split {s : List UInt8} (hs : s ∈ code.split text) :
    s.length = code.shardLen text.length := by
  refine length_of_mem_slices ?_ hs
  rw [length_padded (code.le_mul_shardLen _)]

lemma isBlock_split (h : text ≠ []) : IsBlock k (code.split text) where
  length_eq := length_slices _ _ _
  uniform := ⟨_, code.shardLen_pos h, fun _ hs => code.length_of_mem_split hs⟩

lemma flatten_split (text : List UInt8) :
    (code.split text).flatten = padded (k * code.shardLen text.length) text := by
  rw [split, flatten_slices, take_of_length_le]
  rw [length_padded (code.le_mul_shardLen _)]

lemma length_shards (h : text ≠ []) : (code.shards text).length = k + m := by
  rw [shards, length_append, code.length_parity _ (code.isBlock_split h)]
  exact congrArg (· + m) (length_slices _ _ _)

lemma take_shards (text : List UInt8) : (code.shards text).take k = code.split text := by
  rw [shards]
  exact take_left' (length_slices _ _ _)

theorem join_shards (text : List UInt8) : code.join (code.shards text) text.length = some text := by
  have hlen := length_padded (code.le_mul_shardLen text.length)
  rw [join, take_shards, flatten_split, if_neg]
  · rw [padded, take_left]
  · rw [hlen]
    exact not_lt.mpr (code.le_mul_shardLen text.length)

lemma reconstruct_shards (h : text ≠ [])
    (hgot : Survivors got (code.shards text)) (hk : k ≤ got.countP Option.isSome) :
    code.reconstruct got = some (code.shards text) :=
  code.reconstruct_eq _ got (code.isBlock_split h) hgot hk

lemma verify_shards (h : text ≠ []) : code.verify (code.shards text) = true :=
  code.verify_eq _ (code.isBlock_split h)

/-- Two texts have the same shards iff these have one length and the texts differ only by
zeros at the end. -/
theorem shards_eq_iff (h : text ≠ []) : code.shards text = code.shards text' ↔
    code.shardLen text.length = code.shardLen text'.length ∧
      ∃ z, text' = text ++ List.replicate z 0 ∨ text = text' ++ List.replicate z 0 := by
  have hpadded : code.shardLen text.length = code.shardLen text'.length →
      (padded (k * code.shardLen text.length) text = padded (k * code.shardLen text'.length) text' ↔
        ∃ z, text' = text ++ List.replicate z 0 ∨ text = text' ++ List.replicate z 0) := by
    intro hlen
    rw [hlen]
    exact padded_eq_padded_iff (hlen ▸ code.le_mul_shardLen _) (code.le_mul_shardLen _)
  constructor
  · intro heq
    have hsplit : code.split text = code.split text' := by
      rw [← take_shards, heq, take_shards]
    -- there is a first shard
    have hpos : 0 < (code.split text).length := by
      rw [(code.isBlock_split h).length_eq]
      exact code.pos_of_ne_nil h
    have hmem := getElem_mem hpos
    have hmem' : (code.split text)[0] ∈ code.split text' := hsplit ▸ hmem
    have hlen : code.shardLen text.length = code.shardLen text'.length := by
      rw [← code.length_of_mem_split hmem, code.length_of_mem_split hmem']
    exact ⟨hlen, (hpadded hlen).mp (by rw [← flatten_split, hsplit, flatten_split])⟩
  · rintro ⟨hlen, hzeros⟩
    have hsplit : code.split text = code.split text' := by
      rw [split, split, ← hlen, (hpadded hlen).mpr hzeros, ← hlen]
    rw [shards, shards, hsplit]

/-! ### Two codes -/

def copies (m : ℕ) : ErasureCode 1 m where
  shardLen n := n
  le_mul_shardLen n := (one_mul n).ge
  parity data := List.replicate m (data.headD [])
  length_parity _ _ := length_replicate
  reconstruct got := (got.findSome? id).map fun s => List.replicate (1 + m) s
  reconstruct_eq data got hdata hgot hk := by
    obtain ⟨s, rfl⟩ := length_eq_one_iff.mp hdata.length_eq
    have hfull : [s] ++ List.replicate m (([s] : List (List UInt8)).headD []) =
        List.replicate (1 + m) s := by
      rw [replicate_add]
      rfl
    rw [hfull] at hgot ⊢
    -- any shard that is left is the one data shard
    obtain ⟨o, ho, hsome⟩ := countP_pos_iff.mp hk
    obtain ⟨t, ht⟩ : ∃ t, got.findSome? id = some t :=
      Option.isSome_iff_exists.mp (List.findSome?_isSome_iff.mpr ⟨o, ho, hsome⟩)
    obtain ⟨o', ho', rfl⟩ := exists_of_findSome?_eq_some ht
    rw [ht, eq_of_mem_replicate (hgot.exists_of_mem ho'), Option.map_some]
  verify shards := shards.all (· = shards.headD [])
  verify_eq data hdata := by
    obtain ⟨s, rfl⟩ := length_eq_one_iff.mp hdata.length_eq
    simp

/-- The bytewise exclusive or of two shards. -/
def xorBytes (a b : List UInt8) : List UInt8 := a.zipWith (· ^^^ ·) b

lemma xorBytes_comm (a b : List UInt8) : xorBytes a b = xorBytes b a :=
  zipWith_comm_of_comm UInt8.xor_comm

lemma xorBytes_xorBytes {a b : List UInt8} (h : a.length = b.length) :
    xorBytes a (xorBytes a b) = b := by
  refine ext_getElem ?_ fun i _ _ => ?_
  · simp [xorBytes, h]
  · simp [xorBytes]

def xor : ErasureCode 2 1 where
  shardLen n := (n + 1) / 2
  le_mul_shardLen n := by omega
  parity
    | [a, b] => [xorBytes a b]
    | _ => [[]]
  length_parity data hdata := by
    obtain ⟨a, b, rfl⟩ := length_eq_two.mp hdata.length_eq
    rfl
  reconstruct
    | [some a, some b, _] => some [a, b, xorBytes a b]
    | [some a, none, some p] => some [a, xorBytes a p, p]
    | [none, some b, some p] => some [xorBytes b p, b, p]
    | _ => none
  reconstruct_eq data got hdata hgot hk := by
    obtain ⟨a, b, rfl⟩ := length_eq_two.mp hdata.length_eq
    obtain ⟨len, -, hlen⟩ := hdata.uniform
    have hab : a.length = b.length := (hlen a (by simp)).trans (hlen b (by simp)).symm
    obtain ⟨x, y, z, rfl⟩ := length_eq_three.mp hgot.length_eq
    simp only [Survivors, cons_append, nil_append, forall₂_cons,
      List.Forall₂.nil, and_true] at hgot
    obtain ⟨rfl | rfl, rfl | rfl, rfl | rfl⟩ := hgot
    · simp at hk
    · simp at hk
    · simp at hk
    · simp [xorBytes_comm a b, xorBytes_xorBytes hab.symm]
    · simp at hk
    · simp [xorBytes_xorBytes hab]
    · rfl
    · rfl
  verify
    | [a, b, p] => xorBytes a b = p
    | _ => false
  verify_eq data hdata := by
    obtain ⟨a, b, rfl⟩ := length_eq_two.mp hdata.length_eq
    simp

end ErasureCode

end Foundation
