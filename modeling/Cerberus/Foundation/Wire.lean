import Cerberus.Foundation.Encoding

/-!
# Length-prefixed binary formats

Writing: fixed-width big-endian integers, and byte strings with their length in front as a `uint32`,
which is the length modulo `2 ^ 32`.

Reading: a cursor over a buffer with a sticky error, in the way of hand-written Go decoders. A read
beyond the end sets the error, and from then on every read returns a zero value. An index outside
the buffer is a panic, here the `none` of `Reader`. A loop driven by a count that was read stops at
the first error; the cursor counts the rounds of such loops.

`Reads m w x` says that `m` reads the value `x` from the bytes `w`; it composes along `bind`. `Safe
gain m` says that `m` never panics and that the rounds of its loops are paid for by the bytes it has
consumed.
-/

namespace Foundation

open List Option

/-! ### Writing -/

def putUint32 (n : UInt32) : List UInt8 :=
  [24, 16, 8, 0].map fun s => (n.toNat / 2 ^ s).toUInt8

def uint32 (b : List UInt8) : UInt32 :=
  UInt32.ofNat (b.foldl (fun acc x => acc * 256 + x.toNat) 0)

@[simp] lemma length_putUint32 (n : UInt32) : (putUint32 n).length = 4 := rfl

@[simp] lemma uint32_putUint32 (n : UInt32) : uint32 (putUint32 n) = n := by
  have hn : n.toNat < 2 ^ 32 := n.toNat_lt
  refine UInt32.toNat_inj.mp ?_
  simp only [uint32, putUint32, map_cons, map_nil, foldl_cons, foldl_nil,
    UInt32.toNat_ofNat', Nat.toUInt8_eq, UInt8.toNat_ofNat']
  omega

def putUint16 (n : UInt16) : List UInt8 := [8, 0].map fun s => (n.toNat / 2 ^ s).toUInt8

def uint16 (b : List UInt8) : UInt16 :=
  UInt16.ofNat (b.foldl (fun acc x => acc * 256 + x.toNat) 0)

@[simp] lemma uint16_putUint16 (n : UInt16) : uint16 (putUint16 n) = n := by
  have hn : n.toNat < 2 ^ 16 := n.toNat_lt
  refine UInt16.toNat_inj.mp ?_
  simp only [uint16, putUint16, map_cons, map_nil, foldl_cons, foldl_nil,
    UInt16.toNat_ofNat', Nat.toUInt8_eq, UInt8.toNat_ofNat']
  omega

def len32 {α : Type*} (l : List α) : UInt32 := UInt32.ofNat l.length

lemma toNat_len32 {α : Type*} {l : List α} (h : l.length < 2 ^ 32) : (len32 l).toNat = l.length :=
  UInt32.toNat_ofNat_of_lt' h

/-- A byte string with its length in front. -/
def putBytes (v : List UInt8) : List UInt8 := putUint32 (len32 v) ++ v

lemma length_putBytes {v : List UInt8} : (putBytes v).length = 4 + v.length := by
  rw [putBytes, length_append, length_putUint32]

def putList {α : Type*} (put : α → List UInt8) (l : List α) : List UInt8 :=
  putUint32 (len32 l) ++ l.flatMap put

/-! ### Reading -/

/-- The slice `b[lo:hi]`; outside the buffer it is a panic. -/
def slice? (b : List UInt8) (lo hi : ℕ) : Option (List UInt8) :=
  if lo ≤ hi ∧ hi ≤ b.length then some ((b.drop lo).take (hi - lo)) else none

lemma slice?_of_le {b : List UInt8} {lo n : ℕ} (h : lo + n ≤ b.length) :
    slice? b lo (lo + n) = some ((b.drop lo).take n) := by
  rw [slice?, if_pos ⟨Nat.le_add_right lo n, h⟩, Nat.add_sub_cancel_left]

structure Cursor where
  buf : List UInt8
  off : ℕ
  failed : Bool
  /-- The rounds of count-driven loops made so far. -/
  rounds : ℕ

def Cursor.start (b : List UInt8) : Cursor := ⟨b, 0, false, 0⟩

/-- What the cursor has paid with: the bytes it consumed, and four more for an error. -/
def Cursor.paid (c : Cursor) : ℕ := c.off + if c.failed then 4 else 0

/-- A reader moves a cursor and returns a value, or indexes outside the buffer. -/
abbrev Reader := StateT Cursor Option

namespace Reader

variable {α β : Type}

/-- Whether there are `n` more bytes; if not, or after an error, the error is set. -/
def need (n : ℕ) : Reader Bool := fun c =>
  if c.failed = true ∨ c.buf.length < c.off + n then some (false, { c with failed := true })
  else some (true, c)

def slice (n : ℕ) : Reader (List UInt8) := fun c =>
  (slice? c.buf c.off (c.off + n)).map fun v => (v, { c with off := c.off + n })

/-- The next `n` bytes, if there are so many. -/
def chunk (n : ℕ) : Reader (Option (List UInt8)) := do
  if ← need n then return some (← slice n) else return none

def u8 : Reader UInt8 := do return ((← chunk 1).map fun v => v.headD 0).getD 0

def u32 : Reader UInt32 := do return ((← chunk 4).map uint32).getD 0

def u64 : Reader UInt64 := do return ((← chunk 8).map uint64).getD 0

/-- Read a byte string with its length in front. -/
def bytes : Reader (List UInt8) := do return (← chunk (← u32).toNat).getD []

def tick : Reader Unit := modify fun c => { c with rounds := c.rounds + 1 }

def items (item : Reader α) : ℕ → Reader (List α)
  | 0 => pure []
  | n + 1 => do
    if (← get).failed then return []
    tick
    let x ← item
    let xs ← items item n
    return x :: xs

def list (item : Reader α) : Reader (List α) := do items item (← u32).toNat

/-! ### Reading what was written -/

lemma bind_apply (m : Reader α) (f : α → Reader β) (c : Cursor) :
    (m >>= f) c = (m c).bind fun p => f p.1 p.2 := rfl

def Reads (m : Reader α) (w : List UInt8) (x : α) : Prop :=
  ∀ c : Cursor, c.failed = false → c.off ≤ c.buf.length → w <+: c.buf.drop c.off → ∃ r,
    m c = some (x, { c with off := c.off + w.length, rounds := c.rounds + r })

variable {c : Cursor} {f : α → Reader β} {m' item : Reader α} {put : α → List UInt8} {l : List α}

lemma take_of_isPrefix {w : List UInt8} (hoff : c.off ≤ c.buf.length)
    (hw : w <+: c.buf.drop c.off) :
    c.off + w.length ≤ c.buf.length ∧ (c.buf.drop c.off).take w.length = w := by
  obtain ⟨t, ht⟩ := hw
  have hlen := congrArg List.length ht
  rw [length_append, length_drop] at hlen
  exact ⟨by omega, by rw [← ht, take_left]⟩

lemma reads_pure (x : α) : Reads (pure x) [] x := fun _ _ _ _ => ⟨0, rfl⟩

variable {m : Reader α} {w w' : List UInt8} {x : α}

lemma Reads.bind {y : β} (h : Reads m w x) (h' : Reads (f x) w' y) :
    Reads (m >>= f) (w ++ w') y := by
  intro c hc hoff hw
  have hw₁ := (prefix_append w w').trans hw
  obtain ⟨r, hr⟩ := h c hc hoff hw₁
  obtain ⟨t, ht⟩ := hw
  have hw₂ : w' <+: c.buf.drop (c.off + w.length) := by
    rw [← drop_drop, ← ht, append_assoc, drop_left]
    exact prefix_append w' t
  obtain ⟨r', hr'⟩ := h' { c with off := c.off + w.length, rounds := c.rounds + r } hc
    (take_of_isPrefix hoff hw₁).1 hw₂
  refine ⟨r + r', ?_⟩
  rw [bind_apply, hr, bind_some, hr', length_append, Nat.add_assoc, Nat.add_assoc]

lemma Reads.map (h : Reads m w x) (f : α → β) : Reads (do return f (← m)) w (f x) := by
  have hbind := h.bind (f := fun a => pure (f a)) (reads_pure (f x))
  rwa [append_nil] at hbind

lemma reads_chunk (w : List UInt8) : Reads (chunk w.length) w (some w) := by
  intro c hc hoff hw
  obtain ⟨hle, htake⟩ := take_of_isPrefix hoff hw
  refine ⟨0, ?_⟩
  have hneed : need w.length c = some (true, c) := by
    rw [need, if_neg]
    rintro (h | h)
    · exact absurd (hc.symm.trans h) (by decide)
    · omega
  have hslice : slice w.length c = some (w, { c with off := c.off + w.length }) := by
    rw [slice, slice?_of_le hle, htake]
    rfl
  rw [chunk, bind_apply, hneed, bind_some, if_pos rfl, bind_apply, hslice]
  rfl

lemma reads_u8 (v : UInt8) : Reads u8 [v] v := (reads_chunk [v]).map _

lemma reads_u32 (v : UInt32) : Reads u32 (putUint32 v) v := by
  have h := (reads_chunk (putUint32 v)).map fun o => (o.map uint32).getD 0
  rwa [map_some, getD_some, uint32_putUint32] at h

lemma reads_u64 (v : UInt64) : Reads u64 (putUint64 v) v := by
  have h := (reads_chunk (putUint64 v)).map fun o => (o.map uint64).getD 0
  rwa [map_some, getD_some, uint64_putUint64] at h

lemma reads_bytes {v : List UInt8} (hv : v.length < 2 ^ 32) : Reads bytes (putBytes v) v := by
  refine (reads_u32 (len32 v)).bind ?_
  rw [toNat_len32 hv]
  exact (reads_chunk v).map _

lemma Reads.of_failed (h : Reads m w x) : Reads (do if (← get).failed then m' else m) w x := by
  intro c hc hoff hw
  obtain ⟨r, hr⟩ := h c hc hoff hw
  refine ⟨r, Eq.trans ?_ hr⟩
  change (if c.failed = true then _ else _ : Reader _) c = _
  rw [if_neg (hc ▸ Bool.false_ne_true)]

lemma reads_tick : Reads tick [] () := fun _ _ _ _ => ⟨1, rfl⟩

lemma reads_items (h : ∀ x ∈ l, Reads item (put x) x) :
    Reads (items item l.length) (l.flatMap put) l := by
  induction l with
  | nil => exact reads_pure []
  | cons x l ih =>
    obtain ⟨hx, hl⟩ := forall_mem_cons.mp h
    exact .of_failed <| reads_tick.bind <| hx.bind <| (ih hl).map (x :: ·)

lemma reads_list (hl : l.length < 2 ^ 32) (h : ∀ x ∈ l, Reads item (put x) x) :
    Reads (list item) (putList put l) l := by
  refine (reads_u32 (len32 l)).bind ?_
  rw [toNat_len32 hl]
  exact reads_items h

/-! ### Reading anything -/

/-- What a safe reader does to the cursor: it stays inside the buffer, it keeps an error, and it
pays four for every round of its loops; if there was no error before, it pays `gain` more. -/
structure Step (gain : ℕ) (c c' : Cursor) : Prop where
  buf : c'.buf = c.buf
  off : c'.off ≤ c.buf.length
  failed : c.failed = true → c'.failed = true
  pays : 4 * c'.rounds + c.paid + (if c.failed then 0 else gain) ≤ 4 * c.rounds + c'.paid

/-- The reader never indexes outside the buffer, and the rounds of its loops are paid for. -/
def Safe (gain : ℕ) (m : Reader α) : Prop :=
  ∀ c : Cursor, c.off ≤ c.buf.length → ∃ x c', m c = some (x, c') ∧ Step gain c c'

variable {gain gain' : ℕ}

lemma Step.trans {c' c'' : Cursor} (h : Step gain c c') (h' : Step gain' c' c'') :
    Step gain c c'' where
  buf := h'.buf.trans h.buf
  off := h.buf ▸ h'.off
  failed hc := h'.failed (h.failed hc)
  pays := by
    have h₁ := h.pays
    have h₂ := h'.pays
    omega

lemma Safe.pure (x : α) : Safe 0 (pure x) := by
  intro c hc
  exact ⟨x, c, rfl, rfl, hc, id, by split_ifs <;> omega⟩

lemma Safe.bind (h : Safe gain m) (h' : ∀ x, Safe gain' (f x)) : Safe gain (m >>= f) := by
  intro c hc
  obtain ⟨x, c₁, hm, h₁⟩ := h c hc
  obtain ⟨y, c₂, hf, h₂⟩ := h' x c₁ (h₁.buf ▸ h₁.off)
  refine ⟨y, c₂, ?_, h₁.trans h₂⟩
  rw [bind_apply, hm, bind_some, hf]

lemma safe_get : Safe 0 get := by
  intro c hc
  exact ⟨c, c, rfl, rfl, hc, id, by simp⟩

lemma Safe.mono (h : Safe gain m) (hle : gain' ≤ gain) : Safe gain' m := by
  intro c hc
  obtain ⟨x, c', hm, hstep⟩ := h c hc
  refine ⟨x, c', hm, hstep.buf, hstep.off, hstep.failed, ?_⟩
  have hpays := hstep.pays
  split_ifs at hpays ⊢ <;> omega

lemma Safe.ite {p : Prop} [Decidable p] (h : Safe gain m) (h' : Safe gain' m') :
    Safe 0 (if p then m else m') := by
  split_ifs
  · exact h.mono (Nat.zero_le _)
  · exact h'.mono (Nat.zero_le _)

lemma safe_chunk (n : ℕ) : Safe (min n 4) (chunk n) := by
  intro c hc
  by_cases hneed : c.failed = true ∨ c.buf.length < c.off + n
  · refine ⟨none, { c with failed := true }, ?_, rfl, hc, fun _ => rfl, ?_⟩
    · rw [chunk, bind_apply, need, if_pos hneed]
      rfl
    · simp only [Cursor.paid]
      split_ifs <;> omega
  · push Not at hneed
    refine ⟨some ((c.buf.drop c.off).take n), { c with off := c.off + n }, ?_, rfl, hneed.2,
      fun h => h, ?_⟩
    · rw [chunk, bind_apply, need, if_neg (by push Not; exact hneed), bind_some, if_pos rfl,
        bind_apply, slice, slice?_of_le hneed.2]
      rfl
    · simp only [Cursor.paid, if_neg hneed.1]
      omega

lemma safe_u8 : Safe 1 u8 := (safe_chunk 1).bind fun _ => .pure _

lemma safe_u32 : Safe 4 u32 := (safe_chunk 4).bind fun _ => .pure _

lemma safe_u64 : Safe 4 u64 := (safe_chunk 8).bind fun _ => .pure _

lemma safe_bytes : Safe 4 bytes :=
  safe_u32.bind fun n => ((safe_chunk n.toNat).bind fun _ => .pure _).mono (Nat.zero_le _)

lemma safe_items (h : Safe 4 item) (n : ℕ) : Safe 0 (items item n) := by
  induction n with
  | zero => exact .pure []
  | succ n ih =>
    intro c hc
    rw [items, bind_apply]
    change ∃ x c', (if c.failed = true then _ else _ : Reader _) c = some (x, c') ∧ _
    split_ifs with hfailed
    · exact ⟨[], c, rfl, rfl, hc, id, by simp⟩
    · have hrest := h.bind fun x => ih.bind fun xs => .pure (x :: xs)
      obtain ⟨xs, c', hrun, hstep⟩ := hrest { c with rounds := c.rounds + 1 } hc
      refine ⟨xs, c', hrun, hstep.buf, hstep.off, hstep.failed, ?_⟩
      -- the round is paid for by its item
      have hpays := hstep.pays
      simp only [Cursor.paid, if_neg hfailed] at hpays ⊢
      omega

lemma safe_list (h : Safe 4 item) : Safe 4 (list item) :=
  safe_u32.bind fun n => safe_items h n.toNat

end Reader

end Foundation
