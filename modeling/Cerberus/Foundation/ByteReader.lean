import Cerberus.Foundation.Input

/-!
# Readers

`Input` gives its bytes in pieces that are fixed beforehand, and its error by itself. A reader in
general is a machine: how much of a buffer it fills may depend on anything, and its error may come
with the last bytes or after them. `ByteReader` is such a machine together with what it has still to
give, its end, and a bound on the number of reads until then; an input is one
(`ByteReader.ofInput`).

`readFull` is `io.ReadFull`, whose outcome depends only on the bytes and the end
(`filled_readFull`). `buffered` is `bufio.Reader`; what it gives is what the reader below it gives.
-/

namespace Foundation

open List

structure ByteReader (ε : Type) where
  State : Type
  /-- `Read` with a buffer of `n` bytes. -/
  read : ℕ → State → List UInt8 × Option (ReadErr ε) × State
  content : State → List UInt8
  ending : State → ReadErr ε
  size : State → ℕ
  length_read_le : ∀ n s, (read n s).1.length ≤ n
  read_append_content : ∀ n s, (read n s).1 ++ content (read n s).2.2 = content s
  ending_read : ∀ n s, ending (read n s).2.2 = ending s
  /-- An error is the end, and comes when there is nothing left. -/
  of_err : ∀ n s e, (read n s).2.1 = some e → content (read n s).2.2 = [] ∧ e = ending s
  /-- A read without an error is a step to the end, if there is room in the buffer. -/
  size_read_lt : ∀ n s, 0 < n → (read n s).2.1 = none → size (read n s).2.2 < size s

namespace ByteReader

variable {ε : Type}

def ofInput (ε : Type) : ByteReader ε where
  State := Input ε
  read := Input.read
  content := Input.bytes
  ending := Input.ending
  size r := r.bytes.length + r.pieces.length
  length_read_le := Input.length_fst_read_le
  read_append_content := Input.fst_read_append_bytes
  ending_read n r := by rw [Input.ending, Input.ending, Input.fault_read]
  of_err n r e he := by
    obtain ⟨hbytes, hend⟩ := Input.ending_of_err_read n r e he
    refine ⟨hbytes, hend.trans ?_⟩
    rw [Input.ending, Input.ending, Input.fault_read]
  size_read_lt n r hn herr := by
    rcases Input.err_read_cases n r with ⟨-, hread⟩ | ⟨hne, -⟩
    · rw [hread] at herr
      cases herr
    · exact Input.size_read_lt hne (.inl hn)

/-- A read into a buffer with room gives something or an error. -/
def Prompt (R : ByteReader ε) : Prop :=
  ∀ n s, 0 < n → (R.read n s).2.1 = none → (R.read n s).1 ≠ []

/-- An input without empty pieces is a reader that gives something or an error. -/
def ofChunks (ε : Type) : ByteReader ε where
  State := { r : Input ε // ∀ p ∈ r.pieces, p ≠ [] }
  read n r := ((r.1.read n).1, (r.1.read n).2.1, ⟨(r.1.read n).2.2, Input.ne_nil_of_mem_read r.2⟩)
  content r := r.1.bytes
  ending r := r.1.ending
  size r := (ofInput ε).size r.1
  length_read_le n r := (ofInput ε).length_read_le n r.1
  read_append_content n r := (ofInput ε).read_append_content n r.1
  ending_read n r := (ofInput ε).ending_read n r.1
  of_err n r := (ofInput ε).of_err n r.1
  size_read_lt n r := (ofInput ε).size_read_lt n r.1

lemma prompt_ofChunks (ε : Type) : (ofChunks ε).Prompt := by
  rintro n ⟨⟨_ | ⟨p, ps⟩, fault⟩, hne⟩ hn herr
  · cases herr
  · have hpos := length_pos_iff.mpr (hne p mem_cons_self)
    refine length_pos_iff.mp (lt_of_lt_of_eq ?_ (length_take (l := p)).symm)
    exact lt_min hn hpos

variable {R : ByteReader ε} {s : R.State} {n : ℕ}

variable {e : ReadErr ε} {got more : List UInt8} {s' : R.State}

lemma fst_read_of_err (h : (R.read n s).2.1 = some e) : (R.read n s).1 = R.content s := by
  rw [← R.read_append_content n s, (R.of_err n s e h).1, append_nil]

lemma size_lt_of_read (hn : 0 < n) (h : R.read n s = (got, none, s')) : R.size s' < R.size s := by
  have hlt := R.size_read_lt n s hn
  simp only [h] at hlt
  exact hlt trivial

/-! ### Reading to the end -/

section ReadsOut

variable {σ : Type} (read : ℕ → σ → List UInt8 × Option (ReadErr ε) × σ)

/-- Reads with buffers of any lengths, up to the first error: all bytes that they give, the error,
and the state after it. -/
inductive ReadsOut : σ → List UInt8 → ReadErr ε → σ → Prop
  | last {n : ℕ} {s s' : σ} {got : List UInt8} {e : ReadErr ε} (hn : 0 < n)
      (h : read n s = (got, some e, s')) : ReadsOut s got e s'
  | more {n : ℕ} {s s' s'' : σ} {got rest : List UInt8} {e : ReadErr ε} (hn : 0 < n)
      (h : read n s = (got, none, s')) (hrest : ReadsOut s' rest e s'') :
      ReadsOut s (got ++ rest) e s''

/-- Reads with buffers of any lengths, none of them with an error: all bytes that they give, and the
state after them. -/
inductive Reads : σ → List UInt8 → σ → Prop
  | none (s : σ) : Reads s [] s
  | more {n : ℕ} {s s' s'' : σ} {given got : List UInt8} (hgiven : Reads s given s') (hn : 0 < n)
      (h : read n s' = (got, .none, s'')) : Reads s (given ++ got) s''

/-- However the buffers are chosen, there are only finitely many reads without an error. -/
def Ends : σ → Prop := Acc fun s' s => ∃ n got, 0 < n ∧ read n s = (got, none, s')

variable {read}

lemma Reads.cons {n : ℕ} {s s' s'' : σ} {got given : List UInt8} (hn : 0 < n)
    (h : read n s = (got, .none, s')) (hgiven : Reads read s' given s'') :
    Reads read s (got ++ given) s'' := by
  induction hgiven with
  | none s' =>
    rw [append_nil]
    exact .more (.none s) hn h
  | more _ hn' hread ih =>
    rw [← append_assoc]
    exact .more (ih h) hn' hread

lemma readsOut_iff {s s'' : σ} {all : List UInt8} {e : ReadErr ε} :
    ReadsOut read s all e s'' ↔ ∃ given got s' n, Reads read s given s' ∧ 0 < n ∧
      read n s' = (got, some e, s'') ∧ all = given ++ got := by
  constructor
  · intro h
    induction h with
    | last hn hread => exact ⟨[], _, _, _, .none _, hn, hread, rfl⟩
    | more hn hread _ ih =>
      obtain ⟨given, got, s', n, hgiven, hn', hlast, rfl⟩ := ih
      exact ⟨_, got, s', n, hgiven.cons hn hread, hn', hlast, (append_assoc ..).symm⟩
  · rintro ⟨given, got, s', n, hgiven, hn, hlast, rfl⟩
    have hrest : ReadsOut read s' got e s'' := .last hn hlast
    clear hlast
    induction hgiven generalizing got with
    | none s => exact hrest
    | more _ hn' hread ih =>
      rw [append_assoc]
      exact ih _ (.more hn' hread hrest)

lemma ends_of_measure {I : σ → Prop} (μ : σ → ℕ)
    (hstep : ∀ s n got s', I s → 0 < n → read n s = (got, none, s') → I s' ∧ μ s' < μ s) {s : σ}
    (h : I s) : Ends read s := by
  induction hμ : μ s using Nat.strong_induction_on generalizing s with
  | _ m ih =>
    subst hμ
    refine Acc.intro s fun s' hs' => ?_
    obtain ⟨n, got, hn, hread⟩ := hs'
    obtain ⟨hI, hlt⟩ := hstep s n got s' h hn hread
    exact ih (μ s') hlt hI rfl

end ReadsOut

/-! ### Filling a buffer -/

/-- The error of a buffer that is not full: the end of the file only when not a byte was there. -/
def cutShort (all : List UInt8) : ReadErr ε → ReadErr ε
  | .eof => if all = [] then .eof else .unexpectedEOF
  | e => e

/-- What `io.ReadFull` reports when it stops at an error: nothing if the buffer is full all the
same. -/
def shortErr (n : ℕ) (all : List UInt8) (e : ReadErr ε) : Option (ReadErr ε) :=
  if n ≤ all.length then none else some (cutShort all e)

/-- The reads of `io.ReadFull`, with what is in the buffer so far. -/
def fill (R : ByteReader ε) (n : ℕ) (got : List UInt8) (s : R.State) :
    List UInt8 × Option (ReadErr ε) × R.State :=
  if hfull : n ≤ got.length then (got, none, s)
  else
    match hread : R.read (n - got.length) s with
    | (more, none, s') =>
      have := size_lt_of_read (Nat.sub_pos_of_lt (Nat.lt_of_not_le hfull)) hread
      R.fill n (got ++ more) s'
    | (more, some e, s') => (got ++ more, shortErr n (got ++ more) e, s')
termination_by R.size s

/-- `io.ReadFull` with a buffer of `n` bytes. -/
def readFull (R : ByteReader ε) (n : ℕ) (s : R.State) : List UInt8 × Option (ReadErr ε) × R.State :=
  R.fill n [] s

lemma fill_of_le (h : n ≤ got.length) : R.fill n got s = (got, none, s) := by
  rw [fill, dif_pos h]

lemma fill_of_none (h : ¬ n ≤ got.length) (hread : R.read (n - got.length) s = (more, none, s')) :
    R.fill n got s = R.fill n (got ++ more) s' := by
  rw [fill, dif_neg h]
  split
  · rename_i heq
    rw [hread] at heq
    cases heq
    rfl
  · rename_i heq
    rw [hread] at heq
    cases heq

lemma fill_of_some (h : ¬ n ≤ got.length) (hread : R.read (n - got.length) s = (more, some e, s')) :
    R.fill n got s = (got ++ more, shortErr n (got ++ more) e, s') := by
  rw [fill, dif_neg h]
  split
  · rename_i heq
    rw [hread] at heq
    cases heq
  · rename_i heq
    rw [hread] at heq
    cases heq
    rfl

/-- What filling a buffer comes to: the front of the bytes, and an error if they are too few. -/
structure Filled (R : ByteReader ε) (n : ℕ) (all : List UInt8) (e : ReadErr ε)
    (res : List UInt8 × Option (ReadErr ε) × R.State) : Prop where
  got_eq : res.1 = all.take n
  err_eq : res.2.1 = shortErr n all e
  content_eq : R.content res.2.2 = all.drop n
  ending_eq : R.ending res.2.2 = e

lemma filled_fill (hgot : got.length ≤ n) :
    Filled R n (got ++ R.content s) (R.ending s) (R.fill n got s) := by
  -- the induction is on the number of reads that are left
  induction hk : R.size s using Nat.strong_induction_on generalizing s got with
  | _ k ih =>
    subst hk
    by_cases hfull : n ≤ got.length
    · obtain rfl := le_antisymm hgot hfull
      rw [fill_of_le hfull]
      exact ⟨by simp, by simp [shortErr], by simp, rfl⟩
    · have hpos : 0 < n - got.length := by omega
      have hle := R.length_read_le (n - got.length) s
      have happ := R.read_append_content (n - got.length) s
      have hend := R.ending_read (n - got.length) s
      have herr := R.of_err (n - got.length) s
      have hlt := R.size_read_lt (n - got.length) s hpos
      rcases hread : R.read (n - got.length) s with ⟨more, _ | e, s'⟩
      · simp only [hread] at hle happ hend hlt
        rw [fill_of_none hfull hread, ← happ, ← hend, ← append_assoc]
        exact ih _ (hlt trivial) (by rw [length_append]; omega) rfl
      · simp only [hread] at hle happ hend herr
        obtain ⟨hnil, rfl⟩ := herr e rfl
        rw [hnil, append_nil] at happ
        have hlen : (got ++ more).length ≤ n := by
          rw [length_append]
          omega
        rw [fill_of_some hfull hread, ← happ]
        refine ⟨?_, rfl, ?_, hend⟩
        · rw [take_of_length_le hlen]
        · rw [hnil, drop_eq_nil_of_le hlen]

lemma filled_readFull (n : ℕ) (s : R.State) :
    Filled R n (R.content s) (R.ending s) (R.readFull n s) :=
  @filled_fill ε R s n [] (Nat.zero_le n)

/-! ### A buffer in front of a reader -/

/-- A reader with a buffer: what is in the buffer, the error that is reported when it is empty, and
the reader below. -/
structure Buffered (R : ByteReader ε) where
  buf : List UInt8
  err : Option (ReadErr ε)
  src : R.State
  /-- An error is kept only when the reader below has ended with it. -/
  of_err : ∀ e, err = some e → R.content src = [] ∧ e = R.ending src

namespace Buffered

def content (b : R.Buffered) : List UInt8 := b.buf ++ R.content b.src

/-- What is left to do: once the error is known, only to empty the buffer. -/
def size (b : R.Buffered) : ℕ := b.content.length + if b.err.isSome then 0 else R.size b.src + 1

def after (R : ByteReader ε) (cap : ℕ) (s : R.State) : R.Buffered where
  buf := (R.read cap s).1
  err := (R.read cap s).2.1
  src := (R.read cap s).2.2
  of_err e he := by
    rw [R.ending_read]
    exact R.of_err cap s e he

/-- `readErr`: an error is reported once. -/
def clear (b : R.Buffered) : R.Buffered := { b with err := none, of_err := by simp }

def give (n : ℕ) (b : R.Buffered) : List UInt8 × Option (ReadErr ε) × R.Buffered :=
  (b.buf.take n, none, { b with buf := b.buf.drop n })

/-- Give what was read, and its error, past the buffer. -/
def pass (b : R.Buffered) : List UInt8 × Option (ReadErr ε) × R.Buffered :=
  (b.buf, b.err, { b.clear with buf := [] })

/-- `bufio.Reader.Read` with a buffer of `n` bytes, over one of `cap` bytes. -/
def read (cap n : ℕ) (b : R.Buffered) : List UInt8 × Option (ReadErr ε) × R.Buffered :=
  if n = 0 then if b.buf ≠ [] then ([], none, b) else ([], b.err, b.clear)
  else if b.buf ≠ [] then b.give n
  else if b.err.isSome then ([], b.err, b.clear)
  else if cap ≤ n then (after R n b.src).pass
  else if (after R cap b.src).buf = [] then (after R cap b.src).pass
  else (after R cap b.src).give n

variable {b b' : R.Buffered} {cap : ℕ}

/-- What a reader has to keep to, of one read with a buffer of `n` bytes. -/
structure Lawful (b : R.Buffered) (n : ℕ) (res : List UInt8 × Option (ReadErr ε) × R.Buffered) :
    Prop where
  length_le : res.1.length ≤ n
  append_content : res.1 ++ res.2.2.content = b.content
  ending_eq : R.ending res.2.2.src = R.ending b.src
  of_err : ∀ e, res.2.1 = some e → res.2.2.content = [] ∧ e = R.ending b.src
  size_lt : 0 < n → res.2.1 = none → res.2.2.size < b.size

lemma lawful_give (hbuf : b.buf ≠ []) : b.Lawful n (b.give n) where
  length_le := length_take_le n b.buf
  append_content := by
    rw [give, content, content, ← append_assoc, take_append_drop]
  ending_eq := rfl
  of_err e he := by cases he
  size_lt hn _ := by
    have hpos := length_pos_iff.mpr hbuf
    have hlt : (b.buf.drop n ++ R.content b.src).length < (b.buf ++ R.content b.src).length := by
      rw [length_append, length_append, length_drop]
      omega
    exact Nat.add_lt_add_right hlt _

lemma lawful_report (hbuf : b.buf = []) (h : n = 0 ∨ b.err.isSome) :
    b.Lawful n ([], b.err, b.clear) where
  length_le := Nat.zero_le n
  append_content := rfl
  ending_eq := rfl
  of_err e he := by
    obtain ⟨hnil, hend⟩ := b.of_err e he
    refine ⟨?_, hend⟩
    rw [content, clear, hbuf, hnil, append_nil]
  size_lt hn herr := by
    rcases h with rfl | h
    · exact absurd hn (Nat.lt_irrefl 0)
    · rw [show b.err = none from herr] at h
      cases h

lemma content_after (cap : ℕ) (s : R.State) : (after R cap s).content = R.content s :=
  R.read_append_content cap s

section

variable (hcap : 0 < cap) (hbuf : b.buf = []) (herr : b.err = none)
include hcap hbuf herr

lemma size_after_lt : (after R cap b.src).size < b.size := by
  have hlt := R.size_read_lt cap b.src hcap
  have hcontent : b.content = R.content b.src := by rw [content, hbuf, nil_append]
  rw [size, size, content_after, hcontent, herr]
  rcases hread : (after R cap b.src).err with _ | e
  · exact Nat.add_lt_add_left (Nat.add_lt_add_right (hlt hread) 1) _
  · exact Nat.lt_add_of_pos_right (Nat.succ_pos _)

lemma lawful_pass
    (hle : (after R cap b.src).buf.length ≤ n) : b.Lawful n (after R cap b.src).pass where
  length_le := hle
  append_content := by
    rw [content, content, hbuf]
    exact content_after cap b.src
  ending_eq := R.ending_read cap b.src
  of_err := R.of_err cap b.src
  size_lt _ hnone := by
    refine lt_of_le_of_lt ?_ (size_after_lt hcap hbuf herr)
    have hnone : (after R cap b.src).err = none := hnone
    rw [size, size, hnone]
    refine Nat.add_le_add_right ?_ _
    rw [content, content, length_append, length_append]
    exact Nat.add_le_add_right (Nat.zero_le _) _

lemma lawful_give_after
    (h : (after R cap b.src).buf ≠ []) : b.Lawful n ((after R cap b.src).give n) := by
  obtain ⟨hle, happend, hend, hof, hlt⟩ := @lawful_give ε R n _ h
  have hsrc : R.ending (after R cap b.src).src = R.ending b.src := R.ending_read cap b.src
  have hcontent : (after R cap b.src).content = b.content := by
    rw [content_after, content, hbuf, nil_append]
  refine ⟨hle, happend.trans hcontent, hend.trans hsrc, fun e he => ?_,
    fun hn hnone => (hlt hn hnone).trans (size_after_lt hcap hbuf herr)⟩
  rw [← hsrc]
  exact hof e he

end

lemma lawful_read (cap n : ℕ) (b : R.Buffered) : b.Lawful n (b.read cap n) := by
  unfold read
  by_cases hbuf : b.buf = []
  · simp only [hbuf, ne_eq, not_true_eq_false, if_false]
    by_cases hn : n = 0
    · rw [if_pos hn]
      exact lawful_report hbuf (.inl hn)
    rw [if_neg hn]
    by_cases herr : b.err.isSome
    · rw [if_pos herr]
      exact lawful_report hbuf (.inr herr)
    rw [if_neg herr]
    have hnone := Option.not_isSome_iff_eq_none.mp herr
    split_ifs with hcap hnil
    · exact lawful_pass (Nat.pos_of_ne_zero hn) hbuf hnone (R.length_read_le n b.src)
    · have hpos : 0 < cap := by omega
      exact lawful_pass hpos hbuf hnone (by rw [hnil]; exact Nat.zero_le n)
    · have hpos : 0 < cap := by omega
      exact lawful_give_after hpos hbuf hnone hnil
  · simp only [hbuf, ne_eq, not_false_eq_true, if_true]
    split_ifs with hn
    · exact ⟨Nat.zero_le n, rfl, rfl, fun e he => (Option.some_ne_none e he.symm).elim,
        fun hpos => absurd hpos (by omega)⟩
    · exact lawful_give hbuf

end Buffered

/-- `bufio.NewReaderSize`: a reader with a buffer of `cap` bytes is a reader. -/
def buffered (R : ByteReader ε) (cap : ℕ) : ByteReader ε where
  State := R.Buffered
  read := Buffered.read cap
  content := Buffered.content
  ending b := R.ending b.src
  size := Buffered.size
  length_read_le n b := (Buffered.lawful_read cap n b).length_le
  read_append_content n b := (Buffered.lawful_read cap n b).append_content
  ending_read n b := (Buffered.lawful_read cap n b).ending_eq
  of_err n b := (Buffered.lawful_read cap n b).of_err
  size_read_lt n b := (Buffered.lawful_read cap n b).size_lt

def newBuffered (cap : ℕ) (s : R.State) : (R.buffered cap).State :=
  show R.Buffered from ⟨[], none, s, by simp⟩

@[simp] lemma content_newBuffered (cap : ℕ) (s : R.State) :
    (R.buffered cap).content (newBuffered cap s) = R.content s := rfl

@[simp] lemma ending_newBuffered (cap : ℕ) (s : R.State) :
    (R.buffered cap).ending (newBuffered cap s) = R.ending s := rfl

end ByteReader

end Foundation
