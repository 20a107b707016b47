import Cerberus.Dataplane.Client

/-!
# The copy of any source

`copyQuota` reads a source until it ends or the limit is exceeded. The source is any reader.

A copy says truly why it stopped (`Copied.Spec`). It ends, unless the limit is the greatest number:
a round then asks for one byte more than that, which is none (`copiesExactly_iff`).
-/

namespace Cerberus.Dataplane

open Foundation Contract List Nat

/-- A source of this length is copied without an error, if it has none itself. For the greatest
limit the number of bytes that a round asks for overflows. -/
def Copies (limit : UInt64) (len : ℕ) : Prop :=
  len ≤ limit.toNat ∧ (limit.toNat + 1 < 2 ^ 64 ∨ len = 0)

variable {R : ByteReader GoString} {write : ℕ → Option GoString} {limit total : UInt64}
  {c : Copying R} {d : Copied} {s : R.State}

section

variable (h : total.toNat ≤ limit.toNat)
include h

lemma toNat_remain : (limit - total + 1).toNat = (limit.toNat - total.toNat + 1) % 2 ^ 64 := by
  rw [UInt64.toNat_add, UInt64.toNat_sub_of_le _ _ (UInt64.le_iff_toNat_le.mpr h)]
  rfl

lemma want_le : (want limit total).toNat ≤ limit.toNat - total.toNat + 1 := by
  have hremain := toNat_remain h
  have hmod := mod_le (limit.toNat - total.toNat + 1) (2 ^ 64)
  unfold want
  simp only
  split_ifs with hlt
  · omega
  · rw [UInt64.lt_iff_toNat_lt] at hlt
    omega

lemma want_pos (hlimit : limit.toNat + 1 < 2 ^ 64) : 0 < (want limit total).toNat := by
  have hremain := toNat_remain h
  unfold want
  simp only
  split_ifs with hlt
  · rw [mod_eq_of_lt (by omega)] at hremain
    omega
  · decide

end

lemma want_zero (hlimit : ¬ limit.toNat + 1 < 2 ^ 64) : (want limit 0).toNat = 0 := by
  have hlt := limit.toNat_lt
  have hzero : (limit - 0 + 1).toNat = 0 := by
    rw [toNat_remain (zero_le _)]
    have hmax : limit.toNat - (0 : UInt64).toNat + 1 = 2 ^ 64 := by
      rw [UInt64.toNat_zero]
      omega
    rw [hmax, mod_self]
  unfold want
  simp only
  rw [if_pos, hzero]
  rw [UInt64.lt_iff_toNat_lt, hzero]
  decide

/-! ### What a copy comes to -/

/-- What holds between the rounds of a copy. -/
structure Copying.Sound (s : R.State) (limit : UInt64) (c : Copying R) : Prop where
  bytes : c.written.flatten ++ R.content c.src = R.content s
  ending : R.ending c.src = R.ending s
  total : c.total.toNat = c.written.flatten.length
  le : c.total.toNat ≤ limit.toNat
  stuck : limit.toNat + 1 < 2 ^ 64 ∨ c.written = []

/-- The error of a copy says truly what was written. -/
def Copied.Spec (write : ℕ → Option GoString) (bytes : List UInt8) (ending : ReadErr GoString)
    (limit : UInt64) (d : Copied) : Prop :=
  match d.err with
  | none =>
    d.written.flatten = bytes ∧ d.total.toNat = bytes.length ∧ ending = .eof ∧
      Copies limit bytes.length
  | some (.source text) =>
    d.written.flatten = bytes ∧ d.total.toNat = bytes.length ∧
      copyErrOf ending = some (.source text) ∧ bytes.length ≤ limit.toNat
  | some (.write e) =>
    (d.written.flatten <+: bytes ∧ d.written.flatten.length ≤ limit.toNat) ∧
      ∃ i, write i = some e
  | some .quotaExceeded =>
    d.written.flatten = bytes.take limit.toNat ∧ d.total = limit ∧ limit.toNat < bytes.length

lemma copyErrOf_cases (e : ReadErr GoString) :
    e = .eof ∧ copyErrOf e = none ∨ ∃ text, copyErrOf e = some (.source text) := by
  rcases e with _ | _ | e
  · exact .inl ⟨rfl, rfl⟩
  · exact .inr ⟨_, rfl⟩
  · exact .inr ⟨_, rfl⟩

namespace Copying.Sound

lemma next (hc : c.Sound s limit) {err : Option (ReadErr GoString)}
    (herr : ∀ e, err = some e → R.content c.src = [] ∧ e = R.ending s) :
    (c.next err).elim (Copying.Sound s limit)
      (Copied.Spec write (R.content s) (R.ending s) limit) := by
  rcases err with _ | e
  · exact hc
  · obtain ⟨hnil, rfl⟩ := herr e rfl
    have hall : c.written.flatten = R.content s := by
      rw [← hc.bytes, hnil, append_nil]
    have htotal : c.total.toNat = (R.content s).length := by rw [hc.total, hall]
    have hlen : (R.content s).length ≤ limit.toNat := htotal ▸ hc.le
    simp only [Copying.next, Sum.elim_inr, Copied.Spec]
    rcases copyErrOf_cases (R.ending s) with ⟨heof, hnone⟩ | ⟨text, hsome⟩
    · simp only [hnone]
      refine ⟨hall, htotal, heof, hlen, hc.stuck.imp_right fun hw => ?_⟩
      rw [← hall, hw]
      rfl
    · simp only [hsome]
      exact ⟨hall, htotal, trivial, hlen⟩

variable {got : List UInt8}

section

variable (hc : c.Sound s limit)
include hc

section

variable (hne : got ≠ []) (hgot : got.length ≤ (want limit c.total).toNat)
include hne hgot

lemma limit_lt : limit.toNat + 1 < 2 ^ 64 := by
  by_contra hmax
  have htotal : c.total = 0 := by
    refine UInt64.toNat_inj.mp ?_
    rw [hc.total, hc.stuck.resolve_left hmax]
    rfl
  rw [htotal, want_zero hmax, le_zero, length_eq_zero_iff] at hgot
  exact hne hgot

lemma toNat_add : (c.total + UInt64.ofNat got.length).toNat = c.total.toNat + got.length := by
  have hlimit := hc.limit_lt hne hgot
  have hwant := want_le hc.le
  have hle := hc.le
  rw [UInt64.toNat_add, UInt64.toNat_ofNat_of_lt' (by rw [UInt64.size]; omega),
    mod_eq_of_lt (by omega)]

end

lemma take_limit {got rest : List UInt8}
    (hbytes : got ++ rest = R.content c.src) (hover : limit.toNat < c.total.toNat + got.length) :
    c.written.flatten ++ got.take (limit - c.total).toNat = (R.content s).take limit.toNat := by
  have hle := hc.le
  have htotal := hc.total
  have hfront : c.written.flatten.take limit.toNat = c.written.flatten :=
    take_of_length_le (htotal ▸ hle)
  rw [UInt64.toNat_sub_of_le _ _ (UInt64.le_iff_toNat_le.mpr hle), ← hc.bytes, ← hbytes,
    take_append, hfront, ← htotal, take_append_of_le_length (by omega)]

lemma written_prefix :
    c.written.flatten <+: R.content s ∧ c.written.flatten.length ≤ limit.toNat := by
  rw [← hc.total, ← hc.bytes]
  exact ⟨prefix_append _ _, hc.le⟩

lemma append {src : R.State} (hne : got ≠ []) (hgot : got.length ≤ (want limit c.total).toNat)
    (hbytes : got ++ R.content src = R.content c.src) (hend : R.ending src = R.ending c.src)
    (hle : c.total.toNat + got.length ≤ limit.toNat) :
    Copying.Sound s limit ⟨c.total + UInt64.ofNat got.length, src, c.written ++ [got]⟩ := by
  have hsum := hc.toNat_add hne hgot
  have hwritten : (c.written ++ [got]).flatten = c.written.flatten ++ got := by
    rw [flatten_append, flatten_singleton]
  refine ⟨?_, hend.trans hc.ending, ?_, ?_, .inl (hc.limit_lt hne hgot)⟩
  · rw [hwritten, append_assoc, hbytes, hc.bytes]
  · rw [hsum, hwritten, length_append, hc.total]
  · rw [hsum]
    exact hle

end

lemma round (write : ℕ → Option GoString) (hc : c.Sound s limit) :
    (copyRound write limit c).elim (Copying.Sound s limit)
      (Copied.Spec write (R.content s) (R.ending s) limit) := by
  have hgot := R.length_read_le (want limit c.total).toNat c.src
  have hbytes := R.read_append_content (want limit c.total).toNat c.src
  have hending := R.ending_read (want limit c.total).toNat c.src
  have hend := R.of_err (want limit c.total).toNat c.src
  rw [hc.ending] at hend
  unfold copyRound
  generalize R.read (want limit c.total).toNat c.src = res at hgot hbytes hending hend ⊢
  obtain ⟨got, err, src⟩ := res
  simp only at hgot hbytes hending hend ⊢
  have hall : (R.content s).length = c.total.toNat + got.length + (R.content src).length := by
    rw [← hc.bytes, ← hbytes, hc.total, length_append, length_append, add_assoc]
  split_ifs with hnil hover hkeep
  · subst hnil
    refine next (c := { c with src := src })
      ⟨?_, hending.trans hc.ending, hc.total, hc.le, hc.stuck⟩ hend
    rw [← hc.bytes, ← hbytes, nil_append]
  · -- over the limit, and nothing to keep
    rw [UInt64.lt_iff_toNat_lt, hc.toNat_add hnil hgot] at hover
    have htake := hc.take_limit hbytes hover
    rw [hkeep, append_nil] at htake
    have hzero : (limit - c.total).toNat = 0 :=
      (take_eq_nil_iff.mp hkeep).resolve_right hnil
    rw [UInt64.toNat_sub_of_le _ _ (UInt64.le_iff_toNat_le.mpr hc.le)] at hzero
    have hle := hc.le
    have htotal : c.total = limit := UInt64.toNat_inj.mp (by omega)
    exact ⟨htake, htotal, by omega⟩
  · -- over the limit
    rw [UInt64.lt_iff_toNat_lt, hc.toNat_add hnil hgot] at hover
    have hwritten : (c.written ++ [got.take (limit - c.total).toNat]).flatten =
        (R.content s).take limit.toNat := by
      rw [flatten_append, flatten_singleton, hc.take_limit hbytes hover]
    rcases hwrite : write (2 + c.written.length) with _ | e
    · exact ⟨hwritten, add_sub_cancel _ _, by omega⟩
    · refine ⟨?_, _, hwrite⟩
      rw [hwritten]
      exact ⟨List.take_prefix _ _, length_take_le _ _⟩
  · rw [UInt64.lt_iff_toNat_lt, hc.toNat_add hnil hgot, not_lt] at hover
    have hnext := hc.append hnil hgot hbytes hending hover
    rcases hwrite : write (2 + c.written.length) with _ | e
    · exact hnext.next hend
    · exact ⟨hnext.written_prefix, _, hwrite⟩

end Copying.Sound

lemma sound_start (s : R.State) (limit : UInt64) : Copying.Sound s limit ⟨0, s, []⟩ :=
  ⟨rfl, rfl, rfl, zero_le _, .inr rfl⟩

lemma sound_rounds (write : ℕ → Option GoString) (s : R.State) (limit : UInt64) (k : ℕ) :
    (rounds (copyRound write limit) k ⟨0, s, []⟩).elim (Copying.Sound s limit)
      (Copied.Spec write (R.content s) (R.ending s) limit) := by
  refine rounds_invariant (fun c c' hc hround => ?_) (fun c d hc hround => ?_)
    (sound_start s limit) k
  · have hspec := hc.round write
    rwa [hround] at hspec
  · have hspec := hc.round write
    rwa [hround] at hspec

/-! ### Whether a copy ends -/

/-- A round of a copy that asks for no bytes. -/
def idleRound (R : ByteReader GoString) (s : R.State) : R.State ⊕ ReadErr GoString :=
  match (R.read 0 s).2.1 with
  | none => .inl (R.read 0 s).2.2
  | some e => .inr e

lemma src_of_copyRound {c' : Copying R} (h : copyRound write limit c = .inl c') :
    c'.src = (R.read (want limit c.total).toNat c.src).2.2 ∧
      (R.read (want limit c.total).toNat c.src).2.1 = none := by
  have hnext : ∀ {c₁ : Copying R} {err : Option (ReadErr GoString)},
      c₁.next err = .inl c' → c'.src = c₁.src ∧ err = none := by
    rintro c₁ (_ | e) hc₁
    · cases hc₁
      exact ⟨rfl, rfl⟩
    · cases hc₁
  unfold copyRound at h
  simp only at h
  split_ifs at h
  · exact hnext h
  · split at h
    · cases h
    · cases h
  · split at h
    · cases h
    · exact hnext h

section

variable (write)

lemma exists_returns_of_lt (hlimit : limit.toNat + 1 < 2 ^ 64)
    (s : R.State) : ∃ d, Returns (copyRound write limit) ⟨0, s, []⟩ d := by
  refine exists_returns (I := fun n c => c.Sound s limit ∧ R.size c.src = n)
    (fun n c c' hI hround => ?_) ⟨sound_start s limit, rfl⟩
  obtain ⟨hc, rfl⟩ := hI
  have hc' := hc.round write
  rw [hround] at hc'
  obtain ⟨hsrc, herr⟩ := src_of_copyRound hround
  refine ⟨_, ?_, hc', rfl⟩
  rw [hsrc]
  exact R.size_read_lt _ _ (want_pos hc.le hlimit) herr

lemma returns_iff_idle (hlimit : ¬ limit.toNat + 1 < 2 ^ 64)
    (s : R.State) : Returns (copyRound write limit) ⟨0, s, []⟩ d ↔
      ∃ e, Returns (idleRound R) s e ∧ ⟨0, [], copyErrOf e⟩ = d := by
  refine returns_map_iff (f := fun s => (⟨0, s, []⟩ : Copying R))
    (g := fun e => (⟨0, [], copyErrOf e⟩ : Copied)) fun s => ?_
  have hnil : (R.read 0 s).1 = [] :=
    length_eq_zero_iff.mp (le_zero.mp (R.length_read_le 0 s))
  unfold copyRound idleRound
  simp only [want_zero hlimit, hnil, if_true]
  rcases (R.read 0 s).2.1 with _ | e
  · rfl
  · rfl

lemma exists_returns_from (hmoves : limit.toNat + 1 < 2 ^ 64 ∨ ∃ e, Returns (idleRound R) s e) :
    ∃ d, Returns (copyRound write limit) ⟨0, s, []⟩ d := by
  by_cases hlimit : limit.toNat + 1 < 2 ^ 64
  · exact exists_returns_of_lt write hlimit s
  · obtain ⟨e, he⟩ := hmoves.resolve_left hlimit
    exact ⟨_, (returns_iff_idle write hlimit s).mpr ⟨e, he, rfl⟩⟩

end

/-! ### Exact copies -/

/-- A source: a reader that ends or fails, and whose reads into a buffer with room do not return
with nothing. -/
structure CopySource where
  reader : ByteReader GoString
  prompt : reader.Prompt
  start : reader.State

namespace CopySource

variable {src : CopySource}

def bytes (src : CopySource) : List UInt8 := src.reader.content src.start

/-- The copy is whole, with its length and the error of the source; or there is too much, and what
the limit allows of it has been written. -/
structure Exact (src : CopySource) (limit : UInt64) (d : Copied) : Prop where
  within : src.bytes.length ≤ limit.toNat →
    d.written.flatten = src.bytes ∧ d.total.toNat = src.bytes.length ∧
      d.err = copyErrOf (src.reader.ending src.start)
  beyond : limit.toNat < src.bytes.length →
    d.written.flatten = src.bytes.take limit.toNat ∧ d.err = some .quotaExceeded

/-- `copyQuota` ends, with an exact copy, if no write fails. -/
def CopiesExactly (src : CopySource) (limit : UInt64) : Prop :=
  ∃ d, Returns (copyRound (fun _ => none) limit) ⟨0, src.start, []⟩ d ∧ src.Exact limit d

lemma exact_of_spec
    (h : d.Spec (fun _ => none) src.bytes (src.reader.ending src.start) limit) :
    src.Exact limit d := by
  unfold Copied.Spec at h
  split at h
  · rename_i herr
    obtain ⟨hwritten, htotal, hend, hlen, -⟩ := h
    refine ⟨fun _ => ⟨hwritten, htotal, ?_⟩, fun hlt => absurd hlen (not_le.mpr hlt)⟩
    rw [herr, hend]
    rfl
  · rename_i herr
    obtain ⟨hwritten, htotal, hend, hlen⟩ := h
    refine ⟨fun _ => ⟨hwritten, htotal, ?_⟩, fun hlt => absurd hlen (not_le.mpr hlt)⟩
    rw [herr, hend]
  · obtain ⟨-, i, hi⟩ := h
    cases hi
  · rename_i herr
    obtain ⟨hwritten, -, hlen⟩ := h
    exact ⟨fun hle => absurd hle (not_le.mpr hlen), fun _ => ⟨hwritten, herr⟩⟩

/-- The copy of a sender ends and is exact, unless the limit is the greatest number: then it ends
only for a source that answers an empty buffer with its end. -/
theorem copiesExactly_iff (src : CopySource) (limit : UInt64) :
    src.CopiesExactly limit ↔
      limit.toNat + 1 < 2 ^ 64 ∨ ∃ e, Returns (idleRound src.reader) src.start e := by
  constructor
  · rintro ⟨d, hd, -⟩
    by_cases hlimit : limit.toNat + 1 < 2 ^ 64
    · exact .inl hlimit
    · obtain ⟨e, he, -⟩ := (returns_iff_idle _ hlimit src.start).mp hd
      exact .inr ⟨e, he⟩
  · intro hmoves
    obtain ⟨d, k, hk⟩ := exists_returns_from (fun _ => none) hmoves
    have hspec := sound_rounds (fun _ => none) src.start limit k
    rw [rounds_eq_inr_iff.mpr hk] at hspec
    exact ⟨d, ⟨k, hk⟩, exact_of_spec hspec⟩

def Sample.oneByte : CopySource where
  reader := .ofChunks GoString
  prompt := ByteReader.prompt_ofChunks GoString
  start := ⟨⟨[[7]], none⟩, by simp⟩

/-- With the limit `math.MaxUint64`, a source of one byte is asked for nothing for ever. -/
theorem one_byte_never_copied :
    Sample.oneByte.bytes = [7] ∧
      ∀ n, loop (copyRound (fun _ => none) 0xffffffffffffffff) n
        ⟨0, Sample.oneByte.start, []⟩ = none := by
  refine ⟨rfl, loop_eq_none (I := (· = ⟨0, Sample.oneByte.start, []⟩)) ?_ rfl⟩
  rintro c rfl
  exact ⟨_, rfl, rfl⟩

end CopySource

end Cerberus.Dataplane
