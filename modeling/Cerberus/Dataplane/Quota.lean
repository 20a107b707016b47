import Cerberus.Dataplane.Model

/-!
# The guard of a transfer

`QuotaReader` gives what the stream gives, up to the quota. When there is more, it ends with an
error; when the quota is just reached, it ends as a file does, even if the stream ends with an error
then.
-/

namespace Cerberus.Dataplane

open Foundation Contract List Input

namespace QuotaReader

variable {q : PayloadGuard}

structure Sound (q : PayloadGuard) : Prop where
  /-- A read of the stream that is no error gives something. -/
  pieces_ne : ∀ p ∈ q.rest.pieces, p ≠ []
  /-- The reader below gives one byte more than the quota, or nothing if this number overflows. -/
  window : q.err = none → q.src.n ≤ 0 ∨ q.src.n = (q.limit - q.count : ℕ) + 1

lemma limit_eq (quota : UInt64) :
    (quota.toInt64 + 1).toInt = ((quota.toNat : ℤ) + 1).bmod (2 ^ 64) := by
  have hint : quota.toInt64.toInt = (quota.toNat : ℤ).bmod (2 ^ 64) := BitVec.toInt_eq_toNat_bmod _
  rw [Int64.toInt_add, hint, Int64.toInt_one, Int.bmod_add_bmod]

lemma limit_cases (quota : UInt64) : (quota.toInt64 + 1).toInt ≤ 0 ∨
    (quota.toInt64 + 1).toInt = (quota.toNat : ℤ) + 1 := by
  have hlt := quota.toNat_lt
  rw [limit_eq, Int.bmod_def]
  split_ifs <;> omega

variable {quota : UInt64} {payload src : Input GoString} {limit count len left : ℕ}

lemma limit_of_lt (h : quota.toNat + 1 < 2 ^ 63) :
    (quota.toInt64 + 1).toInt = (quota.toNat : ℤ) + 1 := by
  rw [limit_eq, Int.bmod_eq_of_le (by omega) (by omega)]

lemma limit_of_le (h : 2 ^ 63 ≤ quota.toNat + 1) : (quota.toInt64 + 1).toInt ≤ 0 := by
  have hlt := quota.toNat_lt
  rw [limit_eq, Int.bmod_def]
  split_ifs <;> omega

lemma sound_guard (quota : UInt64) (h : ∀ p ∈ payload.pieces, p ≠ []) :
    (guard quota payload).Sound where
  pieces_ne := h
  window _ := limit_cases quota

/-! ### One read -/

section Read

variable {R : ByteReader GoString} {q : QuotaReader R}

variable (herr : q.err = none) (hn : q.src.n = (q.limit - q.count : ℕ) + 1)
include herr hn

/-- At the quota, a read of the guard looks for one byte more. -/
lemma read_of_full (hfull : q.limit ≤ q.count) (len : ℕ) : q.read len =
      if (R.read 1 q.src.src).1 = [] then
        ([], some .eof, { q with src := ⟨(R.read 1 q.src.src).2.2,
          q.src.n - (R.read 1 q.src.src).1.length⟩ })
      else
        ([], some (.fault errQuotaExceeded),
          { q with src := ⟨(R.read 1 q.src.src).2.2, q.src.n - (R.read 1 q.src.src).1.length⟩,
                   err := some errQuotaExceeded }) := by
  have hone : q.src.n = 1 := by
    rw [hn]
    omega
  have hread : q.src.read 1 = ((R.read 1 q.src.src).1, (R.read 1 q.src.src).2.1,
      ⟨(R.read 1 q.src.src).2.2, q.src.n - (R.read 1 q.src.src).1.length⟩) := by
    unfold LimitedReader.read
    rw [hone]
    rfl
  unfold read
  rw [herr]
  simp only [if_pos hfull, hread]

/-- Below the quota, a read of the guard is one of the stream, with a buffer of what is left. -/
lemma read_of_lt (hlt : q.count < q.limit) (len : ℕ) : q.read len =
      let res := R.read (min len (q.limit - q.count)) q.src.src
      (res.1, res.2.1, { q with src := ⟨res.2.2, q.src.n - res.1.length⟩,
                                count := q.count + res.1.length }) := by
  have hpos : ¬ q.src.n ≤ 0 := by
    rw [hn]
    omega
  have hmin : min (min len (q.limit - q.count)) q.src.n.toNat = min len (q.limit - q.count) := by
    rw [hn]
    omega
  unfold read LimitedReader.read
  rw [herr]
  simp only [if_neg (Nat.not_le.mpr hlt), if_neg hpos, hmin]

end Read

/-- A read from the guard is one from its input, and leaves a sound guard. -/
def ReadsAsInput (q : PayloadGuard) (len : ℕ) : Prop :=
  q.toInput.read len = ((q.read len).1, (q.read len).2.1, (q.read len).2.2.toInput) ∧
    (q.read len).2.2.Sound

lemma toInput_of_pos (herr : q.err = none) (hn : 0 < q.src.n) :
    q.toInput =
      ⟨Input.cut (q.limit - q.count) q.rest.pieces,
        if q.limit - q.count < q.rest.bytes.length then some errQuotaExceeded
        else if q.rest.bytes.length = q.limit - q.count then none
        else q.rest.fault⟩ := by
  rw [toInput, herr]
  exact if_neg (Int.not_le.mpr hn)

lemma readsAsInput_of_err (h : q.Sound) {e : GoString} (herr : q.err = some e) (len : ℕ) :
    q.ReadsAsInput len := by
  have hread : q.read len = ([], some (.fault e), q) := by rw [read, herr]
  have hinput : q.toInput = ⟨[], some e⟩ := by rw [toInput, herr]
  unfold ReadsAsInput
  rw [hread, hinput]
  exact ⟨rfl, h⟩

lemma readsAsInput_of_le (h : q.Sound) (herr : q.err = none) (hn : q.src.n ≤ 0) (len : ℕ) :
    q.ReadsAsInput len := by
  have hsrc : ∀ len', q.src.read len' = ([], some .eof, q.src) := fun len' => if_pos hn
  have hread : q.read len = ([], some .eof, q) := by
    obtain ⟨src, limit, count, err⟩ := q
    subst herr
    unfold read
    simp only [hsrc, if_true, length_nil, Nat.add_zero]
    split_ifs
    · rfl
    · rfl
  have hinput : q.toInput = ⟨[], none⟩ := by
    rw [toInput, herr]
    exact if_pos hn
  unfold ReadsAsInput
  rw [hread, hinput]
  exact ⟨rfl, h⟩

lemma readsAsInput_of_full (h : q.Sound) (herr : q.err = none)
    (hn : q.src.n = (q.limit - q.count : ℕ) + 1) (hfull : q.limit ≤ q.count) (len : ℕ) :
    q.ReadsAsInput len := by
  have hleft : q.limit - q.count = 0 := Nat.sub_eq_zero_of_le hfull
  have hread := read_of_full herr hn hfull len
  have hinput := toInput_of_pos herr (by omega)
  rw [hleft, cut_zero] at hinput
  unfold ReadsAsInput
  rcases hpieces : q.rest.pieces with _ | ⟨p, ps⟩
  · have hone : (ByteReader.ofInput GoString).read 1 q.src.src =
        ([], some q.rest.ending, q.src.src) := by
      change q.rest.read 1 = _
      rw [Input.read, hpieces]
      rfl
    have hbytes : q.rest.bytes.length = 0 := by rw [Input.bytes, hpieces, flatten_nil, length_nil]
    simp only [hone, if_true, length_nil, Nat.cast_zero, Int.sub_zero] at hread
    rw [hread, hinput, hbytes]
    exact ⟨rfl, h⟩
  · have hmem : p ∈ q.rest.pieces := by rw [hpieces]; exact mem_cons_self
    have hpos := length_pos_iff.mpr (h.pieces_ne p hmem)
    have hne : ((ByteReader.ofInput GoString).read 1 q.src.src).1 ≠ [] := by
      change (q.rest.read 1).1 ≠ []
      rw [Input.read, hpieces, ← length_pos_iff, length_take]
      omega
    have hmore : 0 < q.rest.bytes.length := by
      rw [Input.bytes, hpieces, flatten_cons, length_append]
      omega
    rw [if_neg hne] at hread
    rw [hread, hinput, if_pos hmore]
    refine ⟨rfl, ne_nil_of_mem_read h.pieces_ne, fun hnone => ?_⟩
    cases hnone

lemma fault_congr {left' len' got : ℕ} (fault : Option GoString) (hleft : left = got + left')
    (hlen : len = got + len') :
    (if left < len then some errQuotaExceeded else if len = left then none else fault) =
      if left' < len' then some errQuotaExceeded else if len' = left' then none else fault := by
  subst hleft hlen
  simp only [Nat.add_lt_add_iff_left, Nat.add_left_cancel_iff]

lemma readsAsInput_of_lt (h : q.Sound) (herr : q.err = none)
    (hn : q.src.n = (q.limit - q.count : ℕ) + 1) (hlt : q.count < q.limit) (len : ℕ) :
    q.ReadsAsInput len := by
  obtain ⟨left, hleft⟩ : ∃ left, q.limit - q.count = left := ⟨_, rfl⟩
  have hpos : 0 < left := by omega
  have hle := (q.rest.length_fst_read_le (min len left)).trans (min_le_right _ _)
  have hbytes := congrArg List.length (q.rest.fst_read_append_bytes (min len left))
  rw [length_append] at hbytes
  have hread : q.read len = ((q.rest.read (min len left)).1, (q.rest.read (min len left)).2.1,
      { q with
        src := ⟨(q.rest.read (min len left)).2.2, q.src.n - (q.rest.read (min len left)).1.length⟩
        count := q.count + (q.rest.read (min len left)).1.length }) :=
    hleft ▸ read_of_lt herr hn hlt len
  have hcount : q.limit - (q.count + (q.rest.read (min len left)).1.length) =
      left - (q.rest.read (min len left)).1.length := by omega
  have hsum : left = (q.rest.read (min len left)).1.length +
      (left - (q.rest.read (min len left)).1.length) := by omega
  have hinput : (q.read len).2.2.toInput =
      ⟨Input.cut (left - (q.rest.read (min len left)).1.length)
          (q.rest.read (min len left)).2.2.pieces,
        if left < q.rest.bytes.length then some errQuotaExceeded
        else if q.rest.bytes.length = left then none else q.rest.fault⟩ := by
    rw [hread, fault_congr q.rest.fault hsum hbytes.symm, ← hcount,
      ← fault_read (min len left) q.rest]
    refine toInput_of_pos herr ?_
    simp only
    omega
  unfold ReadsAsInput
  rw [hinput, hread, toInput_of_pos herr (by omega), hleft]
  refine ⟨read_cut hpos len fun hnil => ?_, ne_nil_of_mem_read h.pieces_ne,
    fun _ => .inr ?_⟩
  · have hzero : q.rest.bytes.length = 0 := by
      rw [Input.bytes, hnil]
      rfl
    rw [hzero, if_neg (Nat.not_lt_zero _), if_neg hpos.ne]
  · simp only
    omega

theorem read_toInput (h : q.Sound) (len : ℕ) : q.ReadsAsInput len := by
  rcases herr : q.err with _ | e
  · rcases h.window herr with hn | hn
    · exact readsAsInput_of_le h herr hn len
    · rcases Nat.lt_or_ge q.count q.limit with hlt | hfull
      · exact readsAsInput_of_lt h herr hn hlt len
      · exact readsAsInput_of_full h herr hn hfull len
  · exact readsAsInput_of_err h herr len

theorem reads_toInput (h : q.Sound) (lens : List ℕ) : q.reads lens = q.toInput.reads lens := by
  induction lens generalizing q with
  | nil => rfl
  | cons len lens ih =>
    obtain ⟨hread, hsound⟩ := read_toInput h len
    rw [reads, Input.reads, hread, ih hsound]

lemma pieces_toInput_ne (h : q.Sound) : ∀ p ∈ q.toInput.pieces, p ≠ [] := by
  rcases herr : q.err with _ | e
  · rcases le_or_gt q.src.n 0 with hn | hn
    · rw [toInput, herr, if_pos hn]
      exact fun p hp => absurd hp not_mem_nil
    · rw [toInput_of_pos herr hn]
      exact ne_nil_of_mem_cut h.pieces_ne
  · rw [toInput, herr]
    exact fun p hp => absurd hp not_mem_nil

lemma not_overrun (herr : q.err = none) (h : q.toInput.fault = none) : ¬ q.Overrun := by
  rintro ⟨hn, hmore⟩
  rw [toInput_of_pos herr hn, if_pos hmore] at h
  cases h

/-- The guard of a transfer as an input, if its limit has not overflowed. -/
lemma toInput_guard (h : 0 < (quota.toInt64 + 1).toInt) : (guard quota payload).toInput =
    ⟨Input.cut quota.toNat payload.pieces,
      if quota.toNat < payload.bytes.length then some errQuotaExceeded
      else if payload.bytes.length = quota.toNat then none
      else payload.fault⟩ := toInput_of_pos rfl h

lemma bytes_toInput_guard (hquota : quota.toNat + 1 < 2 ^ 63)
    (h : (guard quota payload).toInput.fault = none) :
    (guard quota payload).toInput.bytes = payload.bytes := by
  have hpos : 0 < (quota.toInt64 + 1).toInt := by
    rw [limit_of_lt hquota]
    omega
  have hle : payload.bytes.length ≤ quota.toNat := by
    by_contra hmore
    exact not_overrun rfl h ⟨hpos, Nat.lt_of_not_le hmore⟩
  rw [toInput_guard hpos, Input.bytes, flatten_cut]
  exact take_of_length_le hle

/-! ### Other transfers -/

lemma toInput_guard_of_overflow (h : 2 ^ 63 ≤ quota.toNat + 1) :
    (guard quota payload).toInput = ⟨[], none⟩ :=
  if_pos (limit_of_le h)

lemma fault_toInput_guard (hlen : payload.bytes.length ≤ quota.toNat)
    (hfault : payload.fault = none) : (guard quota payload).toInput.fault = none := by
  rcases limit_cases quota with hle | heq
  · exact congrArg Input.fault (if_pos hle)
  · rw [toInput_guard (by omega), if_neg (by omega), hfault, ite_self]

/-- A payload that ends with an error is no error for the guard only if it just reaches the quota,
or if the limit overflows. -/
lemma length_of_fault_toInput (hquota : quota.toNat + 1 < 2 ^ 63) (hfault : payload.fault ≠ none)
    (h : (guard quota payload).toInput.fault = none) : payload.bytes.length = quota.toNat := by
  have hpos : 0 < (quota.toInt64 + 1).toInt := by
    rw [limit_of_lt hquota]
    omega
  rw [toInput_guard hpos] at h
  split_ifs at h with hover heq
  · exact heq
  · exact absurd h hfault

lemma bytes_toInput_guard_prefix (quota : UInt64) (payload : Input GoString) :
    (guard quota payload).toInput.bytes <+: payload.bytes := by
  rcases le_or_gt (quota.toInt64 + 1).toInt 0 with hle | hlt
  · have hnil : (guard quota payload).toInput = ⟨[], none⟩ := if_pos hle
    rw [hnil]
    exact nil_prefix
  · rw [toInput_guard hlt, Input.bytes, flatten_cut]
    exact take_prefix _ _

end QuotaReader

variable {unmarshal : List UInt8 → Option Header} {st : Stream} {h : Header}
  {payload : Input GoString}

variable (hread : readHeader unmarshal st.input = some (h, payload))
include hread

lemma pieces_ne_payload : ∀ p ∈ payload.pieces, p ≠ [] := by
  unfold readHeader at hread
  simp only at hread
  split_ifs at hread
  obtain ⟨h', -, heq⟩ := Option.map_eq_some_iff.mp hread
  obtain ⟨-, rfl⟩ := Prod.mk.inj heq
  exact ne_nil_of_mem_fill (ne_nil_of_mem_fill st.pieces_ne)

/-- The sink of a transfer reads from the guard what it would read from `toInput`. -/
theorem reads_guard (quota : UInt64)
    (lens : List ℕ) : (QuotaReader.guard quota payload : PayloadGuard).reads lens =
      (QuotaReader.guard quota payload).toInput.reads lens :=
  QuotaReader.reads_toInput (QuotaReader.sound_guard quota (pieces_ne_payload hread)) lens

end Cerberus.Dataplane
