import Cerberus.Dataplane.Quota

/-!
# The guard over any stream

The guard of a transfer, over a stream that is any reader: it may choose how much it gives at every
read, nothing included, and give its end with the last bytes.

A sink that reads to the end gets the payload or is told that it is too long, with two exceptions
(`receivesExactly_iff`).
-/

namespace Cerberus.Dataplane

open Foundation Contract List Nat

variable {ε : Type} {R : ByteReader GoString}

namespace QuotaReader

/-- How `handleStream` answers when the sink has returned: with the error of the sink, else with
the one that the guard has kept. -/
def acknowledge (q : QuotaReader R) : Except ε Unit → Ack ε
  | .error e => .error (.sink e)
  | .ok () => if q.err.isSome then .error .overrun else .ok ()

/-! ### Reading to the end -/

variable {q q' : QuotaReader R} {payload given got : List UInt8} {len : ℕ} {e : ReadErr GoString}

/-- What holds of a guard between two reads, when its limit has not overflowed: this much of the
payload has been given. -/
structure Guarding (payload given : List UInt8) (q : QuotaReader R) : Prop where
  err : q.err = none
  bytes : given ++ R.content q.src.src = payload
  ending : R.ending q.src.src = .eof
  count : q.count = given.length
  le : q.count ≤ q.limit
  window : q.src.n = (q.limit - q.count : ℕ) + 1

/-- What a sink has got when a read gives an error: the payload, or the quota error. -/
structure Ended (limit : ℕ) (payload got : List UInt8) (e : ReadErr GoString) (q : QuotaReader R) :
    Prop where
  within : payload.length ≤ limit → got = payload ∧ e = .eof ∧ q.err = none
  beyond : limit < payload.length →
    got.length ≤ limit ∧ e = .fault errQuotaExceeded ∧ q.err = some errQuotaExceeded

lemma Guarding.more (h : Guarding payload given q) (hlen : 0 < len)
    (hread : q.read len = (got, none, q')) :
    Guarding payload (given ++ got) q' ∧ q'.limit = q.limit ∧
      R.size q'.src.src < R.size q.src.src := by
  rcases lt_or_ge q.count q.limit with hlt | hfull
  · rw [read_of_lt h.err h.window hlt] at hread
    obtain ⟨k, hk⟩ : ∃ k, min len (q.limit - q.count) = k := ⟨_, rfl⟩
    have hle := R.length_read_le k q.src.src
    have hsize := R.size_read_lt k q.src.src (by omega)
    rw [hk] at hread
    simp only [Prod.mk.injEq] at hread
    obtain ⟨rfl, hnone, rfl⟩ := hread
    refine ⟨⟨h.err, ?_, (R.ending_read k _).trans h.ending, ?_, ?_, ?_⟩, rfl, hsize hnone⟩
    · rw [append_assoc, R.read_append_content, h.bytes]
    · rw [length_append, h.count]
    · simp only
      omega
    · simp only
      rw [h.window]
      omega
  · rw [read_of_full h.err h.window hfull] at hread
    split_ifs at hread
    · cases hread
    · cases hread

/-- At the ceiling, with more of the payload to come, the stream returns with nothing. -/
def Stalls (q : QuotaReader R) : Prop :=
  q.limit ≤ q.count ∧ (R.read 1 q.src.src).1 = [] ∧ R.content q.src.src ≠ []

lemma Guarding.read_of_stalls (h : Guarding payload given q) (hstalls : q.Stalls) :
    ∃ q', q.read 1 = ([], some .eof, q') := by
  rw [read_of_full h.err h.window hstalls.1, if_pos hstalls.2.1]
  exact ⟨_, rfl⟩

lemma Guarding.last (h : Guarding payload given q) (hquick : ¬ q.Stalls)
    (hread : q.read len = (got, some e, q')) : Ended q.limit payload (given ++ got) e q' := by
  have hbytes := h.bytes
  have hlength := congrArg List.length hbytes
  rw [length_append, ← h.count] at hlength
  rcases lt_or_ge q.count q.limit with hlt | hfull
  · rw [read_of_lt h.err h.window hlt] at hread
    obtain ⟨k, hk⟩ : ∃ k, min len (q.limit - q.count) = k := ⟨_, rfl⟩
    have hle := R.length_read_le k q.src.src
    rw [hk] at hread
    simp only [Prod.mk.injEq] at hread
    obtain ⟨rfl, hsome, rfl⟩ := hread
    have hall := ByteReader.fst_read_of_err hsome
    have hend := (R.of_err k q.src.src e hsome).2.trans h.ending
    rw [hall] at hle ⊢
    refine ⟨fun _ => ⟨hbytes, hend, h.err⟩, fun hover => ?_⟩
    omega
  · rw [read_of_full h.err h.window hfull] at hread
    have hle := h.le
    split_ifs at hread with hnil
    · -- nothing more in the stream
      simp only [Prod.mk.injEq, Option.some.injEq] at hread
      obtain ⟨rfl, rfl, rfl⟩ := hread
      have hcontent : R.content q.src.src = [] :=
        not_not.mp fun hne => hquick ⟨hfull, hnil, hne⟩
      rw [hcontent, append_nil] at hbytes
      rw [hcontent, length_nil] at hlength
      refine ⟨fun _ => ⟨?_, rfl, h.err⟩, fun hover => ?_⟩
      · rw [append_nil, hbytes]
      · omega
    · simp only [Prod.mk.injEq, Option.some.injEq] at hread
      obtain ⟨rfl, rfl, rfl⟩ := hread
      have hpos := length_pos_iff.mpr hnil
      have happ := congrArg List.length (R.read_append_content 1 q.src.src)
      rw [length_append] at happ
      refine ⟨fun hwithin => ?_, fun _ => ⟨?_, rfl, rfl⟩⟩
      · omega
      · rw [append_nil, ← h.count]
        exact h.le

lemma Guarding.reads (h : Guarding payload [] q) (hreads : ByteReader.Reads read q given q') :
    Guarding payload given q' ∧ q'.limit = q.limit := by
  induction hreads with
  | none q => exact ⟨h, rfl⟩
  | more _ hn hread ih =>
    obtain ⟨hgiven, hlimit⟩ := ih h
    obtain ⟨hmore, hlimit', -⟩ := hgiven.more hn hread
    exact ⟨hmore, hlimit'.trans hlimit⟩

theorem Guarding.readsOut (h : Guarding payload [] q)
    (hquick : ∀ given q', ByteReader.Reads read q given q' → ¬ q'.Stalls)
    (hrun : ByteReader.ReadsOut read q got e q') : Ended q.limit payload got e q' := by
  obtain ⟨given, last, q₁, n, hgiven, -, hlast, rfl⟩ := ByteReader.readsOut_iff.mp hrun
  obtain ⟨hguarding, hlimit⟩ := h.reads hgiven
  rw [← hlimit]
  exact hguarding.last (hquick given q₁ hgiven) hlast

lemma Guarding.ends (h : Guarding payload given q) : ByteReader.Ends read q := by
  refine ByteReader.ends_of_measure (I := fun q => ∃ given, Guarding payload given q)
    (fun q => R.size q.src.src) ?_ ⟨given, h⟩
  rintro q n got q' ⟨given, hq⟩ hn hread
  obtain ⟨hmore, -, hlt⟩ := hq.more hn hread
  exact ⟨⟨_, hmore⟩, hlt⟩

lemma guarding_guard {quota : UInt64} (hquota : quota.toNat + 1 < 2 ^ 63) {stream : R.State}
    (hend : R.ending stream = .eof) : Guarding (R.content stream) [] (guard quota stream) where
  err := rfl
  bytes := rfl
  ending := hend
  count := rfl
  le := zero_le _
  window := limit_of_lt hquota

lemma read_guard_of_overflow {quota : UInt64} (hquota : ¬ quota.toNat + 1 < 2 ^ 63)
    (stream : R.State) (len : ℕ) :
    (guard quota stream).read len = ([], some .eof, guard quota stream) := by
  have hn := limit_of_le (not_lt.mp hquota)
  have hlimited : ∀ k, LimitedReader.read k ⟨stream, (quota.toInt64 + 1).toInt⟩ =
      ([], some .eof, ⟨stream, (quota.toInt64 + 1).toInt⟩) := fun k => if_pos hn
  have hbelow : ¬ quota.toNat ≤ 0 := by omega
  unfold guard read
  simp only [hlimited, if_neg hbelow]
  rfl

lemma acknowledge_eq_ok_iff {res : Except ε Unit} :
    q.acknowledge res = .ok () ↔ res = .ok () ∧ q.err = none := by
  rcases res with err | ⟨⟩
  · simp [acknowledge]
  · rcases herr : q.err with _ | err
    · simp [acknowledge, herr]
    · simp [acknowledge, herr]

end QuotaReader

/-- A payload on its way: a stream that ends without an error. -/
structure Incoming where
  reader : ByteReader GoString
  stream : reader.State
  ends : reader.ending stream = .eof

namespace Incoming

open ByteReader (Reads ReadsOut Ends)

variable {d : Incoming} {quota : UInt64}

/-- What the stream has to give. -/
def payload (d : Incoming) : List UInt8 := d.reader.content d.stream

/-- A sink that reads to the end gets the payload and a clean end, if the quota allows it; else it
gets an error, not more bytes than the quota, and the transfer fails whatever the sink returns. -/
structure Exact (ε : Type) (d : Incoming) (quota : UInt64) (got : List UInt8)
    (e : ReadErr GoString) (q : QuotaReader d.reader) : Prop where
  within : d.payload.length ≤ quota.toNat → got = d.payload ∧ e = .eof ∧
    ∀ res : Except ε Unit, q.acknowledge res = .ok () ↔ res = .ok ()
  beyond : quota.toNat < d.payload.length → got.length ≤ quota.toNat ∧ e ≠ .eof ∧
    ∀ res : Except ε Unit, q.acknowledge res ≠ .ok ()

/-- A sink gets the payload, or is told that it is too long. -/
def ReceivesExactly (ε : Type) (d : Incoming) (quota : UInt64) : Prop :=
  Ends QuotaReader.read (QuotaReader.guard quota d.stream) ∧
    ∀ got e q, ReadsOut QuotaReader.read (QuotaReader.guard quota d.stream) got e q →
      d.Exact ε quota got e q

variable {got : List UInt8} {e : ReadErr GoString} {q : QuotaReader d.reader}

lemma exact_of_ended (h : QuotaReader.Ended quota.toNat d.payload got e q) :
    d.Exact ε quota got e q where
  within hle := by
    obtain ⟨hgot, he, herr⟩ := h.within hle
    refine ⟨hgot, he, fun res => ?_⟩
    rw [QuotaReader.acknowledge_eq_ok_iff]
    exact and_iff_left herr
  beyond hlt := by
    obtain ⟨hgot, rfl, herr⟩ := h.beyond hlt
    refine ⟨hgot, fun he => ?_, fun res hok => ?_⟩
    · cases he
    · rw [QuotaReader.acknowledge_eq_ok_iff, herr] at hok
      exact absurd hok.2 (Option.some_ne_none _)

lemma readsOut_iff_of_overflow (hquota : ¬ quota.toNat + 1 < 2 ^ 63) :
    ReadsOut QuotaReader.read (QuotaReader.guard quota d.stream) got e q ↔
      got = [] ∧ e = .eof ∧ q = QuotaReader.guard quota d.stream := by
  have hread := QuotaReader.read_guard_of_overflow hquota d.stream
  constructor
  · rintro (⟨hn, h⟩ | ⟨hn, h, -⟩)
    · rw [hread] at h
      cases h
      exact ⟨rfl, rfl, rfl⟩
    · rw [hread] at h
      cases h
  · rintro ⟨rfl, rfl, rfl⟩
    exact .last one_pos (hread 1)

/-- Some reads of the sink bring the guard to its ceiling at a point where the stream returns with
nothing before its end. -/
def Stalls (d : Incoming) (quota : UInt64) : Prop :=
  ∃ given q, Reads QuotaReader.read (QuotaReader.guard quota d.stream) given q ∧ q.Stalls

lemma not_stalls_of_prompt (hprompt : d.reader.Prompt) : ¬ d.Stalls quota := by
  rintro ⟨given, q, -, -, hnil, hne⟩
  rcases herr : (d.reader.read 1 q.src.src).2.1 with _ | e
  · exact hprompt 1 _ one_pos herr hnil
  · exact hne ((ByteReader.fst_read_of_err herr).symm.trans hnil)

lemma receivesExactly_iff_of_lt (hquota : quota.toNat + 1 < 2 ^ 63) :
    d.ReceivesExactly ε quota ↔ ¬ d.Stalls quota := by
  have hguard := QuotaReader.guarding_guard hquota d.ends
  constructor
  · rintro ⟨-, hexact⟩ ⟨given, q, hgiven, hstalls⟩
    obtain ⟨hguarding, hlimit⟩ := hguard.reads hgiven
    obtain ⟨q', hread⟩ := hguarding.read_of_stalls hstalls
    have hrun := ByteReader.readsOut_iff.mpr ⟨given, [], q, 1, hgiven, one_pos, hread, rfl⟩
    -- the ceiling is reached with more to come, and the sink sees a clean end
    have hlength := congrArg List.length hguarding.bytes
    rw [length_append] at hlength
    have hpos := length_pos_iff.mpr hstalls.2.2
    have hfull := hstalls.1
    rw [hlimit, hguarding.count] at hfull
    change quota.toNat ≤ given.length at hfull
    refine ((hexact _ _ _ hrun).beyond ?_).2.1 rfl
    change quota.toNat < (d.reader.content d.stream).length
    omega
  · intro hquick
    refine ⟨hguard.ends, fun got e q hrun => exact_of_ended (hguard.readsOut ?_ hrun)⟩
    exact fun given q hgiven hstalls => hquick ⟨given, q, hgiven, hstalls⟩

lemma receivesExactly_iff_of_overflow (hquota : ¬ quota.toNat + 1 < 2 ^ 63) :
    d.ReceivesExactly ε quota ↔ d.payload = [] := by
  have hread := QuotaReader.read_guard_of_overflow hquota d.stream
  constructor
  · rintro ⟨-, hexact⟩
    obtain ⟨hwithin, hbeyond⟩ :=
      hexact _ _ _ ((readsOut_iff_of_overflow hquota).mpr ⟨rfl, rfl, rfl⟩)
    rcases lt_or_ge quota.toNat d.payload.length with hlt | hle
    · exact absurd rfl (hbeyond hlt).2.1
    · exact (hwithin hle).1.symm
  · intro hnil
    refine ⟨Acc.intro _ ?_, fun got e q hrun => ?_⟩
    · rintro q' ⟨n, got, -, hgot⟩
      rw [hread] at hgot
      cases hgot
    · obtain ⟨rfl, rfl, rfl⟩ := (readsOut_iff_of_overflow hquota).mp hrun
      refine exact_of_ended ⟨fun _ => ⟨hnil.symm, rfl, rfl⟩, fun hlt => ?_⟩
      rw [hnil] at hlt
      exact absurd hlt (not_lt_zero _)

/-- If one byte more than the quota is a signed 64-bit number, the receive-side quota is exact
unless the stream can stall, and it cannot if its reads give something or an error; with a greater
quota, only the empty payload is received. -/
theorem receivesExactly_iff (ε : Type) (d : Incoming) (quota : UInt64) :
    (d.ReceivesExactly ε quota ↔
        if quota.toNat + 1 < 2 ^ 63 then ¬ d.Stalls quota else d.payload = []) ∧
      (d.reader.Prompt → ¬ d.Stalls quota) := by
  refine ⟨?_, not_stalls_of_prompt⟩
  split_ifs with hquota
  · exact receivesExactly_iff_of_lt hquota
  · exact receivesExactly_iff_of_overflow hquota

def Sample.oneByte : Incoming where
  reader := .ofChunks GoString
  stream := ⟨⟨[[7]], none⟩, by decide⟩
  ends := rfl

/-- With the quota `math.MaxInt64` the sink gets nothing of this byte, and the transfer is
acknowledged. -/
theorem one_byte_lost :
    Sample.oneByte.payload = [7] ∧
      ReadsOut QuotaReader.read (QuotaReader.guard 0x7fffffffffffffff Sample.oneByte.stream) [] .eof
        (QuotaReader.guard 0x7fffffffffffffff Sample.oneByte.stream) ∧
      (QuotaReader.guard 0x7fffffffffffffff Sample.oneByte.stream).acknowledge
        (.ok () : Except GoString Unit) = .ok () := by
  refine ⟨rfl, .last one_pos ?_, rfl⟩
  exact QuotaReader.read_guard_of_overflow (by decide) Sample.oneByte.stream 1

end Incoming

end Cerberus.Dataplane
