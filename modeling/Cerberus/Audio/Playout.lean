import Cerberus.Audio.Receiver

/-!
# The playout of an audio stream

Packets and ticks come in any order. As long as the sequence numbers do not wrap, every accepted
frame is played in the place of its sequence number (`playout_aligned`).
-/

namespace Cerberus.Audio

open Foundation List
open Finmap hiding mem_keys

def ReceiverConfig.NoWrap (c : ReceiverConfig) : Prop :=
  c.maxFrames < c.withDefaults.targetFrames → c.withDefaults.targetFrames.toInt * 4 < 2 ^ 63

namespace Receiver

variable {r r' : Receiver} {p : Packet} {raw : List UInt8}

/-- The sequence number that the first packet sets. -/
def anchor (r : Receiver) : ℕ := r.journal.first.elim 0 fun p => p.sequence.toNat

def decoded (r : Receiver) : List Packet := r.journal.received.filterMap decodePacket

/-- The sequence numbers have not wrapped. -/
def NoWrap (r : Receiver) : Prop := r.anchor + r.journal.written.length < 2 ^ 64

/-! ### Steps -/

lemma anchored_eq (p : Packet) (r : Receiver) : r.anchored p =
    { r with
      nextSeq := if r.started then r.nextSeq else p.sequence
      format := if r.started then r.format else p.format
      started := true
      journal := { r.journal with
        first := if r.started then r.journal.first else some p } } := by
  unfold anchored
  obtain ⟨cfg, buf, nextSeq, _ | _, lastFrame, format, ticks, played, concealed, dropped, journal⟩ := r
  · rfl
  · rfl

lemma decoded_record_none (h : decodePacket raw = none) : (r.record raw).decoded = r.decoded := by
  simp [decoded, record, filterMap_append, h]

lemma decoded_record_some (h : decodePacket raw = some p) :
    (r.record raw).decoded = r.decoded ++ [p] := by
  simp [decoded, record, filterMap_append, h]

lemma buffered_accept (h : r.buf.lookup p.sequence = none) :
    (r.accept p).buffered = r.buffered + 1 := by
  have hkeys : (r.accept p).buf.keys = insert p.sequence r.buf.keys := by
    ext q
    rw [Finset.mem_insert, Finmap.mem_keys, Finmap.mem_keys]
    exact mem_insert
  rw [buffered, hkeys, Finset.card_insert_of_notMem]
  · rfl
  · rw [Finmap.mem_keys]
    exact lookup_eq_none.mp h

lemma advance_of_some {f : Frame} (h : r.buf.lookup r.nextSeq = some f) : r.advance =
    { r with
      buf := r.buf.erase r.nextSeq
      lastFrame := f
      played := r.played + 1
      nextSeq := r.nextSeq + 1
      journal := { r.journal with written := r.journal.written ++ [.played f] } } := by
  rw [advance, h]

lemma advance_of_none (h : r.buf.lookup r.nextSeq = none) : r.advance =
    { r with
      concealed := r.concealed + 1
      nextSeq := r.nextSeq + 1
      journal := { r.journal with written := r.journal.written ++ [.concealed r.conceal] } } := by
  rw [advance, h]

lemma buffered_advance_of_some {f : Frame} (h : r.buf.lookup r.nextSeq = some f) :
    r.advance.buffered + 1 = r.buffered := by
  rw [buffered, keys_advance, Finset.card_erase_add_one]
  · rfl
  · rw [Finmap.mem_keys, mem_iff]
    exact ⟨f, h⟩

@[simp] lemma length_written_advance (r : Receiver) :
    r.advance.journal.written.length = r.journal.written.length + 1 := by
  rcases h : r.buf.lookup r.nextSeq with _ | f
  · rw [advance_of_none h, length_append]
    rfl
  · rw [advance_of_some h, length_append]
    rfl

@[simp] lemma anchor_advance (r : Receiver) : r.advance.anchor = r.anchor := by
  rcases h : r.buf.lookup r.nextSeq with _ | f
  · rw [advance_of_none h]
    rfl
  · rw [advance_of_some h]
    rfl

section Succ

variable {n q : UInt64}

variable (h : n.toNat + 1 < 2 ^ 64)
include h

lemma toNat_succ : (n + 1).toNat = n.toNat + 1 := by
  rw [UInt64.toNat_add, UInt64.toNat_one, Nat.mod_eq_of_lt h]

lemma lt_succ_iff : q < n + 1 ↔ q < n ∨ q = n := by
  rw [UInt64.lt_iff_toNat_lt, UInt64.lt_iff_toNat_lt, toNat_succ h, ← UInt64.toNat_inj]
  omega

lemma succ_le_of_ne (hle : n ≤ q) (hne : q ≠ n) : n + 1 ≤ q := by
  have hne' : q.toNat ≠ n.toNat := fun heq => hne (UInt64.toNat_inj.mp heq)
  rw [UInt64.le_iff_toNat_le] at hle ⊢
  rw [toNat_succ h]
  omega

end Succ

/-! ### Counting -/

/-- What the journal and the counters say of each other. -/
structure Counted (r : Receiver) : Prop where
  idle : r.started = false → r.buf = ∅ ∧ r.journal.accepted = [] ∧ r.journal.written = [] ∧
    r.journal.first = none
  running : r.started = true → r.journal.first ≠ none
  first : r.decoded.head? = r.journal.first
  accepted_sublist : r.journal.accepted.Sublist r.decoded
  received_eq : r.journal.received.length = r.journal.accepted.length + r.dropped
  accepted_eq : r.journal.accepted.length = r.played + r.buffered
  written_eq : r.journal.written.length = r.played + r.concealed
  buffered_le : (r.buffered : ℤ) ≤ max r.cfg.maxFrames.toInt 0

lemma counted_newReceiver (cfg : ReceiverConfig) (f : Format) : (newReceiver cfg f).Counted where
  idle _ := ⟨rfl, rfl, rfl, rfl⟩
  running h := by cases h
  first := rfl
  accepted_sublist := List.Sublist.slnil
  received_eq := rfl
  accepted_eq := rfl
  written_eq := rfl
  buffered_le := le_max_right _ _

namespace Counted

variable (h : r.Counted)
include h

lemma first_anchored (hp : decodePacket raw = some p) :
    ((r.record raw).anchored p).decoded.head? = ((r.record raw).anchored p).journal.first := by
  have hdecoded : ((r.record raw).anchored p).decoded = r.decoded ++ [p] := by
    rw [anchored_eq]
    exact decoded_record_some hp
  rw [hdecoded, List.head?_append, h.first, anchored_eq]
  rcases hr : r.started with _ | _
  · rw [(h.idle hr).2.2.2]
    simp [record, hr]
  · obtain ⟨p₀, hp₀⟩ := Option.ne_none_iff_exists'.mp (h.running hr)
    simp [record, hr, hp₀]

lemma running_anchored (raw : List UInt8) (p : Packet) :
    ((r.record raw).anchored p).journal.first ≠ none := by
  rw [anchored_eq]
  rcases hr : r.started with _ | _
  · simp [record, hr]
  · simp [record, hr, h.running hr]

lemma drop_record (hp : decodePacket raw = none) : (r.record raw).drop.Counted where
  idle := h.idle
  running := h.running
  first := (congrArg List.head? (decoded_record_none hp)).trans h.first
  accepted_sublist := (decoded_record_none (r := r) hp) ▸ h.accepted_sublist
  received_eq := by
    simp only [drop, record, length_append, h.received_eq, length_singleton]
    omega
  accepted_eq := h.accepted_eq
  written_eq := h.written_eq
  buffered_le := h.buffered_le

lemma drop_anchored (hp : decodePacket raw = some p) :
    ((r.record raw).anchored p).drop.Counted := by
  have hfirst := h.first_anchored hp
  have hrunning := h.running_anchored raw p
  have hdecoded := decoded_record_some (r := r) hp
  rw [anchored_eq] at hfirst hrunning ⊢
  refine ⟨(fun hr => by cases hr), fun _ => hrunning, hfirst, ?_, ?_, h.accepted_eq, h.written_eq,
    h.buffered_le⟩
  · change r.journal.accepted.Sublist (r.record raw).decoded
    rw [hdecoded]
    exact h.accepted_sublist.trans (sublist_append_left _ _)
  · simp only [drop, record, length_append, h.received_eq, length_singleton]
    omega

lemma accept_anchored (hp : decodePacket raw = some p)
    (hnone : ((r.record raw).anchored p).buf.lookup p.sequence = none)
    (hlt : ((r.record raw).anchored p).buffered < r.cfg.maxFrames.toInt) :
    (((r.record raw).anchored p).accept p).Counted := by
  have hfirst := h.first_anchored hp
  have hrunning := h.running_anchored raw p
  have hdecoded := decoded_record_some (r := r) hp
  have hbuffered := buffered_accept hnone
  rw [anchored_eq] at hfirst hrunning hbuffered hlt ⊢
  refine ⟨(fun hr => by cases hr), fun _ => hrunning, hfirst, ?_, ?_, ?_, h.written_eq, ?_⟩
  · change (r.journal.accepted ++ [p]).Sublist (r.record raw).decoded
    rw [hdecoded]
    exact h.accepted_sublist.append_right [p]
  · simp only [accept, record, length_append, h.received_eq, length_singleton]
    omega
  · rw [hbuffered]
    simp only [accept, record, length_append, h.accepted_eq, length_singleton]
    exact Nat.add_assoc _ _ _
  · rw [hbuffered]
    exact le_max_of_le_left (by push_cast; exact Int.add_one_le_of_lt hlt)

lemma advance (hr : r.started = true) : r.advance.Counted := by
  have hstarted := (started_advance r).trans hr
  rcases hhead : r.buf.lookup r.nextSeq with _ | f
  · rw [advance_of_none hhead] at hstarted ⊢
    refine ⟨fun hr' => ?_, fun _ => h.running hr, h.first, h.accepted_sublist, h.received_eq,
      h.accepted_eq, ?_, h.buffered_le⟩
    · rw [hstarted] at hr'
      cases hr'
    · rw [length_append, h.written_eq]
      rfl
  · have hbuffered := buffered_advance_of_some hhead
    have haccepted : r.journal.accepted.length = r.played + 1 + r.advance.buffered := by
      rw [h.accepted_eq]
      omega
    have hle : (r.advance.buffered : ℤ) ≤ max r.cfg.maxFrames.toInt 0 := by
      have := h.buffered_le
      omega
    rw [advance_of_some hhead] at hstarted haccepted hle ⊢
    refine ⟨fun hr' => ?_, fun _ => h.running hr, h.first, h.accepted_sublist, h.received_eq,
      haccepted, ?_, hle⟩
    · rw [hstarted] at hr'
      cases hr'
    · rw [length_append, h.written_eq, length_singleton]
      exact Nat.add_right_comm _ _ _

end Counted

lemma stable_counted : Stable Counted where
  receive raw r h := by
    rcases receive_cases raw r with ⟨hraw, heq⟩ | ⟨p, hraw, heq | ⟨-, hnone, hlt, heq⟩⟩
    · rw [heq]
      exact h.drop_record hraw
    · rw [heq]
      exact h.drop_anchored hraw
    · rw [heq]
      exact h.accept_anchored hraw hnone hlt
  adjust n r h := ⟨h.idle, h.running, h.first, h.accepted_sublist, h.received_eq, h.accepted_eq,
    h.written_eq, h.buffered_le⟩
  advance r hr h := h.advance hr

/-! ### Order -/

/-- Where the accepted packets are, and what the sink got in the place of which. -/
structure Ordered (r : Receiver) : Prop where
  next : r.started = true → r.nextSeq.toNat = r.anchor + r.journal.written.length
  distinct : (r.journal.accepted.map fun p => p.sequence).Nodup
  of_lookup : ∀ q f, r.buf.lookup q = some f →
    r.nextSeq ≤ q ∧ ∃ p ∈ r.journal.accepted, p.sequence = q ∧ p.frame = f
  of_accepted : ∀ p ∈ r.journal.accepted,
    p.sequence < r.nextSeq ∨ r.buf.lookup p.sequence = some p.frame
  played : ∀ i f, r.journal.written[i]? = some (.played f) →
    ∃ p ∈ r.journal.accepted, p.sequence.toNat = r.anchor + i ∧ p.frame = f
  concealed : ∀ i f, r.journal.written[i]? = some (.concealed f) →
    ∀ p ∈ r.journal.accepted, p.sequence.toNat ≠ r.anchor + i

namespace Ordered

lemma of_idle (hbuf : r.buf = ∅) (haccepted : r.journal.accepted = [])
    (hwritten : r.journal.written = []) (hnext : r.started = true → r.nextSeq.toNat = r.anchor) :
    r.Ordered where
  next hr := by rw [hnext hr, hwritten, length_nil, Nat.add_zero]
  distinct := by
    rw [haccepted]
    exact nodup_nil
  of_lookup q f hf := by
    rw [hbuf, lookup_empty] at hf
    cases hf
  of_accepted p hp := by
    rw [haccepted] at hp
    cases hp
  played i f hf := by
    rw [hwritten] at hf
    cases hf
  concealed i f hf := by
    rw [hwritten] at hf
    cases hf

lemma drop (h : r.Ordered) : r.drop.Ordered :=
  ⟨h.next, h.distinct, h.of_lookup, h.of_accepted, h.played, h.concealed⟩

lemma record (h : r.Ordered) (raw : List UInt8) : (r.record raw).Ordered :=
  ⟨h.next, h.distinct, h.of_lookup, h.of_accepted, h.played, h.concealed⟩

lemma anchored (h : r.Ordered) (hidle : r.started = false → r.buf = ∅ ∧
    r.journal.accepted = [] ∧ r.journal.written = []) (p : Packet) : (r.anchored p).Ordered := by
  rcases hr : r.started with _ | _
  · obtain ⟨hbuf, haccepted, hwritten⟩ := hidle hr
    rw [anchored_eq]
    refine of_idle hbuf haccepted hwritten fun _ => ?_
    simp [anchor, hr]
  · rw [Receiver.anchored, if_pos hr]
    exact h

variable (h : r.Ordered) (hr : r.started = true)
include h hr

lemma accept (hnext : r.nextSeq ≤ p.sequence)
    (hnone : r.buf.lookup p.sequence = none) : (r.accept p).Ordered where
  next := h.next
  distinct := by
    have hnew : ∀ q ∈ r.journal.accepted, q.sequence ≠ p.sequence := by
      intro q hq hseq
      rcases h.of_accepted q hq with hlt | hsome
      · rw [hseq] at hlt
        exact absurd hnext (UInt64.not_le.mpr hlt)
      · rw [hseq, hnone] at hsome
        cases hsome
    rw [Receiver.accept, map_append]
    refine nodup_append.mpr ⟨h.distinct, nodup_singleton _, fun a ha b hb => ?_⟩
    obtain ⟨q, hq, rfl⟩ := mem_map.mp ha
    obtain rfl := mem_singleton.mp hb
    exact hnew q hq
  of_lookup q f hf := by
    by_cases hq : q = p.sequence
    · subst hq
      rw [Receiver.accept, lookup_insert] at hf
      cases hf
      exact ⟨hnext, p, mem_append_right _ mem_cons_self, rfl, rfl⟩
    · rw [Receiver.accept, lookup_insert_of_ne _ hq] at hf
      obtain ⟨hle, p', hp', heq⟩ := h.of_lookup q f hf
      exact ⟨hle, p', mem_append_left _ hp', heq⟩
  of_accepted q hq := by
    rcases mem_append.mp hq with hq | hq
    · by_cases hseq : q.sequence = p.sequence
      · refine (h.of_accepted q hq).imp_right fun hsome => ?_
        rw [hseq, hnone] at hsome
        cases hsome
      · rw [Receiver.accept, lookup_insert_of_ne _ hseq]
        exact h.of_accepted q hq
    · obtain rfl := mem_singleton.mp hq
      exact .inr (lookup_insert _)
  played i f hf := by
    obtain ⟨q, hq, heq⟩ := h.played i f hf
    exact ⟨q, mem_append_left _ hq, heq⟩
  concealed i f hf q hq := by
    rcases mem_append.mp hq with hq | hq
    · exact h.concealed i f hf q hq
    · obtain rfl := mem_singleton.mp hq
      have hi := (List.getElem?_eq_some_iff.mp hf).1
      have hle := UInt64.le_iff_toNat_le.mp hnext
      rw [h.next hr] at hle
      exact (Nat.lt_of_lt_of_le (Nat.add_lt_add_left hi _) hle).ne'

lemma advance_of_none (hlt : r.nextSeq.toNat + 1 < 2 ^ 64)
    (hhead : r.buf.lookup r.nextSeq = none) : r.advance.Ordered := by
  have hnext := h.next hr
  rw [Receiver.advance_of_none hhead]
  refine ⟨fun _ => ?_, h.distinct, fun q f hf => ?_, fun p hp => ?_, fun i f hf => ?_,
    fun i f hf p hp => ?_⟩
  · rw [toNat_succ hlt, hnext, length_append]
    rfl
  · obtain ⟨hq, hp⟩ := h.of_lookup q f hf
    refine ⟨succ_le_of_ne hlt hq fun heq => ?_, hp⟩
    rw [heq, hhead] at hf
    cases hf
  · rw [lt_succ_iff hlt]
    exact (h.of_accepted p hp).imp_left .inl
  · rcases getElem?_append_singleton_iff.mp hf with hf | ⟨-, heq⟩
    · exact h.played i f hf
    · cases heq
  · rcases getElem?_append_singleton_iff.mp hf with hf | ⟨rfl, -⟩
    · exact h.concealed i f hf p hp
    · -- a packet of this place would be in the buffer
      intro hseq
      have hseq' : p.sequence = r.nextSeq := UInt64.toNat_inj.mp (hseq.trans hnext.symm)
      rcases h.of_accepted p hp with hlt | hsome
      · rw [hseq'] at hlt
        exact absurd hlt (UInt64.lt_irrefl _)
      · rw [hseq', hhead] at hsome
        cases hsome

lemma advance_of_some (hlt : r.nextSeq.toNat + 1 < 2 ^ 64)
    {f : Frame} (hhead : r.buf.lookup r.nextSeq = some f) : r.advance.Ordered := by
  have hnext := h.next hr
  obtain ⟨-, p₀, hp₀, hseq₀, hframe₀⟩ := h.of_lookup r.nextSeq f hhead
  rw [Receiver.advance_of_some hhead]
  refine ⟨fun _ => ?_, h.distinct, fun q f' hf => ?_, fun p hp => ?_, fun i f' hf => ?_,
    fun i f' hf p hp => ?_⟩
  · rw [toNat_succ hlt, hnext, length_append]
    rfl
  · by_cases hq : q = r.nextSeq
    · rw [hq, lookup_erase] at hf
      cases hf
    · rw [lookup_erase_ne hq] at hf
      obtain ⟨hq', hp⟩ := h.of_lookup q f' hf
      exact ⟨succ_le_of_ne hlt hq' hq, hp⟩
  · rw [lt_succ_iff hlt]
    by_cases hq : p.sequence = r.nextSeq
    · exact .inl (.inr hq)
    · rw [lookup_erase_ne hq]
      exact (h.of_accepted p hp).imp_left .inl
  · rcases getElem?_append_singleton_iff.mp hf with hf | ⟨rfl, heq⟩
    · exact h.played i f' hf
    · cases heq
      refine ⟨p₀, hp₀, ?_, hframe₀⟩
      rw [hseq₀]
      exact hnext
  · rcases getElem?_append_singleton_iff.mp hf with hf | ⟨-, heq⟩
    · exact h.concealed i f' hf p hp
    · cases heq

lemma advance (hwrap : r.advance.NoWrap) : r.advance.Ordered := by
  have hlt : r.nextSeq.toNat + 1 < 2 ^ 64 := by
    rw [NoWrap, length_written_advance, anchor_advance] at hwrap
    rw [h.next hr]
    omega
  rcases hhead : r.buf.lookup r.nextSeq with _ | f
  · exact h.advance_of_none hr hlt hhead
  · exact h.advance_of_some hr hlt hhead

end Ordered

lemma Counted.noWrap (hc : r.Counted) (h : ((r.record raw).anchored p).NoWrap) : r.NoWrap := by
  rcases hr : r.started with _ | _
  · obtain ⟨-, -, hwritten, hfirst⟩ := hc.idle hr
    rw [NoWrap, anchor, hfirst, hwritten]
    decide
  · have heq : (r.record raw).anchored p = r.record raw := if_pos hr
    rw [heq] at h
    exact h

lemma stable_ordered : Stable fun r => r.Counted ∧ (r.NoWrap → r.Ordered) where
  receive raw r h := by
    obtain ⟨hc, ho⟩ := h
    refine ⟨stable_counted.receive raw r hc, fun hwrap => ?_⟩
    have hidle : (r.record raw).started = false → (r.record raw).buf = ∅ ∧
        (r.record raw).journal.accepted = [] ∧ (r.record raw).journal.written = [] := fun hr =>
      ⟨(hc.idle hr).1, (hc.idle hr).2.1, (hc.idle hr).2.2.1⟩
    rcases receive_cases raw r with ⟨-, heq⟩ | ⟨p, -, heq | ⟨hnext, hnone, -, heq⟩⟩
    · rw [heq] at hwrap ⊢
      exact ((ho hwrap).record raw).drop
    · rw [heq] at hwrap ⊢
      exact (((ho (hc.noWrap hwrap)).record raw).anchored hidle p).drop
    · rw [heq] at hwrap ⊢
      have hordered := ((ho (hc.noWrap hwrap)).record raw).anchored hidle p
      exact hordered.accept (congrArg started (anchored_eq p _)) hnext hnone
  adjust n r h := by
    obtain ⟨hc, ho⟩ := h
    refine ⟨stable_counted.adjust n r hc, fun hwrap => ?_⟩
    obtain ⟨hnext, hdistinct, hlookup, haccepted, hplayed, hconcealed⟩ := ho hwrap
    exact ⟨hnext, hdistinct, hlookup, haccepted, hplayed, hconcealed⟩
  advance r hr h := by
    obtain ⟨hc, ho⟩ := h
    refine ⟨hc.advance hr, fun hwrap => Ordered.advance (ho ?_) hr hwrap⟩
    rw [NoWrap, length_written_advance, anchor_advance] at hwrap
    rw [NoWrap]
    omega

/-! ### Playout -/

inductive Event
  | receive (raw : List UInt8)
  | tick

def step (levels : ℕ → Level) (r : Receiver) : Event → Receiver
  | .receive raw => r.receive raw
  | .tick => (r.tick levels fun _ => (none : Option Unit)).2

lemma Stable.step {I : Receiver → Prop} (hI : Stable I) (levels : ℕ → Level) (r : Receiver)
    (e : Event) (h : I r) : I (r.step levels e) := by
  rcases e with raw | _
  · exact hI.receive raw r h
  · exact hI.tick levels _ h

/-- The playout is in order, and everything is accounted for. -/
structure Aligned (r : Receiver) : Prop where
  /-- A frame that was played is that of an accepted packet, in the place of its sequence number;
  different places have different packets. -/
  played : ∃ source : ℕ → ℕ,
    Set.InjOn source { i | ∃ f, r.journal.written[i]? = some (.played f) } ∧
      ∀ i f, r.journal.written[i]? = some (.played f) → ∃ p,
        r.journal.accepted[source i]? = some p ∧ p.sequence.toNat = r.anchor + i ∧ p.frame = f
  /-- A place is concealed only if no packet was accepted for it. -/
  concealed : ∀ i f, r.journal.written[i]? = some (.concealed f) →
    ∀ p ∈ r.journal.accepted, p.sequence.toNat ≠ r.anchor + i
  distinct : (r.journal.accepted.map fun p => p.sequence).Nodup
  accepted_sublist : r.journal.accepted.Sublist r.decoded
  first : r.decoded.head? = r.journal.first
  nextSeq_le : ∀ q ∈ r.buf.keys, r.nextSeq ≤ q
  buffered_le : (r.buffered : ℤ) ≤ r.cfg.maxFrames.toInt
  received_eq : r.journal.received.length = r.played + r.dropped + r.buffered
  written_eq : r.journal.written.length = r.played + r.concealed

lemma Ordered.exists_source (h : r.Ordered) : ∃ source : ℕ → ℕ,
    Set.InjOn source { i | ∃ f, r.journal.written[i]? = some (.played f) } ∧
      ∀ i f, r.journal.written[i]? = some (.played f) → ∃ p,
        r.journal.accepted[source i]? = some p ∧ p.sequence.toNat = r.anchor + i ∧ p.frame = f := by
  have hsource : ∀ i, ∃ k : ℕ, ∀ f, r.journal.written[i]? = some (.played f) → ∃ p,
      r.journal.accepted[k]? = some p ∧ p.sequence.toNat = r.anchor + i ∧ p.frame = f := by
    intro i
    by_cases hi : ∃ f, r.journal.written[i]? = some (.played f)
    · obtain ⟨f, hf⟩ := hi
      obtain ⟨p, hp, hseq, hframe⟩ := h.played i f hf
      obtain ⟨k, hk⟩ := mem_iff_getElem?.mp hp
      refine ⟨k, fun f' hf' => ⟨p, hk, hseq, ?_⟩⟩
      rw [hf] at hf'
      cases hf'
      exact hframe
    · exact ⟨0, fun f hf => absurd ⟨f, hf⟩ hi⟩
  choose source hsource using hsource
  refine ⟨source, ?_, hsource⟩
  rintro i ⟨f, hf⟩ j ⟨g, hg⟩ hij
  obtain ⟨p, hp, hseq, -⟩ := hsource i f hf
  obtain ⟨q, hq, hseq', -⟩ := hsource j g hg
  rw [hij, hq] at hp
  cases hp
  omega

end Receiver

namespace ReceiverConfig

variable (c : ReceiverConfig)

lemma targetFrames_withDefaults :
    c.withDefaults.targetFrames = if c.targetFrames ≤ 0 then 3 else c.targetFrames := by
  unfold withDefaults
  by_cases h : c.targetFrames ≤ 0
  · simp only [if_pos h]
    split_ifs
    · rfl
    · rfl
  · simp only [if_neg h]
    split_ifs
    · rfl
    · rfl

lemma maxFrames_withDefaults :
    c.withDefaults.maxFrames =
      if c.maxFrames < c.withDefaults.targetFrames then c.withDefaults.targetFrames * 4
      else c.maxFrames := by
  rw [targetFrames_withDefaults]
  unfold withDefaults
  by_cases h : c.targetFrames ≤ 0
  · simp only [if_pos h]
    split_ifs
    · rfl
    · rfl
  · simp only [if_neg h]
    split_ifs
    · rfl
    · rfl

lemma targetFrames_pos : 0 < c.withDefaults.targetFrames.toInt := by
  rw [targetFrames_withDefaults]
  split_ifs with h
  · decide
  · rw [Int64.le_iff_toInt_le, Int64.toInt_zero] at h
    omega

lemma NoWrap.maxFrames_pos {c : ReceiverConfig} (h : c.NoWrap) :
    0 < c.withDefaults.maxFrames.toInt := by
  have hpos := c.targetFrames_pos
  rw [maxFrames_withDefaults]
  split_ifs with hlt
  · have hwrap := h hlt
    have hfour : (4 : Int64).toInt = 4 := by decide
    rw [Int64.toInt_mul, hfour, Int.bmod_eq_of_le (by omega) (by omega)]
    omega
  · rw [Int64.lt_iff_toInt_lt] at hlt
    omega

end ReceiverConfig

namespace Receiver

lemma stable_cfg (c : ReceiverConfig) : Stable fun r => r.cfg = c where
  receive raw r h := by
    rcases receive_cases raw r with ⟨-, heq⟩ | ⟨p, -, heq | ⟨-, -, -, heq⟩⟩
    · rw [heq]
      exact h
    · rw [heq, anchored_eq]
      exact h
    · rw [heq, anchored_eq]
      exact h
  adjust n r h := h
  advance r hr h := by
    unfold advance
    split
    · exact h
    · exact h

/-- Packets in any order, repeated, lost or damaged, and ticks between them: as long as nothing
wraps, the playout is in order and everything is accounted for. -/
theorem playout_aligned (levels : ℕ → Level) (cfg : ReceiverConfig) (f : Format) (es : List Event)
    (hcfg : cfg.NoWrap) (hwrap : (runFrom (step levels) (newReceiver cfg f) es).NoWrap) :
    (runFrom (step levels) (newReceiver cfg f) es).Aligned := by
  have hstable := runFrom_keeps (stable_ordered.step levels) (s := newReceiver cfg f)
    ⟨counted_newReceiver cfg f, fun _ => Ordered.of_idle rfl rfl rfl (by simp [newReceiver])⟩ es
  have hconfig := runFrom_keeps ((stable_cfg cfg.withDefaults).step levels)
    (s := newReceiver cfg f) rfl es
  obtain ⟨hc, ho⟩ := hstable
  have h := ho hwrap
  refine ⟨h.exists_source, h.concealed, h.distinct, hc.accepted_sublist, hc.first, fun q hq => ?_,
    ?_, ?_, hc.written_eq⟩
  · obtain ⟨g, hg⟩ := mem_iff.mp (Finmap.mem_keys.mp hq)
    exact (h.of_lookup q g hg).1
  · have hpos := hcfg.maxFrames_pos
    have hle := hc.buffered_le
    rw [hconfig] at hle ⊢
    omega
  · rw [hc.received_eq, hc.accepted_eq]
    omega

def Sample.packet (sequence : UInt64) : Packet := ⟨⟨48000, 1⟩, sequence, 0, ⟨[]⟩⟩

/-- Packet 8 comes late and packet 9 twice, and one packet is damaged. -/
theorem playout_aligned_late_packet :
    (runFrom (step fun _ => .near) (newReceiver ⟨0, 0, .hold⟩ ⟨48000, 1⟩)
      [.receive (Sample.packet 7).encode, .tick, .receive (Sample.packet 9).encode, .tick,
        .receive (Sample.packet 8).encode, .receive (Sample.packet 9).encode, .receive [0], .tick]
      ).Aligned :=
  playout_aligned (fun _ => .near) ⟨0, 0, .hold⟩ ⟨48000, 1⟩
    [.receive (Sample.packet 7).encode, .tick, .receive (Sample.packet 9).encode, .tick,
      .receive (Sample.packet 8).encode, .receive (Sample.packet 9).encode, .receive [0], .tick]
    (fun _ => by decide) (by unfold NoWrap; decide)

end Receiver

end Cerberus.Audio
