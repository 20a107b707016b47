import Cerberus.Audio.Playout

/-!
# The frames of a session

`Run` plays what it receives from a byte stream. What the stream is cut into makes no difference
(`run_eq`). Every frame that the sink gets is silence of the adopted format, the frame of an
accepted packet, or such a frame repeated (`Sourced`). The number of samples of a packet is not
compared with its format, so the sink may get frames of another size (`written_sized_iff`).
-/

namespace Cerberus.Audio

open Foundation List
open Finmap hiding mem_keys

namespace Receiver

variable {ε : Type} {r r' : Receiver} {p : Packet} {raw : List UInt8} {levels : ℕ → Level}
  {sink : ℕ → Option ε}

/-! ### What is written -/

/-- Where the frames that are written come from. -/
structure Sourced (r : Receiver) : Prop where
  concealed : ∀ f, .concealed f ∈ r.journal.written →
    f = silentFrame r.format ∨ .played f ∈ r.journal.written
  last : r.lastFrame.samples = [] ∨ .played r.lastFrame ∈ r.journal.written
  of_accepted : ∀ p ∈ r.journal.accepted,
    .played p.frame ∈ r.journal.written ∨ r.buf.lookup p.sequence = some p.frame
  of_lookup : ∀ q f, r.buf.lookup q = some f → ∃ p ∈ r.journal.accepted, p.frame = f
  played : ∀ f, .played f ∈ r.journal.written → ∃ p ∈ r.journal.accepted, p.frame = f

namespace Sourced

variable (h : r.Sourced)
include h

lemma anchored (hidle : r.started = false → r.journal.written = []) (p : Packet) :
    (r.anchored p).Sourced := by
  rcases hr : r.started with _ | _
  · rw [anchored_eq]
    refine ⟨fun f hf => ?_, h.last, h.of_accepted, h.of_lookup, h.played⟩
    have hf : Slot.concealed f ∈ r.journal.written := hf
    rw [hidle hr] at hf
    cases hf
  · rw [Receiver.anchored, if_pos hr]
    exact h

lemma accept (hnone : r.buf.lookup p.sequence = none) : (r.accept p).Sourced where
  concealed := h.concealed
  last := h.last
  of_accepted q hq := by
    rcases mem_append.mp hq with hq | hq
    · refine (h.of_accepted q hq).imp_right fun hsome => ?_
      have hne : q.sequence ≠ p.sequence := by
        intro heq
        rw [heq, hnone] at hsome
        cases hsome
      rw [Receiver.accept, lookup_insert_of_ne _ hne]
      exact hsome
    · obtain rfl := mem_singleton.mp hq
      exact .inr (lookup_insert _)
  of_lookup q f hf := by
    by_cases hq : q = p.sequence
    · subst hq
      rw [Receiver.accept, lookup_insert] at hf
      cases hf
      exact ⟨p, mem_append_right _ mem_cons_self, rfl⟩
    · rw [Receiver.accept, lookup_insert_of_ne _ hq] at hf
      obtain ⟨p', hp', heq⟩ := h.of_lookup q f hf
      exact ⟨p', mem_append_left _ hp', heq⟩
  played f hf := by
    obtain ⟨q, hq, heq⟩ := h.played f hf
    exact ⟨q, mem_append_left _ hq, heq⟩

lemma conceal_cases : r.conceal = silentFrame r.format ∨ .played r.conceal ∈ r.journal.written := by
  unfold conceal
  split_ifs with hhold
  · refine .inr (h.last.resolve_left fun hnil => ?_)
    rw [hnil] at hhold
    exact absurd hhold.2 (Nat.lt_irrefl 0)
  · exact .inl rfl

lemma advance : r.advance.Sourced := by
  rcases hhead : r.buf.lookup r.nextSeq with _ | f
  · rw [advance_of_none hhead]
    refine ⟨fun f hf => ?_, h.last.imp_right (mem_append_left _), fun p hp => ?_, h.of_lookup,
      fun f hf => ?_⟩
    · rcases mem_append.mp hf with hf | hf
      · exact (h.concealed f hf).imp_right (mem_append_left _)
      · cases mem_singleton.mp hf
        exact h.conceal_cases.imp_right (mem_append_left _)
    · exact (h.of_accepted p hp).imp_left (mem_append_left _)
    · rcases mem_append.mp hf with hf | hf
      · exact h.played f hf
      · cases mem_singleton.mp hf
  · rw [advance_of_some hhead]
    refine ⟨fun f' hf => ?_, .inr (mem_append_right _ mem_cons_self), fun p hp => ?_,
      fun q f' hf => ?_, fun f' hf => ?_⟩
    · rcases mem_append.mp hf with hf | hf
      · exact (h.concealed f' hf).imp_right (mem_append_left _)
      · cases mem_singleton.mp hf
    · rcases h.of_accepted p hp with hplayed | hsome
      · exact .inl (mem_append_left _ hplayed)
      · by_cases hq : p.sequence = r.nextSeq
        · rw [hq, hhead] at hsome
          cases hsome
          exact .inl (mem_append_right _ mem_cons_self)
        · refine .inr ?_
          rw [lookup_erase_ne hq]
          exact hsome
    · by_cases hq : q = r.nextSeq
      · rw [hq, lookup_erase] at hf
        cases hf
      · rw [lookup_erase_ne hq] at hf
        exact h.of_lookup q f' hf
    · rcases mem_append.mp hf with hf | hf
      · exact h.played f' hf
      · cases mem_singleton.mp hf
        exact h.of_lookup _ _ hhead

end Sourced

lemma stable_sourced : Stable fun r => r.Counted ∧ r.Sourced where
  receive raw r h := by
    obtain ⟨hc, hs⟩ := h
    refine ⟨stable_counted.receive raw r hc, ?_⟩
    have hrecord : (r.record raw).Sourced :=
      ⟨hs.concealed, hs.last, hs.of_accepted, hs.of_lookup, hs.played⟩
    have hanchored := hrecord.anchored fun hr => (hc.idle hr).2.2.1
    rcases receive_cases raw r with ⟨-, heq⟩ | ⟨p, -, heq | ⟨-, hnone, -, heq⟩⟩
    · rw [heq]
      exact ⟨hs.concealed, hs.last, hs.of_accepted, hs.of_lookup, hs.played⟩
    · obtain ⟨hconcealed, hlast, haccepted, hlookup, hplayed⟩ := hanchored p
      rw [heq]
      exact ⟨hconcealed, hlast, haccepted, hlookup, hplayed⟩
    · rw [heq]
      exact (hanchored p).accept hnone
  adjust n r h :=
    ⟨stable_counted.adjust n r h.1, h.2.concealed, h.2.last, h.2.of_accepted, h.2.of_lookup,
      h.2.played⟩
  advance r hr h := ⟨h.1.advance hr, h.2.advance⟩

/-! ### The format -/

/-- The format is that of the first packet. -/
structure Adopted (r : Receiver) : Prop where
  format : ∀ p, r.journal.first = some p → r.format = p.format
  head : ∀ p, r.journal.accepted.head? = some p → r.journal.first = some p
  taken : r.started = true → 0 < r.cfg.maxFrames.toInt → r.journal.accepted ≠ []

/-- A packet that the receiver buffers: it is not late, not a duplicate, and there is room. -/
structure Takes (r : Receiver) (p : Packet) : Prop where
  next : r.started = true → r.nextSeq ≤ p.sequence
  fresh : r.buf.lookup p.sequence = none
  room : r.buffered < r.cfg.maxFrames.toInt

lemma nextSeq_anchored_le (h : r.Takes p) (raw : List UInt8) :
    ((r.record raw).anchored p).nextSeq ≤ p.sequence := by
  rw [anchored_eq]
  rcases hr : r.started with _ | _
  · simp [record, hr]
  · simp [record, hr, h.next hr]

lemma receive_of_takes (hp : decodePacket raw = some p) (h : r.Takes p) :
    r.receive raw = ((r.record raw).anchored p).accept p := by
  have hnext := nextSeq_anchored_le h raw
  have hlookup : ((r.record raw).anchored p).buf.lookup p.sequence = none := by
    rw [anchored_eq]
    exact h.fresh
  have hroom : ((r.record raw).anchored p).buffered <
      ((r.record raw).anchored p).cfg.maxFrames.toInt := by
    rw [anchored_eq]
    exact h.room
  rw [receive, hp]
  simp only [offer, hlookup, Option.isSome_none, Bool.false_eq_true]
  rw [if_neg (UInt64.not_lt.mpr hnext), if_neg not_false, if_neg hroom.not_ge]

/-- A packet that decodes is taken, or it is dropped. -/
lemma receive_of_decoded (hp : decodePacket raw = some p) :
    r.receive raw = ((r.record raw).anchored p).drop ∨
      r.Takes p ∧ r.receive raw = ((r.record raw).anchored p).accept p := by
  rcases receive_cases raw r with ⟨hnone, -⟩ | ⟨p', hp', heq | ⟨hnext, hfresh, hroom, heq⟩⟩
  · rw [hp] at hnone
    cases hnone
  · cases hp.symm.trans hp'
    exact .inl heq
  · cases hp.symm.trans hp'
    refine .inr ⟨⟨fun hr => ?_, ?_, ?_⟩, heq⟩
    · rwa [anchored, if_pos (show (r.record raw).started = true from hr)] at hnext
    · rwa [anchored_eq] at hfresh
    · rwa [anchored_eq] at hroom

lemma takes_of_idle (hc : r.Counted) (hr : r.started = false) (hmax : 0 < r.cfg.maxFrames.toInt) :
    r.Takes p where
  next h := absurd (hr.symm.trans h) Bool.false_ne_true
  fresh := by rw [(hc.idle hr).1, lookup_empty]
  room := by
    rw [buffered, (hc.idle hr).1]
    exact hmax

namespace Adopted

lemma receive_of_idle (hc : r.Counted) (hr : r.started = false) (hp : decodePacket raw = some p) :
    (r.receive raw).Adopted := by
  have haccepted : r.journal.accepted = [] := (hc.idle hr).2.1
  have hstarted : ¬ (r.record raw).started = true := Bool.eq_false_iff.mp hr
  rcases receive_of_decoded hp with heq | ⟨-, heq⟩
  · have hmax : ¬ 0 < r.cfg.maxFrames.toInt := by
      intro hmax
      have haccept := receive_of_takes hp (takes_of_idle hc hr hmax)
      have hlength := congrArg (fun r : Receiver => r.journal.accepted.length)
        (heq.symm.trans haccept)
      rw [anchored_eq] at hlength
      simp [drop, accept] at hlength
    rw [heq, anchored_eq]
    refine ⟨fun q hq => ?_, fun q hq => ?_, fun _ h => absurd h hmax⟩
    · simp only [drop, if_neg hstarted] at hq ⊢
      rw [Option.some.inj hq]
    · have hq : r.journal.accepted.head? = some q := hq
      rw [haccepted] at hq
      cases hq
  · rw [heq, anchored_eq]
    refine ⟨fun q hq => ?_, fun q hq => ?_, fun _ _ => append_ne_nil_of_right_ne_nil _ (by simp)⟩
    · simp only [accept, if_neg hstarted] at hq ⊢
      rw [Option.some.inj hq]
    · simp only [accept, if_neg hstarted] at hq ⊢
      have hq : (r.journal.accepted ++ [p]).head? = some q := hq
      rw [haccepted] at hq
      exact hq

lemma receive_of_started (h : r.Adopted) (hr : r.started = true) (raw : List UInt8) :
    (r.receive raw).Adopted := by
  have hanchored : ∀ p, (r.record raw).anchored p = r.record raw := fun p => if_pos hr
  rcases receive_cases raw r with ⟨-, heq⟩ | ⟨p, -, heq | ⟨-, -, hlt, heq⟩⟩
  · rw [heq]
    exact ⟨h.format, h.head, h.taken⟩
  · rw [heq, hanchored]
    exact ⟨h.format, h.head, h.taken⟩
  · have hne : r.journal.accepted ≠ [] := h.taken hr (by omega)
    rw [heq, hanchored]
    refine ⟨h.format, fun q hq => h.head q ?_, fun _ _ => append_ne_nil_of_left_ne_nil hne _⟩
    have hq : (r.journal.accepted ++ [p]).head? = some q := hq
    rwa [List.head?_append_of_ne_nil _ hne] at hq

end Adopted

lemma stable_adopted : Stable fun r => r.Counted ∧ r.Adopted where
  receive raw r h := by
    obtain ⟨hc, ha⟩ := h
    refine ⟨stable_counted.receive raw r hc, ?_⟩
    rcases hr : r.started with _ | _
    · rcases hraw : decodePacket raw with _ | p
      · rcases receive_cases raw r with ⟨-, heq⟩ | ⟨p, hp, -⟩
        · rw [heq]
          exact ⟨ha.format, ha.head, ha.taken⟩
        · rw [hraw] at hp
          cases hp
      · exact Adopted.receive_of_idle hc hr hraw
    · exact ha.receive_of_started hr raw
  adjust n r h := ⟨stable_counted.adjust n r h.1, h.2.format, h.2.head, h.2.taken⟩
  advance r hr h := by
    refine ⟨h.1.advance hr, ?_⟩
    unfold advance
    split
    · exact ⟨h.2.format, h.2.head, h.2.taken⟩
    · exact ⟨h.2.format, h.2.head, h.2.taken⟩

/-- The stream has begun in this format, and these packets have been accepted. -/
structure Kept (fmt : Format) (ps : List Packet) (r : Receiver) : Prop where
  started : r.started = true
  format : r.format = fmt
  accepted : ps ⊆ r.journal.accepted

lemma stable_kept (fmt : Format) (ps : List Packet) : Stable (Kept fmt ps) where
  receive raw r h := by
    obtain ⟨hr, hformat, hps⟩ := h
    have hanchored : ∀ p, (r.record raw).anchored p = r.record raw := fun p => if_pos hr
    rcases receive_cases raw r with ⟨-, heq⟩ | ⟨p, -, heq | ⟨-, -, -, heq⟩⟩
    · rw [heq]
      exact ⟨hr, hformat, hps⟩
    · rw [heq, hanchored]
      exact ⟨hr, hformat, hps⟩
    · rw [heq, hanchored]
      exact ⟨hr, hformat, fun q hq => mem_append_left _ (hps hq)⟩
  adjust _ _ h := ⟨h.started, h.format, h.accepted⟩
  advance r _ h := by
    unfold advance
    split
    · exact ⟨h.started, h.format, h.accepted⟩
    · exact ⟨h.started, h.format, h.accepted⟩

/-! ### A session without failures -/

section Unfailing

variable {R : ByteReader ε} {ctx : ℕ → Option ε} (hsink : ∀ n, sink n = none)

include hsink

lemma playLoop_ok (i n : ℕ) (r : Receiver) : (playLoop sink i n r).1.2 = none := by
  induction n generalizing i r with
  | zero => rfl
  | succ n ih =>
    rw [playLoop, playOne, hsink]
    exact ih _ _

lemma tick_ok (levels : ℕ → Level) (r : Receiver) : (r.tick levels sink).1.2 = none := by
  unfold tick
  split_ifs
  · exact playLoop_ok hsink _ _ _
  · rfl

lemma drainRound_ok (levels : ℕ → Level) (r : Receiver) : (r.drainRound levels sink).1 = none := by
  have htick := tick_ok hsink levels r
  unfold drainRound
  rcases hres : r.tick levels sink with ⟨⟨i, _ | e⟩, r₁⟩
  · dsimp only
    split_ifs
    · exact hsink _
    · rfl
  · rw [hres] at htick
    cases htick

/-- Draining goes on until the buffer is empty. -/
lemma buf_playBuffered (levels : ℕ → Level) (r : Receiver) :
    (r.playBuffered levels sink).2.started = false ∨
      (r.playBuffered levels sink).2.buf.keys = ∅ := by
  fun_induction playBuffered levels sink r with
  | case1 r hr e r' hround =>
    have hok := drainRound_ok hsink levels r
    rw [hround] at hok
    cases hok
  | case2 r hr r' hround _ ih => exact ih
  | case3 r hr =>
    rcases hstarted : r.started with _ | _
    · exact .inl rfl
    · exact .inr (Finset.not_nonempty_iff_eq_empty.mp fun hne => hr ⟨hstarted, hne⟩)

/-- `Run` takes the packets of the stream one by one and then drains the buffer, if neither the
context nor the sink fails and the stream just ends. What the stream is cut into makes no
difference. -/
theorem run_eq (hctx : ∀ n, ctx n = none) {s : R.State} (hend : (recvAll R s).2 = .read .eof) :
    r.run levels sink R ctx s =
      let drained := (runFrom (heard levels sink) r (recvAll R s).1).playBuffered levels sink
      (drained.1.map .sink, drained.2) := by
  fun_induction run levels sink R ctx s r with
  | case1 ctx s r e he =>
    rw [hctx] at he
    cases he
  | case2 ctx s r he s' hrecv =>
    rw [hctx] at hrecv
    rw [recvAll_of_error hrecv]
    rfl
  | case3 ctx s r he e s' hne hrecv =>
    rw [hctx] at hrecv
    rw [recvAll_of_error hrecv] at hend
    exact absurd hend hne
  | case4 ctx s r he raw s' hrecv hlt hraw ih =>
    rw [recvAll_of_ok (recv_none_of_ok hrecv)] at hend ⊢
    rw [ih (fun n => hctx (n + 2)) hend, runFrom_cons, heard, hraw]
  | case5 ctx s r he raw s' hrecv hlt p hraw i e r' htick =>
    have hok := tick_ok hsink levels (r.receive raw)
    rw [htick] at hok
    cases hok
  | case6 ctx s r he raw s' hrecv hlt p hraw i r' htick ih =>
    rw [recvAll_of_ok (recv_none_of_ok hrecv)] at hend ⊢
    rw [ih (fun n => hctx (n + 2)) hend, runFrom_cons, heard, hraw]
    simp only [htick]

end Unfailing

/-! ### The size of a frame -/

/-- A frame has the size of the adopted format. -/
def Sized (r : Receiver) (f : Frame) : Prop := f.samples.length = r.format.samplesPerPacket

/-- A packet that the receiver takes has the size of the format that the stream has then. -/
def Fits (r : Receiver) (raw : List UInt8) : Prop :=
  ∀ p, decodePacket raw = some p → r.Takes p →
    p.frame.samples.length = (if r.started then r.format else p.format).samplesPerPacket

lemma fits_of_none (h : decodePacket raw = none) : r.Fits raw := by
  intro p hp
  rw [h] at hp
  cases hp

lemma Sourced.sized (h : r.Sourced) (hall : ∀ p ∈ r.journal.accepted, r.Sized p.frame) :
    ∀ sl ∈ r.journal.written, r.Sized sl.frame := by
  have hplayed : ∀ f, .played f ∈ r.journal.written → r.Sized f := by
    intro f hf
    obtain ⟨p, hp, rfl⟩ := h.played f hf
    exact hall p hp
  rintro (f | f) hf
  · exact hplayed f hf
  · rcases h.concealed f hf with rfl | hf'
    · exact length_replicate
    · exact hplayed f hf'

/-- Taking packets that fit keeps the accepted ones in size. -/
lemma sized_receive (hfits : r.Fits raw)
    (h : r.Counted ∧ ∀ p ∈ r.journal.accepted, r.Sized p.frame) :
    (r.receive raw).Counted ∧
      ∀ p ∈ (r.receive raw).journal.accepted, (r.receive raw).Sized p.frame := by
  obtain ⟨hc, hall⟩ := h
  refine ⟨stable_counted.receive raw r hc, ?_⟩
  have hkept : ∀ p : Packet, ∀ q ∈ r.journal.accepted,
      q.frame.samples.length = (if r.started then r.format else p.format).samplesPerPacket := by
    intro p q hq
    rcases hr : r.started with _ | _
    · rw [(hc.idle hr).2.1] at hq
      cases hq
    · exact hall q hq
  rcases hraw : decodePacket raw with _ | p
  · rw [receive, hraw]
    exact hall
  · rcases receive_of_decoded hraw with heq | ⟨htakes, heq⟩
    · rw [heq, anchored_eq]
      exact hkept p
    · rw [heq, anchored_eq]
      intro q hq
      rcases mem_append.mp hq with hq | hq
      · exact hkept p q hq
      · obtain rfl := mem_singleton.mp hq
        exact hfits q hraw htakes

lemma playing_sized :
    Playing fun r => r.Counted ∧ ∀ p ∈ r.journal.accepted, r.Sized p.frame where
  adjust n r h := ⟨stable_counted.adjust n r h.1, h.2⟩
  advance r hr h := by
    refine ⟨h.1.advance hr, ?_⟩
    unfold advance
    split
    · exact h.2
    · exact h.2

/-- If all packets that were taken have the size of the format in the end, each one had it when it
came. -/
lemma along_fits_of_sized {raws : List (List UInt8)}
    (h : ∀ p ∈ ((runFrom (heard levels sink) r raws).playBuffered levels sink).2.journal.accepted,
      ((runFrom (heard levels sink) r raws).playBuffered levels sink).2.Sized p.frame) :
    Along (heard levels sink) Fits r raws := by
  refine along_iff_forall_split.mpr fun pre raw post hraws p hp htakes => ?_
  subst hraws
  -- the packet stays accepted, and the format stays, to the end
  have hI := stable_kept
    (if (runFrom (heard levels sink) r pre).started then (runFrom (heard levels sink) r pre).format
      else p.format) [p]
  have hreceive := receive_of_takes hp htakes
  rw [anchored_eq] at hreceive
  have hheard := hI.tick levels sink (r := (runFrom (heard levels sink) r pre).receive raw) (by
    rw [hreceive]
    exact ⟨rfl, rfl, fun _ hq => mem_append_right _ hq⟩)
  rw [runFrom_append, runFrom_cons, heard, hp] at h
  have hkept : Kept _ [p] (playBuffered levels sink _).2 :=
    hI.toPlaying.playBuffered (runFrom_keeps (hI.heard levels sink) hheard post)
  rw [← hkept.format]
  exact h p (hkept.accepted mem_cons_self)

/-- It is enough that the packets of a stream have the size of the format of the first one. -/
lemma along_fits_of_forall {fmt : Format} {raws : List (List UInt8)}
    (hr : r.started = true → r.format = fmt)
    (hidle : r.started = false →
      ∀ p, (raws.filterMap decodePacket).head? = some p → p.format = fmt)
    (hall : ∀ p ∈ raws.filterMap decodePacket, p.frame.samples.length = fmt.samplesPerPacket) :
    Along (heard levels sink) Fits r raws := by
  induction raws generalizing r with
  | nil => trivial
  | cons raw raws ih =>
    rw [along_cons, heard]
    rcases hraw : decodePacket raw with _ | p
    · rw [filterMap_cons_none hraw] at hidle hall
      refine ⟨fits_of_none hraw, ?_⟩
      rw [receive, hraw]
      exact ih hr hidle hall
    · rw [filterMap_cons_some hraw] at hidle hall
      have hformat : (if r.started then r.format else p.format) = fmt := by
        split_ifs with hstarted
        · exact hr hstarted
        · exact hidle (Bool.eq_false_of_not_eq_true hstarted) p rfl
      have hkept := (stable_kept fmt []).tick levels sink (r := r.receive raw) (by
        rcases receive_of_decoded hraw with heq | ⟨-, heq⟩
        · rw [heq, anchored_eq]
          exact ⟨rfl, hformat, nil_subset _⟩
        · rw [heq, anchored_eq]
          exact ⟨rfl, hformat, nil_subset _⟩)
      refine ⟨fun q hq _ => ?_, ih (fun _ => hkept.format) (fun hfalse => ?_) fun q hq => ?_⟩
      · cases hraw.symm.trans hq
        rw [hformat]
        exact hall p mem_cons_self
      · rw [hkept.started] at hfalse
        cases hfalse
      · exact hall q (mem_cons_of_mem _ hq)

/-- A session: `Run` of a new receiver, over the `RecvTransport` of a byte stream. -/
def session (levels : ℕ → Level) (sink : ℕ → Option ε) (R : ByteReader ε) (ctx : ℕ → Option ε)
    (s : R.State) (cfg : ReceiverConfig) (f : Format) : Option (RunErr ε) × Receiver :=
  (newReceiver cfg f).run levels sink (R.buffered 4096) ctx (ByteReader.newBuffered 4096 s)

lemma Stable.session {I : Receiver → Prop} (hI : Stable I) (levels : ℕ → Level)
    (sink : ℕ → Option ε) (R : ByteReader ε) (ctx : ℕ → Option ε) (s : R.State)
    (cfg : ReceiverConfig) (f : Format) (h : I (newReceiver cfg f)) :
    I (session levels sink R ctx s cfg f).2 := hI.run h

/-- Whatever the byte stream, the frames that the sink gets have the size of the adopted format if
every packet of the stream fits that the receiver takes; and only if, when the stream is received to
its end without an error. They do if all packets have the size of the format of the first one. -/
theorem written_sized_iff (levels : ℕ → Level) (sink : ℕ → Option ε) (R : ByteReader ε)
    (ctx : ℕ → Option ε) (s : R.State) (cfg : ReceiverConfig) (f : Format) :
    let res := session levels sink R ctx s cfg f
    let raws := (recvTransport R s).1
    (Along (heard levels sink) Fits (newReceiver cfg f) raws →
        ∀ sl ∈ res.2.journal.written, res.2.Sized sl.frame) ∧
      ((∀ n, ctx n = none) → (∀ n, sink n = none) → (recvTransport R s).2 = .read .eof →
        ((∀ sl ∈ res.2.journal.written, res.2.Sized sl.frame) ↔
          Along (heard levels sink) Fits (newReceiver cfg f) raws)) ∧
      (∀ first, (raws.filterMap decodePacket).head? = some first →
        (∀ p ∈ raws.filterMap decodePacket,
          p.frame.samples.length = first.format.samplesPerPacket) →
        Along (heard levels sink) Fits (newReceiver cfg f) raws) ∧
      ∀ p, res.2.journal.accepted.head? = some p → res.2.format = p.format := by
  intro res raws
  obtain ⟨hc, hs⟩ := stable_sourced.session levels sink R ctx s cfg f
    ⟨counted_newReceiver cfg f, by simp [newReceiver], .inl rfl, by simp [newReceiver],
      by simp [newReceiver], by simp [newReceiver]⟩
  obtain ⟨-, ha⟩ := stable_adopted.session levels sink R ctx s cfg f
    ⟨counted_newReceiver cfg f, by simp [newReceiver], by simp [newReceiver], by simp [newReceiver]⟩
  have hfits : Along (heard levels sink) Fits (newReceiver cfg f) raws →
      ∀ sl ∈ res.2.journal.written, res.2.Sized sl.frame := fun h =>
    hs.sized (playing_sized.run (fun _ _ => sized_receive)
      ⟨counted_newReceiver cfg f, by simp [newReceiver]⟩ h).2
  refine ⟨hfits, fun hctx hsink hend => ⟨fun hall => ?_, hfits⟩, fun p₀ hp₀ hall => ?_,
    fun p hp => ha.format p (ha.head p hp)⟩
  · have hres : res.2 = ((runFrom (heard levels sink) (newReceiver cfg f) raws).playBuffered levels
        sink).2 := congrArg Prod.snd (run_eq hsink hctx hend)
    -- nothing is left in the buffer, so that every packet that was taken has been played
    have hempty : ∀ q, res.2.buf.lookup q = none := by
      intro q
      have hbuf := buf_playBuffered hsink levels
        (runFrom (heard levels sink) (newReceiver cfg f) raws)
      rw [← hres] at hbuf
      rcases hbuf with hidle | hkeys
      · rw [(hc.idle hidle).1, lookup_empty]
      · rw [lookup_eq_none, ← Finmap.mem_keys, hkeys]
        exact Finset.notMem_empty q
    refine along_fits_of_sized ?_
    rw [← hres]
    refine fun p hp => hall (.played p.frame) ((hs.of_accepted p hp).resolve_right fun hsome => ?_)
    rw [hempty] at hsome
    cases hsome
  · refine along_fits_of_forall (fun h => ?_) (fun _ p hp => ?_) hall
    · cases h
    · rw [Option.some.inj (hp₀.symm.trans hp)]

def Sample.short : Packet := ⟨⟨48000, 1⟩, 0, 0, ⟨[1, 2, 3]⟩⟩

def Sample.stream : (ByteReader.ofInput Unit).State :=
  show Input Unit from ⟨[sent [short]], none⟩

def Sample.receiver : Receiver :=
  (((newReceiver ⟨0, 0, .hold⟩ ⟨48000, 1⟩).receive short.encode).tick (fun _ => .near)
    fun _ => (none : Option Unit)).2

/-- The packet is played as it is, where a frame of the stream has 480 samples. -/
theorem short_frame_written :
    let res := session (fun _ => .near) (fun _ => none) (.ofInput Unit) (fun _ => none)
      Sample.stream ⟨0, 0, .hold⟩ ⟨48000, 1⟩
    res.1.isNone ∧ res.2.journal.written = [.played ⟨[1, 2, 3]⟩] ∧
      res.2.format.samplesPerPacket = 480 := by
  have hsize : ∀ p ∈ [Sample.short], p.frame.samples.length ≤ maxPCMValues := by decide
  have hreceived : recvTransport (.ofInput Unit) Sample.stream =
      ([Sample.short.encode], .read .eof) :=
    recvTransport_sent hsize (List.append_nil _) rfl
  have hdecoded : decodePacket Sample.short.encode = some Sample.short := by decide
  have hheard : runFrom (heard (fun _ => .near) fun _ => (none : Option Unit))
      (newReceiver ⟨0, 0, .hold⟩ ⟨48000, 1⟩) [Sample.short.encode] = Sample.receiver := by
    rw [runFrom_cons, heard, hdecoded]
    rfl
  have hdrained : Sample.receiver.playBuffered (fun _ => .near) (fun _ => (none : Option Unit)) =
      (none, Sample.receiver) := by
    rw [playBuffered, dif_neg (by decide)]
  have hraws := congrArg Prod.fst hreceived
  rw [recvTransport] at hraws
  rw [session, run_eq (fun _ => rfl) (fun _ => rfl) (congrArg Prod.snd hreceived), hraws, hheard,
    hdrained]
  decide

end Receiver

end Cerberus.Audio
