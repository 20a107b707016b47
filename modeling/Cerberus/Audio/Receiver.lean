import Cerberus.Audio.Framing
import Cerberus.Foundation.Run

/-!
# The receiver of an audio stream

The jitter buffer of `daemon/audio` (`receiver.go`): packets are buffered under their sequence
numbers, and frames go to the sink one sequence number after the other.

How many frames a tick plays is decided by a controller that filters the occupancy of the buffer
with floating point numbers. The model keeps the decision: in the `n`-th tick the value is over,
under or near the target as `levels n` says, for any `levels`.

Besides the state of the source a receiver keeps a journal, which no function reads.

`Stable` is the invariant rule: what packets, ticks and frames keep holds after any call of the
receiver.
-/

namespace Cerberus.Audio

open Foundation Function

inductive GapFillMode
  | silence
  | hold
  deriving DecidableEq

structure ReceiverConfig where
  targetFrames : Int64
  maxFrames : Int64
  gapFill : GapFillMode

def ReceiverConfig.withDefaults (c : ReceiverConfig) : ReceiverConfig :=
  let c := if c.targetFrames ≤ 0 then { c with targetFrames := 3 } else c
  if c.maxFrames < c.targetFrames then { c with maxFrames := c.targetFrames * 4 } else c

/-- Where the controller finds the filtered occupancy: above the target by more than one frame,
below it by more than one frame, or neither. -/
inductive Level
  | over
  | under
  | near
  deriving DecidableEq

/-- A frame that was written to the sink, and where it came from. -/
inductive Slot
  | played (f : Frame)
  | concealed (f : Frame)
  deriving DecidableEq

def Slot.frame : Slot → Frame
  | played f => f
  | concealed f => f

/-- What no function of the source reads: the history of a receiver. -/
structure Journal where
  received : List (List UInt8)
  first : Option Packet
  accepted : List Packet
  written : List Slot

structure Receiver where
  cfg : ReceiverConfig
  buf : Finmap fun _ : UInt64 => Frame
  nextSeq : UInt64
  started : Bool
  lastFrame : Frame
  format : Format
  /-- How often the controller has been asked. -/
  ticks : ℕ
  played : ℕ
  concealed : ℕ
  dropped : ℕ
  journal : Journal

def newReceiver (cfg : ReceiverConfig) (sinkFormat : Format) : Receiver where
  cfg := cfg.withDefaults
  buf := ∅
  nextSeq := 0
  started := false
  lastFrame := ⟨[]⟩
  format := sinkFormat
  ticks := 0
  played := 0
  concealed := 0
  dropped := 0
  journal := ⟨[], none, [], []⟩

variable {levels : ℕ → Level}

namespace Receiver

variable {ε : Type} {r r' : Receiver} {p : Packet} {raw : List UInt8}

/-! ### Packets -/

def buffered (r : Receiver) : ℕ := r.buf.keys.card

/-- The first packet sets the format and the next sequence number. -/
def anchored (p : Packet) (r : Receiver) : Receiver :=
  if r.started then r
  else
    { r with
      nextSeq := p.sequence
      format := p.format
      started := true
      journal := { r.journal with first := some p } }

def drop (r : Receiver) : Receiver := { r with dropped := r.dropped + 1 }

def accept (p : Packet) (r : Receiver) : Receiver :=
  { r with
    buf := r.buf.insert p.sequence p.frame
    journal := { r.journal with accepted := r.journal.accepted ++ [p] } }

/-- The part of `Receive` after a packet was decoded. -/
def offer (p : Packet) (r : Receiver) : Receiver :=
  let r := r.anchored p
  if p.sequence < r.nextSeq then r.drop
  else if (r.buf.lookup p.sequence).isSome then r.drop
  else if r.cfg.maxFrames.toInt ≤ r.buffered then r.drop
  else r.accept p

def record (raw : List UInt8) (r : Receiver) : Receiver :=
  { r with journal := { r.journal with received := r.journal.received ++ [raw] } }

def receive (raw : List UInt8) (r : Receiver) : Receiver :=
  match decodePacket raw with
  | none => (r.record raw).drop
  | some p => (r.record raw).offer p

lemma receive_cases (raw : List UInt8) (r : Receiver) :
    (decodePacket raw = none ∧ r.receive raw = (r.record raw).drop) ∨
      ∃ p, decodePacket raw = some p ∧
        (r.receive raw = ((r.record raw).anchored p).drop ∨
          (((r.record raw).anchored p).nextSeq ≤ p.sequence ∧
            ((r.record raw).anchored p).buf.lookup p.sequence = none ∧
            ((r.record raw).anchored p).buffered < r.cfg.maxFrames.toInt ∧
            r.receive raw = ((r.record raw).anchored p).accept p)) := by
  unfold receive
  rcases hraw : decodePacket raw with _ | p
  · exact .inl ⟨rfl, rfl⟩
  · refine .inr ⟨p, rfl, ?_⟩
    have hcfg : ((r.record raw).anchored p).cfg = r.cfg := by
      unfold anchored
      split_ifs
      · rfl
      · rfl
    simp only [offer, hcfg]
    split_ifs with hlt hdup hfull
    · exact .inl rfl
    · exact .inl rfl
    · exact .inl rfl
    · exact .inr ⟨UInt64.not_lt.mp hlt, Option.not_isSome_iff_eq_none.mp hdup, not_le.mp hfull, rfl⟩

/-! ### Frames -/

def conceal (r : Receiver) : Frame :=
  if r.cfg.gapFill = .hold ∧ 0 < r.lastFrame.samples.length then ⟨r.lastFrame.samples⟩
  else silentFrame r.format

/-- The next frame is taken from the buffer or concealed, and written. -/
def advance (r : Receiver) : Receiver :=
  match r.buf.lookup r.nextSeq with
  | some f =>
    { r with
      buf := r.buf.erase r.nextSeq
      lastFrame := f
      played := r.played + 1
      nextSeq := r.nextSeq + 1
      journal := { r.journal with written := r.journal.written ++ [.played f] } }
  | none =>
    { r with
      concealed := r.concealed + 1
      nextSeq := r.nextSeq + 1
      journal := { r.journal with written := r.journal.written ++ [.concealed r.conceal] } }

/-- `playOne`; `sink n` is the error of the `n`-th write to the sink. -/
def playOne (sink : ℕ → Option ε) (r : Receiver) : Option ε × Receiver :=
  (sink r.journal.written.length, r.advance)

def headReady (r : Receiver) : Bool := (r.buf.lookup r.nextSeq).isSome

/-- `dllAdjust`: how many frames this tick plays. -/
def dllAdjust (levels : ℕ → Level) (r : Receiver) : ℕ × Receiver :=
  (match levels r.ticks with
    | .over => 2
    | .under => if r.headReady then 1 else 0
    | .near => 1,
    { r with ticks := r.ticks + 1 })

def playLoop (sink : ℕ → Option ε) : ℕ → ℕ → Receiver → (ℕ × Option ε) × Receiver
  | i, 0, r => ((i, none), r)
  | i, n + 1, r =>
    match r.playOne sink with
    | (some e, r') => ((i, some e), r')
    | (none, r') => playLoop sink (i + 1) n r'

def tick (levels : ℕ → Level) (sink : ℕ → Option ε) (r : Receiver) :
    (ℕ × Option ε) × Receiver :=
  if r.started then
    let d := r.dllAdjust levels
    playLoop sink 0 d.1 d.2
  else ((0, none), r)

def drainRound (levels : ℕ → Level) (sink : ℕ → Option ε) (r : Receiver) : Option ε × Receiver :=
  match r.tick levels sink with
  | ((_, some e), r') => (some e, r')
  | ((_, none), r') =>
    if r'.buffered = r.buffered ∧ r'.headReady = false then r'.playOne sink else (none, r')

lemma playLoop_spec (sink : ℕ → Option ε) (i n : ℕ) (r : Receiver) :
    ∃ k ≤ n, (playLoop sink i n r).2 = advance^[k] r ∧
      ((playLoop sink i n r).1.2 = none → k = n) := by
  induction n generalizing i r with
  | zero => exact ⟨0, le_rfl, rfl, fun _ => rfl⟩
  | succ n ih =>
    rw [playLoop, playOne]
    rcases sink r.journal.written.length with _ | e
    · obtain ⟨k, hk, heq, hnone⟩ := ih (i + 1) r.advance
      exact ⟨k + 1, Nat.succ_le_succ hk, heq, fun h => congrArg Nat.succ (hnone h)⟩
    · exact ⟨1, Nat.succ_le_succ (Nat.zero_le n), rfl, fun h => absurd h (Option.some_ne_none e)⟩

lemma headReady_of_dllAdjust (h : (r.dllAdjust levels).1 = 0) : r.headReady = false := by
  unfold dllAdjust at h
  simp only at h
  split at h
  · cases h
  · split_ifs at h with hhead
    exact Bool.eq_false_of_not_eq_true hhead
  · cases h

lemma tick_spec (levels : ℕ → Level) (sink : ℕ → Option ε) (hr : r.started = true) :
    ∃ k, (r.tick levels sink).2 = advance^[k] { r with ticks := r.ticks + 1 } ∧
      ((r.tick levels sink).1.2 = none → k = (r.dllAdjust levels).1) := by
  obtain ⟨k, -, heq, hnone⟩ :=
    playLoop_spec sink 0 (r.dllAdjust levels).1 { r with ticks := r.ticks + 1 }
  unfold tick
  rw [if_pos hr]
  exact ⟨k, heq, hnone⟩

@[simp] lemma started_advance (r : Receiver) : r.advance.started = r.started := by
  unfold advance
  split
  · rfl
  · rfl

@[simp] lemma started_advance_iterate (k : ℕ) (r : Receiver) :
    (advance^[k] r).started = r.started := by
  induction k generalizing r with
  | zero => rfl
  | succ k ih => rw [iterate_succ_apply, ih, started_advance]

/-! ### Draining -/

@[simp] lemma nextSeq_advance (r : Receiver) : r.advance.nextSeq = r.nextSeq + 1 := by
  unfold advance
  split
  · rfl
  · rfl

@[simp] lemma keys_advance (r : Receiver) : r.advance.buf.keys = r.buf.keys.erase r.nextSeq := by
  unfold advance
  split
  · exact Finmap.keys_erase _ _
  · rename_i hnone
    refine (Finset.erase_eq_of_notMem fun hmem => ?_).symm
    exact Finmap.lookup_eq_none.mp hnone (Finmap.mem_keys.mp hmem)

/-- How far away the farthest buffered frame is. -/
def span (r : Receiver) : ℕ := r.buf.keys.sup fun q => (q - r.nextSeq).toNat + 1

lemma toNat_sub_succ {q n : UInt64} (h : q ≠ n) : (q - (n + 1)).toNat + 1 = (q - n).toNat := by
  have hpos : (q - n).toNat ≠ 0 := by
    intro hzero
    refine h (sub_eq_zero.mp (UInt64.toNat_inj.mp ?_))
    rw [hzero]
    rfl
  have hle : (1 : UInt64) ≤ q - n := by
    rw [UInt64.le_iff_toNat_le, UInt64.toNat_one]
    omega
  rw [← sub_sub, UInt64.toNat_sub_of_le _ _ hle, UInt64.toNat_one]
  omega

lemma span_advance_lt (h : r.buf.keys.Nonempty) : r.advance.span < r.span := by
  have hle : ∀ q ∈ r.buf.keys, (q - r.nextSeq).toNat + 1 ≤ r.span := fun q hq =>
    Finset.le_sup (f := fun q => (q - r.nextSeq).toNat + 1) hq
  obtain ⟨q₀, hq₀⟩ := h
  have hpos : (⊥ : ℕ) < r.span := lt_of_lt_of_le (Nat.succ_pos _) (hle q₀ hq₀)
  rw [span, keys_advance, nextSeq_advance, Finset.sup_lt_iff hpos]
  intro q hq
  obtain ⟨hne, hmem⟩ := Finset.mem_erase.mp hq
  rw [toNat_sub_succ hne]
  exact hle q hmem

lemma span_advance_le (r : Receiver) : r.advance.span ≤ r.span := by
  rcases r.buf.keys.eq_empty_or_nonempty with hnil | hne
  · rw [span, keys_advance, hnil]
    exact Nat.zero_le _
  · exact (span_advance_lt hne).le

lemma span_advance_iterate_le (k : ℕ) (r : Receiver) : (advance^[k] r).span ≤ r.span := by
  induction k generalizing r with
  | zero => exact le_rfl
  | succ k ih =>
    rw [iterate_succ_apply]
    exact (ih r.advance).trans (span_advance_le r)

lemma span_drainRound_lt {sink : ℕ → Option ε} (hr : r.started = true)
    (hne : r.buf.keys.Nonempty) (h : r.drainRound levels sink = (none, r')) : r'.span < r.span := by
  obtain ⟨k, heq, hk⟩ := tick_spec levels sink hr
  unfold drainRound at h
  rcases htick : r.tick levels sink with ⟨⟨i, _ | e⟩, r₁⟩
  · rw [htick] at h heq hk
    simp only at h heq hk
    have hle : r₁.span ≤ r.span := heq ▸ span_advance_iterate_le k _
    split_ifs at h with hforced
    · -- the forced frame
      have hne₁ : r₁.buf.keys.Nonempty := by
        rw [← Finset.card_pos] at hne ⊢
        exact lt_of_lt_of_eq hne hforced.1.symm
      obtain rfl : r₁.advance = r' := congrArg Prod.snd h
      exact lt_of_lt_of_le (span_advance_lt hne₁) hle
    · obtain rfl : r₁ = r' := congrArg Prod.snd h
      rcases Nat.eq_zero_or_pos k with rfl | hpos
      · -- a tick that plays nothing is followed by a forced frame
        refine absurd ⟨?_, ?_⟩ hforced
        · rw [heq]
          rfl
        · rw [heq]
          exact headReady_of_dllAdjust (r := r) (hk trivial).symm
      · obtain ⟨k, rfl⟩ := Nat.exists_eq_succ_of_ne_zero hpos.ne'
        rw [heq, iterate_succ_apply]
        refine lt_of_le_of_lt (span_advance_iterate_le k _) ?_
        exact span_advance_lt (r := { r with ticks := r.ticks + 1 }) hne
  · rw [htick] at h
    cases h

def playBuffered (levels : ℕ → Level) (sink : ℕ → Option ε) (r : Receiver) :
    Option ε × Receiver :=
  if hr : r.started = true ∧ r.buf.keys.Nonempty then
    match hround : r.drainRound levels sink with
    | (some e, r') => (some e, r')
    | (none, r') =>
      have := span_drainRound_lt hr.1 hr.2 hround
      r'.playBuffered levels sink
  else (none, r)
termination_by r.span

end Receiver

inductive RunErr (ε : Type)
  | ctx (e : ε)
  | recv (e : RecvErr ε)
  | sink (e : ε)

namespace Receiver

variable {ε : Type} {r r' : Receiver}

/-- `Run`. The context is asked twice for every packet, by `Run` and by `Recv`. -/
def run (levels : ℕ → Level) (sink : ℕ → Option ε) (R : ByteReader ε) (ctx : ℕ → Option ε)
    (s : R.State) (r : Receiver) : Option (RunErr ε) × Receiver :=
  match ctx 0 with
  | some e => (some (.ctx e), r)
  | none =>
    match hrecv : recv R (ctx 1) s with
    | (.error (.read .eof), _) =>
      let drained := r.playBuffered levels sink
      (drained.1.map .sink, drained.2)
    | (.error e, _) => (some (.recv e), r)
    | (.ok raw, s') =>
      have := length_content_recv_lt hrecv
      match decodePacket raw with
      | none => run levels sink R (fun n => ctx (n + 2)) s' (r.receive raw)
      | some _ =>
        match (r.receive raw).tick levels sink with
        | ((_, some e), r') => (some (.sink e), r')
        | ((_, none), r') => run levels sink R (fun n => ctx (n + 2)) s' r'
termination_by (R.content s).length

/-- What `Run` makes of a packet that it receives. -/
def heard (levels : ℕ → Level) (sink : ℕ → Option ε) (r : Receiver) (raw : List UInt8) :
    Receiver :=
  match decodePacket raw with
  | none => r.receive raw
  | some _ => ((r.receive raw).tick levels sink).2

/-! ### The invariant rule -/

/-- What questions to the controller and frames keep. -/
structure Playing (I : Receiver → Prop) : Prop where
  adjust : ∀ n r, I r → I { r with ticks := n }
  advance : ∀ r, r.started = true → I r → I r.advance

/-- What packets keep too. -/
structure Stable (I : Receiver → Prop) : Prop extends Playing I where
  receive : ∀ raw r, I r → I (r.receive raw)

namespace Playing

variable {I : Receiver → Prop} {levels : ℕ → Level} {sink : ℕ → Option ε}

variable (hI : Playing I)
include hI

lemma advance_iterate (hr : r.started = true) (h : I r) (k : ℕ) : I (Receiver.advance^[k] r) := by
  induction k generalizing r with
  | zero => exact h
  | succ k ih =>
    rw [iterate_succ_apply]
    exact ih ((started_advance r).trans hr) (hI.advance r hr h)

lemma tick (levels : ℕ → Level) (sink : ℕ → Option ε) (h : I r) : I (r.tick levels sink).2 := by
  by_cases hr : r.started = true
  · obtain ⟨k, heq, -⟩ := tick_spec levels sink hr
    rw [heq]
    exact hI.advance_iterate (r := { r with ticks := r.ticks + 1 }) hr (hI.adjust _ r h) k
  · rw [Receiver.tick, if_neg hr]
    exact h

lemma drainRound (levels : ℕ → Level) (sink : ℕ → Option ε) (hr : r.started = true) (h : I r) :
    I (r.drainRound levels sink).2 ∧ (r.drainRound levels sink).2.started = true := by
  have htick := hI.tick levels sink h
  obtain ⟨k, heq, -⟩ := tick_spec levels sink hr
  have hstarted : (r.tick levels sink).2.started = true := by
    rw [heq, started_advance_iterate]
    exact hr
  unfold Receiver.drainRound
  rcases hres : r.tick levels sink with ⟨⟨i, _ | e⟩, r₁⟩
  · rw [hres] at htick hstarted
    simp only
    split_ifs
    · exact ⟨hI.advance r₁ hstarted htick, (started_advance r₁).trans hstarted⟩
    · exact ⟨htick, hstarted⟩
  · rw [hres] at htick hstarted
    exact ⟨htick, hstarted⟩

theorem playBuffered (h : I r) : I (r.playBuffered levels sink).2 := by
  fun_induction Receiver.playBuffered levels sink r with
  | case1 r hr e r' hround =>
    have hnext := (hI.drainRound levels sink hr.1 h).1
    rwa [hround] at hnext
  | case2 r hr r' hround _ ih =>
    have hnext := (hI.drainRound levels sink hr.1 h).1
    rw [hround] at hnext
    exact ih hnext
  | case3 r hr => exact h

/-- `Run` keeps what frames keep, and packets that meet a condition in the state they come in, if
every packet of the stream meets it. -/
theorem run {Q : Receiver → List UInt8 → Prop}
    (hreceive : ∀ raw r, Q r raw → I r → I (r.receive raw)) {R : ByteReader ε}
    {ctx : ℕ → Option ε} {s : R.State} (h : I r)
    (hQ : Along (heard levels sink) Q r (recvAll R s).1) : I (r.run levels sink R ctx s).2 := by
  fun_induction Receiver.run levels sink R ctx s r with
  | case1 => exact h
  | case2 => exact hI.playBuffered h
  | case3 => exact h
  | case4 ctx s r _ raw s' hrecv _ hraw ih =>
    rw [recvAll_of_ok (recv_none_of_ok hrecv), along_cons, heard, hraw] at hQ
    exact ih (hreceive raw r hQ.1 h) hQ.2
  | case5 ctx s r _ raw s' hrecv _ _ hraw _ e r' htick =>
    rw [recvAll_of_ok (recv_none_of_ok hrecv), along_cons] at hQ
    have hnext := hI.tick levels sink (hreceive raw r hQ.1 h)
    rwa [htick] at hnext
  | case6 ctx s r _ raw s' hrecv _ _ hraw _ r' htick ih =>
    rw [recvAll_of_ok (recv_none_of_ok hrecv), along_cons, heard, hraw] at hQ
    have hnext := hI.tick levels sink (hreceive raw r hQ.1 h)
    rw [htick] at hnext hQ
    exact ih hnext hQ.2

end Playing

lemma Stable.heard {I : Receiver → Prop} (hI : Stable I) (levels : ℕ → Level)
    (sink : ℕ → Option ε) (r : Receiver) (raw : List UInt8) (h : I r) :
    I (heard levels sink r raw) := by
  unfold Receiver.heard
  split
  · exact hI.receive raw r h
  · exact hI.tick levels sink (hI.receive raw r h)

/-- What packets, questions to the controller and frames keep holds after `Run`. -/
theorem Stable.run {I : Receiver → Prop} {sink : ℕ → Option ε} (hI : Stable I)
    {R : ByteReader ε} {ctx : ℕ → Option ε} {s : R.State} (h : I r) :
    I (r.run levels sink R ctx s).2 :=
  hI.toPlaying.run (Q := fun _ _ => True) (fun raw r _ => hI.receive raw r) h
    (along_of_forall_mem fun _ _ _ => trivial)

end Receiver

end Cerberus.Audio
