import Cerberus.Audio.Playout

/-!
# The drain at the end of a stream

`PlayBuffered` goes on until the buffer is empty. With a sink that does not fail it is a number of
calls of `playOne` (`playBuffered_eq`). Every call but the last two finds the buffer non-empty,
which bounds their number by the distance to the farthest buffered frame (`span`).
-/

namespace Cerberus.Audio

open Foundation Function Finmap
open Finset hiding sup_le

def Slot.playedFrame : Slot → Option Frame
  | played f => some f
  | concealed _ => none

namespace Receiver

variable {ε : Type} {r : Receiver}

/-- The buffered frames, in the order of their sequence numbers. -/
def bufferedFrames (r : Receiver) : List Frame :=
  (r.buf.keys.sort (· ≤ ·)).filterMap r.buf.lookup

/-- No buffered frame is behind the next sequence number. -/
def Ahead (r : Receiver) : Prop := ∀ q ∈ r.buf.keys, r.nextSeq ≤ q

/-! ### One frame -/

lemma lt_of_mem_erase (h : r.Ahead) {q : UInt64} (hq : q ∈ r.buf.keys.erase r.nextSeq) :
    r.nextSeq < q := by
  obtain ⟨hne, hmem⟩ := mem_erase.mp hq
  exact UInt64.lt_of_le_of_ne (h q hmem) (Ne.symm hne)

lemma Ahead.advance (h : r.Ahead) : r.advance.Ahead := by
  intro q hq
  rw [keys_advance] at hq
  have hlt := UInt64.lt_iff_toNat_lt.mp (lt_of_mem_erase h hq)
  have hmax := q.toNat_lt
  rw [nextSeq_advance, UInt64.le_iff_toNat_le, toNat_succ (by omega)]
  omega

lemma written_advance (h : r.Ahead) : ∃ w : Slot,
    r.advance.journal.written = r.journal.written ++ [w] ∧
      w.playedFrame.toList ++ r.advance.bufferedFrames = r.bufferedFrames := by
  rcases hhead : r.buf.lookup r.nextSeq with _ | f
  · rw [advance_of_none hhead]
    exact ⟨_, rfl, rfl⟩
  · have hmem : r.nextSeq ∈ r.buf.keys :=
      mem_keys.mpr (mem_of_lookup_eq_some hhead)
    have hsort : r.buf.keys.sort (· ≤ ·) =
        r.nextSeq :: (r.buf.keys.erase r.nextSeq).sort (· ≤ ·) := by
      conv_lhs => rw [← insert_erase hmem]
      exact sort_insert _ (fun q hq => UInt64.le_of_lt (lt_of_mem_erase h hq))
        (notMem_erase _ _)
    have hrest : ∀ q ∈ (r.buf.keys.erase r.nextSeq).sort (· ≤ ·),
        r.buf.lookup q = (r.buf.erase r.nextSeq).lookup q := by
      intro q hq
      rw [mem_sort] at hq
      exact (lookup_erase_ne (ne_of_mem_erase hq)).symm
    refine ⟨.played f, ?_, ?_⟩
    · rw [advance_of_some hhead]
    · have hbuf : r.advance.buf = r.buf.erase r.nextSeq := by rw [advance_of_some hhead]
      rw [bufferedFrames, keys_advance, hbuf, bufferedFrames, hsort, List.filterMap_cons, hhead,
        List.filterMap_congr hrest]
      rfl

lemma written_advance_iterate (h : r.Ahead) (k : ℕ) : ∃ ws : List Slot,
    (advance^[k] r).journal.written = r.journal.written ++ ws ∧ ws.length = k ∧
      ws.filterMap Slot.playedFrame ++ (advance^[k] r).bufferedFrames = r.bufferedFrames := by
  induction k generalizing r with
  | zero => exact ⟨[], (List.append_nil _).symm, rfl, rfl⟩
  | succ k ih =>
    obtain ⟨w, hw, hframe⟩ := written_advance h
    obtain ⟨ws, hws, hlength, hframes⟩ := ih h.advance
    refine ⟨w :: ws, ?_, congrArg Nat.succ hlength, ?_⟩
    · rw [iterate_succ_apply, hws, hw, List.append_assoc]
      rfl
    · rw [iterate_succ_apply, ← hframe, ← hframes, ← List.append_assoc]
      congr 1
      rcases hplayed : w.playedFrame with _ | f
      · rw [List.filterMap_cons_none hplayed]
        rfl
      · rw [List.filterMap_cons_some hplayed]
        rfl

/-! ### Rounds -/

/-- The receiver with its count of ticks set. -/
def asked (t : ℕ) (r : Receiver) : Receiver := { r with ticks := t }

lemma advance_asked (t : ℕ) (r : Receiver) : (r.asked t).advance = r.advance.asked t := by
  rcases h : r.buf.lookup r.nextSeq with _ | f
  · rw [advance_of_none h, advance_of_none (r := r.asked t) h]
    rfl
  · rw [advance_of_some h, advance_of_some (r := r.asked t) h]
    rfl

lemma advance_iterate_asked (t k : ℕ) (r : Receiver) :
    advance^[k] (r.asked t) = (advance^[k] r).asked t := by
  induction k generalizing r with
  | zero => rfl
  | succ k ih => rw [iterate_succ_apply, iterate_succ_apply, advance_asked, ih]

lemma playLoop_eq (i n : ℕ) (r : Receiver) :
    playLoop (fun _ => (none : Option ε)) i n r = ((i + n, none), advance^[n] r) := by
  induction n generalizing i r with
  | zero => rfl
  | succ n ih =>
    rw [playLoop, playOne]
    simp only
    rw [ih, iterate_succ_apply, Nat.add_right_comm, Nat.add_assoc]

lemma tick_eq {levels : ℕ → Level} (hr : r.started = true) {d : ℕ}
    (hd : (r.dllAdjust levels).1 = d) : r.tick levels (fun _ => (none : Option ε)) =
      ((d, none), (advance^[d] r).asked (r.ticks + 1)) := by
  rw [tick, if_pos hr]
  simp only
  rw [playLoop_eq, hd, Nat.zero_add]
  exact congrArg _ (advance_iterate_asked _ d r)

lemma keys_advance_iterate_subset (k : ℕ) (r : Receiver) :
    (advance^[k] r).buf.keys ⊆ r.buf.keys := by
  induction k generalizing r with
  | zero => exact Finset.Subset.refl _
  | succ k ih =>
    refine (ih r.advance).trans ?_
    rw [keys_advance]
    exact erase_subset _ _

lemma span_advance_iterate_add {k : ℕ} (hne : (advance^[k] r).buf.keys.Nonempty) :
    k + 1 + (advance^[k + 1] r).span ≤ r.span := by
  have hlt := span_advance_lt (hne.mono (keys_advance_iterate_subset k r))
  induction k generalizing r with
  | zero =>
    rw [Nat.zero_add, Nat.add_comm]
    exact hlt
  | succ k ih =>
    have hle := ih (r := r.advance) hne
      (span_advance_lt (hne.mono (keys_advance_iterate_subset k r.advance)))
    rw [iterate_succ_apply]
    omega

variable (levels : ℕ → Level)

lemma dllAdjust_le (r : Receiver) : (r.dllAdjust levels).1 ≤ 2 := by
  unfold dllAdjust
  simp only
  split
  · exact le_rfl
  · split_ifs <;> omega
  · omega

/-- A round writes some frames. While they are written the buffer is not empty, but for the last
one, after which the round is over and the buffer still empty. -/
lemma drainRound_eq (hr : r.started = true) (hne : r.buf.keys.Nonempty) :
    ∃ k, r.drainRound levels (fun _ => (none : Option ε)) =
        (none, (advance^[k] r).asked (r.ticks + 1)) ∧
      (k + (advance^[k] r).span ≤ r.span ∨ (advance^[k] r).buf.keys = ∅ ∧ k ≤ r.span + 1) := by
  obtain ⟨d, hd⟩ : ∃ d, (r.dllAdjust levels).1 = d := ⟨_, rfl⟩
  have htick := tick_eq (ε := ε) hr hd
  rw [drainRound, htick]
  simp only
  split_ifs with hforced
  · -- nothing was played, so the buffer is not empty when the forced frame is written
    refine ⟨d + 1, ?_, .inl (span_advance_iterate_add ?_)⟩
    · rw [playOne, advance_asked, iterate_succ_apply']
    · rw [← card_pos] at hne ⊢
      exact lt_of_lt_of_eq hne hforced.1.symm
  · refine ⟨d, rfl, ?_⟩
    have hpos : d ≠ 0 := by
      rintro rfl
      exact hforced ⟨rfl, headReady_of_dllAdjust (r := r) hd⟩
    have hle : d ≤ 2 := hd ▸ dllAdjust_le levels r
    obtain rfl | rfl : d = 1 ∨ d = 2 := by omega
    · exact .inl (span_advance_iterate_add (k := 0) hne)
    · rcases r.advance.buf.keys.eq_empty_or_nonempty with hempty | hne'
      · have hspan := span_advance_lt hne
        have hnil : (advance^[2] r).buf.keys = ∅ :=
          subset_empty.mp (hempty ▸ keys_advance_iterate_subset 1 r.advance)
        exact .inr ⟨hnil, by omega⟩
      · exact .inl (span_advance_iterate_add (k := 1) hne')

lemma playBuffered_eq (hidle : r.started = false → r.buf = ∅) :
    ∃ n t, r.playBuffered levels (fun _ => (none : Option ε)) =
        (none, (advance^[n] r).asked t) ∧
      (advance^[n] r).buf.keys = ∅ ∧ n ≤ r.span + 1 ∧ (r.buf.keys = ∅ → n = 0) := by
  fun_induction Receiver.playBuffered levels (fun _ => (none : Option ε)) r with
  | case1 r hr e r' hround =>
    obtain ⟨k, heq, -⟩ := drainRound_eq (ε := ε) levels hr.1 hr.2
    rw [heq] at hround
    cases hround
  | case2 r hr r' hround _ ih =>
    obtain ⟨k, heq, hk⟩ := drainRound_eq (ε := ε) levels hr.1 hr.2
    obtain rfl : (advance^[k] r).asked (r.ticks + 1) = r' :=
      congrArg Prod.snd (heq.symm.trans hround)
    obtain ⟨n, t, hdrain, hempty, hn, hzero⟩ := ih fun hr' => by
      have hstarted := (started_advance_iterate k r).trans hr.1
      exact absurd (hstarted.symm.trans hr') (Bool.noConfusion)
    rw [advance_iterate_asked, ← iterate_add_apply] at hdrain hempty
    refine ⟨n + k, t, hdrain, hempty, ?_, fun hnil => absurd hnil hr.2.ne_empty⟩
    rcases hk with hspan | ⟨hnil, hle⟩
    · have hn' : n ≤ (advance^[k] r).span + 1 := hn
      omega
    · rw [hzero hnil, Nat.zero_add]
      exact hle
  | case3 r hr =>
    have hnil : r.buf.keys = ∅ := by
      rcases hstarted : r.started with _ | _
      · rw [hidle hstarted]
        rfl
      · exact not_nonempty_iff_eq_empty.mp fun hne => hr ⟨hstarted, hne⟩
    exact ⟨0, r.ticks, rfl, hnil, Nat.zero_le _, fun _ => rfl⟩

/-! ### The drain -/

lemma Ahead.span_le (h : r.Ahead) {m : UInt64} (hm : ∀ q ∈ r.buf.keys, q ≤ m) :
    r.span ≤ m.toNat - r.nextSeq.toNat + 1 := by
  refine Finset.sup_le fun q hq => ?_
  have hle := UInt64.le_iff_toNat_le.mp (hm q hq)
  rw [UInt64.toNat_sub_of_le _ _ (h q hq)]
  omega

structure Drained (r r' : Receiver) : Prop where
  empty : r'.buf = ∅
  /-- Every buffered frame is written once, in the order of the sequence numbers, and besides them
  only the concealed places up to the last one and one more. -/
  written : ∃ ws : List Slot, r'.journal.written = r.journal.written ++ ws ∧
    ws.filterMap Slot.playedFrame = r.bufferedFrames ∧
    (∀ m ∈ r.buf.keys, (∀ q ∈ r.buf.keys, q ≤ m) → ws.length ≤ m.toNat - r.nextSeq.toNat + 2) ∧
    (r.buf = ∅ → ws = [])

/-- A receiver that has received something decodable has started, and the frames it has buffered are
not behind the next sequence number. -/
lemma idle_and_ahead_of_run (cfg : ReceiverConfig) (f : Format)
    (es : List Event) (hwrap : (runFrom (step levels) (newReceiver cfg f) es).NoWrap) :
    ((runFrom (step levels) (newReceiver cfg f) es).started = false →
        (runFrom (step levels) (newReceiver cfg f) es).buf = ∅) ∧
      (runFrom (step levels) (newReceiver cfg f) es).Ahead := by
  obtain ⟨hc, ho⟩ := runFrom_keeps (stable_ordered.step levels) (s := newReceiver cfg f)
    ⟨counted_newReceiver cfg f, fun _ => Ordered.of_idle rfl rfl rfl (by simp [newReceiver])⟩ es
  refine ⟨fun hr => (hc.idle hr).1, fun q hq => ?_⟩
  obtain ⟨g, hg⟩ := mem_iff.mp (mem_keys.mp hq)
  exact ((ho hwrap).of_lookup q g hg).1

/-- A receiver that has nothing buffered before it starts, and nothing behind the next sequence
number, is drained by `PlayBuffered`, whatever the controller decides. -/
theorem playBuffered_drained (levels : ℕ → Level) (r : Receiver)
    (hidle : r.started = false → r.buf = ∅) (hnext : ∀ q ∈ r.buf.keys, r.nextSeq ≤ q) :
    (r.playBuffered levels fun _ => (none : Option ε)).1 = none ∧
      Drained r (r.playBuffered levels fun _ => (none : Option ε)).2 := by
  obtain ⟨n, t, heq, hempty, hn, hzero⟩ := playBuffered_eq (ε := ε) levels hidle
  obtain ⟨ws, hwritten, hlength, hframes⟩ := written_advance_iterate hnext n
  have hnil : (advance^[n] r).bufferedFrames = [] := by
    rw [bufferedFrames, hempty, sort_empty]
    rfl
  rw [hnil, List.append_nil] at hframes
  rw [heq]
  refine ⟨rfl, ext_lookup fun q => ?_, ws, hwritten, hframes, fun m _ hm => ?_,
    fun hbuf => ?_⟩
  · rw [lookup_empty, lookup_eq_none, ← mem_keys]
    exact hempty ▸ notMem_empty q
  · have hspan := Ahead.span_le hnext hm
    omega
  · refine List.eq_nil_of_length_eq_zero ?_
    rw [hlength, hzero (by rw [hbuf]; rfl)]

/-- Packets 7 and 9 are buffered, and packet 8 is missing. -/
theorem playBuffered_drained_gap :
    Drained (runFrom (step fun _ => .near) (newReceiver ⟨0, 0, .hold⟩ ⟨48000, 1⟩)
        [.receive (Sample.packet 7).encode, .receive (Sample.packet 9).encode])
      ((runFrom (step fun _ => .near) (newReceiver ⟨0, 0, .hold⟩ ⟨48000, 1⟩)
        [.receive (Sample.packet 7).encode, .receive (Sample.packet 9).encode]).playBuffered
          (fun _ => .under) fun _ => (none : Option Unit)).2 :=
  have hready := idle_and_ahead_of_run (fun _ => .near) ⟨0, 0, .hold⟩ ⟨48000, 1⟩
    [.receive (Sample.packet 7).encode, .receive (Sample.packet 9).encode]
    (by unfold NoWrap; decide)
  (playBuffered_drained (fun _ => .under) _ hready.1 hready.2).2

/-- The bound is attained: the last frame may be played in a tick that plays two. -/
theorem length_written_of_over {levels : ℕ → Level} (hr : r.started = true)
    (hkeys : r.buf.keys = {r.nextSeq}) (hlevel : levels r.ticks = .over) :
    (r.playBuffered levels fun _ => (none : Option ε)).2.journal.written.length =
      r.journal.written.length + 2 := by
  have hempty : (advance^[2] r).buf.keys = ∅ := by
    refine subset_empty.mp ((keys_advance_iterate_subset 1 r.advance).trans ?_)
    rw [keys_advance, hkeys, erase_singleton]
  have hround : r.drainRound levels (fun _ => (none : Option ε)) =
      (none, (advance^[2] r).asked (r.ticks + 1)) := by
    have hd : (r.dllAdjust levels).1 = 2 := by rw [dllAdjust, hlevel]
    rw [drainRound, tick_eq hr hd]
    refine if_neg fun hforced => ?_
    have hcard : (advance^[2] r).buf.keys.card = r.buf.keys.card := hforced.1
    rw [hempty, hkeys] at hcard
    cases hcard
  have hne : r.buf.keys.Nonempty := hkeys ▸ singleton_nonempty _
  rw [playBuffered, dif_pos ⟨hr, hne⟩]
  split
  · rename_i heq
    rw [hround] at heq
    cases heq
  · rename_i heq
    rw [hround] at heq
    cases heq
    rw [playBuffered, dif_neg fun h => h.2.ne_empty hempty]
    exact (length_written_advance _).trans (congrArg Nat.succ (length_written_advance r))

end Receiver

end Cerberus.Audio
