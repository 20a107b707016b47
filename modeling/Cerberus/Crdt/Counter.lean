import Cerberus.Crdt.Model
import Cerberus.Foundation.Replication

/-!
# The value of a replicated counter

Positive and negative amounts are kept apart, per actor, and a merge keeps the larger amount. When
an actor adds on one replica only, the amount that a replica has for it is the sum over the adds of
the actor that have reached the replica (`Exact`), as long as the sum fits into a counter.
-/

namespace Cerberus.Crdt

open Foundation Finset

open Clock (count count_lt)

open Kernel (Text)

structure Add where
  actor : Text
  delta : Int64
  deriving DecidableEq

namespace Add

/-- What an add contributes to the positive part. -/
def gain (op : Add) : ℕ := op.delta.toInt.toNat

/-- What an add contributes to the negative part. -/
def loss (op : Add) : ℕ := (-op.delta.toInt).toNat

end Add

namespace PnCounter

def replicated : Replicated PnCounter Add := ⟨.new, fun c op => c.add op.actor op.delta, merge⟩

/-! ### One step -/

lemma count_bump (m : OrdMap Text UInt64) (a b : Text) (x : UInt64) :
    count (bump m a x) b = (count m b + if b = a then x.toNat else 0) % 2 ^ 64 := by
  rw [bump, Clock.count_put]
  split_ifs with hb
  · rw [hb, UInt64.toNat_add]
    rfl
  · rw [Nat.add_zero, Nat.mod_eq_of_lt count_lt]

lemma count_foldl_raise (m m' : OrdMap Text UInt64) (b : Text) :
    count (m'.entries.foldl raise m) b = max (count m b) (count m' b) := by
  refine Clock.count_foldl (fun c a v b => ?_) m m' b
  rw [raise, Clock.count_put]
  split_ifs
  · exact UInt64.toNat_max _ _
  · rfl

lemma toNat_toUInt64_of_nonneg {x : Int64} (h : 0 ≤ x) : x.toUInt64.toNat = x.toInt.toNat := by
  rw [Int64.toNat_toUInt64_of_le h]
  rfl

lemma toNat_toUInt64_neg {x : Int64} (h : ¬ 0 ≤ x) : (-x).toUInt64.toNat = (-x.toInt).toNat := by
  rw [Int64.le_iff_toInt_le] at h
  have hx : x.toInt = x.toBitVec.toInt := rfl
  have hneg : (-x).toUInt64.toNat = (-x.toBitVec).toNat := rfl
  rw [hneg, BitVec.toNat_neg, hx]
  rw [hx, BitVec.toInt_eq_toNat_cond] at h
  rw [BitVec.toInt_eq_toNat_cond]
  have hlt := x.toBitVec.isLt
  simp only [Int64.toInt_zero] at h
  split_ifs at h ⊢ <;> omega

lemma count_add_p (c : PnCounter) (op : Add) (b : Text) :
    count (c.add op.actor op.delta).p b =
      (count c.p b + if b = op.actor then op.gain else 0) % 2 ^ 64 := by
  rw [add]
  split_ifs with h hb hb
  · rw [count_bump, if_pos hb, toNat_toUInt64_of_nonneg h, Add.gain]
  · rw [count_bump, if_neg hb]
  · rw [Int64.le_iff_toInt_le, Int64.toInt_zero, not_le] at h
    rw [Add.gain, Int.toNat_of_nonpos h.le, Nat.add_zero, Nat.mod_eq_of_lt count_lt]
  · rw [Nat.add_zero, Nat.mod_eq_of_lt count_lt]

lemma count_add_n (c : PnCounter) (op : Add) (b : Text) :
    count (c.add op.actor op.delta).n b =
      (count c.n b + if b = op.actor then op.loss else 0) % 2 ^ 64 := by
  rw [add]
  split_ifs with h hb hb
  · rw [Int64.le_iff_toInt_le, Int64.toInt_zero] at h
    rw [Add.loss, Int.toNat_of_nonpos (Int.neg_nonpos_of_nonneg h), Nat.add_zero,
      Nat.mod_eq_of_lt count_lt]
  · rw [Nat.add_zero, Nat.mod_eq_of_lt count_lt]
  · rw [count_bump, if_pos hb, toNat_toUInt64_neg h, Add.loss]
  · rw [count_bump, if_neg hb]

/-! ### Runs -/

section Run

variable {ι : Type*}

/-- A part has the sum of what has reached the replica, if that fits. -/
def Exact (part : PnCounter → OrdMap Text UInt64) (amount : Add → ℕ)
    (log : List (Entry ι PnCounter Add)) (c : Copy PnCounter) : Prop :=
  total amount log c.received < 2 ^ 64 →
    ∀ a, count (part c.state) a = tally Add.actor amount log a c.received

variable [DecidableEq ι] {part : PnCounter → OrdMap Text UInt64} {amount : Add → ℕ}
  {es : List (ReplicaEvent ι Add)}

theorem exact_run [Nonempty ι] (part : PnCounter → OrdMap Text UInt64) (amount : Add → ℕ)
    (hnew : part .new = .empty)
    (hadd : ∀ c op b, count (part (add c op.actor op.delta)) b =
      (count (part c) b + if b = op.actor then amount op else 0) % 2 ^ 64)
    (hmerge : ∀ c c', part (merge c c') = (part c').entries.foldl raise (part c))
    (h : SingleHomed Add.actor es) (r : ι) :
    Exact part amount (replicated.run es).log ((replicated.run es).copies r) := by
  suffices hkeeps : ∃ home : Text → ι, Replicated.Keeps (Exact part amount)
      (fun e => e.site = home e.op.actor) (replicated.run es) by
    obtain ⟨home, hkeeps⟩ := hkeeps
    exact hkeeps.copies _ (.inl ⟨r, rfl⟩)
  refine Replicated.keeps_run_of_singleHomed (P := fun _ _ => True) h ?_ ?_ ?_ ?_
    (along_of_forall_mem fun _ _ _ => trivial)
  · intro _ a
    exact congrArg (count · a) hnew
  · intro log e c hc h hlt a
    rw [tally_append fun _ => hc.lt_length]
    rw [total_append hc] at hlt
    exact h hlt a
  · intro w r op hw h _ hlt a
    have hclosed := hw.closed _ (.inl ⟨r, rfl⟩)
    have hle : total amount w.log (w.copies r).received < 2 ^ 64 := by
      rw [← total_append hclosed ⟨r, op, w.copies r⟩]
      exact lt_of_le_of_lt (total_mono (subset_insert w.log.length _)) hlt
    have hfits : tally Add.actor amount (w.log ++ [⟨r, op, w.copies r⟩]) a
        (insert w.log.length (w.copies r).received) < 2 ^ 64 :=
      lt_of_le_of_lt tally_le_total hlt
    rw [Copy.update, tally_insert hclosed]
    rw [tally_insert hclosed] at hfits
    rw [replicated, hadd, h hle a]
    exact Nat.mod_eq_of_lt hfits
  · intro home w c c' hw hhome hc hc' h h' hlt a
    have hle : total amount w.log c.received < 2 ^ 64 :=
      lt_of_le_of_lt (total_mono subset_union_left) hlt
    have hle' : total amount w.log c'.received < 2 ^ 64 :=
      lt_of_le_of_lt (total_mono subset_union_right) hlt
    rw [Copy.merge, hw.tally_union hhome (hw.closed c hc) (hw.closed c' hc'), ← h hle a,
      ← h' hle' a, ← count_foldl_raise, ← hmerge]
    rfl

/-! ### The value -/

lemma toNat_foldl_add (l : List (Text × UInt64)) (acc : UInt64) :
    (l.foldl (fun acc e => acc + e.2) acc).toNat =
      (acc.toNat + (l.map fun e => e.2.toNat).sum) % 2 ^ 64 := by
  induction l generalizing acc with
  | nil => exact (Nat.mod_eq_of_lt acc.toNat_lt).symm
  | cons e l ih =>
    rw [List.foldl_cons, ih, UInt64.toNat_add, List.map_cons, List.sum_cons, ← Nat.add_assoc,
      Nat.mod_add_mod]

omit [DecidableEq ι] in
lemma toNat_sum {log : List (Entry ι PnCounter Add)} {c : Copy PnCounter}
    (hclosed : Closed log c.received) (h : Exact part amount log c)
    (hlt : total amount log c.received < 2 ^ 64) :
    (sum (part c.state)).toNat = total amount log c.received := by
  have hA : ∀ a ∉ (part c.state).keys.toFinset,
      tally Add.actor amount log a c.received = 0 := by
    intro a ha
    rw [List.mem_toFinset, OrdMap.mem_keys_iff, not_not] at ha
    rw [← h hlt a, count, Clock.get, ha]
    rfl
  have hsum : ((part c.state).entries.map fun e => e.2.toNat).sum =
      total amount log c.received := by
    rw [total_eq_sum_tally hclosed hA, List.sum_toFinset _ (OrdMap.keys_nodup _)]
    refine (OrdMap.sum_eq_sum_keys (fun _ v => v.toNat) (part c.state)).trans ?_
    refine congrArg List.sum (List.map_congr_left fun a ha => ?_)
    rw [← h hlt a, OrdMap.weightAt, count, Clock.get]
    cases (part c.state).get? a <;> rfl
  rw [sum, toNat_foldl_add, hsum]
  simpa using Nat.mod_eq_of_lt hlt

lemma toInt_sub_toInt64 {x y : UInt64} (hx : x.toNat < 2 ^ 63) (hy : y.toNat < 2 ^ 63) :
    (x.toInt64 - y.toInt64).toInt = x.toNat - y.toNat := by
  have hsigned : ∀ {z : UInt64}, z.toNat < 2 ^ 63 → z.toInt64.toInt = z.toNat := fun {z} hz =>
    BitVec.toInt_eq_toNat_of_lt (show 2 * z.toNat < 2 ^ 64 by omega)
  rw [Int64.toInt_sub, hsigned hx, hsigned hy]
  refine Int.bmod_eq_of_le ?_ ?_ <;> omega

omit [DecidableEq ι] in
lemma total_delta (log : List (Entry ι PnCounter Add)) (S : Finset ℕ) :
    total (fun op => op.delta.toInt) log S =
      ((total Add.gain log S : ℕ) : ℤ) - (total Add.loss log S : ℕ) := by
  rw [total, total, total, Nat.cast_sum, Nat.cast_sum, ← sum_sub_distrib]
  refine sum_congr rfl fun i _ => ?_
  cases log[i]? with
  | none => rfl
  | some e =>
    simp only [Option.elim_some, Add.gain, Add.loss]
    omega

/-- The counter counts every update once: the value of a replica is the sum of the deltas of the
adds that have reached it. -/
theorem value_eq_gathered (h : SingleHomed Add.actor es) (r : ι)
    (hgain : (replicated.run es).gathered Add.gain r < 2 ^ 63)
    (hloss : (replicated.run es).gathered Add.loss r < 2 ^ 63) :
    ((replicated.run es).copies r).state.value.toInt =
      (replicated.run es).gathered (fun op => op.delta.toInt) r := by
  have hne : Nonempty ι := ⟨r⟩
  have hclosed := (Replicated.causal_run (T := replicated) es).closed _ (.inl ⟨r, rfl⟩)
  have hp := exact_run p Add.gain rfl count_add_p (fun _ _ => rfl) h r
  have hn := exact_run n Add.loss rfl count_add_n (fun _ _ => rfl) h r
  have hpsum := toNat_sum hclosed hp (hgain.trans (by decide))
  have hnsum := toNat_sum hclosed hn (hloss.trans (by decide))
  rw [Cluster.gathered, ← hpsum] at hgain
  rw [Cluster.gathered, ← hnsum] at hloss
  rw [value, toInt_sub_toInt64 hgain hloss, hpsum, hnsum, Cluster.gathered, total_delta]

end Run

/-- Two replicas: five are added on the first and two taken away on the second, which merges the
same snapshot of the first one twice. -/
def sampleRun : List (ReplicaEvent Sample.Site Add) :=
  [.update .here ⟨Sample.alice, 5⟩, .publish .here, .update .there ⟨Sample.bob, -2⟩,
    .deliver .there 0, .deliver .there 0]

theorem value_eq_gathered_sample :
    ((replicated.run sampleRun).copies .there).state.value.toInt =
        (replicated.run sampleRun).gathered (fun op => op.delta.toInt) .there ∧
      (replicated.run sampleRun).gathered (fun op => op.delta.toInt) .there = 3 := by
  have hhome : SingleHomed Add.actor sampleRun := by decide
  exact ⟨value_eq_gathered hhome .there (by decide +kernel) (by decide +kernel),
    by decide +kernel⟩

end PnCounter

end Cerberus.Crdt
