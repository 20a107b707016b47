import Cerberus.Crdt.Registers
import Cerberus.Foundation.Stamp

/-!
# Key/value documents on many replicas

A document keeps one write per key. Of two writes the causally later one wins, and of concurrent
ones the one with the larger `tiebreak`. The two orders together need not be an order: a write can
be overwritten by one with a smaller tiebreak, while a third one, concurrent with both, lies between
them (`kv_diverges`).

If no write is overwritten by one with a smaller tiebreak (`Ascends`), a replica keeps the write
with the largest tiebreak among those that have reached it (`Latest`), and replicas converge
(`kv_converges`).
-/

namespace Cerberus.Crdt

open Foundation

open Kernel (Text)

/-- A call of `KvDoc::set`. -/
structure KvWrite where
  actor : Text
  key : Text
  value : Text
  deriving DecidableEq

namespace KvDoc

def replicated : Replicated KvDoc KvWrite :=
  ⟨.new, fun d op => d.set op.actor op.key op.value, merge⟩

variable {ι : Type*}

/-- The clock that a write is stamped with. -/
def stampOf (e : Entry ι KvDoc KvWrite) : VectorClock := e.before.state.clock.tick e.op.actor

/-- The write as a document keeps it. -/
def dotOf (e : Entry ι KvDoc KvWrite) : Dot := ⟨e.op.actor, e.op.value, stampOf e⟩

/-- A write for which the clock of its author has room, and whose tiebreak is above that of the
entry it replaces. -/
def Ascends (w : Cluster ι KvDoc KvWrite) : ReplicaEvent ι KvWrite → Prop
  | .update r op => (w.copies r).state.clock.count op.actor + 1 < 2 ^ 64 ∧
      ∀ mine ∈ (w.copies r).state.values.get? op.key,
        tiebreak mine < tiebreak (dotOf ⟨r, op, w.copies r⟩)
  | .publish _ => True
  | .deliver _ _ => True

instance decidableAscends (w : Cluster ι KvDoc KvWrite) :
    (ev : ReplicaEvent ι KvWrite) → Decidable (Ascends w ev)
  | .update r op => inferInstanceAs (Decidable (
      (w.copies r).state.clock.count op.actor + 1 < 2 ^ 64 ∧
      ∀ mine ∈ (w.copies r).state.values.get? op.key,
        tiebreak mine < tiebreak (dotOf ⟨r, op, w.copies r⟩)))
  | .publish _ => inferInstanceAs (Decidable True)
  | .deliver _ _ => inferInstanceAs (Decidable True)

/-! ### The largest tiebreak -/

/-- The entry with the largest tiebreak of a set of writes, if there is any write. -/
def Latest (S : Set Dot) : Option Dot → Prop
  | none => S = ∅
  | some d => d ∈ S ∧ ∀ e ∈ S, tiebreak e ≤ tiebreak d

section Latest

variable {S T : Set Dot} {d e : Dot} {o : Option Dot}

lemma Latest.le_of_mem (h : Latest S o) (hd : d ∈ S) :
    ∃ e ∈ o, tiebreak d ≤ tiebreak e := by
  cases o with
  | none =>
    rw [Latest] at h
    exact absurd (h ▸ hd) (Set.notMem_empty d)
  | some e => exact ⟨e, rfl, h.2 d hd⟩

lemma Latest.insert (h : Latest S o) (hd : ∀ e ∈ o, tiebreak e < tiebreak d) :
    Latest (insert d S) (some d) := by
  refine ⟨Set.mem_insert d S, ?_⟩
  rintro e (rfl | he)
  · exact le_rfl
  · obtain ⟨f, hf, hle⟩ := h.le_of_mem he
    exact hle.trans (hd f hf).le

/-- When the causal order does not contradict the tiebreaks, the winner of the entries of two sets
is the entry of the union. -/
lemma Latest.winner (h : Latest S (some d)) (h' : Latest T (some e))
    (hde : d.clock.happensBefore e.clock = true → tiebreak d ≤ tiebreak e)
    (hed : e.clock.happensBefore d.clock = true → tiebreak e ≤ tiebreak d) :
    Latest (S ∪ T) (some (winner d e)) := by
  have hright : tiebreak d ≤ tiebreak e → Latest (S ∪ T) (some e) := by
    refine fun hle => ⟨.inr h'.1, ?_⟩
    rintro f (hf | hf)
    · exact (h.2 f hf).trans hle
    · exact h'.2 f hf
  have hleft : tiebreak e ≤ tiebreak d → Latest (S ∪ T) (some d) := by
    refine fun hle => ⟨.inl h.1, ?_⟩
    rintro f (hf | hf)
    · exact h.2 f hf
    · exact (h'.2 f hf).trans hle
  rw [KvDoc.winner]
  split_ifs with h₁ h₂ h₃
  · exact hright (hde h₁)
  · exact hleft (hed h₂)
  · exact hright h₃.le
  · exact hleft (not_lt.mp h₃)

end Latest

lemma get?_merge (d d' : KvDoc) (k : Text) :
    (d.merge d').values.get? k = (d'.values.get? k).elim (d.values.get? k)
      fun theirs => some ((d.values.get? k).elim theirs fun mine => winner mine theirs) := by
  refine OrdMap.get?_foldl (g := fun mine theirs => mine.elim theirs (winner · theirs))
    (fun m k w => ?_) d.values d'.values k
  rw [mergeValue]
  cases m.get? k <;> rfl

/-! ### What a copy keeps -/

variable {log : List (Entry ι KvDoc KvWrite)}

/-- What a replica holds, said by the log alone. -/
structure Tracks (log : List (Entry ι KvDoc KvWrite)) (c : Copy KvDoc) : Prop where
  counts : Counts KvWrite.actor 1 stampOf clock log c
  latest : ∀ k, Latest (made KvWrite.key dotOf log c.received k) (c.state.values.get? k)
  /-- A write that had observed another one of its key has the larger tiebreak. -/
  ascending : ∀ i ∈ c.received, ∀ e ∈ log[i]?, ∀ j ∈ e.before.received, ∀ f ∈ log[j]?,
    f.op.key = e.op.key → tiebreak (dotOf f) < tiebreak (dotOf e)

lemma tracks_new : Tracks ([] : List (Entry ι KvDoc KvWrite)) ⟨.new, ∅⟩ where
  counts := .init rfl
  latest _ := made_empty
  ascending i hi := absurd hi (Finset.notMem_empty i)

namespace Tracks

variable {c c' : Copy KvDoc}

lemma append (hclosed : Closed log c.received) (h : Tracks log c) (e : Entry ι KvDoc KvWrite) :
    Tracks (log ++ [e]) c where
  counts := h.counts.append hclosed e
  latest k := by
    rw [made_append hclosed]
    exact h.latest k
  ascending i hi e' he' j hj f hf := by
    rw [List.getElem?_append_left (hclosed.lt_length hi)] at he'
    have hlt := hclosed.lt_length (hclosed.observed_subset hi he' hj)
    rw [List.getElem?_append_left hlt] at hf
    exact h.ascending i hi e' he' j hj f hf

lemma update (hclosed : Closed log c.received) (h : Tracks log c) (r : ι) {op : KvWrite}
    (hfits : c.state.clock.count op.actor + 1 < 2 ^ 64)
    (hasc : ∀ mine ∈ c.state.values.get? op.key, tiebreak mine < tiebreak (dotOf ⟨r, op, c⟩)) :
    Tracks (log ++ [⟨r, op, c⟩]) (c.update replicated log.length op) := by
  refine ⟨?_, fun k => ?_, fun i hi e he j hj f hf hkey => ?_⟩
  · exact h.counts.update hclosed rfl (fun a => Clock.count_tick hfits)
      (h.counts.positive.tick hfits) rfl (fun _ => rfl) (h.counts.positive.tick hfits)
  · rw [Copy.update, made_insert hclosed]
    refine Eq.subst (motive := Latest _) (OrdMap.get?_put c.state.values op.key k _).symm ?_
    split_ifs with hk
    · exact (h.latest k).insert (hk ▸ hasc)
    · exact h.latest k
  · rcases Finset.mem_insert.mp hi with rfl | hi
    · -- the new write: what it had observed is not above the entry it replaces
      have hnew : (log ++ [⟨r, op, c⟩])[log.length]? = some ⟨r, op, c⟩ := by simp
      rw [hnew] at he
      cases Option.mem_some.mp he
      rw [List.getElem?_append_left (hclosed.lt_length hj)] at hf
      obtain ⟨mine, hmine, hle⟩ := (h.latest op.key).le_of_mem ⟨j, hj, f, hf, hkey, rfl⟩
      exact lt_of_le_of_lt hle (hasc mine hmine)
    · exact (h.append hclosed ⟨r, op, c⟩).ascending i hi e he j hj f hf hkey

variable {w : Cluster ι KvDoc KvWrite} {home : Text → ι}

section

variable (hw : Causal w) (hhome : ∀ e ∈ w.log, e.site = home e.op.actor)
include hw hhome

lemma tiebreak_le (h : Tracks w.log c) (h' : Tracks w.log c') {k : Text} {d d' : Dot}
    (hd : d ∈ made KvWrite.key dotOf w.log c.received k)
    (hd' : d' ∈ made KvWrite.key dotOf w.log c'.received k)
    (hbefore : d.clock.happensBefore d'.clock = true) : tiebreak d ≤ tiebreak d' := by
  obtain ⟨i, hi, e, he, hke, rfl⟩ := hd
  obtain ⟨j, hj, f, hf, hkf, rfl⟩ := hd'
  have hse := h.counts.stamped i hi e he
  have hsf := h'.counts.stamped j hj f hf
  have hprec := (VectorClock.happensBefore_iff hse.positive hsf.positive).mp hbefore
  have hobs := (precedes_stamp_iff hw hhome Nat.one_pos he hf hse hsf).mp hprec
  exact (h'.ascending j hj f hf i hobs e he (hke.trans hkf.symm)).le

lemma merge (hc : w.Holds c) (hc' : w.Holds c') (h : Tracks w.log c) (h' : Tracks w.log c') :
    Tracks w.log (c.merge replicated c') where
  counts := h.counts.merge hw hhome hc hc' h'.counts rfl (VectorClock.count_merge _ _)
    (VectorClock.positive_merge h.counts.positive h'.counts.positive)
  latest k := by
    have hlatest := h.latest k
    have hlatest' := h'.latest k
    rw [Copy.merge, made_union]
    refine Eq.subst (motive := Latest _) (get?_merge c.state c'.state k).symm ?_
    cases hd' : c'.state.values.get? k with
    | none =>
      rw [hd', Latest] at hlatest'
      rw [hlatest', Set.union_empty]
      exact hlatest
    | some d' =>
      rw [hd'] at hlatest'
      cases hd : c.state.values.get? k with
      | none =>
        rw [hd, Latest] at hlatest
        rw [hlatest, Set.empty_union]
        exact hlatest'
      | some d =>
        rw [hd] at hlatest
        exact hlatest.winner hlatest' (h.tiebreak_le hw hhome h' hlatest.1 hlatest'.1)
          (h'.tiebreak_le hw hhome h hlatest'.1 hlatest.1)
  ascending i hi := by
    rcases Finset.mem_union.mp hi with hi | hi
    · exact h.ascending i hi
    · exact h'.ascending i hi

lemma eq_of_tiebreak_eq (h : Tracks w.log c) {k : Text} {d d' : Dot}
    (hd : d ∈ made KvWrite.key dotOf w.log c.received k)
    (hd' : d' ∈ made KvWrite.key dotOf w.log c.received k) (htie : tiebreak d = tiebreak d') :
    d = d' := by
  obtain ⟨i, hi, e, he, hke, rfl⟩ := hd
  obtain ⟨j, hj, f, hf, hkf, rfl⟩ := hd'
  have hactor : e.op.actor = f.op.actor := congrArg (fun t => (ofLex (ofLex t).2).2) htie
  rcases observed_of_author_eq hw hhome he hf hactor with rfl | hobs | hobs
  · rw [Option.mem_def.mp he] at hf
    cases hf
    rfl
  · exact absurd htie (h.ascending j hj f hf i hobs e he (hke.trans hkf.symm)).ne
  · exact absurd htie (h.ascending i hi e he j hobs f hf (hkf.trans hke.symm)).ne'

lemma values_eq
    (h : Tracks w.log c) (h' : Tracks w.log c') (hreceived : c.received = c'.received) (k : Text) :
    c.state.values.get? k = c'.state.values.get? k := by
  have hlatest := h.latest k
  have hlatest' := h'.latest k
  rw [← hreceived] at hlatest'
  cases hd : c.state.values.get? k with
  | none =>
    rw [hd, Latest] at hlatest
    cases hd' : c'.state.values.get? k with
    | none => rfl
    | some d' =>
      rw [hd'] at hlatest'
      exact absurd (hlatest ▸ hlatest'.1) (Set.notMem_empty d')
  | some d =>
    rw [hd] at hlatest
    obtain ⟨d', hd', hle⟩ := hlatest'.le_of_mem hlatest.1
    rw [Option.mem_def.mp hd'] at hlatest' ⊢
    refine congrArg some (h.eq_of_tiebreak_eq hw hhome hlatest.1 hlatest'.1 ?_)
    exact le_antisymm hle (hlatest.2 d' hlatest'.1)

end

lemma exists_head (h : Tracks w.log c) {k v : Text} (hget : c.state.get k = some v) :
    ∃ i ∈ unobserved KvWrite.key w.log c.received k, ∃ e ∈ w.log[i]?, e.op.value = v := by
  obtain ⟨d, hd, rfl⟩ := Option.map_eq_some_iff.mp hget
  have hlatest := h.latest k
  rw [hd] at hlatest
  obtain ⟨⟨i, hi, e, he, hk, rfl⟩, hmax⟩ := hlatest
  refine ⟨i, Finset.mem_filter.mpr ⟨hi, ⟨e, he, hk⟩, fun j hj f hf hkf hobs => ?_⟩, e, he, rfl⟩
  refine absurd (hmax _ ⟨j, hj, f, hf, hkf, rfl⟩) (not_le.mpr ?_)
  exact h.ascending j hj f hf i hobs e he (hk.trans hkf.symm)

end Tracks

/-! ### Runs -/

section Run

variable [DecidableEq ι] {es : List (ReplicaEvent ι KvWrite)}

/-- Key/value documents converge in every run in which each write has a larger tiebreak than the
entry it replaces: replicas that the same writes have reached agree, and return no value that a
write that has reached them had overwritten. -/
theorem kv_converges (h : SingleHomed KvWrite.actor es)
    (hasc : Along replicated.step Ascends replicated.cluster es) :
    (∀ r r', ((replicated.run es).copies r).received = ((replicated.run es).copies r').received →
      ∀ k, ((replicated.run es).copies r).state.get k =
        ((replicated.run es).copies r').state.get k) ∧
    ∀ r k v, ((replicated.run es).copies r).state.get k = some v →
      ∃ i ∈ (replicated.run es).heads KvWrite.key r k,
        ∃ e ∈ (replicated.run es).log[i]?, e.op.value = v := by
  have hrun : ∀ _ : ι, ∃ home : Text → ι, Replicated.Keeps Tracks
      (fun e => e.site = home e.op.actor) (replicated.run es) := fun r =>
    have : Nonempty ι := ⟨r⟩
    Replicated.keeps_run_of_singleHomed h tracks_new (fun log e c hc h => h.append hc e)
      (fun w r op hw h hasc => h.update (hw.closed _ (.inl ⟨r, rfl⟩)) r hasc.1 hasc.2)
      (fun home w c c' hw hhome hc hc' h h' => h.merge hw hhome hc hc' h') hasc
  refine ⟨fun r r' hreceived k => ?_, fun r k v hget => ?_⟩
  · obtain ⟨home, hkeeps⟩ := hrun r
    rw [get, get, Tracks.values_eq hkeeps.causal hkeeps.entries (hkeeps.copies _ (.inl ⟨r, rfl⟩))
      (hkeeps.copies _ (.inl ⟨r', rfl⟩)) hreceived k]
  · obtain ⟨home, hkeeps⟩ := hrun r
    exact (hkeeps.copies _ (.inl ⟨r, rfl⟩)).exists_head hget

end Run

def sampleRun : List (ReplicaEvent Sample.Site KvWrite) :=
  [.update .here ⟨Sample.alice, Sample.sky, Sample.blue⟩, .publish .here, .deliver .there 0,
    .update .there ⟨Sample.bob, Sample.sky, Sample.grey⟩, .publish .there, .deliver .here 1]

theorem kv_converges_sample :
    ((replicated.run sampleRun).copies .here).state.get Sample.sky =
        ((replicated.run sampleRun).copies .there).state.get Sample.sky ∧
      ((replicated.run sampleRun).copies .there).state.get Sample.sky = some Sample.grey := by
  have h := kv_converges (show SingleHomed KvWrite.actor sampleRun by decide) (by decide +kernel)
  exact ⟨h.1 .here .there (by decide +kernel) Sample.sky, by decide +kernel⟩

/-- The third write of the first actor is overwritten by the first write of the second one, and
concurrent with the second write of the third one. -/
def cyclicRun : List (ReplicaEvent (Fin 5) KvWrite) :=
  [.update 0 ⟨Sample.alice, Sample.sea, Sample.blue⟩,
    .update 0 ⟨Sample.alice, Sample.sea, Sample.blue⟩,
    .update 0 ⟨Sample.alice, Sample.sky, Sample.blue⟩, .publish 0,
    .update 2 ⟨Sample.carol, Sample.sea, Sample.blue⟩,
    .update 2 ⟨Sample.carol, Sample.sky, Sample.green⟩, .publish 2,
    .deliver 1 0, .update 1 ⟨Sample.bob, Sample.sky, Sample.grey⟩, .publish 1,
    .deliver 3 2, .deliver 3 1, .deliver 3 0, .deliver 4 0, .deliver 4 1, .deliver 4 2]

/-- Replicas that the same writes have reached disagree, and one of them returns the value of a
write that another one had overwritten. -/
theorem kv_diverges :
    SingleHomed KvWrite.actor cyclicRun ∧
      ((replicated.run cyclicRun).copies 3).received =
        ((replicated.run cyclicRun).copies 4).received ∧
      ((replicated.run cyclicRun).copies 3).state.get Sample.sky = some Sample.blue ∧
      ((replicated.run cyclicRun).copies 4).state.get Sample.sky = some Sample.grey ∧
      ¬ ∃ i ∈ (replicated.run cyclicRun).heads KvWrite.key 3 Sample.sky,
        ∃ e ∈ (replicated.run cyclicRun).log[i]?, e.op.value = Sample.blue := by
  refine ⟨by decide, by decide +kernel, by decide +kernel, by decide +kernel, by decide +kernel⟩

end KvDoc

end Cerberus.Crdt
