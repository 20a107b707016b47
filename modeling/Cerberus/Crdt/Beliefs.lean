import Cerberus.Crdt.Registers
import Cerberus.Foundation.Stamp

/-!
# Belief documents on many replicas

An assertion ticks the clock of its author twice, so the clock of a document counts two for every
assertion that has reached it. When every actor asserts on one replica only, the order of the clocks
stamped on assertions is the order in which they had observed each other (`before_dotOf_iff`).
-/

namespace Cerberus.Crdt

open Foundation Option Finset

open Kernel (Text)

structure Assertion where
  actor : Text
  subject : Text
  value : Text
  deriving DecidableEq

namespace BeliefDoc

def replicated : Replicated BeliefDoc Assertion :=
  ⟨.new, fun d op => d.assert op.actor op.subject op.value, merge⟩

variable {ι : Type*}

/-- The clock that an assertion is stamped with. -/
def stampOf (e : Entry ι BeliefDoc Assertion) : VectorClock :=
  e.before.state.context e.op.actor e.op.subject

/-- The write that an assertion puts into a register. -/
def dotOf (e : Entry ι BeliefDoc Assertion) : Dot := ⟨e.op.actor, e.op.value, stampOf e⟩

/-- The writes about a subject among assertions. -/
abbrev seen (log : List (Entry ι BeliefDoc Assertion)) (S : Finset ℕ) (s : Text) : Set Dot :=
  made Assertion.subject dotOf log S s

/-- No counter wraps around. -/
def Fits (w : Cluster ι BeliefDoc Assertion) : ReplicaEvent ι Assertion → Prop
  | .update r op => (w.copies r).state.clock.count op.actor + 2 < 2 ^ 64
  | .publish _ => True
  | .deliver _ _ => True

instance decidableFits (w : Cluster ι BeliefDoc Assertion) :
    (ev : ReplicaEvent ι Assertion) → Decidable (Fits w ev)
  | .update r op =>
    inferInstanceAs (Decidable ((w.copies r).state.clock.count op.actor + 2 < 2 ^ 64))
  | .publish _ => inferInstanceAs (Decidable True)
  | .deliver _ _ => inferInstanceAs (Decidable True)

/-! ### Documents -/

section Document

variable {d d' : BeliefDoc} {s t : Text}

lemma dots_assert (d : BeliefDoc) (actor subject value s : Text) :
    (d.assert actor subject value).dots s =
      if s = subject then
        (MvRegister.absorb ⟨d.dots s⟩ ⟨actor, value, d.context actor subject⟩).dots
      else d.dots s := by
  rw [dots, assert, OrdMap.get?_put]
  split_ifs with h
  · rw [h]
    rfl
  · rfl

lemma dots_merge (d d' : BeliefDoc) (s : Text) :
    (d.merge d').dots s = ((d'.dots s).foldl MvRegister.absorb ⟨d.dots s⟩).dots := by
  rw [dots, merge,
    OrdMap.get?_foldl (g := fun reg new => (reg.getD .new).merge new) fun _ _ _ => rfl]
  cases hd : d'.claims.get? s with
  | none => simp [dots, hd, MvRegister.new]
  | some reg => simp [dots, hd, MvRegister.merge]

/-- No register is empty. -/
def Occupied (d : BeliefDoc) : Prop := ∀ s reg, d.claims.get? s = some reg → reg.dots ≠ []

lemma Occupied.assert (h : Occupied d) (actor subject value : Text) :
    Occupied (d.assert actor subject value) := by
  intro s reg hreg
  rw [BeliefDoc.assert, OrdMap.get?_put] at hreg
  split_ifs at hreg
  · rw [← Option.some.inj hreg]
    exact MvRegister.absorb_ne_nil _ _
  · exact h s reg hreg

lemma Occupied.merge (h : Occupied d) (h' : Occupied d') : Occupied (d.merge d') := by
  intro s reg hreg
  rw [BeliefDoc.merge,
    OrdMap.get?_foldl (g := fun reg new => (reg.getD .new).merge new) fun _ _ _ => rfl] at hreg
  cases hd : d'.claims.get? s with
  | none =>
    rw [hd] at hreg
    exact h s reg hreg
  | some reg' =>
    rw [hd] at hreg
    rw [← Option.some.inj hreg]
    exact MvRegister.foldl_absorb_ne_nil (.inr (h' s reg' hd))

lemma Occupied.claims_eq (h : Occupied d) (h' : Occupied d') (hdots : ∀ s, d.dots s = d'.dots s) :
    d.claims = d'.claims := by
  have hget : ∀ {d : BeliefDoc}, Occupied d → ∀ s,
      d.claims.get? s = if d.dots s = [] then none else some ⟨d.dots s⟩ := by
    intro d h s
    cases hreg : d.claims.get? s with
    | none => simp [dots, hreg, MvRegister.new]
    | some reg => simp [dots, hreg, h s reg hreg]
  refine OrdMap.ext_get? fun s => ?_
  rw [hget h, hget h', hdots]

lemma consensus_eq_some {v : Text} (hne : d.dots s ≠ []) (h : ∀ w ∈ d.dots s, w.value = v) :
    d.consensus s = some v := by
  cases hreg : d.claims.get? s with
  | none => exact absurd (by rw [dots, hreg]; rfl) hne
  | some reg =>
    have hdots : d.dots s = reg.dots := by rw [dots, hreg]; rfl
    rw [hdots] at hne h
    obtain ⟨w, l, hl⟩ := List.exists_cons_of_ne_nil hne
    have hw : w.value = v := h w (by simp [hl])
    have hall : (reg.dots.all fun e => e.value = w.value) = true :=
      List.all_eq_true.mpr fun e he => decide_eq_true ((h e he).trans hw.symm)
    have hhead : reg.dots.head? = some w := by rw [hl]; rfl
    rw [consensus, hreg]
    simp only [bind_eq_bind, bind_some, hhead]
    rw [if_pos hall, hw]

end Document

/-! ### What a copy keeps -/

variable {log : List (Entry ι BeliefDoc Assertion)} {S S' : Finset ℕ} {s : Text}

/-- What a replica holds, said by the log alone. -/
structure Tracks (log : List (Entry ι BeliefDoc Assertion)) (c : Copy BeliefDoc) : Prop where
  counts : Counts Assertion.actor 2 stampOf clock log c
  frontier : ∀ s, IsFrontier Dot.before (seen log c.received s) (c.state.dots s)
  sorted : ∀ s, SortedBy Dot.sortKey (c.state.dots s)
  occupied : c.state.Occupied

lemma tracks_new : Tracks ([] : List (Entry ι BeliefDoc Assertion)) ⟨.new, ∅⟩ where
  counts := .init rfl
  frontier s := by
    rw [seen, made_empty]
    exact IsFrontier.empty
  sorted _ := List.Pairwise.nil
  occupied s reg h := by cases h

namespace Tracks

variable {c c' : Copy BeliefDoc}

lemma positive_of_seen (h : Tracks log c) {d : Dot} (hd : d ∈ seen log c.received s) :
    d.clock.Positive := by
  obtain ⟨i, hi, e, he, -, rfl⟩ := hd
  exact (h.counts.stamped i hi e he).positive

lemma strictOn (h : Tracks log c) (s : Text) : StrictOn Dot.before (seen log c.received s) :=
  Dot.strictOn_before.mono fun _ hd => h.positive_of_seen hd

section

variable (hclosed : Closed log c.received)
include hclosed

variable (h : Tracks log c)
include h

lemma count_le {d : Dot}
    (hd : d ∈ c.state.dots s) (a : Text) : d.clock.count a ≤ c.state.clock.count a := by
  obtain ⟨i, hi, e, he, -, rfl⟩ := (h.frontier s).subset d hd
  exact h.counts.stamp_le hclosed hi he a

lemma count_folded {actor : Text} (htick : c.state.clock.count actor + 1 < 2 ^ 64) (s a : Text) :
    Clock.count ((c.state.dots s).foldl (fun ctx dot => VectorClock.merge ctx dot.clock)
      (c.state.clock.tick actor)) a = c.state.clock.count a + if a = actor then 1 else 0 :=
  VectorClock.count_foldl_merge (Clock.count_tick htick) fun _ hd =>
    (h.count_le hclosed hd a).trans (Nat.le_add_right _ _)

lemma count_context {actor : Text}
    (hfits : c.state.clock.count actor + 2 < 2 ^ 64) (subject a : Text) :
    (c.state.context actor subject).count a =
      c.state.clock.count a + if a = actor then 2 else 0 := by
  rw [context, Clock.count_tick, h.count_folded hclosed (by omega)]
  · split_ifs <;> rfl
  · rw [h.count_folded hclosed (by omega), if_pos rfl]
    omega

lemma positive_context {actor : Text}
    (hfits : c.state.clock.count actor + 2 < 2 ^ 64) (subject : Text) :
    (c.state.context actor subject).Positive := by
  have htick : c.state.clock.count actor + 1 < 2 ^ 64 := by omega
  refine Clock.Positive.tick (VectorClock.positive_foldl_merge (h.counts.positive.tick htick)
    fun d hd => h.positive_of_seen ((h.frontier subject).subset d hd)) ?_
  rw [h.count_folded hclosed htick, if_pos rfl]
  omega

lemma append (e : Entry ι BeliefDoc Assertion) : Tracks (log ++ [e]) c where
  counts := h.counts.append hclosed e
  frontier s := by
    rw [seen, made_append hclosed]
    exact h.frontier s
  sorted := h.sorted
  occupied := h.occupied

lemma update (r : ι) {op : Assertion} (hfits : c.state.clock.count op.actor + 2 < 2 ^ 64) :
    Tracks (log ++ [⟨r, op, c⟩]) (c.update replicated log.length op) := by
  have hcount := h.count_context hclosed hfits op.subject
  have hpos := h.positive_context hclosed hfits op.subject
  have hclock : ∀ a, Clock.count (c.state.assert op.actor op.subject op.value).clock a =
      (c.state.context op.actor op.subject).count a := by
    intro a
    refine (VectorClock.count_merge _ _ a).trans (max_eq_right ?_)
    rw [hcount, Clock.count_tick (by omega)]
    refine Nat.add_le_add_left ?_ _
    split_ifs <;> omega
  refine ⟨?_, fun s => ?_, fun s => ?_, ?_⟩
  · refine h.counts.update hclosed rfl hcount hpos rfl hclock ?_
    exact VectorClock.positive_merge (h.counts.positive.tick (by omega)) hpos
  · rw [Copy.update, seen, made_insert hclosed, replicated, dots_assert]
    split_ifs with hs
    · refine ((h.frontier s).absorb ?_).of_perm (MvRegister.absorb_perm _ _)
      refine Dot.strictOn_before.mono ?_
      rintro d (rfl | hd)
      · exact hpos
      · exact h.positive_of_seen hd
    · exact h.frontier s
  · rw [Copy.update, replicated, dots_assert]
    split_ifs
    · exact MvRegister.absorb_sorted ⟨c.state.dots s⟩ (h.sorted s) _
    · exact h.sorted s
  · exact h.occupied.assert op.actor op.subject op.value

end

lemma merge {w : Cluster ι BeliefDoc Assertion} {home : Text → ι} (hw : Causal w)
    (hhome : ∀ e ∈ w.log, e.site = home e.op.actor) (hc : w.Holds c) (hc' : w.Holds c')
    (h : Tracks w.log c) (h' : Tracks w.log c') : Tracks w.log (c.merge replicated c') where
  counts := h.counts.merge hw hhome hc hc' h'.counts rfl (VectorClock.count_merge _ _)
    (VectorClock.positive_merge h.counts.positive h'.counts.positive)
  frontier s := by
    rw [Copy.merge, seen, made_union, replicated, dots_merge]
    refine (h.frontier s).merge MvRegister.dots MvRegister.absorb_perm
      (h'.frontier s) (Dot.strictOn_before.mono ?_)
    rintro d (hd | hd)
    · exact h.positive_of_seen hd
    · exact h'.positive_of_seen hd
  sorted s := by
    rw [Copy.merge, replicated, dots_merge]
    exact MvRegister.foldl_absorb_sorted ⟨c.state.dots s⟩ (h.sorted s) _
  occupied := h.occupied.merge h'.occupied

end Tracks

/-! ### Runs -/

section Run

variable [DecidableEq ι] {es : List (ReplicaEvent ι Assertion)}

/-- Every actor has a home, and every replica tracks the log. -/
structure Sound (home : Text → ι) (w : Cluster ι BeliefDoc Assertion) : Prop where
  causal : Causal w
  home : ∀ e ∈ w.log, e.site = home e.op.actor
  tracks : ∀ r, Tracks w.log (w.copies r)

/-- In every run in which each actor asserts on one replica and no counter overflows, the copies
keep the invariant. -/
theorem sound_run [Nonempty ι] (h : SingleHomed Assertion.actor es)
    (hfits : Along replicated.step Fits replicated.cluster es) :
    ∃ home : Text → ι, Sound home (replicated.run es) := by
  obtain ⟨home, hkeeps⟩ := Replicated.keeps_run_of_singleHomed (I := Tracks) h tracks_new
    (fun log e c hc h => h.append hc e)
    (fun w r op hw h hfits => h.update (hw.closed _ (.inl ⟨r, rfl⟩)) r hfits)
    (fun home w c c' hw hhome hc hc' h h' => h.merge hw hhome hc hc' h') hfits
  exact ⟨home, hkeeps.causal, hkeeps.entries, fun r => hkeeps.copies _ (.inl ⟨r, rfl⟩)⟩

namespace Sound

omit [DecidableEq ι]

variable {w : Cluster ι BeliefDoc Assertion} {home : Text → ι} {e : Entry ι BeliefDoc Assertion}

variable (h : Sound home w)
include h

lemma stamped {i : ℕ} (he : w.log[i]? = some e) : Stamped Assertion.actor 2 stampOf w.log i e :=
  (h.tracks e.site).counts.stamped i (h.causal.own i e he) e he

/-- The write of an assertion is before that of another one iff the other one had observed
it. -/
lemma before_dotOf_iff {i j : ℕ} {e f : Entry ι BeliefDoc Assertion}
    (he : w.log[i]? = some e) (hf : w.log[j]? = some f) :
    Dot.before (dotOf e) (dotOf f) = true ↔ i ∈ f.before.received := by
  rw [← precedes_stamp_iff h.causal h.home Nat.two_pos he hf (h.stamped he) (h.stamped hf)]
  exact Dot.before_iff (h.stamped he).positive (h.stamped hf).positive

lemma mem_dots_iff (r : ι) (s : Text) {d : Dot} :
    d ∈ (w.copies r).state.dots s ↔
      ∃ i ∈ w.heads Assertion.subject r s, (w.log[i]?).map dotOf = some d := by
  rw [((h.tracks r).frontier s).mem_iff ((h.tracks r).strictOn s)]
  constructor
  · rintro ⟨⟨i, hi, e, he, hs, rfl⟩, hmax⟩
    refine ⟨i, mem_filter.mpr ⟨hi, ⟨e, he, hs⟩, fun j hj f hf hsf hobs => ?_⟩, ?_⟩
    · have hbefore := (h.before_dotOf_iff he hf).mpr hobs
      rw [hmax _ ⟨j, hj, f, hf, hsf, rfl⟩] at hbefore
      cases hbefore
    · rw [mem_def.mp he, map_some]
  · rintro ⟨i, hi, hd⟩
    obtain ⟨hmem, ⟨e, he, hs⟩, hno⟩ := mem_filter.mp hi
    rw [mem_def.mp he, map_some] at hd
    cases hd
    refine ⟨⟨i, hmem, e, he, hs, rfl⟩, ?_⟩
    rintro _ ⟨j, hj, f, hf, hsf, rfl⟩
    refine Bool.eq_false_of_not_eq_true fun hbefore => hno j hj f hf hsf ?_
    exact (h.before_dotOf_iff he hf).mp hbefore

lemma dots_eq_heads (r : ι) (s : Text) :
    ((w.copies r).state.dots s : Multiset Dot) =
      (w.heads Assertion.subject r s).val.filterMap fun i => (w.log[i]?).map dotOf := by
  have hnodup : ((w.heads Assertion.subject r s).val.filterMap
      fun i => (w.log[i]?).map dotOf).Nodup := by
    refine Multiset.Nodup.filterMap _ (fun i j d hi hj => ?_) (Finset.nodup _)
    obtain ⟨e, he, hed⟩ := map_eq_some_iff.mp hi
    obtain ⟨f, hf, hfd⟩ := map_eq_some_iff.mp hj
    exact eq_of_stamp_eq h.causal h.home Nat.two_pos he hf (h.stamped he) (h.stamped hf)
      (congrArg Dot.clock (hed.trans hfd.symm))
  have hdots : ((w.copies r).state.dots s : Multiset Dot).Nodup :=
    Multiset.coe_nodup.mpr ((h.tracks r).frontier s).nodup
  refine (Multiset.Nodup.ext hdots hnodup).mpr fun d => ?_
  rw [Multiset.mem_coe, Multiset.mem_filterMap]
  exact h.mem_dots_iff r s

lemma eq_of_actor_eq (r : ι) {s : Text} {d d' : Dot}
    (hd : d ∈ (w.copies r).state.dots s) (hd' : d' ∈ (w.copies r).state.dots s)
    (hactor : d.actor = d'.actor) : d = d' := by
  have hfrontier := (h.tracks r).frontier s
  obtain ⟨i, -, e, he, -, rfl⟩ := hfrontier.subset d hd
  obtain ⟨j, -, f, hf, -, rfl⟩ := hfrontier.subset d' hd'
  rcases observed_of_author_eq h.causal h.home he hf hactor with rfl | hobs | hobs
  · rw [mem_def.mp he] at hf
    cases hf
    rfl
  · have hbefore := (h.before_dotOf_iff he hf).mpr hobs
    rw [hfrontier.antichain _ hd _ hd'] at hbefore
    cases hbefore
  · have hbefore := (h.before_dotOf_iff hf he).mpr hobs
    rw [hfrontier.antichain _ hd' _ hd] at hbefore
    cases hbefore

lemma claims_eq {r r' : ι} (hreceived : (w.copies r).received = (w.copies r').received) :
    (w.copies r).state.claims = (w.copies r').state.claims := by
  refine (h.tracks r).occupied.claims_eq (h.tracks r').occupied fun s => ?_
  have hperm := ((h.tracks r).frontier s).perm (hreceived ▸ (h.tracks r').frontier s)
    ((h.tracks r).strictOn s)
  refine ((h.tracks r).sorted s).eq_of_perm ((h.tracks r').sorted s) hperm
    fun d hd d' hd' hkey => ?_
  exact h.eq_of_actor_eq r hd hd' (congrArg (fun k => (ofLex k).1) hkey)

lemma consensus_of_last {r : ι} {n : ℕ}
    (he : w.log[n]? = some e) (hreceived : (w.copies r).received = insert n e.before.received) :
    (w.copies r).state.consensus e.op.subject = some e.op.value := by
  have hn : n ∈ (w.copies r).received := hreceived ▸ mem_insert_self ..
  refine consensus_eq_some (fun hnil => ?_) fun d hd => ?_
  · have hseen : dotOf e ∈ seen w.log (w.copies r).received e.op.subject :=
      ⟨n, hn, e, he, rfl, rfl⟩
    rcases ((h.tracks r).frontier e.op.subject).covers _ hseen with hmem | ⟨d, hmem, -⟩
    · exact absurd (hnil ▸ hmem) List.not_mem_nil
    · exact absurd (hnil ▸ hmem) List.not_mem_nil
  · obtain ⟨i, hi, hdot⟩ := (h.mem_dots_iff r e.op.subject).mp hd
    obtain ⟨hmem, -, hno⟩ := mem_filter.mp hi
    rw [hreceived] at hmem
    rcases mem_insert.mp hmem with rfl | hobs
    · rw [he, map_some] at hdot
      rw [← Option.some.inj hdot]
      rfl
    · exact absurd hobs (hno n hn e he rfl)

end Sound

/-- Belief documents converge and lose nothing: a replica retains, for each subject, exactly the
assertions that have reached it and that no other one about the subject had observed; replicas that
the same assertions have reached agree; and an assertion is the consensus on its replica. -/
theorem beliefs_converge (h : SingleHomed Assertion.actor es)
    (hfits : Along replicated.step Fits replicated.cluster es) :
    (∀ r s, (((replicated.run es).copies r).state.dots s : Multiset Dot) =
      ((replicated.run es).heads Assertion.subject r s).val.filterMap
        fun i => ((replicated.run es).log[i]?).map dotOf) ∧
    (∀ r r', ((replicated.run es).copies r).received = ((replicated.run es).copies r').received →
      (∀ s, ((replicated.run es).copies r).state.consensus s =
        ((replicated.run es).copies r').state.consensus s) ∧
      ((replicated.run es).copies r).state.conflicts =
        ((replicated.run es).copies r').state.conflicts) ∧
    ∀ pre r op, es = pre ++ [.update r op] →
      ((replicated.run es).copies r).state.consensus op.subject = some op.value := by
  refine ⟨fun r s => ?_, fun r r' hreceived => ?_, ?_⟩
  · have hne : Nonempty ι := ⟨r⟩
    obtain ⟨home, hsound⟩ := sound_run h hfits
    exact hsound.dots_eq_heads r s
  · have hne : Nonempty ι := ⟨r⟩
    obtain ⟨home, hsound⟩ := sound_run h hfits
    have hclaims := hsound.claims_eq hreceived
    exact ⟨fun s => by rw [consensus, consensus, hclaims], by rw [conflicts, conflicts, hclaims]⟩
  · rintro pre r op rfl
    have hne : Nonempty ι := ⟨r⟩
    obtain ⟨home, hsound⟩ := sound_run h hfits
    have hrun : replicated.run (pre ++ [.update r op]) =
        replicated.step (replicated.run pre) (.update r op) := runFrom_append _ _ _
    have hlog : (replicated.run (pre ++ [.update r op])).log[(replicated.run pre).log.length]? =
        some ⟨r, op, (replicated.run pre).copies r⟩ := by
      rw [hrun]
      exact List.getElem?_concat_length
    refine hsound.consensus_of_last hlog ?_
    rw [hrun, Replicated.copies_step_update]
    rfl

end Run

/-- Two replicas on which different things are asserted, and which then exchange their states. -/
def sampleRun : List (ReplicaEvent Sample.Site Assertion) :=
  [.update .here ⟨Sample.alice, Sample.sky, Sample.blue⟩, .publish .here,
    .update .there ⟨Sample.bob, Sample.sky, Sample.grey⟩, .publish .there, .deliver .here 1,
    .deliver .there 0]

theorem beliefs_converge_sample :
    ((replicated.run sampleRun).copies .here).state.conflicts =
        ((replicated.run sampleRun).copies .there).state.conflicts ∧
      ((replicated.run sampleRun).copies .there).state.conflicts =
        [⟨Sample.sky, [(Sample.alice, Sample.blue), (Sample.bob, Sample.grey)]⟩] := by
  have h := beliefs_converge (show SingleHomed Assertion.actor sampleRun by decide)
    (by decide +kernel)
  exact ⟨(h.2.1 .here .there (by decide +kernel)).2, by decide +kernel⟩

end BeliefDoc

end Cerberus.Crdt
