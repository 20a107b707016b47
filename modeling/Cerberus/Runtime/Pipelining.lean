import Cerberus.Runtime.Model

/-!
# Promise pipelining

`pump` runs stages round by round, and takes all stages of a round out of the table before it runs
the first one. Running a stage does not read the pending stages, so a round is the same as running
its stages one at a time (`settle`), in any order in which they are ready. `Sound` is the invariant
of such steps: every handle that has a result got it once and from the results of its dependencies,
which do not change any more. This needs handles that are not used twice, which the counter gives as
long as it does not wrap around.
-/

namespace Cerberus.Runtime

open Foundation Finmap
open List hiding mem_keys mem_singleton take

open PromiseTable

open Finmap (mem_insert mem_of_lookup_eq_some lookup_insert_of_ne lookup_insert lookup_erase_ne)

variable {E : Executor} {s : PromiseTable} {h : PromiseHandle} {stage : Stage}

/-! ### A round is a sequence of single steps -/

/-- All dependencies of a pending stage are resolved. -/
def Ready (s : PromiseTable) (h : PromiseHandle) : Prop :=
  ∃ stage, s.pending.lookup h = some stage ∧ ∀ d ∈ stage.deps, d ∈ s.results

lemma mem_ready : h ∈ s.ready ↔ Ready s h := by
  simp only [ready, Finset.mem_filter, mem_keys, Option.any_eq_true, all_eq_true,
    decide_eq_true_eq]
  constructor
  · rintro ⟨-, stage, hstage, hdeps⟩
    exact ⟨stage, hstage, hdeps⟩
  · rintro ⟨stage, hstage, hdeps⟩
    exact ⟨mem_of_lookup_eq_some hstage, stage, hstage, hdeps⟩

variable (E) in
/-- One stage is run and taken out of the table. -/
def settle (s : PromiseTable) (h : PromiseHandle) : PromiseTable :=
  match s.pending.lookup h with
  | some stage => { s.run E (h, stage) with pending := s.pending.erase h }
  | none => s

lemma settle_of_lookup (hstage : s.pending.lookup h = some stage) :
    settle E s h = { s.run E (h, stage) with pending := s.pending.erase h } := by
  rw [settle, hstage]

variable (ids : List PromiseHandle)

lemma foldl_run_take (s : PromiseTable) :
    (take ids s.pending).1.foldl (run E) { s with pending := (take ids s.pending).2 } =
      ids.foldl (settle E) s := by
  induction ids generalizing s with
  | nil => rfl
  | cons h ids ih =>
    rw [take, foldl_cons, ← ih, settle]
    cases s.pending.lookup h with
    | none => rfl
    | some stage => rfl

variable {o : Traversal PromiseHandle} {n : ℕ} {t : PromiseTable} {cs cs' : List Call}

lemma pumpRound_of_empty (hready : s.ready = ∅) : pumpRound E o s = .inr s := by
  have hnil : o.enum s.ready = [] := by
    refine eq_nil_iff_forall_not_mem.mpr fun h hh => ?_
    rw [o.mem_enum, hready] at hh
    exact absurd hh (Finset.notMem_empty h)
  simp [pumpRound, hnil, take]

lemma exists_enum_ready (o : Traversal PromiseHandle) (hready : s.ready.Nonempty) :
    ∃ h ids stage, o.enum s.ready = h :: ids ∧ s.pending.lookup h = some stage := by
  obtain ⟨h, hh⟩ := hready
  cases hids : o.enum s.ready with
  | nil =>
    rw [← o.mem_enum, hids] at hh
    exact absurd hh not_mem_nil
  | cons h' ids =>
    have hh' : h' ∈ s.ready := o.mem_enum.mp (hids ▸ mem_cons_self)
    obtain ⟨stage, hstage, -⟩ := mem_ready.mp hh'
    exact ⟨h', ids, stage, rfl, hstage⟩

lemma pumpRound_of_nonempty (hready : s.ready.Nonempty) :
    pumpRound E o s = .inl ((o.enum s.ready).foldl (settle E) s) := by
  have htaken : (take (o.enum s.ready) s.pending).1.isEmpty = false := by
    obtain ⟨h, ids, stage, hids, hstage⟩ := exists_enum_ready o hready
    rw [hids, take, hstage]
    rfl
  simp only [pumpRound, htaken, Bool.false_eq_true, if_false, foldl_run_take]

/-! ### The loop ends -/

lemma card_settle_lt (hstage : s.pending.lookup h = some stage) :
    (settle E s h).pending.keys.card < s.pending.keys.card := by
  rw [settle_of_lookup hstage]
  refine Finset.card_lt_card ?_
  rw [keys_erase]
  exact Finset.erase_ssubset (mem_keys.mpr (mem_of_lookup_eq_some hstage))

lemma card_settle_le (s : PromiseTable) (h : PromiseHandle) :
    (settle E s h).pending.keys.card ≤ s.pending.keys.card := by
  cases hstage : s.pending.lookup h with
  | none => rw [settle, hstage]
  | some stage => exact (card_settle_lt hstage).le

lemma card_foldl_settle_le (s : PromiseTable) :
    (ids.foldl (settle E) s).pending.keys.card ≤ s.pending.keys.card := by
  induction ids generalizing s with
  | nil => exact le_rfl
  | cons h ids ih => exact (ih _).trans (card_settle_le s h)

lemma card_pumpRound_lt {s' : PromiseTable} (hround : pumpRound E o s = .inl s') :
    s'.pending.keys.card < s.pending.keys.card := by
  rcases s.ready.eq_empty_or_nonempty with hready | hready
  · rw [pumpRound_of_empty hready] at hround
    cases hround
  · rw [pumpRound_of_nonempty hready] at hround
    cases hround
    obtain ⟨h, ids, stage, hids, hstage⟩ := exists_enum_ready o hready
    rw [hids]
    exact (card_foldl_settle_le ids _).trans_lt (card_settle_lt hstage)

lemma returns_pump (o : Traversal PromiseHandle) (s : PromiseTable) :
    Returns (pumpRound E o) s (s.pump E o) := by
  have hloop : ∃ s', loop (pumpRound E o) (s.pending.keys.card + 1) s = some s' :=
    exists_loop_eq_some (fun s => s.pending.keys.card) (fun _ _ hround => card_pumpRound_lt hround)
      (Nat.lt_succ_self _)
  obtain ⟨s', hs'⟩ := hloop
  refine ⟨s.pending.keys.card + 1, ?_⟩
  rw [pump, hs']
  rfl

/-! ### What a stage reads -/

section Gather

variable {results : Finmap fun _ : PromiseHandle => TaskResult} {deps : List PromiseHandle}

lemma gather_eq_ok_iff {outputs : List (List UInt8)} : gather results deps = .ok outputs ↔
    List.Forall₂ (fun d out => ∃ r, results.lookup d = some r ∧ r.ok = true ∧ r.output = out)
      deps outputs := by
  induction deps generalizing outputs with
  | nil =>
    rw [gather, forall₂_nil_left_iff]
    constructor
    · intro heq
      cases heq
      rfl
    · rintro rfl
      rfl
  | cons d deps ih =>
    rw [gather, forall₂_cons_left_iff]
    cases hlookup : results.lookup d with
    | none =>
      simp
    | some r =>
      by_cases hok : r.ok = true
      · simp only [if_pos hok, Option.some.injEq, exists_eq_left']
        cases hrest : gather results deps with
        | ok outs =>
          simp only [Except.map, Except.ok.injEq]
          constructor
          · rintro rfl
            exact ⟨r.output, outs, ⟨hok, rfl⟩, ih.mp hrest, rfl⟩
          · rintro ⟨-, outs', ⟨-, rfl⟩, houts, rfl⟩
            rw [Except.ok.inj (hrest.symm.trans (ih.mpr houts))]
        | error e =>
          simp only [Except.map, reduceCtorEq, false_iff]
          rintro ⟨-, outs', -, houts, -⟩
          exact absurd (hrest.symm.trans (ih.mpr houts)) (by simp)
      · simp only [if_neg hok, reduceCtorEq, false_iff]
        rintro ⟨out, outs, ⟨r', hr', hok', -⟩, -⟩
        cases hr'
        exact hok hok'

lemma exists_gather_eq_error (hdeps : ∀ d ∈ deps, d ∈ results) {d : PromiseHandle} (hd : d ∈ deps)
    {r : TaskResult} (hr : results.lookup d = some r) (hok : r.ok = false) :
    ∃ d' ∈ deps, ∃ r', results.lookup d' = some r' ∧ r'.ok = false ∧
      gather results deps = .error (rejected d' r'.error) := by
  induction deps with
  | nil => exact absurd hd not_mem_nil
  | cons d₀ deps ih =>
    obtain ⟨r₀, hr₀⟩ := mem_iff.mp (hdeps d₀ mem_cons_self)
    rw [gather, hr₀]
    by_cases hok₀ : r₀.ok = true
    · have hrest : d ∈ deps := by
        rcases mem_cons.mp hd with rfl | hrest
        · rw [hr] at hr₀
          cases hr₀
          exact absurd hok₀ (by simp [hok])
        · exact hrest
      obtain ⟨d', hd', r', hr', hok', heq⟩ := ih (fun d hd => hdeps d (mem_cons_of_mem _ hd))
        hrest
      refine ⟨d', mem_cons_of_mem _ hd', r', hr', hok', ?_⟩
      simp only [if_pos hok₀, heq]
      rfl
    · refine ⟨d₀, mem_cons_self, r₀, hr₀, by simpa using hok₀, ?_⟩
      simp only [if_neg hok₀]

lemma gather_congr {results' : Finmap fun _ : PromiseHandle => TaskResult}
    (heq : ∀ d ∈ deps, results'.lookup d = results.lookup d) :
    gather results' deps = gather results deps := by
  induction deps with
  | nil => rfl
  | cons d deps ih =>
    rw [gather, gather, heq d mem_cons_self,
      ih fun d hd => heq d (mem_cons_of_mem _ hd)]

lemma gather_insert (hh : h ∉ results) (r : TaskResult) (hdeps : ∀ d ∈ deps, d ∈ results) :
    gather (results.insert h r) deps = gather results deps := by
  refine gather_congr fun d hd => lookup_insert_of_ne _ ?_
  rintro rfl
  exact hh (hdeps d hd)

variable (hh : h ∉ results) (r : TaskResult) (hdeps : ∀ d ∈ stage.deps, d ∈ results)
include hh hdeps

lemma runStage_insert : runStage E (results.insert h r) stage = runStage E results stage := by
  unfold runStage
  rw [gather_insert hh r hdeps]

lemma executes_insert : executes (results.insert h r) stage = executes results stage := by
  unfold executes
  rw [gather_insert hh r hdeps]

end Gather

/-! ### What holds between calls -/

/-- A set holds the handles that were dispatched directly, and every pipelined one whose
dependencies it holds. -/
structure Closed (jobs : List (PromiseHandle × Job)) (S : Set PromiseHandle) : Prop where
  direct : ∀ h t, (h, Job.direct t) ∈ jobs → h ∈ S
  pipelined : ∀ h stage, (h, Job.pipelined stage) ∈ jobs → (∀ d ∈ stage.deps, d ∈ S) → h ∈ S

/-- The stage was run on the results of its dependencies. -/
structure Settled (E : Executor) (s : PromiseTable) (h : PromiseHandle) (stage : Stage) : Prop where
  deps : ∀ d ∈ stage.deps, d ∈ s.results
  result : s.results.lookup h = some (runStage E s.results stage)
  executed : h ∈ s.executed ↔ executes s.results stage = true

/-- The histories fit the results, and no handle is in one of them twice. -/
structure Logged (s : PromiseTable) : Prop where
  resolved : ∀ h, h ∈ s.resolved ↔ h ∈ s.results
  resolved_nodup : s.resolved.Nodup
  executed : ∀ h ∈ s.executed, h ∈ s.results
  executed_nodup : s.executed.Nodup

/-- What holds between calls as long as no handle is used twice. -/
structure Sound (E : Executor) (s : PromiseTable) : Prop extends Logged s where
  handles : (s.jobs.map Prod.fst).Nodup
  issued : ∀ h ∈ s.results, h ∈ s.jobs.map Prod.fst
  pending : ∀ h stage, s.pending.lookup h = some stage →
    (h, Job.pipelined stage) ∈ s.jobs ∧ h ∉ s.results
  direct : ∀ h t, (h, Job.direct t) ∈ s.jobs → s.results.lookup h = some (E t) ∧ h ∈ s.executed
  pipelined : ∀ h stage, (h, Job.pipelined stage) ∈ s.jobs →
    s.pending.lookup h = some stage ∨ Settled E s h stage
  grounded : ∀ S, Closed s.jobs S → ∀ h ∈ s.results, h ∈ S

lemma sound_new : Sound E .new := by
  refine ⟨⟨?_, ?_, ?_, ?_⟩, ?_, ?_, ?_, ?_, ?_, ?_⟩ <;>
    simp [PromiseTable.new, notMem_empty]

variable {h' : PromiseHandle}

section Record

variable {t : PromiseTable} {r : TaskResult} {b : Bool}

lemma mem_executed_of_record (hexecuted : t.executed = if b then s.executed ++ [h] else s.executed)
    (h' : PromiseHandle) : h' ∈ t.executed ↔ h' ∈ s.executed ∨ (h' = h ∧ b = true) := by
  rw [hexecuted]
  cases b <;> simp

lemma Logged.record (hs : Logged s) (hfresh : h ∉ s.results)
    (hresults : t.results = s.results.insert h r) (hresolved : t.resolved = s.resolved ++ [h])
    (hexecuted : t.executed = if b then s.executed ++ [h] else s.executed) : Logged t := by
  have hmem : ∀ h', h' ∈ t.results ↔ h' = h ∨ h' ∈ s.results := fun h' => by
    rw [hresults, mem_insert]
  refine ⟨?_, ?_, ?_, ?_⟩
  · intro h'
    rw [hresolved, mem_append, List.mem_singleton, hs.resolved, hmem]
    exact or_comm
  · rw [hresolved, ← concat_eq_append]
    exact hs.resolved_nodup.concat fun hh => hfresh ((hs.resolved h).mp hh)
  · intro h' hh'
    rcases (mem_executed_of_record hexecuted h').mp hh' with hh' | ⟨rfl, -⟩
    · exact (hmem h').mpr (.inr (hs.executed h' hh'))
    · exact (hmem h').mpr (.inl rfl)
  · rw [hexecuted]
    split_ifs with hb
    · rw [← concat_eq_append]
      exact hs.executed_nodup.concat fun hh => hfresh (hs.executed h hh)
    · exact hs.executed_nodup

lemma Settled.record (hs : Settled E s h' stage) (hfresh : h ∉ s.results)
    (hresults : t.results = s.results.insert h r)
    (hexecuted : t.executed = if b then s.executed ++ [h] else s.executed) :
    Settled E t h' stage := by
  have hne : h' ≠ h := by
    rintro rfl
    exact hfresh (mem_of_lookup_eq_some hs.result)
  refine ⟨?_, ?_, ?_⟩
  · intro d hd
    rw [hresults]
    exact mem_insert.mpr (.inr (hs.deps d hd))
  · rw [hresults, lookup_insert_of_ne _ hne, runStage_insert hfresh r hs.deps]
    exact hs.result
  · rw [hresults, executes_insert hfresh r hs.deps, mem_executed_of_record hexecuted, ← hs.executed]
    simp [hne]

lemma settled_record (hs : Logged s) (hfresh : h ∉ s.results)
    (hdeps : ∀ d ∈ stage.deps, d ∈ s.results)
    (hresults : t.results = s.results.insert h (runStage E s.results stage))
    (hexecuted : t.executed = if executes s.results stage then s.executed ++ [h] else s.executed) :
    Settled E t h stage := by
  refine ⟨?_, ?_, ?_⟩
  · intro d hd
    rw [hresults]
    exact mem_insert.mpr (.inr (hdeps d hd))
  · rw [hresults, lookup_insert, runStage_insert hfresh _ hdeps]
  · rw [hresults, executes_insert hfresh _ hdeps, mem_executed_of_record hexecuted]
    exact ⟨fun hh => (hh.resolve_left fun hh => hfresh (hs.executed h hh)).2,
      fun hex => .inr ⟨rfl, hex⟩⟩

end Record

section Issue

variable {jobs : List (PromiseHandle × Job)} {job : Job}

lemma Closed.of_issue {S : Set PromiseHandle} (hS : Closed (jobs ++ [(h, job)]) S) :
    Closed jobs S :=
  ⟨fun h t hjob => hS.direct h t (mem_append_left _ hjob),
    fun h stage hjob => hS.pipelined h stage (mem_append_left _ hjob)⟩

lemma mem_issue (hh' : h' ∈ jobs.map Prod.fst) : h' ∈ (jobs ++ [(h, job)]).map Prod.fst := by
  rw [map_append]
  exact mem_append_left _ hh'

lemma nodup_issue (hjobs : (jobs.map Prod.fst).Nodup) (hh : h ∉ jobs.map Prod.fst) :
    ((jobs ++ [(h, job)]).map Prod.fst).Nodup := by
  rw [map_append, map_singleton, ← concat_eq_append]
  exact hjobs.concat hh

end Issue

lemma Ready.settle (hready : Ready s h') (hne : h' ≠ h) : Ready (settle E s h) h' := by
  cases hstage : s.pending.lookup h with
  | none => rwa [Runtime.settle, hstage]
  | some stage =>
    obtain ⟨stage', hstage', hdeps⟩ := hready
    rw [settle_of_lookup hstage]
    refine ⟨stage', (lookup_erase_ne hne).trans hstage', fun d hd => ?_⟩
    exact mem_insert.mpr (.inr (hdeps d hd))

namespace Sound

variable (hs : Sound E s)
include hs

lemma job_unique {job job' : Job} (hjob : (h, job) ∈ s.jobs)
    (hjob' : (h, job') ∈ s.jobs) : job = job' :=
  congrArg Prod.snd (inj_on_of_nodup_map hs.handles hjob hjob' rfl)

lemma settle (hready : Ready s h) : Sound E (Runtime.settle E s h) := by
  obtain ⟨stage, hstage, hdeps⟩ := hready
  obtain ⟨hjob, hfresh⟩ := hs.pending h stage hstage
  rw [settle_of_lookup hstage]
  refine ⟨hs.toLogged.record hfresh rfl rfl rfl, hs.handles, ?_, ?_, ?_, ?_, ?_⟩
  · intro h' hh'
    rcases mem_insert.mp hh' with rfl | hh'
    · exact mem_map.mpr ⟨_, hjob, rfl⟩
    · exact hs.issued h' hh'
  · intro h' stage' hstage'
    have hne : h' ≠ h := by
      rintro rfl
      exact absurd ((lookup_erase _ _).symm.trans hstage') (by simp)
    have hold := hs.pending h' stage' ((lookup_erase_ne hne).symm.trans hstage')
    exact ⟨hold.1, fun hh' => (mem_insert.mp hh').elim hne hold.2⟩
  · intro h' t hjob'
    have hold := hs.direct h' t hjob'
    have hne : h' ≠ h := by
      rintro rfl
      exact hfresh (hs.executed h' hold.2)
    exact ⟨(lookup_insert_of_ne _ hne).trans hold.1,
      (mem_executed_of_record rfl h').mpr (.inl hold.2)⟩
  · intro h' stage' hjob'
    by_cases hh' : h' = h
    · subst hh'
      cases hs.job_unique hjob hjob'
      exact .inr (settled_record hs.toLogged hfresh hdeps rfl rfl)
    · rcases hs.pipelined h' stage' hjob' with hpending | hsettled
      · exact .inl ((lookup_erase_ne hh').trans hpending)
      · exact .inr (hsettled.record hfresh rfl rfl)
  · intro S hS h' hh'
    rcases mem_insert.mp hh' with rfl | hh'
    · exact hS.pipelined _ stage hjob fun d hd => hs.grounded S hS d (hdeps d hd)
    · exact hs.grounded S hS h' hh'

lemma dispatch (hnext : s.next ∉ s.jobs.map Prod.fst) (t : Task) : Sound E (s.dispatch E t) := by
  have hfresh : s.next ∉ s.results := fun hh => hnext (hs.issued _ hh)
  have hlogged : Logged (s.dispatch E t) := hs.toLogged.record (b := true) hfresh rfl rfl rfl
  refine ⟨hlogged, nodup_issue hs.handles hnext, ?_, ?_, ?_, ?_, ?_⟩
  · intro h hh
    rcases mem_insert.mp hh with rfl | hh
    · exact mem_map.mpr ⟨_, mem_append_right _ (mem_singleton_self _), rfl⟩
    · exact mem_issue (hs.issued h hh)
  · intro h stage hstage
    obtain ⟨hjob, hh⟩ := hs.pending h stage hstage
    refine ⟨mem_append_left _ hjob, fun hh' => ?_⟩
    rcases mem_insert.mp hh' with rfl | hh'
    · exact hnext (mem_map.mpr ⟨_, hjob, rfl⟩)
    · exact hh hh'
  · intro h t' hjob
    rcases mem_append.mp hjob with hjob | hjob
    · have hold := hs.direct h t' hjob
      have hne : h ≠ s.next := fun heq => hfresh (heq ▸ hs.executed h hold.2)
      exact ⟨(lookup_insert_of_ne _ hne).trans hold.1, mem_append_left _ hold.2⟩
    · cases List.mem_singleton.mp hjob
      exact ⟨lookup_insert _, mem_append_right _ (mem_singleton_self _)⟩
  · intro h stage hjob
    rcases mem_append.mp hjob with hjob | hjob
    · exact (hs.pipelined h stage hjob).imp_right fun hsettled =>
        hsettled.record (b := true) hfresh rfl rfl
    · cases List.mem_singleton.mp hjob
  · intro S hS h hh
    rcases mem_insert.mp hh with rfl | hh
    · exact hS.direct _ t (mem_append_right _ (mem_singleton_self _))
    · exact hs.grounded S hS.of_issue h hh

lemma dispatchPipelined (hnext : s.next ∉ s.jobs.map Prod.fst) (stage : Stage) :
    Sound E (s.dispatchPipelined stage) := by
  have hfresh : s.next ∉ s.results := fun hh => hnext (hs.issued _ hh)
  have hlogged : Logged (s.dispatchPipelined stage) :=
    ⟨hs.resolved, hs.resolved_nodup, hs.executed, hs.executed_nodup⟩
  refine ⟨hlogged, nodup_issue hs.handles hnext, fun h hh => mem_issue (hs.issued h hh),
    ?_, ?_, ?_, fun S hS => hs.grounded S hS.of_issue⟩
  · intro h stage' hstage'
    by_cases hh : h = s.next
    · subst hh
      cases (lookup_insert _).symm.trans hstage'
      exact ⟨mem_append_right _ (mem_singleton_self _), hfresh⟩
    · obtain ⟨hjob, hh'⟩ :=
        hs.pending h stage' ((lookup_insert_of_ne _ hh).symm.trans hstage')
      exact ⟨mem_append_left _ hjob, hh'⟩
  · intro h t hjob
    rcases mem_append.mp hjob with hjob | hjob
    · exact hs.direct h t hjob
    · cases List.mem_singleton.mp hjob
  · intro h stage' hjob
    rcases mem_append.mp hjob with hjob | hjob
    · have hne : h ≠ s.next := by
        rintro rfl
        exact hnext (mem_map.mpr ⟨_, hjob, rfl⟩)
      rcases hs.pipelined h stage' hjob with hpending | hsettled
      · exact .inl ((lookup_insert_of_ne _ hne).trans hpending)
      · exact .inr ⟨hsettled.deps, hsettled.result, hsettled.executed⟩
    · cases List.mem_singleton.mp hjob
      exact .inl (lookup_insert _)

lemma foldl_settle {ids : List PromiseHandle} (hids : ids.Nodup)
    (hready : ∀ h ∈ ids, Ready s h) : Sound E (ids.foldl (Runtime.settle E) s) := by
  induction ids generalizing s with
  | nil => exact hs
  | cons h ids ih =>
    obtain ⟨hh, hids⟩ := nodup_cons.mp hids
    refine ih (hs.settle (hready h mem_cons_self)) hids fun h' hh' => ?_
    refine (hready h' (mem_cons_of_mem _ hh')).settle ?_
    rintro rfl
    exact hh hh'

end Sound

/-! ### What `pump` leaves -/

lemma issued_foldl_settle (s : PromiseTable) :
    (ids.foldl (settle E) s).jobs = s.jobs ∧ (ids.foldl (settle E) s).next = s.next := by
  induction ids generalizing s with
  | nil => exact ⟨rfl, rfl⟩
  | cons h ids ih =>
    rw [foldl_cons, (ih _).1, (ih _).2, settle]
    cases s.pending.lookup h with
    | none => exact ⟨rfl, rfl⟩
    | some stage => exact ⟨rfl, rfl⟩

lemma pump_invariant {I : PromiseTable → Prop} (o : Traversal PromiseHandle)
    (hround : ∀ t, I t → I ((o.enum t.ready).foldl (settle E) t)) (hs : I s) :
    I (s.pump E o) ∧ (s.pump E o).ready = ∅ := by
  obtain ⟨n, hn⟩ := returns_pump (E := E) o s
  have hinv : (rounds (pumpRound E o) n s).elim I fun t => I t ∧ t.ready = ∅ := by
    refine rounds_invariant ?_ ?_ hs n
    · intro t t' ht heq
      rcases t.ready.eq_empty_or_nonempty with hready | hready
      · rw [pumpRound_of_empty hready] at heq
        cases heq
      · rw [pumpRound_of_nonempty hready] at heq
        cases heq
        exact hround t ht
    · intro t t' ht heq
      rcases t.ready.eq_empty_or_nonempty with hready | hready
      · rw [pumpRound_of_empty hready] at heq
        cases heq
        exact ⟨ht, hready⟩
      · rw [pumpRound_of_nonempty hready] at heq
        cases heq
  rw [rounds_eq_inr_iff.mpr hn] at hinv
  exact hinv

lemma issued_pump (o : Traversal PromiseHandle) (s : PromiseTable) :
    (s.pump E o).jobs = s.jobs ∧ (s.pump E o).next = s.next := by
  refine (pump_invariant (I := fun t => t.jobs = s.jobs ∧ t.next = s.next) o ?_ ⟨rfl, rfl⟩).1
  rintro t ⟨hjobs, hnext⟩
  have hissued := issued_foldl_settle (E := E) (o.enum t.ready) t
  exact ⟨hissued.1.trans hjobs, hissued.2.trans hnext⟩

lemma Sound.pump (hs : Sound E s) (o : Traversal PromiseHandle) :
    Sound E (s.pump E o) ∧ (s.pump E o).ready = ∅ :=
  pump_invariant o (fun _ ht => ht.foldl_settle (o.nodup_enum _) fun _ hh =>
    mem_ready.mp (o.mem_enum.mp hh)) hs

/-- All dependencies succeeded, with these outputs. -/
def Succeeded (s : PromiseTable) (deps : List PromiseHandle) (outputs : List (List UInt8)) : Prop :=
  List.Forall₂ (fun d out => ∃ r, s.resolve d = some r ∧ r.ok = true ∧ r.output = out) deps outputs

/-- The result of a stage is that of the executor on the combined outputs of its dependencies, in
their order; if one of them was rejected, the stage is rejected and not executed. -/
structure Computed (E : Executor) (s : PromiseTable) (h : PromiseHandle) (stage : Stage) :
    Prop where
  of_succeeded : ∀ outputs, Succeeded s stage.deps outputs →
    s.resolve h = some (E { stage.task with input := stage.combine outputs }) ∧ h ∈ s.executed
  of_rejected : ∀ d ∈ stage.deps, ∀ r, s.resolve d = some r → r.ok = false →
    (∃ d' ∈ stage.deps, ∃ r', s.resolve d' = some r' ∧ r'.ok = false ∧
      s.resolve h = some (.err stage.task.taskId (rejected d' r'.error))) ∧ h ∉ s.executed

/-- The table holds the results of the dataflow graph that was dispatched. -/
structure Dataflow (E : Executor) (s : PromiseTable) : Prop where
  least : IsLeast {S | Closed s.jobs S} {h | s.isResolved h = true}
  direct : ∀ h t, (h, Job.direct t) ∈ s.jobs → s.resolve h = some (E t) ∧ h ∈ s.executed
  pipelined : ∀ h stage, (h, Job.pipelined stage) ∈ s.jobs → s.isResolved h = true →
    Computed E s h stage

lemma Settled.computed (hs : Settled E s h stage) : Computed E s h stage := by
  refine ⟨?_, ?_⟩
  · intro outputs hsucceeded
    have hgather : gather s.results stage.deps = .ok outputs := gather_eq_ok_iff.mpr hsucceeded
    have hresult := hs.result
    have hexecuted := hs.executed
    simp only [runStage, executes, hgather] at hresult hexecuted
    exact ⟨hresult, hexecuted.mpr rfl⟩
  · intro d hd r hr hok
    obtain ⟨d', hd', r', hr', hok', hgather⟩ := exists_gather_eq_error hs.deps hd hr hok
    have hresult := hs.result
    have hexecuted := hs.executed
    simp only [runStage, executes, hgather] at hresult hexecuted
    refine ⟨⟨d', hd', r', hr', hok', hresult⟩, fun hh => ?_⟩
    exact absurd (hexecuted.mp hh) Bool.false_ne_true

namespace Sound

section

variable (hs : Sound E s) (hready : s.ready = ∅)
include hs hready

lemma settled_of_deps
    (hjob : (h, Job.pipelined stage) ∈ s.jobs) (hdeps : ∀ d ∈ stage.deps, d ∈ s.results) :
    Settled E s h stage := by
  refine (hs.pipelined h stage hjob).resolve_left fun hstage => ?_
  have hmem : h ∈ s.ready := mem_ready.mpr ⟨stage, hstage, hdeps⟩
  rw [hready] at hmem
  exact absurd hmem (Finset.notMem_empty h)

lemma closed : Closed s.jobs {h | h ∈ s.results} := by
  refine ⟨?_, ?_⟩
  · intro h t hjob
    exact mem_of_lookup_eq_some (hs.direct h t hjob).1
  · intro h stage hjob hdeps
    exact mem_of_lookup_eq_some (hs.settled_of_deps hready hjob hdeps).result

lemma dataflow : Dataflow E s := by
  have hresolved : {h | s.isResolved h = true} = {h | h ∈ s.results} := by
    ext h
    simp [isResolved]
  refine ⟨?_, hs.direct, ?_⟩
  · rw [hresolved]
    exact ⟨hs.closed hready, fun S hS h hh => hs.grounded S hS h hh⟩
  · intro h stage hjob hh
    refine ((hs.pipelined h stage hjob).resolve_left fun hstage => ?_).computed
    exact (hs.pending h stage hstage).2 (by simpa [isResolved] using hh)

end

lemma results_unique {t : PromiseTable} (hs : Sound E s) (ht : Sound E t) (hjobs : t.jobs = s.jobs)
    (hsready : s.ready = ∅) (htready : t.ready = ∅) : t.results = s.results := by
  have hsame : ∀ h ∈ s.results, t.results.lookup h = s.results.lookup h := by
    -- the handles with the same result in both tables are closed under the stages
    have hclosed : Closed s.jobs {h | h ∈ s.results ∧ t.results.lookup h = s.results.lookup h} := by
      refine ⟨?_, ?_⟩
      · intro h task hjob
        have hresult := (hs.direct h task hjob).1
        refine ⟨mem_of_lookup_eq_some hresult, ?_⟩
        rw [hresult]
        exact (ht.direct h task (hjobs ▸ hjob)).1
      · intro h stage hjob hdeps
        have hsettled := hs.settled_of_deps hsready hjob fun d hd => (hdeps d hd).1
        have hsettled' := ht.settled_of_deps htready (hjobs ▸ hjob) fun d hd => by
          obtain ⟨r, hr⟩ := mem_iff.mp (hdeps d hd).1
          exact mem_of_lookup_eq_some ((hdeps d hd).2.trans hr)
        refine ⟨mem_of_lookup_eq_some hsettled.result, ?_⟩
        rw [hsettled.result, hsettled'.result, runStage, runStage,
          gather_congr fun d hd => (hdeps d hd).2]
    exact fun h hh => (hs.grounded _ hclosed h hh).2
  refine ext_lookup fun h => ?_
  by_cases hh : h ∈ s.results
  · exact hsame h hh
  · have hh' : h ∉ t.results := fun hh' => hh (ht.grounded _ (hjobs ▸ hs.closed hsready) h hh')
    rw [lookup_eq_none.mpr hh, lookup_eq_none.mpr hh']

end Sound

/-! ### Handles -/

def handle (i : ℕ) : PromiseHandle := UInt64.ofNat (i + 1)

lemma handle_eq_iff {i j : ℕ} : handle i = handle j ↔ i % 2 ^ 64 = j % 2 ^ 64 := by
  rw [handle, handle, ← UInt64.toNat_inj, UInt64.toNat_ofNat', UInt64.toNat_ofNat']
  omega

lemma handle_add_one (i : ℕ) : handle i + 1 = handle (i + 1) := by
  rw [handle, handle, ← UInt64.toNat_inj, UInt64.toNat_add, UInt64.toNat_ofNat',
    UInt64.toNat_ofNat']
  simp

/-- `n` handles were given out. -/
structure Counted (n : ℕ) (s : PromiseTable) : Prop where
  next : s.next = handle n
  jobs : s.jobs.map Prod.fst = (List.range n).map handle

lemma counted_new : Counted 0 .new := ⟨rfl, rfl⟩

lemma Counted.issue (hs : Counted n s) {job : Job} (hnext : t.next = s.next + 1)
    (hjobs : t.jobs = s.jobs ++ [(s.next, job)]) : Counted (n + 1) t := by
  refine ⟨?_, ?_⟩
  · rw [hnext, hs.next, handle_add_one]
  · rw [hjobs, map_append, hs.jobs, range_succ, map_append, map_singleton,
      map_singleton, hs.next]

lemma Counted.fresh (hs : Counted n s) (hn : n < 2 ^ 64) : s.next ∉ s.jobs.map Prod.fst := by
  rw [hs.next, hs.jobs, mem_map]
  rintro ⟨i, hi, heq⟩
  rw [handle_eq_iff] at heq
  have hlt := mem_range.mp hi
  omega

lemma sound_run (hs : Sound E s) (hcount : Counted n s) (cs : List Call)
    (hcs : n + cs.countP Call.dispatches ≤ 2 ^ 64) : Sound E (runFrom (step E) s cs) := by
  induction cs generalizing s n with
  | nil => exact hs
  | cons c cs ih =>
    rw [countP_cons] at hcs
    cases c with
    | dispatch t =>
      simp only [Call.dispatches, if_true] at hcs
      exact ih (hs.dispatch (hcount.fresh (by omega)) t) (hcount.issue rfl rfl) (by omega)
    | dispatchPipelined stage =>
      simp only [Call.dispatches, if_true] at hcs
      exact ih (hs.dispatchPipelined (hcount.fresh (by omega)) stage) (hcount.issue rfl rfl)
        (by omega)
    | pump o =>
      simp only [Call.dispatches, Bool.false_eq_true, if_false] at hcs
      have hissued := issued_pump (E := E) o s
      exact ih (hs.pump o).1 ⟨hissued.2.trans hcount.next, hissued.1 ▸ hcount.jobs⟩ hcs

/-- Two calls that differ at most in the order in which `pump` meets the stages. -/
inductive SameCall : Call → Call → Prop
  | dispatch (t : Task) : SameCall (.dispatch t) (.dispatch t)
  | dispatchPipelined (stage : Stage) :
    SameCall (.dispatchPipelined stage) (.dispatchPipelined stage)
  | pump (o o' : Traversal PromiseHandle) : SameCall (.pump o) (.pump o')

lemma SameCall.issued (hc : SameCall c c') (hjobs : t.jobs = s.jobs) (hnext : t.next = s.next) :
    (step E t c').jobs = (step E s c).jobs ∧ (step E t c').next = (step E s c).next := by
  cases hc with
  | dispatch task => simp only [step, PromiseTable.dispatch, hjobs, hnext, and_self]
  | dispatchPipelined stage => simp only [step, PromiseTable.dispatchPipelined, hjobs, hnext, and_self]
  | pump o o' =>
    exact ⟨(issued_pump o' t).1.trans (hjobs.trans (issued_pump o s).1.symm),
      (issued_pump o' t).2.trans (hnext.trans (issued_pump o s).2.symm)⟩

lemma issued_run_congr (hjobs : t.jobs = s.jobs) (hnext : t.next = s.next)
    (hcs : List.Forall₂ SameCall cs cs') :
    (runFrom (step E) t cs').jobs = (runFrom (step E) s cs).jobs := by
  induction hcs generalizing s t with
  | nil => exact hjobs
  | cons hc _ ih => exact ih (hc.issued hjobs hnext).1 (hc.issued hjobs hnext).2

lemma issued_run_filter (hjobs : t.jobs = s.jobs) (hnext : t.next = s.next) (cs : List Call) :
    (runFrom (step E) t (cs.filter Call.dispatches)).jobs = (runFrom (step E) s cs).jobs := by
  induction cs generalizing s t with
  | nil => exact hjobs
  | cons c cs ih =>
    rcases c with task | stage | o
    · have hissued := (SameCall.dispatch task).issued (E := E) hjobs hnext
      exact ih hissued.1 hissued.2
    · have hissued := (SameCall.dispatchPipelined stage).issued (E := E) hjobs hnext
      exact ih hissued.1 hissued.2
    · have hissued := issued_pump (E := E) o s
      exact ih (hjobs.trans hissued.1.symm) (hnext.trans hissued.2.symm)

lemma countP_dispatches_congr (hcs : List.Forall₂ SameCall cs cs') :
    cs'.countP Call.dispatches = cs.countP Call.dispatches := by
  induction hcs with
  | nil => rfl
  | cons hc _ ih =>
    rw [countP_cons, countP_cons, ih]
    cases hc <;> rfl

variable (E)

/-- For every deterministic executor and every sequence of calls with at most `2 ^ 64` dispatches:
every handle is executed and resolved at most once; `pump` ends; after it the resolved handles are
the least set that holds the direct ones and every pipelined one whose dependencies it holds, with
the results of the dataflow graph; and the results do not depend on the orders in which the pending
stages were met. -/
theorem pump_dataflow (cs : List Call) (hcs : cs.countP Call.dispatches ≤ 2 ^ 64) :
    (runFrom (step E) .new cs).executed.Nodup ∧ (runFrom (step E) .new cs).resolved.Nodup ∧
      ∀ o,
        Returns (pumpRound E o) (runFrom (step E) .new cs) ((runFrom (step E) .new cs).pump E o) ∧
        Dataflow E ((runFrom (step E) .new cs).pump E o) ∧
        ∀ cs' o', List.Forall₂ SameCall cs cs' →
          ((runFrom (step E) .new cs').pump E o').results =
            ((runFrom (step E) .new cs).pump E o).results := by
  have hs : Sound E (runFrom (step E) .new cs) :=
    sound_run sound_new counted_new cs (by omega)
  refine ⟨hs.executed_nodup, hs.resolved_nodup, fun o => ⟨returns_pump o _, ?_, ?_⟩⟩
  · exact (hs.pump o).1.dataflow (hs.pump o).2
  · intro cs' o' hsame
    have hcount := countP_dispatches_congr hsame
    have ht : Sound E (runFrom (step E) .new cs') :=
      sound_run sound_new counted_new cs' (by omega)
    refine (hs.pump o).1.results_unique (ht.pump o').1 ?_ (hs.pump o).2 (ht.pump o').2
    rw [(issued_pump o' _).1, (issued_pump o _).1]
    exact issued_run_congr rfl rfl hsame

def sampleTask : Task := ⟨[], [], [], .lit "run", [], []⟩

def sampleOrder : Traversal PromiseHandle := ⟨fun ids => ids.sort (· ≤ ·), fun ids => ids.sort_eq _⟩

/-- A stage that waits for a promise that is dispatched after it. -/
theorem pump_dataflow_forward :
    [Call.dispatchPipelined ⟨[2], sampleTask, List.flatten⟩, .dispatch sampleTask].countP
        Call.dispatches ≤ 2 ^ 64 ∧
      Dataflow echoExecutor ((runFrom (step echoExecutor) .new
        [.dispatchPipelined ⟨[2], sampleTask, List.flatten⟩, .dispatch sampleTask]).pump
          echoExecutor sampleOrder) :=
  ⟨by decide, ((pump_dataflow echoExecutor _ (by decide)).2.2 sampleOrder).2.1⟩

/-- The results after the last `pump` do not depend on when, how often or in which orders the table
was pumped before, and pumping it again changes nothing. -/
theorem results_pump_filter (cs : List Call) (hcs : cs.countP Call.dispatches ≤ 2 ^ 64)
    (o o' : Traversal PromiseHandle) :
    ((runFrom (step E) .new cs).pump E o).results =
        ((runFrom (step E) .new (cs.filter Call.dispatches)).pump E o').results ∧
      ((runFrom (step E) .new cs).pump E o).pump E o' = (runFrom (step E) .new cs).pump E o := by
  have hs := (sound_run (E := E) sound_new counted_new cs (by omega)).pump o
  have ht := (sound_run (E := E) sound_new counted_new (cs.filter Call.dispatches) (by
    rw [countP_filter]
    simpa using hcs)).pump o'
  refine ⟨ht.1.results_unique hs.1 ?_ ht.2 hs.2, ?_⟩
  · rw [(issued_pump o _).1, (issued_pump o' _).1]
    exact (issued_run_filter rfl rfl cs).symm
  · exact ((returns_iff_of_inr (pumpRound_of_empty hs.2)).mp (returns_pump o' _)).symm

theorem results_pump_filter_forward :
    ((runFrom (step echoExecutor) .new [.dispatchPipelined ⟨[2], sampleTask, List.flatten⟩,
        .pump sampleOrder, .dispatch sampleTask]).pump echoExecutor sampleOrder).results =
      ((runFrom (step echoExecutor) .new [.dispatchPipelined ⟨[2], sampleTask, List.flatten⟩,
        .dispatch sampleTask]).pump echoExecutor sampleOrder).results :=
  (results_pump_filter echoExecutor [.dispatchPipelined ⟨[2], sampleTask, List.flatten⟩,
    .pump sampleOrder, .dispatch sampleTask] (by decide) sampleOrder sampleOrder).1

/-! ### When the counter wraps around -/

lemma run_replicate_dispatch (t : Task) (n : ℕ) :
    (runFrom (step E) .new (List.replicate n (.dispatch t))).next = handle n ∧
      (runFrom (step E) .new (List.replicate n (.dispatch t))).executed =
        (List.range n).map handle ∧
      (runFrom (step E) .new (List.replicate n (.dispatch t))).resolved =
        (List.range n).map handle := by
  induction n with
  | zero => exact ⟨rfl, rfl, rfl⟩
  | succ n ih =>
    obtain ⟨hnext, hexecuted, hresolved⟩ := ih
    rw [replicate_succ', runFrom_append, runFrom_cons, runFrom_nil, range_succ,
      map_append, map_singleton]
    simp only [step, dispatch, hnext, hexecuted, hresolved, handle_add_one, and_self]

/-- The dispatch after the first `2 ^ 64` takes the first handle again: it is executed and resolved
twice. -/
theorem first_handle_reused :
    ¬ (runFrom (step echoExecutor) .new
        (List.replicate (2 ^ 64 + 1) (.dispatch sampleTask))).executed.Nodup ∧
      ¬ (runFrom (step echoExecutor) .new
        (List.replicate (2 ^ 64 + 1) (.dispatch sampleTask))).resolved.Nodup := by
  have hrepeat : ¬ ((List.range (2 ^ 64 + 1)).map handle).Nodup := by
    intro hnodup
    have heq := inj_on_of_nodup_map hnodup (mem_range.mpr (Nat.succ_pos (2 ^ 64)))
      (mem_range.mpr (Nat.lt_succ_self (2 ^ 64))) (handle_eq_iff.mpr (by norm_num))
    omega
  obtain ⟨-, hexecuted, hresolved⟩ :=
    run_replicate_dispatch echoExecutor sampleTask (2 ^ 64 + 1)
  rw [hexecuted, hresolved]
  exact ⟨hrepeat, hrepeat⟩

end Cerberus.Runtime
