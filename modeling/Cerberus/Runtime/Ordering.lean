import Cerberus.Runtime.Pipelining

/-!
# Order without data flow

`dispatch_after` is for callers that need their task to run after another one and do not need its
output; the input of the task is to be left as it is. It is `dispatch_pipelined` with a `combine`
that gives the empty input, and `run_stage` takes the input of every stage from `combine`. So the
task runs on the empty input (`dispatchAfter_ownInput_iff`).

The table does not say on which tasks the executor was run; `runs` lists them.
-/

namespace Cerberus.Runtime

open Foundation
open List hiding take

open PromiseTable

/-- The task on which `run_stage` runs the executor. -/
def stageTask (results : Finmap fun _ : PromiseHandle => TaskResult) (stage : Stage) :
    Option Task :=
  match gather results stage.deps with
  | .ok outputs => some { stage.task with input := stage.combine outputs }
  | .error _ => none

variable (E : Executor)

/-- The tasks that a round runs. -/
def roundRuns : List (PromiseHandle × Stage) → PromiseTable → List (PromiseHandle × Task)
  | [], _ => []
  | p :: ps, s =>
    ((stageTask s.results p.2).map (Prod.mk p.1)).toList ++ roundRuns ps (s.run E p)

def pumpRuns (o : Traversal PromiseHandle) : ℕ → PromiseTable → List (PromiseHandle × Task)
  | 0, _ => []
  | n + 1, s =>
    match pumpRound E o s with
    | .inl s' =>
      let taken := take (o.enum s.ready) s.pending
      roundRuns E taken.1 { s with pending := taken.2 } ++ pumpRuns o n s'
    | .inr _ => []

def callRuns (s : PromiseTable) : Call → List (PromiseHandle × Task)
  | .dispatch t => [(s.next, t)]
  | .dispatchPipelined _ => []
  | .pump o => pumpRuns E o (s.pending.keys.card + 1) s

/-- The tasks that the executor was run on, with their handles. -/
def runs : PromiseTable → List Call → List (PromiseHandle × Task)
  | _, [] => []
  | s, c :: cs => callRuns E s c ++ runs (step E s c) cs

def runsOf (h : PromiseHandle) (ps : List (PromiseHandle × Task)) : List Task :=
  (ps.filter fun p => p.1 = h).map Prod.snd

variable {E} {s s' : PromiseTable} {h : PromiseHandle} {stage : Stage}

lemma executes_eq (results : Finmap fun _ : PromiseHandle => TaskResult) (stage : Stage) :
    executes results stage = (stageTask results stage).isSome := by
  unfold stageTask executes
  cases gather results stage.deps with
  | ok outputs => rfl
  | error e => rfl

/-! ### The runs are those of the table's log -/

lemma executed_roundRuns (ps : List (PromiseHandle × Stage)) (s : PromiseTable) :
    (ps.foldl (run E) s).executed = s.executed ++ (roundRuns E ps s).map Prod.fst := by
  induction ps generalizing s with
  | nil => exact (append_nil _).symm
  | cons p ps ih =>
    rw [foldl_cons, ih, roundRuns, map_append, ← append_assoc]
    congr 1
    simp only [run, executes_eq]
    rcases stageTask s.results p.2 with _ | t
    · exact (append_nil _).symm
    · rfl

variable {o : Traversal PromiseHandle} {n : ℕ} {cs : List Call} {u : Task}

lemma executed_pumpRuns (hloop : loop (pumpRound E o) n s = some s') :
    s'.executed = s.executed ++ (pumpRuns E o n s).map Prod.fst := by
  induction n generalizing s with
  | zero => cases hloop
  | succ n ih =>
    rw [pumpRuns]
    rcases s.ready.eq_empty_or_nonempty with hready | hready
    · have hround := pumpRound_of_empty (E := E) (o := o) hready
      rw [loop_succ_inr hround] at hloop
      cases hloop
      rw [hround]
      exact (append_nil _).symm
    · have hround := pumpRound_of_nonempty (E := E) (o := o) hready
      rw [loop_succ_inl hround] at hloop
      have hexecuted := executed_roundRuns (E := E) (take (o.enum s.ready) s.pending).1
        { s with pending := (take (o.enum s.ready) s.pending).2 }
      rw [foldl_run_take] at hexecuted
      rw [hround, ih hloop, hexecuted]
      simp only [map_append, append_assoc]

lemma executed_callRuns (s : PromiseTable) (c : Call) :
    (step E s c).executed = s.executed ++ (callRuns E s c).map Prod.fst := by
  rcases c with t | stage | o
  · rfl
  · exact (append_nil _).symm
  · obtain ⟨s', hs'⟩ : ∃ s', loop (pumpRound E o) (s.pending.keys.card + 1) s = some s' :=
      exists_loop_eq_some (fun s => s.pending.keys.card)
        (fun _ _ hround => card_pumpRound_lt hround) (Nat.lt_succ_self _)
    have hpump : s.pump E o = s' := by rw [pump, hs', Option.getD_some]
    rw [step, hpump]
    exact executed_pumpRuns hs'

lemma executed_runs (cs : List Call) (s : PromiseTable) :
    (runFrom (step E) s cs).executed = s.executed ++ (runs E s cs).map Prod.fst := by
  induction cs generalizing s with
  | nil => exact (append_nil _).symm
  | cons c cs ih =>
    rw [runFrom_cons, ih, executed_callRuns, runs, map_append, append_assoc]

/-! ### Every run is for something that was dispatched -/

/-- The task is that of a job. -/
def Dispatched (jobs : List (PromiseHandle × Job)) (p : PromiseHandle × Task) : Prop :=
  (p.1, Job.direct p.2) ∈ jobs ∨
    ∃ stage results, (p.1, Job.pipelined stage) ∈ jobs ∧ stageTask results stage = some p.2

lemma lookup_of_mem_take {ids : List PromiseHandle} {pending : Finmap fun _ => Stage}
    {p : PromiseHandle × Stage} (hp : p ∈ (take ids pending).1) :
    pending.lookup p.1 = some p.2 := by
  induction ids generalizing pending with
  | nil => cases hp
  | cons h ids ih =>
    rw [take] at hp
    rcases hstage : pending.lookup h with _ | stage
    · rw [hstage] at hp
      exact ih hp
    · rw [hstage] at hp
      rcases mem_cons.mp hp with rfl | hp
      · exact hstage
      · have hrest := ih hp
        by_cases hne : p.1 = h
        · rw [hne, Finmap.lookup_erase] at hrest
          cases hrest
        · exact (Finmap.lookup_erase_ne hne).symm.trans hrest

variable {p : PromiseHandle × Task}

lemma stage_of_mem_roundRuns {ps : List (PromiseHandle × Stage)} (hp : p ∈ roundRuns E ps s) :
    ∃ stage results, (p.1, stage) ∈ ps ∧ stageTask results stage = some p.2 := by
  induction ps generalizing s with
  | nil => cases hp
  | cons q ps ih =>
    rw [roundRuns] at hp
    rcases mem_append.mp hp with hp | hp
    · obtain ⟨t, ht, rfl⟩ := Option.map_eq_some_iff.mp (Option.mem_toList.mp hp)
      exact ⟨q.2, s.results, mem_cons_self, ht⟩
    · obtain ⟨stage, results, hmem, htask⟩ := ih hp
      exact ⟨stage, results, mem_cons_of_mem _ hmem, htask⟩

lemma dispatched_of_mem_pumpRuns (hs : Sound E s) (hp : p ∈ pumpRuns E o n s) :
    Dispatched s.jobs p := by
  induction n generalizing s with
  | zero => cases hp
  | succ n ih =>
    rw [pumpRuns] at hp
    rcases s.ready.eq_empty_or_nonempty with hready | hready
    · rw [pumpRound_of_empty hready] at hp
      cases hp
    · rw [pumpRound_of_nonempty hready] at hp
      rcases mem_append.mp hp with hp | hp
      · obtain ⟨stage, results, hmem, htask⟩ := stage_of_mem_roundRuns hp
        exact .inr ⟨stage, results, (hs.pending _ _ (lookup_of_mem_take hmem)).1, htask⟩
      · have hsound := hs.foldl_settle (o.nodup_enum s.ready) fun _ hh =>
          mem_ready.mp (o.mem_enum.mp hh)
        have hold := ih hsound hp
        rwa [(issued_foldl_settle _ s).1] at hold

lemma dispatched_of_mem_callRuns (hs : Sound E s) {c : Call} (hp : p ∈ callRuns E s c) :
    Dispatched (step E s c).jobs p := by
  rcases c with t | stage | o
  · obtain rfl := mem_singleton.mp hp
    exact .inl (mem_append_right _ (mem_singleton_self _))
  · cases hp
  · rw [step, (issued_pump o s).1]
    exact dispatched_of_mem_pumpRuns hs hp

lemma exists_call_of_mem_runs (hp : p ∈ runs E s cs) :
    ∃ pre c post, cs = pre ++ c :: post ∧ p ∈ callRuns E (runFrom (step E) s pre) c := by
  induction cs generalizing s with
  | nil => cases hp
  | cons c cs ih =>
    rw [runs] at hp
    rcases mem_append.mp hp with hp | hp
    · exact ⟨[], c, cs, rfl, hp⟩
    · obtain ⟨pre, c', post, rfl, hp'⟩ := ih hp
      exact ⟨c :: pre, c', post, rfl, hp'⟩

lemma jobs_subset_run (cs : List Call) (s : PromiseTable) :
    s.jobs ⊆ (runFrom (step E) s cs).jobs := by
  induction cs generalizing s with
  | nil => exact List.Subset.refl _
  | cons c cs ih =>
    refine List.Subset.trans ?_ (ih _)
    rcases c with t | stage | o
    · exact subset_append_left _ _
    · exact subset_append_left _ _
    · exact (issued_pump (E := E) o s).1 ▸ List.Subset.refl _

lemma Dispatched.mono {jobs jobs' : List (PromiseHandle × Job)} (hp : Dispatched jobs p)
    (hjobs : jobs ⊆ jobs') : Dispatched jobs' p := by
  rcases hp with hp | ⟨stage, results, hp, htask⟩
  · exact .inl (hjobs hp)
  · exact .inr ⟨stage, results, hjobs hp, htask⟩

/-! ### `dispatch_after` -/

lemma eq_of_stageTask {dep : PromiseHandle} {t : Task}
    {results : Finmap fun _ : PromiseHandle => TaskResult}
    (h : stageTask results ⟨[dep], t, fun _ => []⟩ = some u) : u = { t with input := [] } := by
  unfold stageTask at h
  split at h
  · exact (Option.some.inj h).symm
  · cases h

/-- A pipelined stage whose dependencies have succeeded by the end of a `pump` has been executed
once. -/
lemma count_executed (hs : Sound E (runFrom (step E) s cs))
    (hjob : (h, Job.pipelined stage) ∈ (runFrom (step E) s cs).jobs) {outputs : List (List UInt8)}
    (hdeps : Succeeded (runFrom (step E) s (cs ++ [.pump o])) stage.deps outputs) :
    (runFrom (step E) s (cs ++ [.pump o])).executed.count h = 1 := by
  rw [runFrom_append] at hdeps ⊢
  obtain ⟨hpump, hready⟩ := hs.pump o
  have hresults : ∀ d ∈ stage.deps, d ∈ ((runFrom (step E) s cs).pump E o).results := by
    intro d hd
    obtain ⟨i, hi, rfl⟩ := mem_iff_getElem.mp hd
    obtain ⟨r, hr, -⟩ := hdeps.get hi (hdeps.length_eq ▸ hi)
    exact Finmap.mem_of_lookup_eq_some hr
  rw [← (issued_pump (E := E) o _).1] at hjob
  have hsettled := hpump.settled_of_deps hready hjob hresults
  exact count_eq_one_of_mem hpump.executed_nodup
    (hsettled.computed.of_succeeded outputs hdeps).2

lemma runsOf_eq_of_count {ps : List (PromiseHandle × Task)}
    (hcount : (ps.map Prod.fst).count h = 1) (hps : ∀ p ∈ ps, p.1 = h → p.2 = u) :
    runsOf h ps = [u] := by
  have hlength : (runsOf h ps).length = 1 := by
    rw [runsOf, length_map, ← countP_eq_length_filter, ← hcount, List.count,
      countP_map]
    rfl
  obtain ⟨v, hv⟩ := length_eq_one_iff.mp hlength
  rw [hv]
  obtain ⟨p, hp, rfl⟩ := mem_map.mp (hv ▸ mem_singleton_self v : v ∈ runsOf h ps)
  obtain ⟨hmem, hh⟩ := mem_filter.mp hp
  rw [hps p hmem (of_decide_eq_true hh)]

section Scenario

variable (E) (as bs : List Call) (o : Traversal PromiseHandle) (dep : PromiseHandle) (t : Task)

/-- The table after `dispatch_after`. -/
def tableAfter : PromiseTable := (runFrom (step E) .new as).dispatchAfter dep t

/-- The table after further calls and a `pump`. -/
def tableLater : PromiseTable := runFrom (step E) (tableAfter E as dep t) (bs ++ [.pump o])

/-- The tasks on which the executor is run meanwhile for the handle from `dispatch_after`. -/
def laterRuns : List Task :=
  runsOf (runFrom (step E) .new as).next (runs E (tableAfter E as dep t) (bs ++ [.pump o]))

end Scenario

variable {as bs : List Call} {o : Traversal PromiseHandle} {dep : PromiseHandle} {t : Task}

section

variable (hcount : as.countP Call.dispatches + bs.countP Call.dispatches < 2 ^ 64)
include hcount

lemma sound_tableAfter : Sound E (runFrom (step E) (tableAfter E as dep t) bs) := by
  have hrun : runFrom (step E) .new (as ++ .dispatchPipelined ⟨[dep], t, fun _ => []⟩ :: bs) =
      runFrom (step E) (tableAfter E as dep t) bs := by
    rw [runFrom_append, runFrom_cons]
    rfl
  rw [← hrun]
  refine sound_run sound_new counted_new _ ?_
  rw [countP_append, countP_cons]
  simp only [Call.dispatches, if_true]
  omega

lemma laterRuns_eq
    {r : TaskResult} (hok : r.ok = true) (hr : (tableLater E as bs o dep t).resolve dep = some r) :
    laterRuns E as bs o dep t = [{ t with input := [] }] := by
  have hjob : ∀ cs, ((runFrom (step E) .new as).next, Job.pipelined ⟨[dep], t, fun _ => []⟩) ∈
      (runFrom (step E) (tableAfter E as dep t) cs).jobs := fun cs =>
    jobs_subset_run cs _ (mem_append_right _ (mem_singleton_self _))
  have hsound : Sound E (tableLater E as bs o dep t) :=
    sound_tableAfter (by simpa [countP_append, Call.dispatches] using hcount)
  refine runsOf_eq_of_count ?_ fun p hp hh => ?_
  · have hone := count_executed (sound_tableAfter hcount) (hjob bs)
      (List.Forall₂.cons ⟨r, hr, hok, rfl⟩ .nil)
    -- the stage is pending, so nothing was run for its handle before
    have hnew : (runFrom (step E) .new as).next ∉ (tableAfter E as dep t).executed := by
      have hissued : Sound E (runFrom (step E) (tableAfter E as dep t) []) :=
        sound_tableAfter (by simp; omega)
      exact fun hh => (hissued.pending _ _ (Finmap.lookup_insert _)).2 (hissued.executed _ hh)
    rwa [executed_runs, count_append, count_eq_zero_of_not_mem hnew, Nat.zero_add] at hone
  · obtain ⟨pre, c, post, hcs, hcall⟩ := exists_call_of_mem_runs hp
    have hcount' : (bs ++ [Call.pump o]).countP Call.dispatches = bs.countP Call.dispatches := by
      rw [countP_append]
      rfl
    rw [hcs, countP_append] at hcount'
    have hdispatched := (dispatched_of_mem_callRuns
      (sound_tableAfter (by omega)) hcall).mono (jobs_subset_run (E := E) post _)
    rw [← runFrom_cons, ← runFrom_append, ← hcs, Dispatched, hh] at hdispatched
    rcases hdispatched with hdirect | ⟨stage, results, hstage, htask⟩
    · cases hsound.job_unique hdirect (hjob _)
    · cases hsound.job_unique hstage (hjob _)
      exact eq_of_stageTask htask

end

lemma ownInput_iff {ts : List Task} (hts : ts = [{ t with input := [] }]) :
    (∃ u, ts = [u] ∧ u.input = t.input) ↔ t.input = [] := by
  subst hts
  constructor
  · rintro ⟨u, hu, hinput⟩
    obtain rfl := singleton_injective hu
    exact hinput.symm
  · intro hinput
    exact ⟨_, rfl, hinput.symm⟩

/-- For every executor, whatever is called before and after `dispatch_after`, with at most `2 ^ 64`
dispatches: once the promise has succeeded and `pump` was called, the executor has been run on the
task exactly once, with the empty input. So it is run with the task's own input iff that is
empty. -/
theorem dispatchAfter_ownInput_iff (E : Executor) (as bs : List Call) (o : Traversal PromiseHandle)
    (dep : PromiseHandle) (t : Task)
    (hcount : as.countP Call.dispatches + bs.countP Call.dispatches < 2 ^ 64)
    (hdep : ∃ r, (tableLater E as bs o dep t).resolve dep = some r ∧ r.ok = true) :
    laterRuns E as bs o dep t = [{ t with input := [] }] ∧
      ((∃ u, laterRuns E as bs o dep t = [u] ∧ u.input = t.input) ↔ t.input = []) := by
  obtain ⟨r, hr, hok⟩ := hdep
  have hruns := laterRuns_eq hcount hok hr
  exact ⟨hruns, ownInput_iff hruns⟩

lemma resolve_tableLater (u : Task) :
    (tableLater E [.dispatch u] [] o 1 t).resolve 1 = some (E u) := by
  have hsound : Sound E (tableLater E [.dispatch u] [] o 1 t) :=
    sound_tableAfter (by simp [countP_cons, Call.dispatches])
  exact (hsound.direct 1 u (jobs_subset_run [.pump o] _ mem_cons_self)).1

/-- A task without input runs after another one. -/
theorem dispatchAfter_empty_input :
    ∃ u, laterRuns echoExecutor [.dispatch sampleTask] [] sampleOrder 1 sampleTask = [u] ∧
      u.input = sampleTask.input :=
  (dispatchAfter_ownInput_iff echoExecutor [.dispatch sampleTask] [] sampleOrder 1 sampleTask
    (by decide) ⟨_, resolve_tableLater sampleTask, rfl⟩).2.mpr rfl

/-- A task with the input `[7]` is run on the empty input. -/
theorem dispatchAfter_drops_input :
    (∃ r, (tableLater echoExecutor [.dispatch sampleTask] [] sampleOrder 1
        { sampleTask with input := [7] }).resolve 1 = some r ∧ r.ok = true) ∧
      ¬ ∃ u, laterRuns echoExecutor [.dispatch sampleTask] [] sampleOrder 1
        { sampleTask with input := [7] } = [u] ∧ u.input = [7] := by
  have hr := resolve_tableLater (E := echoExecutor) (o := sampleOrder)
    (t := { sampleTask with input := [7] }) sampleTask
  have hruns := laterRuns_eq (by decide) rfl hr
  refine ⟨⟨_, hr, rfl⟩, fun hown => ?_⟩
  cases (ownInput_iff hruns).mp hown

end Cerberus.Runtime
