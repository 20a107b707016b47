import Cerberus.Scheduler.Model

/-!
# Rerouting a pipeline

`PlacePipeline` places every shard of a task. A plan that `Reroute` makes has one placement, for the
shard that the old plan has first: whether the standby is promoted or the task is placed again, the
other shards of a pipeline are dropped. What does hold is that the one placement is not on the lost
node, since a standby is never on the node of its primary.
-/

namespace Cerberus.Scheduler

open Foundation Contract List Option

/-- Every shard is placed as often as it occurs. -/
def Whole (shards : List Shard) (p : Plan) : Prop :=
  ∀ sh ∈ shards, (p.placements.map Placement.shard).count sh = shards.count sh

/-- A reroute of the task succeeds. -/
def Reroutes (taskID : List UInt8) (s : Scheduler) (e : Section) : Prop :=
  ∃ env lost plan, e = .reroute env taskID lost ∧ (s.reroute env taskID lost).1 = .ok plan

/-- If the section is a reroute of the task that succeeds, the plan that is stored then is whole and
has no placement on the lost node. -/
def KeepsWhole (taskID : List UInt8) (shards : List Shard) (s : Scheduler) (e : Section) : Prop :=
  ∀ env lost plan, e = .reroute env taskID lost → (s.reroute env taskID lost).1 = .ok plan →
    ∃ p, (s.step e).placements.get? (hexEncode taskID) = some p ∧ Whole shards p ∧
      ∀ q ∈ p.placements, q.node ≠ lost

def Section.Places (taskID : List UInt8) : Section → Prop
  | .place _ t => t.taskID = taskID
  | .placePipeline _ id _ => id = taskID
  | _ => False

/-- What stays true of the plan of a task: its first shard, and that the first standby, for the same
shard, is on another node than the first primary. -/
structure Lineage (shards : List Shard) (p : Plan) : Prop where
  first : prevShard p = shards.headD default
  standby : ∀ q ∈ p.standbys.head?, q.shard = shards.headD default
  apart : ∀ q ∈ p.placements.head?, ∀ q' ∈ p.standbys.head?, q'.node ≠ q.node

/-- One placement is left, for the first shard and off the lost node. -/
def Reduced (shards : List Shard) (lost : PeerID) (p : Plan) : Prop :=
  ∃ q, p.placements = [q] ∧ q.shard = shards.headD default ∧ q.node ≠ lost

variable {env : Env} {s s' : Scheduler} {taskID : List UInt8} {shards : List Shard} {p plan : Plan}
  {lost : PeerID} {e : Section}

@[simp] lemma fst_store (taskID : List UInt8) (res : Except Err Plan) :
    (s.store taskID res).1 = res := by
  cases res with
  | error e => rfl
  | ok plan => rfl

lemma nodeAt_succ_ne {ranked : List PeerID} (h : ranked ≠ []) (hlen : 1 < ranked.length)
    (hnodup : ranked.Nodup) (i : ℕ) : nodeAt ranked h (i + 1) ≠ nodeAt ranked h i := by
  intro heq
  have hmod : (i + 1) % ranked.length = i % ranked.length :=
    congrArg Fin.val (nodup_iff_injective_get.mp hnodup heq)
  have hdvd : i + 1 ≡ i + 0 [MOD ranked.length] := hmod
  have hone : ranked.length ∣ 1 := Nat.modEq_zero_iff_dvd.mp (Nat.ModEq.add_left_cancel' i hdvd)
  exact absurd (Nat.le_of_dvd Nat.one_pos hone) (by omega)

variable {t : ComputeTask} {exclude : List PeerID} {n : PeerID} {q : Placement}

lemma ne_of_rank_cons {n' : PeerID} {rest : List PeerID}
    (hrank : s.rank env t exclude = n :: rest) (hn' : rest.head? = some n') : n' ≠ n := by
  have hnodup : (n :: rest).Nodup := hrank ▸ nodup_rank
  rintro rfl
  exact (nodup_cons.mp hnodup).1 (mem_of_mem_head? hn')

lemma prevShard_mapIdx (f : ℕ → Shard → Placement) (hf : ∀ sh, (f 0 sh).shard = sh)
    (standbys : List Placement) :
    prevShard ⟨taskID, shards.mapIdx f, standbys⟩ = shards.headD default := by
  unfold prevShard
  rw [List.head?_mapIdx]
  cases shards with
  | nil => rfl
  | cons sh shards => exact hf sh

lemma lineage_pipelinePlan (h : s.pipelinePlan env taskID shards = .ok plan) :
    Lineage shards plan := by
  unfold pipelinePlan at h
  simp only at h
  split_ifs at h with hranked hlen
  · cases h
    refine ⟨prevShard_mapIdx _ (fun _ => rfl) _, fun q hq => ?_, fun q hq q' hq' => ?_⟩
    · rw [List.head?_mapIdx] at hq
      obtain ⟨sh, hsh, rfl⟩ := map_eq_some_iff.mp hq
      rw [headD_eq_head?_getD, hsh]
      rfl
    · rw [List.head?_mapIdx] at hq hq'
      obtain ⟨sh, -, rfl⟩ := map_eq_some_iff.mp hq
      obtain ⟨sh', -, rfl⟩ := map_eq_some_iff.mp hq'
      exact nodeAt_succ_ne hranked hlen nodup_rank 0
  · cases h
    refine ⟨prevShard_mapIdx _ (fun _ => rfl) _, fun q hq => ?_, fun q _ q' hq' => ?_⟩
    · cases hq
    · cases hq'

lemma Lineage.of_single {standby : Option Placement} (hq : q.shard = shards.headD default)
    (hshard : ∀ q' ∈ standby, q'.shard = shards.headD default)
    (hnode : ∀ q' ∈ standby, q'.node ≠ q.node) : Lineage shards ⟨taskID, [q], standby.toList⟩ := by
  have hhead : standby.toList.head? = standby := by
    cases standby with
    | none => rfl
    | some q' => rfl
  refine ⟨hq, fun q' hq' => hshard q' (hhead ▸ hq'), fun q₁ hq₁ q' hq' => ?_⟩
  rw [List.head?_cons, mem_some_iff] at hq₁
  rw [← hq₁]
  exact hnode q' (hhead ▸ hq')

lemma notMem_of_head?_rank (h : (s.rank env t exclude).head? = some n) : n ∉ exclude :=
  (mem_rank_iff.mp (mem_of_mem_head? h)).1

lemma of_promotion {prev : Plan} {q' : Placement} (h : promotion prev lost = some (q, q')) :
    prev.placements.head? = some q ∧ prev.standbys.head? = some q' ∧ q.node = lost := by
  unfold promotion at h
  split at h
  · rename_i q₁ q₂ hq hq'
    split_ifs at h with hnode
    cases h
    exact ⟨hq, hq', hnode⟩
  · cases h

lemma Lineage.reroutePlan (hp : Lineage shards p)
    (hget : s.placements.get? (hexEncode taskID) = some p)
    (h : s.reroutePlan env taskID lost = .ok plan) :
    Lineage shards plan ∧ Reduced shards lost plan := by
  unfold Scheduler.reroutePlan at h
  rw [hget] at h
  simp only at h
  cases hpromo : promotion p lost with
  | some qs =>
    obtain ⟨q, q'⟩ := qs
    rw [hpromo] at h
    cases h
    obtain ⟨hq, hq', rfl⟩ := of_promotion hpromo
    have hshard : q.shard = shards.headD default := by
      rw [← hp.first, prevShard, hq]
      rfl
    have hq'shard := hp.standby q' hq'
    refine ⟨.of_single hq'shard ?_ ?_, q', rfl, hq'shard, hp.apart q hq q' hq'⟩
    · intro q₁ hq₁
      obtain ⟨n, -, rfl⟩ := map_eq_some_iff.mp hq₁
      exact hshard
    · intro q₁ hq₁
      obtain ⟨n, hn, rfl⟩ := map_eq_some_iff.mp hq₁
      exact fun heq => notMem_of_head?_rank hn (by simp [show n = q'.node from heq])
  | none =>
    rw [hpromo] at h
    simp only at h
    cases hrank : s.rank env (bareTask taskID (prevShard p)) [lost] with
    | nil =>
      rw [hrank] at h
      cases h
    | cons n rest =>
      rw [hrank] at h
      cases h
      have hlost : n ∉ [lost] := notMem_of_head?_rank (by rw [hrank]; rfl)
      refine ⟨.of_single hp.first ?_ ?_, _, rfl, hp.first, fun heq => ?_⟩
      · intro q₁ hq₁
        obtain ⟨n', -, rfl⟩ := map_eq_some_iff.mp hq₁
        exact hp.first
      · intro q₁ hq₁
        obtain ⟨n', hn', rfl⟩ := map_eq_some_iff.mp hq₁
        exact ne_of_rank_cons hrank hn'
      · exact hlost (mem_singleton.mpr heq)

lemma Reduced.whole_iff (h : Reduced shards lost p) : Whole shards p ↔ shards.length ≤ 1 := by
  obtain ⟨q, hq, hshard, -⟩ := h
  unfold Whole
  rw [hq, map_singleton, hshard]
  cases shards with
  | nil => simp
  | cons sh shards =>
    rw [headD_cons]
    constructor
    · intro hall
      cases shards with
      | nil => exact le_rfl
      | cons sh' shards =>
        have hfirst := hall sh mem_cons_self
        have hsecond := hall sh' (mem_cons_of_mem _ mem_cons_self)
        by_cases heq : sh' = sh
        · subst heq
          simp at hfirst
        · simp [Ne.symm heq] at hsecond
    · intro hlen
      obtain rfl : shards = [] := eq_nil_of_length_eq_zero (by simpa using hlen)
      intro sh' hsh'
      rw [mem_singleton.mp hsh']

/-! ### Runs -/

/-- The plan of the task goes back to the pipeline. -/
def Descends (taskID : List UInt8) (shards : List Shard) (s : Scheduler) : Prop :=
  ∃ p, s.placements.get? (hexEncode taskID) = some p ∧ Lineage shards p

lemma Descends.step (h : Descends taskID shards s) (he : ¬ e.Places taskID) :
    Descends taskID shards (s.step e) := by
  obtain ⟨p, hget, hp⟩ := h
  by_cases hok : ∃ plan, e.result s = some (taskID, .ok plan)
  · obtain ⟨plan, hres⟩ := hok
    refine ⟨plan, by rw [get?_step_of_ok hres, if_pos rfl], ?_⟩
    cases e with
    | updateNode t => cases hres
    | place env t => exact absurd (Prod.mk.inj (Option.some.inj hres)).1 he
    | placePipeline env id shards' => exact absurd (Prod.mk.inj (Option.some.inj hres)).1 he
    | reroute env id lost =>
      obtain ⟨rfl, hplan⟩ := Prod.mk.inj (Option.some.inj hres)
      exact (hp.reroutePlan hget hplan).1
  · refine ⟨p, ?_, hp⟩
    by_cases hother : ∃ id plan, e.result s = some (id, .ok plan)
    · obtain ⟨id, plan, hres⟩ := hother
      rw [get?_step_of_ok hres, if_neg, hget]
      intro heq
      rw [← hexEncode_injective heq] at hres
      exact hok ⟨plan, hres⟩
    · rw [placements_step_of_ne_ok fun id plan hres => hother ⟨id, plan, hres⟩, hget]

lemma Descends.keepsWhole_iff (h : Descends taskID shards s) :
    KeepsWhole taskID shards s e ↔ (Reroutes taskID s e → shards.length ≤ 1) := by
  obtain ⟨p, hget, hp⟩ := h
  have hstored : ∀ {env lost plan}, s.reroutePlan env taskID lost = .ok plan →
      (s.step (.reroute env taskID lost)).placements.get? (hexEncode taskID) = some plan := by
    intro env lost plan hplan
    have hres : Section.result s (.reroute env taskID lost) = some (taskID, .ok plan) := by
      rw [Section.result, hplan]
    rw [get?_step_of_ok hres, if_pos rfl]
  constructor
  · rintro hkeeps ⟨env, lost, plan, rfl, hres⟩
    obtain ⟨p', hget', hwhole, -⟩ := hkeeps env lost plan rfl hres
    rw [reroute, fst_store] at hres
    rw [hstored hres] at hget'
    cases hget'
    exact (hp.reroutePlan hget hres).2.whole_iff.mp hwhole
  · rintro hlen env lost plan rfl hres
    have hlen' := hlen ⟨env, lost, plan, rfl, hres⟩
    rw [reroute, fst_store] at hres
    have hreduced := (hp.reroutePlan hget hres).2
    refine ⟨plan, hstored hres, hreduced.whole_iff.mpr hlen', fun q hq => ?_⟩
    obtain ⟨q', hq', -, hnode⟩ := hreduced
    rw [hq', mem_singleton] at hq
    rw [hq]
    exact hnode

/-- A task that was placed as a pipeline, and any sections that follow, up to the next placement of
the task: every reroute that succeeds leaves a whole plan that avoids the lost node, iff the
task has one shard at most or no reroute succeeds. -/
theorem pipeline_whole_iff (s : Scheduler) (env : Env) (taskID : List UInt8) (shards : List Shard)
    (plan : Plan) (s' : Scheduler) (hplace : s.placePipeline env taskID shards = (.ok plan, s'))
    (es : List Section) (hes : ∀ e ∈ es, ¬ e.Places taskID) :
    Along step (KeepsWhole taskID shards) s' es ↔
      shards.length ≤ 1 ∨ Along step (fun s e => ¬ Reroutes taskID s e) s' es := by
  have hplan : s.pipelinePlan env taskID shards = .ok plan := by
    have hfst := congrArg Prod.fst hplace
    rwa [placePipeline, fst_store] at hfst
  have hstart : Descends taskID shards s' := by
    have hres : Section.result s (.placePipeline env taskID shards) = some (taskID, .ok plan) := by
      rw [Section.result, hplan]
    have hstep : s' = s.step (.placePipeline env taskID shards) := (congrArg Prod.snd hplace).symm
    refine ⟨plan, ?_, lineage_pipelinePlan hplan⟩
    rw [hstep, get?_step_of_ok hres, if_pos rfl]
  rw [along_congr_of_keeps (I := Descends taskID shards) (N := fun _ e => ¬ e.Places taskID)
    (fun _ _ h he => h.step he) (fun _ _ h _ => h.keepsWhole_iff) hstart
    (along_of_forall_mem fun e he _ => hes e he)]
  by_cases hlen : shards.length ≤ 1
  · exact iff_of_true (along_of_forall_mem fun _ _ _ _ => hlen) (.inl hlen)
  · simp only [hlen, imp_false, false_or]

namespace Sample

def ranging : Env := ⟨id, fun _ => .refl _, LessSort.insertion _⟩

def telemetry (b : UInt8) : NodeTelemetry where
  peerID := Vector.replicate 32 b
  epochMs := 0
  compute := ⟨8, 0, 0, 0, 0⟩
  memory := ⟨16, 8, 8, 6, 0⟩
  links := []
  thermal := ⟨0, 0, 30, false⟩
  power := ⟨powerAC, 0, 0, 0⟩
  clock := .empty

def shard (lo : UInt32) : Shard := ⟨0, lo, lo + 1, 0, 0⟩

def oneNode : Scheduler := (new none).updateNode (telemetry 1)

def takeover : List Section :=
  [.updateNode (telemetry 2), .reroute ranging [7] (Vector.replicate 32 1)]

end Sample

open Sample

/-- A task with one shard stays whole when its node is lost and another one takes over. -/
theorem pipeline_whole_iff_sample :
    ∃ plan s', oneNode.placePipeline ranging [7] [shard 0] = (.ok plan, s') ∧
      Along step (KeepsWhole [7] [shard 0]) s' takeover := by
  refine ⟨_, _, rfl, ?_⟩
  refine (pipeline_whole_iff oneNode ranging [7] [shard 0] _ _ rfl
    takeover ?_).mpr (.inl le_rfl)
  intro e he
  simp only [takeover, List.mem_cons, List.not_mem_nil, or_false] at he
  rcases he with rfl | rfl
  · exact id
  · exact id

/-- A task with two shards has one left when its node is lost and another one takes over. -/
theorem shard_dropped :
    ∃ plan s' p, oneNode.placePipeline ranging [7] [shard 0, shard 1] =
        (.ok plan, s') ∧
      ((runFrom step s' takeover).placements.get? (hexEncode [7]) = some p ∧
        p.placements.map Placement.shard = [shard 0]) ∧
      ((s'.updateNode (telemetry 2)).reroute ranging [7] (Vector.replicate 32 1)).1 =
        .ok p :=
  ⟨_, _, _, rfl, ⟨rfl, rfl⟩, rfl⟩

end Cerberus.Scheduler
