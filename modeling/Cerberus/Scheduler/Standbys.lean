import Cerberus.Scheduler.Pipelines

/-!
# Standbys

A standby takes over for the primary with the same number, so it must be for the same shard and on
another node (`Paired`). The ranked nodes are different, and the ranges that a plan is made from run
over the shards in step, so every plan that the scheduler makes is paired. `Reroute` promotes a
standby of the plan before it, so that its plan avoids the lost node (`Avoids`) rests on the plan
before being paired.
-/

namespace Cerberus.Scheduler

open Foundation Contract Option List

/-- Every standby is for the shard of its primary, on another node. -/
def Paired (p : Plan) : Prop :=
  ∀ (i : ℕ) (q' : Placement), p.standbys[i]? = some q' →
    ∃ q : Placement, p.placements[i]? = some q ∧ q'.shard = q.shard ∧ q'.node ≠ q.node

/-- The plan has neither a primary nor a standby on the node. -/
def Avoids (lost : PeerID) (p : Plan) : Prop :=
  (∀ q ∈ p.placements, q.node ≠ lost) ∧ ∀ q ∈ p.standbys, q.node ≠ lost

variable {env : Env} {s : Scheduler} {taskID : List UInt8} {shards : List Shard} {plan : Plan}
  {lost : PeerID} {e : Section} {t : ComputeTask}

/-! ### The plans that are made -/

lemma paired_single {q : Placement} {standby : Option Placement}
    (h : ∀ q' ∈ standby, q'.shard = q.shard ∧ q'.node ≠ q.node) :
    Paired ⟨taskID, [q], standby.toList⟩ := by
  intro i q' hq'
  cases standby with
  | none => cases hq'
  | some q₁ =>
    cases i with
    | zero =>
      cases hq'
      exact ⟨q, rfl, h q' rfl⟩
    | succ i => cases hq'

lemma avoids_single {q : Placement} {standby : Option Placement} (hq : q.node ≠ lost)
    (h : ∀ q' ∈ standby, q'.node ≠ lost) : Avoids lost ⟨taskID, [q], standby.toList⟩ := by
  refine ⟨fun q₁ hq₁ => ?_, fun q' hq' => h q' (mem_toList.mp hq')⟩
  rw [mem_singleton.mp hq₁]
  exact hq

lemma paired_placePlan (h : s.placePlan env t = .ok plan) : Paired plan := by
  unfold placePlan at h
  cases hrank : s.rank env t [] with
  | nil =>
    rw [hrank] at h
    cases h
  | cons n rest =>
    rw [hrank] at h
    cases h
    refine paired_single fun q' hq' => ?_
    obtain ⟨n', hn', rfl⟩ := map_eq_some_iff.mp hq'
    exact ⟨rfl, ne_of_rank_cons hrank hn'⟩

/-- `PlacePipeline` makes a paired plan: primary and standby of a shard are neighbours in the
ranking. -/
lemma paired_pipelinePlan (h : s.pipelinePlan env taskID shards = .ok plan) : Paired plan := by
  unfold pipelinePlan at h
  simp only at h
  split_ifs at h with hranked hlen
  · cases h
    intro i q' hq'
    rw [List.getElem?_mapIdx] at hq'
    obtain ⟨sh, hsh, rfl⟩ := map_eq_some_iff.mp hq'
    refine ⟨⟨sh, nodeAt _ hranked i, []⟩, ?_, rfl, nodeAt_succ_ne hranked hlen nodup_rank i⟩
    rw [List.getElem?_mapIdx, hsh]
    rfl
  · cases h
    intro i q' hq'
    cases hq'

lemma Paired.reroutePlan {prev : Plan} (hprev : Paired prev)
    (hget : s.placements.get? (hexEncode taskID) = some prev)
    (h : s.reroutePlan env taskID lost = .ok plan) : Paired plan ∧ Avoids lost plan := by
  unfold Scheduler.reroutePlan at h
  rw [hget] at h
  simp only at h
  cases hpromo : promotion prev lost with
  | some qs =>
    -- the promoted standby is the one of the lost primary, so it is elsewhere
    obtain ⟨q, q'⟩ := qs
    rw [hpromo] at h
    cases h
    obtain ⟨hq, hq', rfl⟩ := of_promotion hpromo
    rw [List.head?_eq_getElem?] at hq hq'
    obtain ⟨q₁, hq₁, hshard, hnode⟩ := hprev 0 q' hq'
    obtain rfl : q = q₁ := Option.some.inj (hq.symm.trans hq₁)
    refine ⟨paired_single fun q₂ hq₂ => ?_, avoids_single hnode fun q₂ hq₂ => ?_⟩
    · obtain ⟨n, hn, rfl⟩ := map_eq_some_iff.mp hq₂
      exact ⟨hshard.symm, fun heq => notMem_of_head?_rank hn (by simp [show n = q'.node from heq])⟩
    · obtain ⟨n, hn, rfl⟩ := map_eq_some_iff.mp hq₂
      exact fun heq => notMem_of_head?_rank hn (by simp [show n = q.node from heq])
  | none =>
    rw [hpromo] at h
    simp only at h
    cases hrank : s.rank env (bareTask taskID (prevShard prev)) [lost] with
    | nil =>
      rw [hrank] at h
      cases h
    | cons n rest =>
      rw [hrank] at h
      cases h
      have hlost : ∀ n' ∈ n :: rest, n' ≠ lost := by
        intro n' hn' heq
        rw [← hrank] at hn'
        exact (mem_rank_iff.mp hn').1 (mem_singleton.mpr heq)
      refine ⟨paired_single fun q₂ hq₂ => ?_,
        avoids_single (hlost n mem_cons_self) fun q₂ hq₂ => ?_⟩
      · obtain ⟨n', hn', rfl⟩ := map_eq_some_iff.mp hq₂
        exact ⟨rfl, ne_of_rank_cons hrank hn'⟩
      · obtain ⟨n', hn', rfl⟩ := map_eq_some_iff.mp hq₂
        exact hlost n' (mem_cons_of_mem n (mem_of_mem_head? hn'))

/-! ### Runs -/

def AllPaired (s : Scheduler) : Prop := ∀ key p, s.placements.get? key = some p → Paired p

section

variable (hs : AllPaired s)
include hs

lemma AllPaired.reroute (h : s.reroutePlan env taskID lost = .ok plan) :
    Paired plan ∧ Avoids lost plan := by
  cases hget : s.placements.get? (hexEncode taskID) with
  | none =>
    unfold Scheduler.reroutePlan at h
    rw [hget] at h
    cases h
  | some prev => exact (hs _ prev hget).reroutePlan hget h

lemma AllPaired.result (h : e.result s = some (taskID, .ok plan)) : Paired plan := by
  cases e with
  | updateNode t => cases h
  | place env t => exact paired_placePlan (Prod.mk.inj (Option.some.inj h)).2
  | placePipeline env id shards => exact paired_pipelinePlan (Prod.mk.inj (Option.some.inj h)).2
  | reroute env id lost => exact (hs.reroute (Prod.mk.inj (Option.some.inj h)).2).1

lemma AllPaired.step (e : Section) : AllPaired (s.step e) := by
  intro key p hp
  by_cases hok : ∃ id plan, e.result s = some (id, .ok plan)
  · obtain ⟨id, plan, hres⟩ := hok
    rw [get?_step_of_ok hres] at hp
    split_ifs at hp
    · cases hp
      exact hs.result hres
    · exact hs key p hp
  · rw [placements_step_of_ne_ok fun id plan hres => hok ⟨id, plan, hres⟩] at hp
    exact hs key p hp

lemma AllPaired.run (es : List Section) : AllPaired (runFrom Scheduler.step s es) :=
  runFrom_keeps (fun _ e h => h.step e) hs es

end

lemma allPaired_run (cost : Option CostModel) (es : List Section) :
    AllPaired (runFrom step (new cost) es) := by
  refine AllPaired.run (fun key p hp => ?_) es
  cases hp

/-- Where all plans are paired, the plans that `RerouteNode` returns are paired too and avoid the
lost node. -/
lemma AllPaired.rerouteKeys (hs : AllPaired s) (envs : List UInt8 → Env) (lost : PeerID)
    (keys : List GoString) :
    ∀ plan ∈ (s.rerouteKeys envs lost keys).1, Paired plan ∧ Avoids lost plan := by
  induction keys generalizing s with
  | nil =>
    intro plan hplan
    cases hplan
  | cons key keys ih =>
    intro plan hplan
    rw [Scheduler.rerouteKeys] at hplan
    cases hkey : hexDecode key with
    | none =>
      rw [hkey] at hplan
      exact ih hs plan hplan
    | some taskID =>
      rw [hkey] at hplan
      simp only at hplan
      have hnext : AllPaired (s.reroute (envs taskID) taskID lost).2 :=
        hs.step (.reroute (envs taskID) taskID lost)
      have hfst : (s.reroute (envs taskID) taskID lost).1 =
        s.reroutePlan (envs taskID) taskID lost := fst_store taskID _
      rcases hres : s.reroute (envs taskID) taskID lost with ⟨_ | p, s'⟩
      · rw [hres] at hplan hnext
        exact ih hnext plan hplan
      · rw [hres] at hplan hnext hfst
        rcases mem_cons.mp hplan with rfl | hplan
        · exact hs.reroute hfst.symm
        · exact ih hnext plan hplan

/-- In every run of the scheduler every stored plan has each standby for the shard of its primary and
on another node, also after a call of `RerouteNode`; and the plans that `Reroute` and `RerouteNode`
return put neither a primary nor a standby on the lost node. -/
theorem standbys_apart (cost : Option CostModel) (es : List Section) :
    (∀ key p, (runFrom step (new cost) es).placements.get? key = some p → Paired p) ∧
    (∀ env taskID lost plan,
      ((runFrom step (new cost) es).reroute env taskID lost).1 = .ok plan → Avoids lost plan) ∧
    ∀ env lost,
      (∀ key p, ((runFrom step (new cost) es).rerouteNode env lost).2.placements.get? key = some p →
        Paired p) ∧
      ∀ plan ∈ ((runFrom step (new cost) es).rerouteNode env lost).1, Avoids lost plan := by
  have hs : AllPaired (runFrom step (new cost) es) := allPaired_run cost es
  refine ⟨hs, fun env taskID lost plan h => ?_, fun env lost => ⟨?_, fun plan hplan => ?_⟩⟩
  · rw [reroute, fst_store] at h
    exact (hs.reroute h).2
  · rw [rerouteNode_eq]
    exact hs.run _
  · exact (hs.rerouteKeys env.envs lost _ plan hplan).2

end Cerberus.Scheduler
