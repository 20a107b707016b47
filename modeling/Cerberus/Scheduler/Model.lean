import Cerberus.Contract.Compute
import Cerberus.Foundation.Encoding
import Cerberus.Foundation.Run
import Cerberus.Foundation.Sorting
import Cerberus.Foundation.Table

/-!
# The scheduler

The placement of tasks on nodes (`daemon/scheduler`). The scheduler keeps the last telemetry of
every node and one plan for every task.

A call that holds the lock is one `Section` of a run. `RerouteNode` holds it for every task that it
reroutes, and lets go of it in between (`rerouteNode_eq`), so a run of sections is any interleaving
of calls. The order in which Go ranges over a map, and what a sort does with scores that are no
numbers, are part of a call (`Env`).
-/

namespace Cerberus

open Foundation Contract List

namespace Scheduler

/-- `CostModel`: a score, and whether the node can run the task at all. -/
structure CostModel where
  score : ComputeTask → NodeTelemetry → Float × Bool

def defaultCostModel (minVRAM : UInt64) : CostModel where
  score _ n :=
    if n.thermal.throttling = true ∨ n.memory.vramFree < minVRAM then (0, false)
    else
      let score := n.memory.vramFree.toFloat / 1e9 + n.thermal.headroomC
      let score := if n.power.src = powerAC then score + 10 else score
      let score := if n.power.hint = sleepImminent then score - 100 else score
      let worst := n.links.foldl (fun worst l => if worst < l.rttms then l.rttms else worst) 0
      (score - worst / 100, true)

end Scheduler

structure Scheduler where
  nodes : List NodeTelemetry
  keyed : Table.Keyed NodeTelemetry.peerID nodes
  cost : Scheduler.CostModel
  /-- The plans, under the hexadecimal forms of the ids of the tasks. -/
  placements : OrdMap GoString Plan

namespace Scheduler

inductive Err
  /-- `ErrThermalShed`: no feasible node. -/
  | noFeasibleNode
  | unknownTask
  /-- `ErrThermalShed`: no feasible node after loss. -/
  | noFeasibleNodeAfterLoss
  deriving DecidableEq

structure Scored where
  id : PeerID
  sc : Float

structure Env where
  /-- The order of the nodes in a range over them. -/
  order : List NodeTelemetry → List NodeTelemetry
  order_perm : ∀ l, (order l).Perm l
  /-- `sort.SliceStable`, best first. -/
  sorter : LessSort fun a b : Scored => b.sc < a.sc

def new (cost : Option CostModel) : Scheduler :=
  ⟨[], nodup_nil, cost.getD (defaultCostModel 0), .empty⟩

def updateNode (t : NodeTelemetry) (s : Scheduler) : Scheduler :=
  { s with nodes := Table.upsert NodeTelemetry.peerID t s.nodes, keyed := s.keyed.upsert }

def candidates (env : Env) (t : ComputeTask) (exclude : List PeerID) (s : Scheduler) :
    List Scored :=
  (env.order s.nodes).filterMap fun tel =>
    if tel.peerID ∈ exclude then none
    else
      match s.cost.score t tel with
      | (sc, true) => some ⟨tel.peerID, sc⟩
      | (_, false) => none

def rank (env : Env) (t : ComputeTask) (exclude : List PeerID) (s : Scheduler) : List PeerID :=
  (env.sorter.sort (s.candidates env t exclude)).map Scored.id

/-- The end of a call: a plan that was made is stored and returned. -/
def store (taskID : List UInt8) (res : Except Err Plan) (s : Scheduler) :
    Except Err Plan × Scheduler :=
  match res with
  | .error e => (.error e, s)
  | .ok plan => (.ok plan, { s with placements := s.placements.put (hexEncode taskID) plan })

def placePlan (env : Env) (t : ComputeTask) (s : Scheduler) : Except Err Plan :=
  match s.rank env t [] with
  | [] => .error .noFeasibleNode
  | primary :: rest =>
    .ok ⟨t.taskID, [⟨t.shard, primary, t.caps⟩],
      (rest.head?.map fun standby => ⟨t.shard, standby, t.caps⟩).toList⟩

def place (env : Env) (t : ComputeTask) (s : Scheduler) : Except Err Plan × Scheduler :=
  s.store t.taskID (s.placePlan env t)

def bareTask (taskID : List UInt8) (shard : Shard) : ComputeTask := ⟨taskID, [], shard, [], [], []⟩

def nodeAt (ranked : List PeerID) (h : ranked ≠ []) (i : ℕ) : PeerID :=
  ranked.get ⟨i % ranked.length, Nat.mod_lt _ (length_pos_iff.mpr h)⟩

def pipelinePlan (env : Env) (taskID : List UInt8) (shards : List Shard) (s : Scheduler) :
    Except Err Plan :=
  let ranked := s.rank env (bareTask taskID default) []
  if h : ranked = [] then .error .noFeasibleNode
  else
    .ok ⟨taskID, shards.mapIdx fun i sh => ⟨sh, nodeAt ranked h i, []⟩,
      if 1 < ranked.length then shards.mapIdx fun i sh => ⟨sh, nodeAt ranked h (i + 1), []⟩
      else []⟩

def placePipeline (env : Env) (taskID : List UInt8) (shards : List Shard) (s : Scheduler) :
    Except Err Plan × Scheduler :=
  s.store taskID (s.pipelinePlan env taskID shards)

def prevShard (p : Plan) : Shard := (p.placements.head?.map Placement.shard).getD default

def promotion (prev : Plan) (lost : PeerID) : Option (Placement × Placement) :=
  match prev.placements.head?, prev.standbys.head? with
  | some primary, some standby => if primary.node = lost then some (primary, standby) else none
  | _, _ => none

def reroutePlan (env : Env) (taskID : List UInt8) (lost : PeerID) (s : Scheduler) :
    Except Err Plan :=
  match s.placements.get? (hexEncode taskID) with
  | none => .error .unknownTask
  | some prev =>
    match promotion prev lost with
    | some (primary, standby) =>
      let ranked := s.rank env (bareTask taskID primary.shard) [lost, standby.node]
      .ok ⟨taskID, [standby], (ranked.head?.map fun n => ⟨primary.shard, n, []⟩).toList⟩
    | none =>
      match s.rank env (bareTask taskID (prevShard prev)) [lost] with
      | [] => .error .noFeasibleNodeAfterLoss
      | primary :: rest =>
        .ok ⟨taskID, [⟨prevShard prev, primary, []⟩],
          (rest.head?.map fun n => ⟨prevShard prev, n, []⟩).toList⟩

def reroute (env : Env) (taskID : List UInt8) (lost : PeerID) (s : Scheduler) :
    Except Err Plan × Scheduler :=
  s.store taskID (s.reroutePlan env taskID lost)

def affected (lost : PeerID) (s : Scheduler) : List GoString :=
  (s.placements.entries.filter fun e => e.2.placements.any fun p => p.node = lost).map Prod.fst

def rerouteKeys (envs : List UInt8 → Env) (lost : PeerID) :
    List GoString → Scheduler → List Plan × Scheduler
  | [], s => ([], s)
  | key :: keys, s =>
    match hexDecode key with
    | none => rerouteKeys envs lost keys s
    | some taskID =>
      match s.reroute (envs taskID) taskID lost with
      | (.ok plan, s') => let res := rerouteKeys envs lost keys s'; (plan :: res.1, res.2)
      | (.error _, s') => rerouteKeys envs lost keys s'

/-- What a call of `RerouteNode` does not determine itself. -/
structure NodeEnv where
  /-- The order of the keys in a range over the plans. -/
  order : List GoString → List GoString
  order_perm : ∀ l, (order l).Perm l
  envs : List UInt8 → Env

/-- `RerouteNode`, when no other call comes in between. -/
def rerouteNode (env : NodeEnv) (lost : PeerID) (s : Scheduler) : List Plan × Scheduler :=
  rerouteKeys env.envs lost (env.order (s.affected lost)) s

/-! ### Runs -/

/-- What a call does while it holds the lock. -/
inductive Section
  | updateNode (t : NodeTelemetry)
  | place (env : Env) (t : ComputeTask)
  | placePipeline (env : Env) (taskID : List UInt8) (shards : List Shard)
  | reroute (env : Env) (taskID : List UInt8) (lost : PeerID)

def Section.result (s : Scheduler) : Section → Option (List UInt8 × Except Err Plan)
  | updateNode _ => none
  | place env t => some (t.taskID, s.placePlan env t)
  | placePipeline env taskID shards => some (taskID, s.pipelinePlan env taskID shards)
  | reroute env taskID lost => some (taskID, s.reroutePlan env taskID lost)

def step (s : Scheduler) : Section → Scheduler
  | .updateNode t => s.updateNode t
  | .place env t => (s.place env t).2
  | .placePipeline env taskID shards => (s.placePipeline env taskID shards).2
  | .reroute env taskID lost => (s.reroute env taskID lost).2

def rerouteSections (env : NodeEnv) (lost : PeerID) (s : Scheduler) : List Section :=
  ((env.order (s.affected lost)).filterMap hexDecode).map fun taskID =>
    .reroute (env.envs taskID) taskID lost

variable {env : Env} {s : Scheduler} {t : ComputeTask} {exclude : List PeerID}

/-- A call of `RerouteNode` is a sequence of sections. -/
theorem rerouteNode_eq (env : NodeEnv) (lost : PeerID) (s : Scheduler) :
    (s.rerouteNode env lost).2 = runFrom step s (s.rerouteSections env lost) := by
  unfold rerouteNode rerouteSections
  generalize env.order (s.affected lost) = keys
  induction keys generalizing s with
  | nil => rfl
  | cons key keys ih =>
    rw [rerouteKeys]
    cases hkey : hexDecode key with
    | none =>
      rw [filterMap_cons_none hkey]
      exact ih s
    | some taskID =>
      rw [filterMap_cons_some hkey, map_cons, runFrom_cons, step]
      simp only
      rcases s.reroute (env.envs taskID) taskID lost with ⟨_ | plan, s'⟩
      · exact ih s'
      · exact ih s'

variable {e : Section} {taskID : List UInt8}

lemma step_of_result {res : Except Err Plan} (h : e.result s = some (taskID, res)) :
    s.step e = (s.store taskID res).2 := by
  cases e with
  | updateNode t => cases h
  | place env t =>
    cases h
    rfl
  | placePipeline env taskID shards =>
    cases h
    rfl
  | reroute env taskID lost =>
    cases h
    rfl

lemma get?_step_of_ok {plan : Plan} (h : e.result s = some (taskID, .ok plan)) (key : GoString) :
    (s.step e).placements.get? key =
      if key = hexEncode taskID then some plan else s.placements.get? key := by
  rw [step_of_result h]
  refine (OrdMap.get?_put s.placements (hexEncode taskID) key plan).trans ?_
  congr

lemma placements_step_of_ne_ok (h : ∀ taskID plan, e.result s ≠ some (taskID, .ok plan)) :
    (s.step e).placements = s.placements := by
  cases hres : e.result s with
  | none =>
    cases e with
    | updateNode t => rfl
    | place env t => cases hres
    | placePipeline env taskID shards => cases hres
    | reroute env taskID lost => cases hres
  | some r =>
    obtain ⟨taskID, _ | plan⟩ := r
    · rw [step_of_result hres]
      rfl
    · exact absurd hres (h taskID plan)

/-! ### Ranking -/

lemma mem_candidates_iff {c : Scored} : c ∈ s.candidates env t exclude ↔
    ∃ tel ∈ s.nodes, tel.peerID = c.id ∧ c.id ∉ exclude ∧ s.cost.score t tel = (c.sc, true) := by
  unfold candidates
  rw [mem_filterMap]
  refine exists_congr fun tel => ?_
  rw [(env.order_perm s.nodes).mem_iff]
  refine and_congr_right fun _ => ?_
  obtain ⟨id, sc⟩ := c
  by_cases hex : tel.peerID ∈ exclude
  · rw [if_pos hex]
    constructor
    · intro h
      cases h
    · rintro ⟨rfl, hno, -⟩
      exact absurd hex hno
  · rw [if_neg hex]
    rcases hscore : s.cost.score t tel with ⟨sc', _ | _⟩
    · simp
    · simp only [Option.some.injEq, Scored.mk.injEq, Prod.mk.injEq, and_true]
      constructor
      · rintro ⟨rfl, rfl⟩
        exact ⟨rfl, hex, rfl⟩
      · rintro ⟨rfl, -, rfl⟩
        exact ⟨rfl, rfl⟩

lemma mem_rank_iff {n : PeerID} : n ∈ s.rank env t exclude ↔
    n ∉ exclude ∧ ∃ tel ∈ s.nodes, tel.peerID = n ∧ (s.cost.score t tel).2 = true := by
  unfold rank
  rw [mem_map]
  constructor
  · rintro ⟨c, hc, rfl⟩
    obtain ⟨tel, htel, hid, hex, hscore⟩ := mem_candidates_iff.mp (env.sorter.mem_sort.mp hc)
    exact ⟨hex, tel, htel, hid, by rw [hscore]⟩
  · rintro ⟨hex, tel, htel, rfl, hfeasible⟩
    refine ⟨⟨tel.peerID, (s.cost.score t tel).1⟩, env.sorter.mem_sort.mpr ?_, rfl⟩
    exact mem_candidates_iff.mpr ⟨tel, htel, rfl, hex, by rw [← hfeasible]⟩

lemma nodup_rank : (s.rank env t exclude).Nodup := by
  have hcands : Table.Keyed Scored.id (s.candidates env t exclude) := by
    refine (s.keyed.of_perm (env.order_perm s.nodes)).filterMap fun tel c hc => ?_
    split_ifs at hc
    rcases hscore : s.cost.score t tel with ⟨sc, _ | _⟩
    · rw [hscore] at hc
      cases hc
    · rw [hscore] at hc
      cases hc
      rfl
  exact hcands.of_perm (env.sorter.perm _)

end Scheduler

end Cerberus
