import Cerberus.Scheduler.Pipelines

/-!
# A node after its loss

`RerouteNode` moves the tasks of a lost node to other nodes. It does not take the node out of the
table of telemetry, so a later placement ranks it like any other, and the standbys that were chosen
before the loss are not looked at, so a later loss of another node promotes one on the lost node.

`lost_unused_iff` says when the lost node stays unused.
-/

namespace Cerberus.Scheduler

open Foundation Contract List

/-- A primary of the plan is on the node. -/
def On (x : PeerID) (p : Plan) : Prop := ∃ q ∈ p.placements, q.node = x

/-- A scheduler, and the keys of the tasks that could not be moved away from the lost node. -/
structure Watch where
  scheduler : Scheduler
  failed : Set GoString

/-- The keys of the tasks that the section tries to move away from the node. -/
def Section.leaving (x : PeerID) : Section → Set GoString
  | .reroute _ taskID lost => {key | key = hexEncode taskID ∧ lost = x}
  | _ => ∅

def Section.Fails (s : Scheduler) (e : Section) : Prop :=
  ∃ taskID err, e.result s = some (taskID, .error err)

def watchStep (x : PeerID) (w : Watch) (e : Section) : Watch :=
  ⟨w.scheduler.step e, w.failed ∪ {key | key ∈ e.leaving x ∧ e.Fails w.scheduler}⟩

/-- A plan that the section makes has no primary on the node, unless the task could not be moved
away from it. -/
def MakesNone (x : PeerID) (w : Watch) (e : Section) : Prop :=
  ∀ taskID plan, e.result w.scheduler = some (taskID, .ok plan) → On x plan →
    hexEncode taskID ∈ w.failed

/-- A plan that is stored has no primary on the node, unless the task could not be moved away from
it. -/
def StoresNone (x : PeerID) (w : Watch) : Prop :=
  ∀ key plan, w.scheduler.placements.get? key = some plan → On x plan → key ∈ w.failed

/-- The section picks the node for a primary placement: it is ranked high enough, or it is the
standby that is promoted. -/
def Picks (x : PeerID) (s : Scheduler) : Section → Prop
  | .updateNode _ => False
  | .place env t => (s.rank env t []).head? = some x
  | .placePipeline env taskID shards =>
    x ∈ (s.rank env (bareTask taskID default) []).take shards.length
  | .reroute env taskID lost =>
    ∃ prev, s.placements.get? (hexEncode taskID) = some prev ∧
      match promotion prev lost with
      | some (_, standby) => standby.node = x
      | none => (s.rank env (bareTask taskID (prevShard prev)) [lost]).head? = some x

def Section.task : Section → List UInt8
  | .updateNode _ => []
  | .place _ t => t.taskID
  | .placePipeline _ taskID _ => taskID
  | .reroute _ taskID _ => taskID

variable {env : Env} {s : Scheduler} {x lost : PeerID} {e : Section} {es es' : List Section}
  {taskID : List UInt8} {shards : List Shard} {t : ComputeTask} {plan : Plan} {w : Watch}
  {key : GoString} {keys : Set GoString}

/-! ### The nodes that are picked -/

lemma on_single {q : Placement} {standbys : List Placement} :
    On x ⟨taskID, [q], standbys⟩ ↔ q.node = x := by
  simp [On]

lemma exists_nodeAt_iff {ranked : List PeerID} (h : ranked ≠ []) {n : ℕ} :
    (∃ i < n, nodeAt ranked h i = x) ↔ x ∈ ranked.take n := by
  rw [mem_take_iff_getElem]
  constructor
  · rintro ⟨i, hi, rfl⟩
    have hlt : i % ranked.length < ranked.length := Nat.mod_lt _ (length_pos_iff.mpr h)
    exact ⟨i % ranked.length, lt_min ((Nat.mod_le _ _).trans_lt hi) hlt, rfl⟩
  · rintro ⟨i, hi, rfl⟩
    refine ⟨i, (lt_min_iff.mp hi).1, ?_⟩
    simp only [nodeAt, Nat.mod_eq_of_lt (lt_min_iff.mp hi).2, get_eq_getElem]

lemma on_placePlan_iff :
    (∃ plan, s.placePlan env t = .ok plan ∧ On x plan) ↔ (s.rank env t []).head? = some x := by
  unfold placePlan
  cases s.rank env t [] with
  | nil => simp
  | cons n rest => simp [on_single]

lemma on_pipelinePlan_iff : (∃ plan, s.pipelinePlan env taskID shards = .ok plan ∧ On x plan) ↔
    x ∈ (s.rank env (bareTask taskID default) []).take shards.length := by
  unfold pipelinePlan
  by_cases h : s.rank env (bareTask taskID default) [] = []
  · simp [h]
  · rw [← exists_nodeAt_iff h]
    simp only [dif_neg h, Except.ok.injEq, exists_eq_left', On, mem_mapIdx]
    constructor
    · rintro ⟨q, ⟨i, hi, rfl⟩, hnode⟩
      exact ⟨i, hi, hnode⟩
    · rintro ⟨i, hi, hnode⟩
      exact ⟨_, ⟨i, hi, rfl⟩, hnode⟩

lemma on_reroutePlan_iff : (∃ plan, s.reroutePlan env taskID lost = .ok plan ∧ On x plan) ↔
    Picks x s (.reroute env taskID lost) := by
  unfold reroutePlan Picks
  cases hget : s.placements.get? (hexEncode taskID) with
  | none => simp [hget]
  | some prev =>
    simp only [hget, Option.some.injEq, exists_eq_left']
    cases promotion prev lost with
    | some qs => simp [on_single]
    | none =>
      simp only
      cases s.rank env (bareTask taskID (prevShard prev)) [lost] with
      | nil => simp
      | cons n rest => simp [on_single]

lemma makesNone_iff : MakesNone x w e ↔ (Picks x w.scheduler e → hexEncode e.task ∈ w.failed) := by
  have hex : ∀ {res : Except Err Plan} {id : List UInt8} {P : Prop},
      ((∃ plan, res = .ok plan ∧ On x plan) ↔ P) → ((∀ taskID plan,
        some (id, res) = some (taskID, .ok plan) → On x plan → hexEncode taskID ∈ w.failed) ↔
        (P → hexEncode id ∈ w.failed)) := by
    intro res id P hP
    rw [← hP]
    constructor
    · rintro h ⟨plan, rfl, hon⟩
      exact h id plan rfl hon
    · rintro h taskID plan heq hon
      obtain ⟨rfl, hres⟩ := Prod.mk.inj (Option.some.inj heq)
      exact h ⟨plan, hres, hon⟩
  cases e with
  | updateNode t =>
    refine iff_of_true ?_ False.elim
    intro taskID plan h
    cases h
  | place env t => exact hex on_placePlan_iff
  | placePipeline env taskID shards => exact hex on_pipelinePlan_iff
  | reroute env taskID lost => exact hex on_reroutePlan_iff

/-! ### What is stored -/

/-- A plan that is stored with a primary on the node is of a task that could not be moved, or under
one of the keys. -/
def StoresWithin (x : PeerID) (keys : Set GoString) (w : Watch) : Prop :=
  ∀ key plan, w.scheduler.placements.get? key = some plan → On x plan → key ∈ w.failed ∪ keys

lemma StoresWithin.step (h : StoresWithin x keys w) (hmakes : MakesNone x w e) :
    StoresWithin x (keys \ e.leaving x) (watchStep x w e) := by
  intro key plan hget hon
  by_cases hok : ∃ id plan', e.result w.scheduler = some (id, .ok plan')
  · obtain ⟨id, plan', hres⟩ := hok
    rw [watchStep, get?_step_of_ok hres] at hget
    split_ifs at hget with hkey
    · obtain rfl := Option.some.inj hget
      exact .inl (.inl (hkey ▸ hmakes id plan' hres hon))
    · rcases h key plan hget hon with hfailed | hkeys
      · exact .inl (.inl hfailed)
      · refine .inr ⟨hkeys, fun hleaving => hkey ?_⟩
        cases e with
        | updateNode t => cases hleaving
        | place env t => cases hleaving
        | placePipeline env taskID shards => cases hleaving
        | reroute env taskID lost =>
          rw [← (Prod.mk.inj (Option.some.inj hres)).1]
          exact hleaving.1
  · have hsame := placements_step_of_ne_ok fun id plan' hres => hok ⟨id, plan', hres⟩
    rw [watchStep, hsame] at hget
    rcases h key plan hget hon with hfailed | hkeys
    · exact .inl (.inl hfailed)
    · by_cases hleaving : key ∈ e.leaving x
      · -- A reroute that makes no plan fails.
        refine .inl (.inr ⟨hleaving, ?_⟩)
        cases e with
        | updateNode t => cases hleaving
        | place env t => cases hleaving
        | placePipeline env taskID shards => cases hleaving
        | reroute env taskID lost =>
          cases hplan : w.scheduler.reroutePlan env taskID lost with
          | error err => exact ⟨taskID, err, by rw [Section.result, hplan]⟩
          | ok plan' => exact absurd ⟨taskID, plan', by rw [Section.result, hplan]⟩ hok
      · exact .inr ⟨hkeys, hleaving⟩

lemma StoresWithin.run (h : StoresWithin x keys w)
    (hmakes : Along (watchStep x) (MakesNone x) w es) :
    StoresWithin x {key ∈ keys | ∀ e ∈ es, key ∉ e.leaving x} (runFrom (watchStep x) w es) := by
  induction es generalizing w keys with
  | nil => simpa using h
  | cons e es ih =>
    have hnext := ih (h.step hmakes.1) hmakes.2
    intro key plan hget hon
    refine (hnext key plan hget hon).imp_right ?_
    rintro ⟨⟨hkeys, hhead⟩, htail⟩
    refine ⟨hkeys, ?_⟩
    intro e' he'
    rcases mem_cons.mp he' with rfl | he'
    · exact hhead
    · exact htail e' he'

/-! ### The call -/

/-- Every plan is stored under the hexadecimal form of an id. -/
def HexKeys (s : Scheduler) : Prop :=
  ∀ key plan, s.placements.get? key = some plan → ∃ taskID, key = hexEncode taskID

lemma HexKeys.step (h : HexKeys s) : HexKeys (s.step e) := by
  intro key plan hget
  by_cases hok : ∃ id plan', e.result s = some (id, .ok plan')
  · obtain ⟨id, plan', hres⟩ := hok
    rw [get?_step_of_ok hres] at hget
    split_ifs at hget with hkey
    · exact ⟨id, hkey⟩
    · exact h key plan hget
  · rw [placements_step_of_ne_ok fun id plan' hres => hok ⟨id, plan', hres⟩] at hget
    exact h key plan hget

lemma hexKeys_run (cost : Option CostModel) (es : List Section) :
    HexKeys (runFrom step (new cost) es) := by
  refine runFrom_keeps (I := HexKeys) (fun _ _ h => h.step) ?_ es
  intro key plan hget
  cases hget

lemma mem_affected_iff : key ∈ s.affected x ↔ ∃ p, s.placements.get? key = some p ∧ On x p := by
  simp only [affected, mem_map, mem_filter, any_eq_true, decide_eq_true_eq,
    Prod.exists, exists_and_right, exists_eq_right, OrdMap.mem_entries_iff, On]

/-- The sections move every task that has a primary on the node: those of a call of `RerouteNode`,
with any others in between. -/
def Covers (x : PeerID) (s : Scheduler) (es : List Section) : Prop :=
  ∀ taskID, hexEncode taskID ∈ s.affected x → ∃ env, Section.reroute env taskID x ∈ es

lemma covers_rerouteSections (env : NodeEnv) : Covers x s (s.rerouteSections env x) := by
  intro taskID htask
  refine ⟨env.envs taskID, mem_map.mpr ⟨taskID, ?_, rfl⟩⟩
  refine mem_filterMap.mpr ⟨hexEncode taskID, ?_, hexDecode_hexEncode taskID⟩
  exact (env.order_perm _).mem_iff.mpr htask

lemma storesNone_of_covers (hkeys : HexKeys s) (hcovers : Covers x s es) (hes : es ⊆ es')
    (hmakes : Along (watchStep x) (MakesNone x) ⟨s, ∅⟩ es') :
    StoresNone x (runFrom (watchStep x) ⟨s, ∅⟩ es') := by
  have hstart : StoresWithin x {key | key ∈ s.affected x} ⟨s, ∅⟩ := by
    intro key plan hget hon
    exact .inr (mem_affected_iff.mpr ⟨plan, hget, hon⟩)
  intro key plan hget hon
  rcases hstart.run hmakes key plan hget hon with hfailed | ⟨haffected, hleft⟩
  · exact hfailed
  · obtain ⟨p, hp, -⟩ := mem_affected_iff.mp haffected
    obtain ⟨taskID, rfl⟩ := hkeys key p hp
    obtain ⟨env, hmem⟩ := hcovers taskID haffected
    exact absurd ⟨rfl, rfl⟩ (hleft _ (hes hmem))

/-- A call of `RerouteNode` in any run, and any sections that follow: no plan that is made from then
on, and none that is stored after the call, has a primary on the lost node, tasks apart that could
not be moved, iff no section picks the lost node for another task. -/
theorem lost_unused_iff (cost : Option CostModel) (before : List Section) (x : PeerID)
    (call after : List Section) (hcall : Covers x (runFrom step (new cost) before) call) :
    (Along (watchStep x) (MakesNone x) ⟨runFrom step (new cost) before, ∅⟩ (call ++ after) ∧
        ∀ pre, pre <+: after →
          StoresNone x (runFrom (watchStep x) ⟨runFrom step (new cost) before, ∅⟩ (call ++ pre))) ↔
      Along (watchStep x) (fun w e => Picks x w.scheduler e → hexEncode e.task ∈ w.failed)
        ⟨runFrom step (new cost) before, ∅⟩ (call ++ after) := by
  have hsame : ∀ {w es}, Along (watchStep x) (MakesNone x) w es ↔ Along (watchStep x)
      (fun w e => Picks x w.scheduler e → hexEncode e.task ∈ w.failed) w es :=
    ⟨Along.mono fun _ _ => makesNone_iff.mp, Along.mono fun _ _ => makesNone_iff.mpr⟩
  rw [← hsame]
  refine ⟨And.left, fun hmakes => ⟨hmakes, ?_⟩⟩
  rintro pre ⟨post, rfl⟩
  rw [← append_assoc] at hmakes
  exact storesNone_of_covers (hexKeys_run cost before) hcall (subset_append_left _ _)
    (along_append.mp hmakes).1

namespace Sample

def task (b : UInt8) : ComputeTask := ⟨[b], [], shard 0, [], [], []⟩

def placed : List Section :=
  [.updateNode (telemetry 1), .place ranging (task 7), .updateNode (telemetry 2)]

def rerouting : NodeEnv := ⟨id, fun _ => .refl _, fun _ => ranging⟩

end Sample

open Sample

/-- A task is moved away from its node, and then nothing is placed. -/
theorem lost_unused_iff_sample :
    ∃ plan, ((runFrom step (new none) placed).reroute ranging [7]
        (telemetry 1).peerID).1 = .ok plan ∧ ∀ pre, pre <+: ([] : List Section) →
      StoresNone (telemetry 1).peerID (runFrom (watchStep (telemetry 1).peerID)
        ⟨runFrom step (new none) placed, ∅⟩
        ((runFrom step (new none) placed).rerouteSections rerouting
          (telemetry 1).peerID ++ pre)) := by
  refine ⟨_, rfl, ?_⟩
  refine ((lost_unused_iff none placed (telemetry 1).peerID _ []
    (covers_rerouteSections rerouting)).mpr ⟨?_, trivial⟩).2
  intro hpick
  obtain ⟨plan, hplan, q, hq, hnode⟩ := on_reroutePlan_iff.mpr hpick
  cases hplan
  rw [mem_singleton.mp hq] at hnode
  revert hnode
  decide

/-- A task is placed on a node right after its loss. -/
theorem lost_node_reused :
    ∃ plan, ((oneNode.rerouteNode rerouting (telemetry 1).peerID).2.place
        ranging (task 7)).1 = .ok plan ∧
      plan.placements.map Placement.node = [(telemetry 1).peerID] :=
  ⟨_, rfl, rfl⟩

end Cerberus.Scheduler
