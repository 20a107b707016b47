import Cerberus.State.Runs

/-!
# Convergence

The state of an engine after ops that carry their own clocks depends only on which ops were applied,
not on their order or number. `Reflects` characterises each part of the state by the set of ops: a
register holds the frontier of the writes to its key, and a subject is listed when its register is
in conflict and its document is about beliefs.
-/

namespace Cerberus.State

open Foundation List

variable {host : Host} {dom : List UInt8 → GoString} {S : Set CrdtOp} {e : Engine} {op : CrdtOp}

/-- The op carries a clock without zero counters and a delta that can be read. -/
def CrdtOp.Regular (host : Host) (op : CrdtOp) : Prop :=
  op.clock.entries ≠ [] ∧ op.clock.Positive ∧ op.patch host ≠ none

instance (host : Host) (op : CrdtOp) : Decidable (op.Regular host) :=
  inferInstanceAs (Decidable (_ ∧ _ ∧ _))

/-- The write of an op to a key. -/
def CrdtOp.dotAt (host : Host) (op : CrdtOp) (k : GoString) : Option Dot := do
  let patch ← op.patch host
  let v ← patch.get? k
  return ⟨actorHex op.actor, v, op.clock⟩

/-- The writes of a set of ops to a key. -/
def written (host : Host) (S : Set CrdtOp) (docId : List UInt8) (k : GoString) : Set Dot :=
  {d | ∃ op ∈ S, op.docId = docId ∧ op.dotAt host k = some d}

/-- A write to a key that no other write to it causally follows. -/
def Current (host : Host) (S : Set CrdtOp) (docId : List UInt8) (k : GoString) (d : Dot) : Prop :=
  d ∈ written host S docId k ∧ ∀ d' ∈ written host S docId k, ¬ d.clock.Precedes d'.clock

variable {k : GoString} {d : Dot} {w : Write}

lemma CrdtOp.clock_of_dotAt (h : op.dotAt host k = some d) : d.clock = op.clock := by
  obtain ⟨patch, -, h⟩ := Option.bind_eq_some_iff.mp h
  obtain ⟨v, -, h⟩ := Option.bind_eq_some_iff.mp h
  cases h
  rfl

lemma written_subset (hS : ∀ op ∈ S, op.Regular host) (docId : List UInt8) (k : GoString) :
    written host S docId k ⊆ {d | d.clock.Positive} := by
  rintro d ⟨op, hop, -, hd⟩
  rw [Set.mem_ofPred_eq, CrdtOp.clock_of_dotAt hd]
  exact (hS op hop).2.1

variable {docId : List UInt8}

lemma written_insert_of_ne (h : op.docId = docId → op.dotAt host k = none) :
    written host (insert op S) docId k = written host S docId k := by
  ext d
  constructor
  · rintro ⟨o, rfl | ho, hdoc, hd⟩
    · rw [h hdoc] at hd
      cases hd
    · exact ⟨o, ho, hdoc, hd⟩
  · rintro ⟨o, ho, hd⟩
    exact ⟨o, .inr ho, hd⟩

lemma written_insert_of_dotAt (h : op.dotAt host k = some d) :
    written host (insert op S) op.docId k = insert d (written host S op.docId k) := by
  ext d'
  constructor
  · rintro ⟨o, rfl | ho, hdoc, hd⟩
    · rw [h] at hd
      exact .inl (Option.some.inj hd).symm
    · exact .inr ⟨o, ho, hdoc, hd⟩
  · rintro (rfl | ⟨o, ho, hd⟩)
    · exact ⟨op, .inl rfl, rfl, h⟩
    · exact ⟨o, .inr ho, hd⟩

/-! ### The state as a function of the ops -/

variable (host dom) in
/-- The engine holds what a set of ops amounts to. -/
structure Reflects (S : Set CrdtOp) (e : Engine) : Prop where
  frontier : ∀ docId k, IsFrontier Dot.before (written host S docId k) (e.entry docId k).dots
  indexed : e.Indexed fun docId => dom docId = domainBelief

namespace Reflects

variable (host dom) in
lemma new : Reflects host dom ∅ .new where
  frontier docId k := by
    have hnone : written host ∅ docId k = ∅ := by
      refine Set.eq_empty_of_forall_notMem fun d => ?_
      rintro ⟨o, ho, -⟩
      exact ho
    rw [hnone]
    exact .empty
  indexed := Engine.indexed_new _

theorem apply (h : Reflects host dom S e) (hS : ∀ o ∈ insert op S, o.Regular host)
    (hdom : op.domain = dom op.docId) (env : Env) :
    Reflects host dom (insert op S) (e.apply host env op).engine := by
  obtain ⟨hclock, hpos, hpatch⟩ := hS op (.inl rfl)
  obtain ⟨patch, hpatch⟩ := Option.ne_none_iff_exists'.mp hpatch
  have hperf := Engine.apply_performs e env hpatch
  have hwrites : ∀ k, (e.opEffect op patch).writes k = op.dotAt host k := by
    intro k
    rw [Engine.writes_opEffect, Engine.opClock, if_neg hclock, CrdtOp.dotAt, hpatch]
    cases hk : patch.get? k with
    | none => simp [hk]
    | some v => simp [hk]
  have hindexed : (e.opEffect op patch).indexed = true ↔ dom op.docId = domainBelief := by
    rw [← hdom]
    exact decide_eq_true_iff
  refine ⟨fun docId k => ?_, hperf.indexed hindexed h.indexed⟩
  by_cases hdoc : op.docId = docId
  · subst hdoc
    cases hd : op.dotAt host k with
    | none =>
      rw [written_insert_of_ne fun _ => hd, hperf.entry_of_not_writes fun _ => (hwrites k).trans hd]
      exact h.frontier _ _
    | some d =>
      have hstrict := Dot.strictOn_before.mono (written_subset hS op.docId k)
      rw [written_insert_of_dotAt hd] at hstrict ⊢
      have hentry := hperf.entry_of_writes ((hwrites k).trans hd)
      rw [Engine.docId_opEffect] at hentry
      rw [hentry]
      refine ((h.frontier op.docId k).absorb hstrict).of_perm (MvEntry.absorb_perm host ?_ ?_)
      · intro ex hex
        exact written_subset (fun o ho => hS o (.inr ho)) _ _
          ((h.frontier op.docId k).subset ex hex)
      · rw [CrdtOp.clock_of_dotAt hd]
        exact hpos
  · rw [written_insert_of_ne fun hdoc' => absurd hdoc' hdoc,
      hperf.entry_of_not_writes fun hdoc' => absurd hdoc'.symm hdoc]
    exact h.frontier _ _

variable (h : Reflects host dom S e) (hS : ∀ o ∈ S, o.Regular host)
include h hS

theorem run {ws : List Write}
    (hws : ∀ w ∈ ws, ∃ op ∈ w.op?, op.Regular host ∧ op.domain = dom op.docId) :
    Reflects host dom (S ∪ {op | op ∈ ws.filterMap Write.op?})
      (runFrom (Engine.write host) e ws) := by
  induction ws generalizing S e with
  | nil => simpa using h
  | cons w ws ih =>
    obtain ⟨op, hop, hregular, hdom⟩ := hws w mem_cons_self
    cases w with
    | resolve => cases hop
    | apply op' env =>
      cases hop
      have hS' : ∀ o ∈ insert op S, o.Regular host := by
        rintro o (rfl | ho)
        · exact hregular
        · exact hS o ho
      have hset : S ∪ {o | o ∈ (Write.apply op env :: ws).filterMap Write.op?} =
          insert op S ∪ {o | o ∈ ws.filterMap Write.op?} := by
        ext o
        simp [Write.op?, or_left_comm, or_assoc]
      rw [hset]
      exact ih (h.apply hS' hdom env) hS' fun w hw => hws w (mem_cons_of_mem _ hw)

lemma mem_entry_iff
    {k : GoString} {d : Dot} : d ∈ (e.entry docId k).dots ↔ Current host S docId k d := by
  have hpos := written_subset hS docId k
  rw [(h.frontier docId k).mem_iff (Dot.strictOn_before.mono hpos), Current]
  refine and_congr_right fun hd => forall₂_congr fun d' hd' => ?_
  rw [← Bool.not_eq_true, Dot.before_iff (hpos hd) (hpos hd')]

/-- A subject is listed when its document is about beliefs and two writes that no other one follows
have different values. -/
lemma mem_subjects_iff {s : GoString} :
    s ∈ (e.conflictsOf docId).map BeliefConflict.subject ↔ dom docId = domainBelief ∧
      ∃ d d', Current host S docId s d ∧ Current host S docId s d' ∧ d.value ≠ d'.value := by
  rw [← Engine.listed_isSome_iff, h.indexed.listed]
  split_ifs with hbelief
  · rw [conflictOf_isSome_iff, and_iff_right hbelief]
    simp only [h.mem_entry_iff hS]
    constructor
    · rintro ⟨d, hd, d', hd', hne⟩
      exact ⟨d, d', hd, hd', hne⟩
    · rintro ⟨d, d', hd, hd', hne⟩
      exact ⟨d, hd, d', hd', hne⟩
  · exact iff_of_false Bool.false_ne_true fun h => hbelief h.1

end Reflects

/-! ### Deliveries -/

def delivered (host : Host) (r : List Delivery) : Engine := runFrom (Engine.deliver host) .new r

/-- The ops that a run of deliveries applies. -/
def applied (host : Host) (r : List Delivery) : List CrdtOp :=
  Engine.opsOf host .new (r.map .deliver)

/-- A conflict up to the order of its candidates. -/
def BeliefConflict.outline (c : BeliefConflict) : GoString × Multiset BeliefCandidate :=
  (c.subject, c.candidates)

lemma delivered_eq (host : Host) (r : List Delivery) :
    delivered host r =
      runFrom (Engine.write host) .new (Engine.writesOf host .new (r.map .deliver)) := by
  rw [← Engine.run_eq, runFrom, foldl_map]
  rfl

lemma exists_op_of_mem_reached {ops : List (CrdtOp × Env)} (h : w ∈ e.reached host ops) :
    ∃ op, op ∈ w.op? := by
  induction ops generalizing e with
  | nil => exact absurd h not_mem_nil
  | cons p rest ih =>
    obtain ⟨op, env⟩ := p
    rw [Engine.reached] at h
    rcases mem_cons.mp h with rfl | h
    · exact ⟨op, rfl⟩
    · cases herr : (e.apply host env op).err with
      | some err =>
        rw [herr] at h
        exact absurd h not_mem_nil
      | none =>
        rw [herr] at h
        exact ih h

lemma exists_op_of_mem_writesOf {r : List Delivery}
    (h : w ∈ Engine.writesOf host e (r.map .deliver)) : ∃ op, op ∈ w.op? := by
  induction r generalizing e with
  | nil => exact absurd h not_mem_nil
  | cons d r ih =>
    rw [map_cons, Engine.writesOf] at h
    rcases mem_append.mp h with h | h
    · cases d with
      | apply op env =>
        rw [mem_singleton.mp h]
        exact ⟨op, rfl⟩
      | merge ops => exact exists_op_of_mem_reached h
    · exact ih h

lemma reflects_delivered (r : List Delivery) (hregular : ∀ op ∈ applied host r, op.Regular host)
    (hdom : ∀ op ∈ applied host r, op.domain = dom op.docId) :
    Reflects host dom {op | op ∈ applied host r} (delivered host r) := by
  have hops : ∀ w ∈ Engine.writesOf host .new (r.map .deliver), ∃ op ∈ w.op?,
      op.Regular host ∧ op.domain = dom op.docId := by
    intro w hw
    obtain ⟨op, hop⟩ := exists_op_of_mem_writesOf hw
    have hmem : op ∈ applied host r := mem_filterMap.mpr ⟨w, hw, hop⟩
    exact ⟨op, hop, hregular op hmem, hdom op hmem⟩
  have h := (Reflects.new host dom).run (fun _ ho => absurd ho id) hops
  rw [Set.empty_union] at h
  rw [delivered_eq]
  exact h

/-- Two engines to which the same ops have been applied, in whatever order and however often, return
the same values and the same conflicts. What is listed are the subjects of belief documents with
two writes of different values that no other write causally follows. -/
theorem deliveries_converge (host : Host) (dom : List UInt8 → GoString) (r r' : List Delivery)
    (hregular : ∀ op ∈ applied host r, op.Regular host)
    (hdom : ∀ op ∈ applied host r, op.domain = dom op.docId)
    (hsame : ∀ op, op ∈ applied host r ↔ op ∈ applied host r') :
    (∀ docId k, (delivered host r).get docId k = (delivered host r').get docId k) ∧
      (∀ docId, (((delivered host r).conflictsOf docId).map BeliefConflict.outline).Perm
        (((delivered host r').conflictsOf docId).map BeliefConflict.outline)) ∧
      ∀ docId s, s ∈ ((delivered host r).conflictsOf docId).map BeliefConflict.subject ↔
        dom docId = domainBelief ∧ ∃ d d', Current host {op | op ∈ applied host r} docId s d ∧
          Current host {op | op ∈ applied host r} docId s d' ∧ d.value ≠ d'.value := by
  have h := reflects_delivered r hregular hdom
  have h' := reflects_delivered r' (fun op hop => hregular op ((hsame op).mpr hop))
    fun op hop => hdom op ((hsame op).mpr hop)
  have hset : {op | op ∈ applied host r'} = {op | op ∈ applied host r} :=
    Set.ext fun op => (hsame op).symm
  rw [hset] at h'
  have hstrict := fun docId k => Dot.strictOn_before.mono (written_subset hregular docId k)
  have hperm : ∀ docId k, ((delivered host r).entry docId k).dots.Perm
      ((delivered host r').entry docId k).dots := fun docId k =>
    (h.frontier docId k).perm (h'.frontier docId k) (hstrict docId k)
  refine ⟨fun docId k => ?_, fun docId => ?_, fun docId s => h.mem_subjects_iff hregular⟩
  · rw [Engine.get_eq, Engine.get_eq]
    exact MvEntry.lwwValue_congr fun d => (hperm docId k).mem_iff
  · refine Table.Keyed.perm (h.indexed.keyed docId) (h'.indexed.keyed docId) (g := Prod.fst)
      (fun _ => rfl) fun s => ?_
    have hlisted := h.indexed.listed docId s
    have hlisted' := h'.indexed.listed docId s
    rw [Engine.listed] at hlisted hlisted'
    rw [hlisted, hlisted']
    split_ifs
    · have hconf : ((delivered host r).entry docId s).conflicted =
          ((delivered host r').entry docId s).conflicted := by
        rw [Bool.eq_iff_iff, MvEntry.conflicted_iff, MvEntry.conflicted_iff]
        simp only [(hperm docId s).mem_iff]
      rw [conflictOf, conflictOf, hconf]
      split_ifs
      · refine congrArg some (Prod.ext rfl ?_)
        exact Multiset.coe_eq_coe.mpr ((hperm docId s).map Dot.candidate)
      · rfl
    · rfl

namespace Sample

/-- Two agents contradict each other about the sky, and the op of the first one comes twice. -/
def oneOrder (domain : GoString) : List Delivery :=
  [.apply (skyOp domain alice blue) env,
    .merge [(skyOp domain bob grey, env), (skyOp domain alice blue, env)]]

def otherOrder (domain : GoString) : List Delivery :=
  [.merge [(skyOp domain bob grey, env)], .apply (skyOp domain alice blue) env]

end Sample

section

open Sample (oneOrder otherOrder skyOp alice bob blue grey sky doc kv)

/-- Both orders end with the sky listed. -/
theorem deliveries_converge_sample :
    (∀ docId k, (delivered Sample.host (oneOrder domainBelief)).get docId k =
      (delivered Sample.host (otherOrder domainBelief)).get docId k) ∧
      sky ∈ ((delivered Sample.host (oneOrder domainBelief)).conflictsOf doc).map
        BeliefConflict.subject := by
  have happlied : applied Sample.host (oneOrder domainBelief) =
      [skyOp domainBelief alice blue, skyOp domainBelief bob grey,
        skyOp domainBelief alice blue] := by decide +kernel
  have happlied' : applied Sample.host (otherOrder domainBelief) =
      [skyOp domainBelief bob grey, skyOp domainBelief alice blue] := by decide +kernel
  have h := deliveries_converge Sample.host (fun _ => domainBelief) (oneOrder domainBelief)
    (otherOrder domainBelief) (by decide +kernel) (by decide +kernel) fun o => by
      rw [happlied, happlied']
      simp [or_comm]
  exact ⟨h.1, by decide +kernel⟩

lemma mem_written_iff {l : List CrdtOp} {k : GoString} {d : Dot} :
    d ∈ written host {op | op ∈ l} docId k ↔
      d ∈ l.filterMap fun op => if op.docId = docId then op.dotAt host k else none := by
  rw [mem_filterMap]
  refine exists_congr fun op => and_congr_right fun _ => ?_
  split_ifs with hdoc
  · exact and_iff_right hdoc
  · exact iff_of_false (fun h => hdoc h.1) (by simp)

/-- In a document that is not about beliefs two writes that no other one follows contradict each
other, and the subject is not listed. -/
theorem concurrent_writes_unlisted :
    (∀ op ∈ applied Sample.host (oneOrder kv), op.Regular Sample.host) ∧
      (∀ op ∈ applied Sample.host (oneOrder kv), op.domain = kv) ∧
      (∃ d d', Current Sample.host {op | op ∈ applied Sample.host (oneOrder kv)} doc sky d ∧
        Current Sample.host {op | op ∈ applied Sample.host (oneOrder kv)} doc sky d' ∧
        d.value ≠ d'.value) ∧
      sky ∉ ((delivered Sample.host (oneOrder kv)).conflictsOf doc).map BeliefConflict.subject := by
  refine ⟨by decide +kernel, by decide +kernel, ?_, by decide +kernel⟩
  refine ⟨⟨actorHex (peerOf alice.bytes), blue, (skyOp kv alice blue).clock⟩,
    ⟨actorHex (peerOf bob.bytes), grey, (skyOp kv bob grey).clock⟩, ?_⟩
  simp only [Current, mem_written_iff]
  decide +kernel

end

end Cerberus.State
