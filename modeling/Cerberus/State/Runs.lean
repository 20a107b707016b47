import Cerberus.State.Effects

/-!
# Runs of the engine

A run is a sequence of calls: `Apply` and `Merge` deliver ops, `Resolve` settles a conflict. A
`Merge` stops at the first error, so which of its ops are applied depends on the store; `writesOf`
lists the ops and resolutions that a run comes down to, and `run_eq` says that it does.

`Write.Sound` is what keeps the clocks of an engine in order: no op carries a zero counter, and no
counter wraps around. Runs of sound writes stay `Sane`: no clock has a zero counter, and the clock
of a document is above those of the writes it holds.
-/

namespace Cerberus.State

open Foundation Option List

open Contract (PeerID)

/-- What a call comes down to. -/
inductive Write
  | apply (op : CrdtOp) (env : Env)
  | resolve (docId : List UInt8) (resolver : PeerID) (subject winning : GoString) (env : Env)

namespace Write

def op? : Write → Option CrdtOp
  | apply op _ => some op
  | resolve _ _ _ _ _ => none

/-- What a write does; nothing if the delta cannot be read or there is no conflict to resolve. -/
def effect (host : Host) (e : Engine) : Write → Option Effect
  | apply op _ => (op.patch host).map (e.opEffect op)
  | resolve docId resolver subject winning _ =>
    if (e.entry docId subject).conflicted then
      some (e.resolveEffect docId resolver subject winning)
    else none

end Write

inductive Delivery
  | apply (op : CrdtOp) (env : Env)
  | merge (ops : List (CrdtOp × Env))

inductive Call
  | deliver (delivery : Delivery)
  | resolve (docId : List UInt8) (resolver : PeerID) (subject winning : GoString) (env : Env)

namespace Engine

variable {host : Host} {e : Engine}

def write (host : Host) (e : Engine) : Write → Engine
  | .apply op env => (e.apply host env op).engine
  | .resolve docId resolver subject winning env =>
    (e.resolve host env docId resolver subject winning).1

def deliver (host : Host) (e : Engine) : Delivery → Engine
  | .apply op env => (e.applyOne host env op).1
  | .merge ops => (e.merge host ops).engine

def call (host : Host) (e : Engine) : Call → Engine
  | .deliver delivery => e.deliver host delivery
  | .resolve docId resolver subject winning env =>
    (e.resolve host env docId resolver subject winning).1

theorem write_cases (host : Host) (e : Engine) (w : Write) :
    (w.effect host e = none ∧ e.write host w = e) ∨
      ∃ f, w.effect host e = some f ∧ Performs host f e (e.write host w) := by
  cases w with
  | apply op env =>
    cases hpatch : op.patch host with
    | none =>
      exact .inl ⟨by rw [Write.effect, hpatch, map_none], apply_of_patch_eq_none env hpatch⟩
    | some patch =>
      refine .inr ⟨e.opEffect op patch, ?_, apply_performs e env hpatch⟩
      rw [Write.effect, hpatch, map_some]
  | resolve docId resolver subject winning env =>
    by_cases h : (e.entry docId subject).conflicted = true
    · exact .inr ⟨e.resolveEffect docId resolver subject winning, if_pos h,
        resolve_performs host env resolver winning h⟩
    · refine .inl ⟨if_neg h, ?_⟩
      rw [write, resolve_of_not_conflicted env h]

lemma shape_of_writes {w : Write} {f : Effect} (hf : w.effect host e = some f) {k : GoString}
    {d : Dot} (hd : f.writes k = some d) : d.clock = f.clock ∧ ∃ p, d.actor = actorHex p := by
  cases w with
  | apply op env =>
    obtain ⟨patch, -, rfl⟩ := map_eq_some_iff.mp hf
    obtain ⟨v, -, rfl⟩ := map_eq_some_iff.mp hd
    exact ⟨rfl, op.actor, rfl⟩
  | resolve docId resolver subject winning env =>
    rw [Write.effect] at hf
    split_ifs at hf
    cases hf
    simp only [resolveEffect] at hd
    split_ifs at hd
    cases hd
    exact ⟨rfl, resolver, rfl⟩

lemma count_le_runFrom (e : Engine) (ws : List Write) (j : List UInt8) (a : GoString) :
    (e.clock j).count a ≤ ((runFrom (write host) e ws).clock j).count a := by
  induction ws generalizing e with
  | nil => exact le_rfl
  | cons w ws ih =>
    refine le_trans ?_ (ih (e.write host w))
    rcases write_cases host e w with ⟨-, h⟩ | ⟨f, -, h⟩
    · rw [h]
    · exact h.count_le j a

/-! ### The writes of a run -/

/-- The ops of a merge up to the first error. -/
def reached (host : Host) : Engine → List (CrdtOp × Env) → List Write
  | _, [] => []
  | e, (op, env) :: rest =>
    .apply op env ::
      match (e.apply host env op).err with
      | some _ => []
      | none => reached host (e.apply host env op).engine rest

def writes (host : Host) (e : Engine) : Call → List Write
  | .deliver (.apply op env) => [.apply op env]
  | .deliver (.merge ops) => e.reached host ops
  | .resolve docId resolver subject winning env => [.resolve docId resolver subject winning env]

/-- The writes that a run comes down to. -/
def writesOf (host : Host) : Engine → List Call → List Write
  | _, [] => []
  | e, c :: cs => e.writes host c ++ writesOf host (e.call host c) cs

section

variable (host) (e)

lemma merge_eq (ops : List (CrdtOp × Env)) :
    (e.merge host ops).engine = runFrom (write host) e (e.reached host ops) := by
  induction ops generalizing e with
  | nil => rfl
  | cons p rest ih =>
    obtain ⟨op, env⟩ := p
    rw [merge, reached, runFrom_cons, write]
    cases (e.apply host env op).err with
    | some err => rfl
    | none => exact ih _

lemma call_eq (c : Call) : e.call host c = runFrom (write host) e (e.writes host c) := by
  rcases c with (⟨op, env⟩ | ⟨ops⟩) | ⟨docId, resolver, subject, winning, env⟩
  · rfl
  · exact merge_eq host e ops
  · rfl

theorem run_eq (cs : List Call) :
    runFrom (call host) e cs = runFrom (write host) e (writesOf host e cs) := by
  induction cs generalizing e with
  | nil => rfl
  | cons c cs ih => rw [runFrom_cons, writesOf, runFrom_append, ← call_eq, ih]

lemma writesOf_append (cs cs' : List Call) :
    writesOf host e (cs ++ cs') =
      writesOf host e cs ++ writesOf host (runFrom (call host) e cs) cs' := by
  induction cs generalizing e with
  | nil => rfl
  | cons c cs ih => rw [cons_append, writesOf, writesOf, ih, append_assoc, runFrom_cons]

end

def opsOf (host : Host) (e : Engine) (cs : List Call) : List CrdtOp :=
  (writesOf host e cs).filterMap Write.op?

lemma count_le_of_mem (host : Host) (e : Engine) {ws : List Write} {op : CrdtOp}
    (hop : op ∈ ws.filterMap Write.op?) (hpatch : op.patch host ≠ none)
    (hclock : op.clock.entries ≠ []) (a : GoString) :
    op.clock.count a ≤ ((runFrom (write host) e ws).clock op.docId).count a := by
  induction ws generalizing e with
  | nil => exact absurd hop not_mem_nil
  | cons w ws ih =>
    rw [runFrom_cons]
    obtain ⟨w', hw', hop'⟩ := mem_filterMap.mp hop
    rcases mem_cons.mp hw' with rfl | hw'
    · cases w' with
      | resolve => cases hop'
      | apply op' env =>
        cases hop'
        obtain ⟨patch, hpatch⟩ := ne_none_iff_exists'.mp hpatch
        refine le_trans ?_ (count_le_runFrom _ ws op.docId a)
        have hle := (apply_performs e env hpatch).count_clock_le a
        rwa [clock_opEffect, opClock, if_neg hclock] at hle
    · exact ih _ (mem_filterMap.mpr ⟨w', hw', hop'⟩)

/-! ### Sound runs -/

/-- The counter of the actor does not wrap around. -/
def Room (e : Engine) (docId : List UInt8) (actor : PeerID) : Prop :=
  (e.clock docId).count (actorHex actor) + 1 < 2 ^ 64

/-- The clock of a write that is stamped afresh: the next event of its author. -/
def freshClock (e : Engine) (docId : List UInt8) (actor : PeerID) : VClock :=
  OrdMap.empty.put (actorHex actor) ((e.clock docId).get (actorHex actor) + 1)

variable {docId : List UInt8} {actor : PeerID}

lemma count_freshClock (hroom : e.Room docId actor) (b : GoString) :
    (e.freshClock docId actor).count b =
      if b = actorHex actor then (e.clock docId).count b + 1 else 0 := by
  have hadd : ((e.clock docId).get (actorHex actor) + 1).toNat =
      (e.clock docId).count (actorHex actor) + 1 := by
    rw [UInt64.toNat_add]
    exact Nat.mod_eq_of_lt hroom
  rw [freshClock, Clock.count_put]
  split_ifs with hb
  · rw [hb, hadd]
  · rfl

lemma positive_freshClock (hroom : e.Room docId actor) :
    Clock.Positive (e.freshClock docId actor) := by
  have hcount := count_freshClock hroom (actorHex actor)
  rw [if_pos rfl, freshClock, Clock.count_put, if_pos rfl] at hcount
  refine Clock.positive_empty.put fun h0 => ?_
  rw [h0] at hcount
  cases hcount

lemma opClock_of_empty {op : CrdtOp} (hclock : op.clock.entries = []) :
    e.opClock op = e.freshClock op.docId op.actor := if_pos hclock

end Engine

/-- The write carries no zero counter and makes no counter wrap around. -/
def Write.Sound (host : Host) (e : Engine) : Write → Prop
  | .apply op _ => op.patch host ≠ none →
    if op.clock.entries = [] then e.Room op.docId op.actor else op.clock.Positive
  | .resolve docId resolver subject _ _ =>
    (e.entry docId subject).conflicted = true → e.Room docId resolver

instance (host : Host) (e : Engine) : ∀ w : Write, Decidable (w.Sound host e)
  | .apply op _ =>
    inferInstanceAs (Decidable (op.patch host ≠ none →
      if op.clock.entries = [] then _ < _ else op.clock.Positive))
  | .resolve docId _ subject _ _ =>
    inferInstanceAs (Decidable ((e.entry docId subject).conflicted = true → _ < _))

/-- Clocks have no zero counter, and a document is above its writes. -/
structure Engine.Sane (e : Engine) : Prop where
  positive : ∀ docId, (e.clock docId).Positive
  positive_of_mem : ∀ docId k, ∀ d ∈ (e.entry docId k).dots, d.clock.Positive
  /-- The clock of the document has counted what its writes have. -/
  count_le : ∀ docId k, ∀ d ∈ (e.entry docId k).dots, ∀ a,
    d.clock.count a ≤ (e.clock docId).count a

namespace Engine.Sane

variable {host : Host} {e : Engine} {docId : List UInt8} {resolver : PeerID} {subject : GoString}

lemma new : Engine.new.Sane where
  positive _ := Clock.positive_empty
  positive_of_mem _ _ _ hd := absurd hd not_mem_nil
  count_le _ _ _ hd := absurd hd not_mem_nil

variable (h : e.Sane)
include h

lemma count_resolution (hroom : e.Room docId resolver) (b : GoString) :
    (e.resolution docId resolver subject).count b =
      (e.clock docId).count b + if b = actorHex resolver then 1 else 0 := by
  have hjoin : ∀ a, Clock.count ((e.entry docId subject).dots.foldl
      (fun c dt => VClock.mergeMax c dt.clock) (e.clock docId)) a = (e.clock docId).count a :=
    fun a => VClock.count_foldl_mergeMax fun d hd => h.count_le docId subject d hd a
  rw [resolution, resClock, Clock.count_tick]
  · rw [← hjoin]
    rfl
  · exact (hjoin _).symm ▸ hroom

lemma positive_resolution (hroom : e.Room docId resolver) :
    Clock.Positive (e.resolution docId resolver subject) := by
  rw [resolution, resClock]
  refine (VClock.positive_foldl_mergeMax (h.positive docId) _).tick ?_
  have hjoin := VClock.count_foldl_mergeMax (l := (e.entry docId subject).dots)
    (c := e.clock docId) fun d hd => h.count_le docId subject d hd (actorHex resolver)
  exact hjoin.symm ▸ hroom

lemma positive_effect {w : Write} (hw : w.Sound host e) {f : Effect}
    (hf : w.effect host e = some f) : f.clock.Positive := by
  cases w with
  | apply op env =>
    obtain ⟨patch, hpatch, rfl⟩ := map_eq_some_iff.mp hf
    have hclock := hw (by rw [hpatch]; exact some_ne_none _)
    split_ifs at hclock with hempty
    · rw [clock_opEffect, opClock_of_empty hempty]
      exact positive_freshClock hclock
    · rw [clock_opEffect, opClock, if_neg hempty]
      exact hclock
  | resolve docId resolver subject winning env =>
    rw [Write.effect] at hf
    split_ifs at hf with hconf
    cases hf
    exact h.positive_resolution (hw hconf)

theorem write {w : Write} (hw : w.Sound host e) : (e.write host w).Sane := by
  rcases write_cases host e w with ⟨-, heq⟩ | ⟨f, hf, hperf⟩
  · rw [heq]
    exact h
  · refine ⟨fun j => hperf.positive j (h.positive j), fun j k d hd => ?_, fun j k d hd a => ?_⟩
    · rcases hperf.mem_entry hd with hd | ⟨-, hd⟩
      · exact h.positive_of_mem j k d hd
      · rw [(shape_of_writes hf hd).1]
        exact h.positive_effect hw hf
    · rcases hperf.mem_entry hd with hd | ⟨rfl, hdw⟩
      · exact (h.count_le j k d hd a).trans (hperf.count_le j a)
      · rw [(shape_of_writes hf hdw).1]
        exact hperf.count_clock_le a

theorem runFrom {ws : List Write}
    (hws : Along (Engine.write host) (fun e w => w.Sound host e) e ws) :
    (Foundation.runFrom (Engine.write host) e ws).Sane :=
  hws.keeps (fun _ _ h hw => h.write hw) h

end Engine.Sane

def after (host : Host) (cs : List Call) : Engine := runFrom (Engine.call host) .new cs

/-- Every write of the run is sound. -/
def SoundCalls (host : Host) (cs : List Call) : Prop :=
  Along (Engine.write host) (fun e w => w.Sound host e) .new (Engine.writesOf host .new cs)

instance (host : Host) (cs : List Call) : Decidable (SoundCalls host cs) :=
  inferInstanceAs (Decidable (Along _ _ _ _))

variable {host : Host} {cs cs' : List Call}

lemma soundCalls_append : SoundCalls host (cs ++ cs') ↔ SoundCalls host cs ∧
    Along (Engine.write host) (fun e w => w.Sound host e) (after host cs)
      (Engine.writesOf host (after host cs) cs') := by
  rw [SoundCalls, Engine.writesOf_append, along_append, ← Engine.run_eq]
  rfl

lemma sane_after (h : SoundCalls host cs) : (after host cs).Sane := by
  rw [after, Engine.run_eq]
  exact Engine.Sane.new.runFrom h

end Cerberus.State
