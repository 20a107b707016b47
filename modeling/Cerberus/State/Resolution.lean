import Cerberus.State.Runs

/-!
# Resolutions

In a run of sound writes a resolution settles its conflict: it follows every write of the register,
so it is all that is left there. What can be applied again without undoing it is characterised by
`Spares`. An op without a clock is stamped afresh each time it is applied, so it counts as a new
write that the resolution does not know of (`resolution_undone`).
-/

namespace Cerberus.State

open Foundation List
open Option hiding max_eq_right

open Engine

open Contract (PeerID)

variable {host : Host} {e : Engine} {docId : List UInt8} {resolver : PeerID}
  {subject winning : GoString} {res : Dot}

/-- The subject is not listed and reads as the winning value. -/
def Settled (e : Engine) (docId : List UInt8) (subject winning : GoString) : Prop :=
  subject ∉ (e.conflictsOf docId).map BeliefConflict.subject ∧ e.get docId subject = some winning

instance : Decidable (Settled e docId subject winning) := inferInstanceAs (Decidable (_ ∧ _))

lemma settled_iff : Settled e docId subject winning ↔
    e.listed docId subject = none ∧ (e.entry docId subject).lwwValue = some winning := by
  rw [Settled, ← listed_isSome_iff, get_eq, not_isSome_iff_eq_none]

/-- Applying the op does not undo the resolution of a subject: it carries its own clock, or does not
write to the subject, or writes the winning value. Otherwise it is stamped afresh; then it must not
be about beliefs, and the resolution must not be before it and must win the tiebreak. -/
def Spares (host : Host) (e : Engine) (docId : List UInt8) (subject winning : GoString)
    (op : CrdtOp) : Prop :=
  op.clock.entries = [] → op.docId = docId → ∀ patch v, op.patch host = some patch →
    patch.get? subject = some v → v ≠ winning →
      op.domain ≠ domainBelief ∧ ∀ res ∈ (e.entry docId subject).dots,
        ¬ res.clock.Precedes (e.opClock op) ∧
          Dot.lwwKey ⟨actorHex op.actor, v, e.opClock op⟩ < res.lwwKey

/-! ### What a resolution leaves -/

lemma conflictOf_of_forall_eq {ent : MvEntry} {v : GoString} (h : ∀ d ∈ ent.dots, d.value = v) :
    conflictOf docId subject ent = none := by
  refine not_isSome_iff_eq_none.mp fun hsome => ?_
  obtain ⟨d, hd, d', hd', hne⟩ := conflictOf_isSome_iff.mp hsome
  exact hne ((h d hd).trans (h d' hd').symm)

/-- The resolution is all that its register holds. -/
structure Resolved (e : Engine) (docId : List UInt8) (subject : GoString) (res : Dot) : Prop where
  sane : e.Sane
  entry : (e.entry docId subject).dots = [res]
  listed : e.listed docId subject = none
  count : ∀ a, (e.clock docId).count a = res.clock.count a

namespace Resolved

lemma settled (h : Resolved e docId subject res) : Settled e docId subject res.value := by
  refine settled_iff.mpr ⟨h.listed, ?_⟩
  rw [MvEntry.lwwValue, h.entry]
  rfl

lemma positive (h : Resolved e docId subject res) : res.clock.Positive := by
  refine h.sane.positive_of_mem docId subject res ?_
  rw [h.entry]
  exact mem_singleton_self res

end Resolved

lemma Engine.Sane.precedes_resolution (h : e.Sane) (hroom : e.Room docId resolver) {c : VClock}
    (hc : ∀ a, c.count a ≤ (e.clock docId).count a) :
    c.Precedes (e.resolution docId resolver subject) := by
  refine ⟨fun a => ?_, fun hle => ?_⟩
  · rw [h.count_resolution hroom]
    exact (hc a).trans (Nat.le_add_right _ _)
  · have hlt := hle (actorHex resolver)
    rw [h.count_resolution hroom, if_pos rfl] at hlt
    exact absurd (hc (actorHex resolver)) (Nat.not_le.mpr hlt)

/-- A sound resolution of a conflict is in force. -/
theorem resolve_resolved (host : Host) (winning : GoString) (h : e.Sane)
    (hconf : (e.entry docId subject).conflicted = true) (hroom : e.Room docId resolver)
    (env : Env) :
    Resolved (e.resolve host env docId resolver subject winning).1 docId subject
      ⟨actorHex resolver, winning, e.resolution docId resolver subject⟩ := by
  have hperf := resolve_performs host env resolver winning hconf
  have hwrites := e.writes_resolveEffect_self docId resolver subject winning
  -- the resolution follows everything that was held
  have hentry : ((e.resolve host env docId resolver subject winning).1.entry docId subject).dots =
      [⟨actorHex resolver, winning, e.resolution docId resolver subject⟩] := by
    refine (congrArg MvEntry.dots (hperf.entry_of_writes hwrites)).trans ?_
    refine MvEntry.absorb_of_follows host (h.positive_of_mem docId subject)
      (h.positive_resolution hroom) fun ex hex => ?_
    exact h.precedes_resolution hroom (h.count_le docId subject ex hex)
  refine ⟨?_, hentry, ?_, fun a => ?_⟩
  · exact h.write (w := .resolve docId resolver subject winning env) fun _ => hroom
  · rw [hperf.listed, if_pos ⟨rfl, rfl, by rw [hwrites]; rfl⟩]
    refine conflictOf_of_forall_eq (v := winning) fun d hd => ?_
    rw [hentry, mem_singleton] at hd
    rw [hd]
  · rw [hperf.count, docId_resolveEffect, if_pos rfl, max_eq_right]
    · rfl
    · exact (h.precedes_resolution hroom fun _ => le_rfl).1 a

/-! ### Applying an op again -/

variable {op : CrdtOp} {patch : Patch}

section

variable (h : Resolved e docId subject res) (env : Env) (hpatch : op.patch host = some patch)
include h hpatch

lemma Resolved.settled_apply_of_not_writes (hw : docId = op.docId → patch.get? subject = none) :
    Settled (e.apply host env op).engine docId subject res.value := by
  have hperf := apply_performs e env hpatch
  have hnone : docId = op.docId → (e.opEffect op patch).writes subject = none := fun hdoc => by
    rw [writes_opEffect, hw hdoc, map_none]
  refine settled_iff.mpr ⟨?_, ?_⟩
  · rw [hperf.listed, if_neg, h.listed]
    rintro ⟨hdoc, -, hsome⟩
    rw [hnone hdoc] at hsome
    cases hsome
  · rw [hperf.entry_of_not_writes hnone]
    exact (settled_iff.mp h.settled).2

lemma Resolved.settled_apply_of_precedes (hclock : op.clock.entries ≠ [])
    (hpos : op.clock.Positive) (hprec : op.docId = docId → op.clock.Precedes res.clock) :
    Settled (e.apply host env op).engine docId subject res.value := by
  have hperf := apply_performs e env hpatch
  have hentry : (e.apply host env op).engine.entry docId subject = e.entry docId subject := by
    by_cases hdoc : docId = op.docId
    · subst hdoc
      cases hv : patch.get? subject with
      | none =>
        refine hperf.entry_of_not_writes fun _ => ?_
        rw [writes_opEffect, hv, map_none]
      | some v =>
        have hwrites : (e.opEffect op patch).writes subject =
            some ⟨actorHex op.actor, v, op.clock⟩ := by
          rw [writes_opEffect, hv, map_some, opClock, if_neg hclock]
        refine (hperf.entry_of_writes hwrites).trans ?_
        refine MvEntry.absorb_of_followed host res ?_ h.positive hpos (hprec rfl)
        exact h.entry ▸ mem_singleton_self res
    · exact hperf.entry_of_not_writes fun hdoc' => absurd hdoc' hdoc
  have hvalue : ∀ d ∈ (e.entry docId subject).dots, d.value = res.value := by
    intro d hd
    rw [h.entry, mem_singleton] at hd
    rw [hd]
  refine settled_iff.mpr ⟨?_, ?_⟩
  · rw [hperf.listed, hentry, conflictOf_of_forall_eq hvalue, h.listed]
    exact ite_self none
  · rw [hentry]
    exact (settled_iff.mp h.settled).2

variable (hclock : op.clock.entries = []) (hdoc : op.docId = docId)
  (hroom : e.Room op.docId op.actor)
include hclock hdoc hroom

/-- An op that is stamped afresh is held beside the resolution, unless the resolution is before
it. -/
lemma Resolved.mem_entry_apply {v : GoString} (hv : patch.get? subject = some v) (d : Dot) :
    d ∈ ((e.apply host env op).engine.entry docId subject).dots ↔
      (d = res ∧ ¬ res.clock.Precedes (e.opClock op)) ∨
        d = ⟨actorHex op.actor, v, e.opClock op⟩ := by
  subst hdoc
  have hperf := apply_performs e env hpatch
  have hwrites : (e.opEffect op patch).writes subject =
      some ⟨actorHex op.actor, v, e.opClock op⟩ := by
    rw [writes_opEffect, hv, map_some]
  -- the new stamp counts an event of its author that the resolution does not know of
  have hlt : res.clock.count (actorHex op.actor) < (e.opClock op).count (actorHex op.actor) := by
    rw [opClock_of_empty hclock, count_freshClock hroom, if_pos rfl, h.count]
    exact Nat.lt_succ_self _
  have hentry := hperf.entry_of_writes hwrites
  rw [docId_opEffect] at hentry
  have hpos := positive_freshClock hroom
  rw [← opClock_of_empty hclock] at hpos
  rw [hentry, MvEntry.mem_absorb_of_new host (h.sane.positive_of_mem op.docId subject) hpos,
    h.entry, mem_singleton]
  · refine or_congr_left (and_congr_right fun hd => ?_)
    rw [hd]
  · intro ex hex
    rw [h.entry, mem_singleton] at hex
    subst hex
    exact Dot.new_of_count_lt hlt

lemma Resolved.settled_apply_iff_of_empty {v : GoString} (hv : patch.get? subject = some v) :
    Settled (e.apply host env op).engine docId subject res.value ↔
      (v ≠ res.value → op.domain ≠ domainBelief ∧ ¬ res.clock.Precedes (e.opClock op) ∧
        Dot.lwwKey ⟨actorHex op.actor, v, e.opClock op⟩ < res.lwwKey) := by
  have hmem := h.mem_entry_apply env hpatch hclock hdoc hroom hv
  have hlisted : (e.apply host env op).engine.listed docId subject =
      if op.domain = domainBelief then
        conflictOf docId subject ((e.apply host env op).engine.entry docId subject) else none := by
    have hsome : ((e.opEffect op patch).writes subject).isSome = true := by
      rw [writes_opEffect, hv]
      rfl
    rw [(apply_performs e env hpatch).listed, h.listed]
    refine if_congr ⟨fun hc => of_decide_eq_true hc.2.1, fun hc => ?_⟩ rfl rfl
    exact ⟨hdoc.symm, decide_eq_true hc, hsome⟩
  rw [settled_iff, hlisted]
  constructor
  · rintro ⟨hnone, hget⟩ hne
    obtain ⟨d, hd, hvalue, hmax⟩ := MvEntry.lwwValue_eq_some_iff.mp hget
    -- the value can only be that of the resolution
    have hres : d = res ∧ ¬ res.clock.Precedes (e.opClock op) := by
      refine ((hmem d).mp hd).resolve_right ?_
      rintro rfl
      exact hne hvalue
    have hnew := (hmem _).mpr (.inr rfl)
    refine ⟨fun hbelief => ?_, hres.2, lt_of_le_of_ne (hres.1 ▸ hmax _ hnew) fun hkey => ?_⟩
    · rw [if_pos hbelief] at hnone
      refine not_isSome_iff_eq_none.mpr hnone
        (conflictOf_isSome_iff.mpr ⟨_, hnew, d, hd, ?_⟩)
      rw [hvalue]
      exact hne
    · exact hne (MvEntry.value_eq_of_lwwKey_eq hkey)
  · intro hspares
    by_cases hne : v = res.value
    · have hvalue : ∀ d ∈ ((e.apply host env op).engine.entry docId subject).dots,
          d.value = res.value := by
        intro d hd
        rcases (hmem d).mp hd with ⟨rfl, -⟩ | rfl
        · rfl
        · exact hne
      rw [conflictOf_of_forall_eq hvalue]
      refine ⟨ite_self none, ?_⟩
      obtain ⟨d, hd, hget⟩ := MvEntry.exists_lwwValue ((hmem _).mpr (.inr rfl))
      rw [hget, hvalue d hd]
    · obtain ⟨hdomain, hprec, hkey⟩ := hspares hne
      refine ⟨if_neg hdomain, MvEntry.lwwValue_eq_some_iff.mpr ⟨res, ?_, rfl, fun d hd => ?_⟩⟩
      · exact (hmem res).mpr (.inl ⟨rfl, hprec⟩)
      · rcases (hmem d).mp hd with ⟨rfl, -⟩ | rfl
        · exact le_rfl
        · exact hkey.le

end

/-- Applying an op to a resolved subject leaves it settled if the op spares the resolution. -/
theorem Resolved.settled_apply_iff (h : Resolved e docId subject res) (env : Env)
    (hsound : (Write.apply op env).Sound host e)
    (hknown : op.patch host ≠ none → op.clock.entries ≠ [] → op.docId = docId →
      op.clock.Precedes res.clock) :
    Settled (e.apply host env op).engine docId subject res.value ↔
      Spares host e docId subject res.value op := by
  cases hpatch : op.patch host with
  | none =>
    rw [apply_of_patch_eq_none env hpatch]
    refine iff_of_true h.settled fun _ _ patch v hpatch' => ?_
    rw [hpatch] at hpatch'
    cases hpatch'
  | some patch =>
    have hne : op.patch host ≠ none := by
      rw [hpatch]
      exact some_ne_none _
    have hclock := hsound hne
    split_ifs at hclock with hempty
    · by_cases hw : docId = op.docId ∧ patch.get? subject ≠ none
      · obtain ⟨hdoc, hv⟩ := hw
        obtain ⟨v, hv⟩ := ne_none_iff_exists'.mp hv
        rw [h.settled_apply_iff_of_empty env hpatch hempty hdoc.symm hclock hv, Spares, h.entry]
        constructor
        · intro hsp _ _ patch' v' hpatch' hv' hne'
          rw [hpatch] at hpatch'
          cases hpatch'
          rw [hv] at hv'
          cases hv'
          obtain ⟨hdomain, hprec, hkey⟩ := hsp hne'
          refine ⟨hdomain, fun r hr => ?_⟩
          rw [mem_singleton.mp hr]
          exact ⟨hprec, hkey⟩
        · intro hsp hne'
          obtain ⟨hdomain, hres⟩ := hsp hempty hdoc.symm patch v hpatch hv hne'
          exact ⟨hdomain, hres res (mem_singleton_self res)⟩
      · refine iff_of_true (h.settled_apply_of_not_writes env hpatch fun hdoc => ?_) ?_
        · by_contra hv
          exact hw ⟨hdoc, hv⟩
        · intro _ hdoc patch' v hpatch' hv
          rw [hpatch] at hpatch'
          cases hpatch'
          refine absurd ⟨hdoc.symm, ?_⟩ hw
          rw [hv]
          exact some_ne_none v
    · exact iff_of_true (h.settled_apply_of_precedes env hpatch hempty hclock (hknown hne hempty))
        fun hc => absurd hc hempty

/-- In a run of sound calls a resolution settles its conflict, and applying an op again that had
been applied leaves it settled iff the op spares the resolution. -/
theorem resolve_settles (host : Host) (cs : List Call) (docId : List UInt8) (resolver : PeerID)
    (subject winning : GoString) (env : Env)
    (hsound : SoundCalls host (cs ++ [.resolve docId resolver subject winning env]))
    (hok : ((after host cs).resolve host env docId resolver subject winning).2 = (true, none)) :
    let e := ((after host cs).resolve host env docId resolver subject winning).1
    Settled e docId subject winning ∧ ∀ op ∈ Engine.opsOf host .new cs, ∀ env',
      (Write.apply op env').Sound host e →
        (Settled (e.applyOne host env' op).1 docId subject winning ↔
          Spares host e docId subject winning op) := by
  intro e
  obtain ⟨hcs, hres, -⟩ := soundCalls_append.mp hsound
  have hsane := sane_after hcs
  have hconf : ((after host cs).entry docId subject).conflicted = true := by
    by_contra hnot
    rw [Engine.resolve_of_not_conflicted env hnot] at hok
    cases hok
  have hroom := hres hconf
  have hresolved := resolve_resolved host winning hsane hconf hroom env
  refine ⟨hresolved.settled, fun op hop env' hop' => ?_⟩
  refine hresolved.settled_apply_iff env' hop' fun hpatch hclock hdoc => ?_
  refine hsane.precedes_resolution hroom fun a => ?_
  have hle := Engine.count_le_of_mem host .new hop hpatch hclock a
  rw [← Engine.run_eq, hdoc] at hle
  exact hle

section

open Sample (skyOp alice bob blue grey sky doc)

namespace Sample

def contradiction (first second : CrdtOp) : List Call :=
  [.deliver (.apply first env), .deliver (.apply second env)]

def settled (first second : CrdtOp) : Engine :=
  ((after Sample.host (contradiction first second)).resolve Sample.host env doc (peerOf alice.bytes)
    sky blue).1

end Sample

/-- With ops that carry their own clocks the resolution is there to stay. -/
theorem resolve_settles_sample :
    Settled (Sample.settled (skyOp domainBelief alice blue) (skyOp domainBelief bob grey))
        doc sky blue ∧
      Settled ((Sample.settled (skyOp domainBelief alice blue)
        (skyOp domainBelief bob grey)).applyOne Sample.host Sample.env
          (skyOp domainBelief bob grey)).1 doc sky blue := by
  have h := resolve_settles Sample.host
    (Sample.contradiction (skyOp domainBelief alice blue) (skyOp domainBelief bob grey))
    doc (peerOf alice.bytes) sky blue Sample.env (by decide +kernel) (by decide +kernel)
  refine ⟨h.1, (h.2 (skyOp domainBelief bob grey) (by decide +kernel) Sample.env ?_).mpr ?_⟩
  · decide +kernel
  · intro hclock
    exact absurd hclock (by decide +kernel)

/-- Three ways in which a resolution that returned without error does not last. The op of the
second agent carries as many counters as the resolution does, two of them zero, and counts as equal
to it; it carries the largest counter for the resolver, and the tick of the resolution wraps around;
or both ops carry no clock, and the second one is applied again. -/
theorem resolution_undone :
    let ok := fun first second => ((after Sample.host (Sample.contradiction first second)).resolve
      Sample.host Sample.env doc (peerOf alice.bytes) sky blue).2 = (true, none)
    let listed := fun (e : Engine) => sky ∈ (e.conflictsOf doc).map BeliefConflict.subject
    let first := { skyOp domainBelief alice blue with
      clock := OrdMap.empty.put (actorHex (peerOf sky.bytes)) 1 }
    let zeros := { skyOp domainBelief bob grey with
      clock := ((skyOp domainBelief bob grey).clock.put sky 0).put grey 0 }
    let largest := { skyOp domainBelief bob grey with
      clock := (skyOp domainBelief bob grey).clock.put (actorHex (peerOf alice.bytes)) (-1) }
    let fresh := beliefOp Sample.host doc alice sky blue
    let fresh' := beliefOp Sample.host doc bob sky grey
    (ok first zeros ∧ listed (Sample.settled first zeros)) ∧
      (ok first largest ∧ listed (Sample.settled first largest)) ∧
      ok fresh fresh' ∧ Settled (Sample.settled fresh fresh') doc sky blue ∧
        fresh' ∈ Engine.opsOf Sample.host .new (Sample.contradiction fresh fresh') ∧
        listed ((Sample.settled fresh fresh').applyOne Sample.host Sample.env fresh').1 := by
  decide +kernel

end

end Cerberus.State
