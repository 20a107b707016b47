import Cerberus.State.Resolution

/-!
# Assertions and resolutions

Runs of `applyBeliefAssertion` and `Resolve`. An assertion counts one more event of its agent and
nothing else, so it supersedes what the same agent has asserted before, and is concurrent to what
others have. A resolution counts what everybody has said; if its author then asserts another value,
the assertion does not supersede the resolution, and the author contradicts itself
(`self_contradiction`). This is the only way (`consistent_iff_revises`).
-/

namespace Cerberus.State

open Foundation List Option

open Engine

open Contract (PeerID)

/-- An assertion or a resolution. -/
inductive Act
  | assert (doc : List UInt8) (agent subject value : GoString) (env : Env)
  | resolve (docId : List UInt8) (resolver : PeerID) (subject winning : GoString) (env : Env)

def Act.write (host : Host) : Act → Write
  | assert doc agent subject value env => .apply (beliefOp host doc agent subject value) env
  | resolve docId resolver subject winning env => .resolve docId resolver subject winning env

def Engine.act (host : Host) (e : Engine) : Act → Engine
  | .assert doc agent subject value env =>
    (applyBeliefAssertion host env e doc agent subject value).1
  | .resolve docId resolver subject winning env =>
    (e.resolve host env docId resolver subject winning).1

variable {host : Host} {e : Engine} {doc docId : List UInt8} {agent subject value k : GoString}
  {env : Env} {d : Dot}

lemma Engine.act_eq (host : Host) (e : Engine) (a : Act) :
    e.act host a = e.write host (a.write host) := by
  cases a with
  | resolve => rfl
  | assert doc agent subject value env =>
    rw [act, applyBeliefAssertion, Act.write, write, applyOne]
    split
    · rfl
    · split
      · rfl
      · rfl

lemma patch_beliefOp : (beliefOp host doc agent subject value).patch host =
    some (OrdMap.empty.put subject.coerce value.coerce) := by
  have hne : (beliefOp host doc agent subject value).delta ≠ [] := host.marshal_ne_nil _
  rw [CrdtOp.patch, if_neg hne]
  exact host.json.unmarshal_marshal _

/-- The write that an assertion makes. -/
def Engine.assertion (e : Engine) (doc : List UInt8) (agent value : GoString) : Dot where
  actor := actorHex (peerOf agent.bytes)
  value := value.coerce
  clock := e.freshClock doc (peerOf agent.bytes)

def Engine.assertEffect (e : Engine) (doc : List UInt8) (agent subject value : GoString) :
    Effect where
  docId := doc
  clock := (e.assertion doc agent value).clock
  indexed := true
  writes k := if k = subject.coerce then some (e.assertion doc agent value) else none

lemma Engine.effect_assert : ((Act.assert doc agent subject value env).write host).effect host e =
    some (e.assertEffect doc agent subject value) := by
  rw [Act.write, Write.effect, patch_beliefOp, map_some]
  refine congrArg some ?_
  rw [opEffect, assertEffect]
  congr 1
  funext k
  rw [OrdMap.get?_put]
  split_ifs
  · rfl
  · rfl

lemma Engine.assert_performs (host : Host) (e : Engine) (doc : List UInt8)
    (agent subject value : GoString) (env : Env) :
    Performs host (e.assertEffect doc agent subject value) e
      (e.act host (.assert doc agent subject value env)) := by
  rw [act_eq]
  rcases write_cases host e ((Act.assert doc agent subject value env).write host) with
    ⟨h, -⟩ | ⟨f, hf, h⟩
  · rw [effect_assert] at h
    cases h
  · rw [effect_assert] at hf
    cases hf
    exact h

lemma Engine.indexed_of_effect {a : Act} {f : Effect} (hf : (a.write host).effect host e = some f) :
    f.indexed = true := by
  cases a with
  | assert doc agent subject value env =>
    rw [effect_assert] at hf
    cases hf
    rfl
  | resolve docId resolver subject winning env =>
    rw [Act.write, Write.effect] at hf
    split_ifs at hf
    cases hf
    rfl

/-! ### What an assertion supersedes -/

namespace Engine.Sane

variable (h : e.Sane) (value : GoString) (hroom : e.Room doc (peerOf agent.bytes))

include h hroom

lemma count_lt_assertion (hd : d ∈ (e.entry doc k).dots) :
    d.clock.count (actorHex (peerOf agent.bytes)) <
      (e.assertion doc agent value).clock.count (actorHex (peerOf agent.bytes)) := by
  rw [assertion, count_freshClock hroom, if_pos rfl]
  exact Nat.lt_succ_of_le (h.count_le doc k d hd _)

lemma precedes_assertion_iff (hd : d ∈ (e.entry doc k).dots) :
    d.clock.Precedes (e.assertion doc agent value).clock ↔
      ∀ b ∈ d.clock.keys, b = actorHex (peerOf agent.bytes) := by
  have hlt := h.count_lt_assertion value hroom hd
  have hpos := h.positive_of_mem doc k d hd
  constructor
  · intro hprec b hb
    by_contra hne
    have hle := hprec.1 b
    rw [assertion, count_freshClock hroom, if_neg hne] at hle
    exact absurd (hpos.count_pos_iff.mpr hb) (Nat.not_lt.mpr hle)
  · intro hkeys
    refine ⟨fun b => ?_, fun hle => absurd (hle _) (Nat.not_le.mpr hlt)⟩
    by_cases hb : b = actorHex (peerOf agent.bytes)
    · rw [hb]
      exact hlt.le
    · have hzero : d.clock.count b = 0 :=
        Nat.eq_zero_of_not_pos fun hb' => hb (hkeys b (hpos.count_pos_iff.mp hb'))
      rw [hzero]
      exact Nat.zero_le _

lemma entry_assert_perm (host : Host) (subject : GoString) (env : Env) :
    ((e.act host (.assert doc agent subject value env)).entry doc subject.coerce).dots.Perm
      ((e.entry doc subject.coerce).dots.filter
        (fun d => ¬ d.clock.Precedes (e.assertion doc agent value).clock) ++
        [e.assertion doc agent value]) := by
  have hentry := (e.assert_performs host doc agent subject value env).entry_of_writes (if_pos rfl)
  rw [show (e.assertEffect doc agent subject value).docId = doc from rfl] at hentry
  rw [hentry]
  refine MvEntry.absorb_perm_of_new host (h.positive_of_mem doc _) (positive_freshClock hroom)
    fun ex hex => ?_
  exact Dot.new_of_count_lt (h.count_lt_assertion value hroom hex)

end Engine.Sane

lemma Engine.entry_assert_of_ne (hne : docId = doc → k ≠ subject.coerce) :
    (e.act host (.assert doc agent subject value env)).entry docId k = e.entry docId k :=
  (e.assert_performs host doc agent subject value env).entry_of_not_writes
    fun hdoc => if_neg (hne hdoc)

/-! ### Invariants of acts -/

/-- What holds between acts: the clocks are in order, the index is up to date, and every write is by
the hexadecimal form of a peer. -/
structure Orderly (e : Engine) : Prop where
  sane : e.Sane
  indexed : e.Indexed fun _ => True
  named : ∀ docId k, ∀ d ∈ (e.entry docId k).dots, ∃ p, d.actor = actorHex p

/-- The act makes no counter wrap around. -/
def Act.Sound (host : Host) (e : Engine) (a : Act) : Prop := (a.write host).Sound host e

lemma Act.Sound.room (h : (Act.assert doc agent subject value env).Sound host e) :
    e.Room doc (peerOf agent.bytes) := by
  refine h ?_
  rw [patch_beliefOp]
  exact some_ne_none _

namespace Orderly

lemma new : Orderly .new where
  sane := .new
  indexed := indexed_new _
  named _ _ _ hd := absurd hd not_mem_nil

theorem act (h : Orderly e) {a : Act} (ha : a.Sound host e) : Orderly (e.act host a) := by
  rw [act_eq]
  refine ⟨h.sane.write ha, ?_, fun docId k d hd => ?_⟩
  · rcases write_cases host e (a.write host) with ⟨-, heq⟩ | ⟨f, hf, hperf⟩
    · rw [heq]
      exact h.indexed
    · exact hperf.indexed (iff_of_true (indexed_of_effect hf) trivial) h.indexed
  · rcases write_cases host e (a.write host) with ⟨-, heq⟩ | ⟨f, hf, hperf⟩
    · rw [heq] at hd
      exact h.named docId k d hd
    · rcases hperf.mem_entry hd with hd | ⟨-, hd⟩
      · exact h.named docId k d hd
      · exact (shape_of_writes hf hd).2

lemma mem_conflictsOf_iff (h : Orderly e) {c : BeliefConflict} : c ∈ e.conflictsOf docId ↔
    (e.entry docId c.subject).conflicted = true ∧
      c = conflictFor docId c.subject (e.entry docId c.subject) := by
  rw [(h.indexed.keyed docId).mem_iff]
  have hlisted := h.indexed.listed docId c.subject
  rw [listed, if_pos trivial, conflictOf] at hlisted
  rw [hlisted]
  by_cases hconf : (e.entry docId c.subject).conflicted = true
  · rw [if_pos hconf, some_inj, eq_comm]
    exact (and_iff_right hconf).symm
  · rw [if_neg hconf]
    exact iff_of_false (some_ne_none c).symm fun hc => hconf hc.1

end Orderly

lemma candidate_actor {p : PeerID} (h : d.actor = actorHex p) : d.candidate.actor = p := by
  rw [Dot.candidate, h, actorHex, hexDecode_hexEncode, getD_some]
  refine Vector.ext fun i hi => ?_
  rw [peerOf, Vector.getElem_ofFn]
  simp [getD_eq_getElem?_getD, hi]

/-! ### Consistency of actors -/

/-- No open conflict lists two candidates by one actor with different values. -/
def Consistent (e : Engine) : Prop :=
  ∀ docId, ∀ c ∈ e.conflictsOf docId, ∀ x ∈ c.candidates, ∀ y ∈ c.candidates,
    x.actor = y.actor → x.value = y.value

lemma Orderly.consistent_iff (h : Orderly e) : Consistent e ↔
    ∀ docId k, ∀ d ∈ (e.entry docId k).dots, ∀ d' ∈ (e.entry docId k).dots,
      d.actor = d'.actor → d.value = d'.value := by
  constructor
  · intro hcons docId k d hd d' hd' hactor
    by_contra hne
    -- two values put the register in conflict, and the conflict is listed
    have hconf := MvEntry.conflicted_iff.mpr ⟨d, hd, d', hd', hne⟩
    have hc := (h.mem_conflictsOf_iff (c := conflictFor docId k (e.entry docId k))).mpr ⟨hconf, rfl⟩
    have hvalue := hcons docId _ hc d.candidate (mem_map_of_mem hd) d'.candidate
      (mem_map_of_mem hd') ?_
    · exact hne (congrArg GoString.mk hvalue)
    · rw [Dot.candidate, Dot.candidate, hactor]
  · intro hregs docId c hc x hx y hy hxy
    rw [(h.mem_conflictsOf_iff.mp hc).2] at hx hy
    obtain ⟨d, hd, rfl⟩ := mem_map.mp hx
    obtain ⟨d', hd', rfl⟩ := mem_map.mp hy
    obtain ⟨p, hp⟩ := h.named docId _ d hd
    obtain ⟨p', hp'⟩ := h.named docId _ d' hd'
    rw [candidate_actor hp, candidate_actor hp'] at hxy
    exact congrArg GoString.bytes (hregs docId _ d hd d' hd' (by rw [hp, hp', hxy]))

/-- What an agent takes back with an assertion counts no events of other actors; resolutions are
free. -/
def Act.Revises (e : Engine) : Act → Prop
  | assert doc agent subject value _ => ∀ d ∈ (e.entry doc subject.coerce).dots,
    d.actor = actorHex (peerOf agent.bytes) → d.value ≠ value.coerce →
      ∀ b ∈ d.clock.keys, b = actorHex (peerOf agent.bytes)
  | resolve _ _ _ _ _ => True

lemma Orderly.consistent_assert_iff (h : Orderly e) (hcons : Consistent e)
    (hsound : (Act.assert doc agent subject value env).Sound host e) :
    Consistent (e.act host (.assert doc agent subject value env)) ↔
      (Act.assert doc agent subject value env).Revises e := by
  have hroom := hsound.room
  have hmem : ∀ d, d ∈ ((e.act host (.assert doc agent subject value env)).entry doc
      subject.coerce).dots ↔ (d ∈ (e.entry doc subject.coerce).dots ∧
        ¬ d.clock.Precedes (e.assertion doc agent value).clock) ∨
        d = e.assertion doc agent value := fun _ =>
    Frontier.mem_iff_of_perm (h.sane.entry_assert_perm value hroom host subject env)
  rw [(h.act hsound).consistent_iff]
  rw [h.consistent_iff] at hcons
  constructor
  · intro hregs d hd hactor hne
    refine (h.sane.precedes_assertion_iff value hroom hd).mp ?_
    by_contra hprec
    exact hne (hregs doc subject.coerce d ((hmem d).mpr (.inl ⟨hd, hprec⟩)) _
      ((hmem _).mpr (.inr rfl)) hactor)
  · intro hrev
    have hkept : ∀ d ∈ (e.entry doc subject.coerce).dots,
        ¬ d.clock.Precedes (e.assertion doc agent value).clock →
        d.actor = actorHex (peerOf agent.bytes) → d.value = value.coerce := by
      intro d hd hprec hactor
      by_contra hne
      exact hprec ((h.sane.precedes_assertion_iff value hroom hd).mpr (hrev d hd hactor hne))
    intro docId k d hd d' hd' hactor
    by_cases hk : docId = doc ∧ k = subject.coerce
    · obtain ⟨rfl, rfl⟩ := hk
      rcases (hmem d).mp hd with ⟨hd, hprec⟩ | rfl
      · rcases (hmem d').mp hd' with ⟨hd', -⟩ | rfl
        · exact hcons docId _ d hd d' hd' hactor
        · exact hkept d hd hprec hactor
      · rcases (hmem d').mp hd' with ⟨hd', hprec⟩ | rfl
        · exact (hkept d' hd' hprec hactor.symm).symm
        · rfl
    · rw [entry_assert_of_ne fun hdoc hk' => hk ⟨hdoc, hk'⟩] at hd hd'
      exact hcons docId k d hd d' hd' hactor

lemma Orderly.consistent_resolve (h : Orderly e) (hcons : Consistent e) {resolver : PeerID}
    {winning : GoString} (hsound : (Act.resolve docId resolver subject winning env).Sound host e) :
    Consistent (e.act host (.resolve docId resolver subject winning env)) := by
  by_cases hconf : (e.entry docId subject).conflicted = true
  · have hperf := resolve_performs host env resolver winning hconf
    have hres := (resolve_resolved host winning h.sane hconf (hsound hconf) env).entry
    rw [(h.act hsound).consistent_iff]
    rw [h.consistent_iff] at hcons
    intro j k d hd d' hd' hactor
    by_cases hk : j = docId ∧ k = subject
    · obtain ⟨rfl, rfl⟩ := hk
      rw [Engine.act, hres, mem_singleton] at hd hd'
      rw [hd, hd']
    · have hentry : (e.act host (.resolve docId resolver subject winning env)).entry j k =
          e.entry j k := hperf.entry_of_not_writes fun hj => if_neg fun hk' => hk ⟨hj, hk'⟩
      rw [hentry] at hd hd'
      exact hcons j k d hd d' hd' hactor
  · rw [Engine.act, resolve_of_not_conflicted env hconf]
    exact hcons

/-! ### Runs of acts -/

/-- No counter is above `n`. -/
structure Bounded (n : ℕ) (e : Engine) : Prop where
  sane : e.Sane
  count_le : ∀ docId a, (e.clock docId).count a ≤ n

namespace Bounded

variable {n : ℕ} {a : Act}

variable (h : Bounded n e) (hn : n + 1 < 2 ^ 64)
include h hn

lemma room (docId : List UInt8) (actor : PeerID) : e.Room docId actor :=
  lt_of_le_of_lt (Nat.add_le_add_right (h.count_le docId _) 1) hn

lemma sound : a.Sound host e := by
  cases a with
  | assert doc agent subject value env =>
    intro _
    have hempty : (beliefOp host doc agent subject value).clock.entries = [] := rfl
    rw [if_pos hempty]
    exact h.room hn _ _
  | resolve docId resolver subject winning env => exact fun _ => h.room hn _ _

lemma act : Bounded (n + 1) (e.act host a) := by
  have ha : a.Sound host e := h.sound hn
  have hle : ∀ docId b, (e.clock docId).count b ≤ n + 1 := fun docId b =>
    (h.count_le docId b).trans (Nat.le_succ n)
  rw [act_eq]
  refine ⟨h.sane.write ha, fun docId b => ?_⟩
  rcases write_cases host e (a.write host) with ⟨-, heq⟩ | ⟨f, hf, hperf⟩
  · rw [heq]
    exact hle docId b
  · have hclock : f.clock.count b ≤ n + 1 := by
      cases a with
      | assert doc agent subject value env =>
        rw [effect_assert] at hf
        cases hf
        rw [assertEffect, assertion, count_freshClock (h.room hn _ _)]
        split_ifs
        · exact Nat.add_le_add_right (h.count_le doc b) 1
        · exact Nat.zero_le _
      | resolve docId resolver subject winning env =>
        rw [Act.write, Write.effect] at hf
        split_ifs at hf with hconf
        cases hf
        rw [clock_resolveEffect, h.sane.count_resolution (ha hconf)]
        refine Nat.add_le_add (h.count_le docId b) ?_
        split_ifs
        · exact le_rfl
        · exact Nat.zero_le 1
    rw [hperf.count]
    split_ifs
    · exact max_le (hle docId b) hclock
    · exact hle docId b

end Bounded

lemma sound_acts (host : Host) (acts : List Act) (hlen : acts.length < 2 ^ 64) :
    Along (act host) (Act.Sound host) .new acts := by
  have hnew : Bounded 0 .new := ⟨.new, fun _ _ => le_rfl⟩
  refine Along.imp_of_invariant (I := Bounded) (c := fun _ _ => 1) (P := fun _ _ => True)
    (fun n e a h _ hn => h.act hn) (fun n e a h _ hn => h.sound hn) hnew
    (along_of_forall_mem fun _ _ _ => trivial) ?_
  rw [totalCost_one, Nat.zero_add]
  exact hlen

/-- Fewer than `2 ^ 64` assertions and resolutions never leave an open conflict that lists two
values of one actor iff every assertion revises what its agent takes back. -/
theorem consistent_iff_revises (host : Host) (acts : List Act) (hlen : acts.length < 2 ^ 64) :
    (∀ pre, pre <+: acts → Consistent (runFrom (Engine.act host) .new pre)) ↔
      Along (Engine.act host) Act.Revises .new acts := by
  refine (sound_acts host acts hlen).forall_prefix_iff (I := Orderly)
    (fun e a h ha _ => h.act ha) ?_ .new ?_
  · intro e a h ha hcons
    cases a with
    | assert doc agent subject value env => exact h.consistent_assert_iff hcons ha
    | resolve docId resolver subject winning env =>
      exact iff_of_true (h.consistent_resolve hcons ha) trivial
  · intro docId c hc
    exact absurd hc not_mem_nil

section

open Sample (alice bob sky blue grey)

namespace Sample

/-- Two agents contradict each other, the first one settles it in its favour and then adopts the
value of the other. -/
def turncoat : List Act :=
  [.assert Sample.doc alice sky blue Sample.env, .assert Sample.doc bob sky grey Sample.env,
    .resolve Sample.doc (peerOf alice.bytes) sky blue Sample.env,
    .assert Sample.doc alice sky grey Sample.env]

end Sample

instance (e : Engine) : ∀ a : Act, Decidable (a.Revises e)
  | .assert _ _ _ _ _ => inferInstanceAs (Decidable (∀ d ∈ _, _ → _ → ∀ b ∈ _, _))
  | .resolve _ _ _ _ _ => inferInstanceAs (Decidable True)

/-- Before the agent changes its mind, everybody is consistent. -/
theorem consistent_iff_revises_sample :
    Consistent (runFrom (Engine.act Sample.host) .new (Sample.turncoat.take 3)) :=
  (consistent_iff_revises Sample.host (Sample.turncoat.take 3) (by decide)).mpr
    (by decide +kernel) _ prefix_rfl

/-- The resolution of the first agent and its next assertion are both listed. -/
theorem self_contradiction :
    ∃ c ∈ (runFrom (Engine.act Sample.host) .new Sample.turncoat).conflictsOf Sample.doc,
      ∃ x ∈ c.candidates, ∃ y ∈ c.candidates, x.actor = y.actor ∧ x.value ≠ y.value := by
  decide +kernel

end

end Cerberus.State
