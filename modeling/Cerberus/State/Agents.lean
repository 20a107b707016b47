import Cerberus.State.Assertions

/-!
# What agents have last said

After assertions on one document the register of a subject holds, for each actor, the last value
asserted by it, and a subject is an open conflict when these values are not all equal.

Actors are not agents: the name of an agent is cut or padded to a `PeerID`, so that agents whose
names agree in the first bytes are one actor, and the last one of them to speak silences the others
(`namesakes_silenced`). Under names that are told apart the same holds for the agents
(`conflict_iff_latest_differ`).
-/

namespace Cerberus.State

open Foundation List Function

open Contract (PeerID)

structure Assertion where
  agent : GoString
  subject : GoString
  value : GoString
  env : Env

def Assertion.act (doc : List UInt8) (a : Assertion) : Act :=
  .assert doc a.agent a.subject a.value a.env

/-- The name that the engine keeps for the agent. -/
def Assertion.actor (a : Assertion) : GoString := actorHex (peerOf a.agent.bytes)

/-- The engine after assertions on a document. -/
def asserted (host : Host) (doc : List UInt8) (l : List Assertion) : Engine :=
  runFrom (Engine.act host) .new (l.map (Assertion.act doc))

def lastWhere (p : Assertion → Bool) (l : List Assertion) : Option Assertion := l.reverse.find? p

/-- What an agent has last said of a subject. -/
def latest (l : List Assertion) (name subject : GoString) : Option GoString :=
  (lastWhere (fun a => a.agent = name && a.subject = subject) l).map Assertion.value

/-- What an actor has last said of a subject. -/
def stated (l : List Assertion) (actor subject : GoString) : Option GoString :=
  (lastWhere (fun a => a.actor = actor && a.subject.coerce = subject) l).map fun a => a.value.coerce

lemma lastWhere_append (p : Assertion → Bool) (l : List Assertion) (a : Assertion) :
    lastWhere p (l ++ [a]) = if p a then some a else lastWhere p l := by
  rw [lastWhere, reverse_append, reverse_singleton, singleton_append,
    List.find?_cons]
  cases p a with
  | false => rfl
  | true => rfl

lemma stated_append (l : List Assertion) (a : Assertion) (actor subject : GoString) :
    stated (l ++ [a]) actor subject =
      if a.actor = actor ∧ a.subject.coerce = subject then some a.value.coerce
      else stated l actor subject := by
  simp only [stated, lastWhere_append, Bool.and_eq_true, decide_eq_true_eq]
  split_ifs
  · rfl
  · rfl

/-! ### What actors have last said -/

variable {host : Host} {doc : List UInt8} {l : List Assertion} {e : Engine} {a : Assertion}

/-- The registers of the document hold what each actor has last asserted. -/
structure Recalls (doc : List UInt8) (l : List Assertion) (e : Engine) : Prop where
  orderly : Orderly e
  /-- An assertion counts only events of its author. -/
  own : ∀ s, ∀ d ∈ (e.entry doc s).dots, d.clock.keys = [d.actor]
  nodup : ∀ s, ((e.entry doc s).dots.map Dot.actor).Nodup
  exists_iff : ∀ s p v, (∃ d ∈ (e.entry doc s).dots, d.actor = p ∧ d.value = v) ↔
    stated l p s = some v

namespace Recalls

lemma new : Recalls doc [] .new where
  orderly := .new
  own _ _ hd := absurd hd not_mem_nil
  nodup _ := nodup_nil
  exists_iff s p v := by
    constructor
    · rintro ⟨d, hd, -⟩
      exact absurd hd not_mem_nil
    · intro h
      cases h

variable (h : Recalls doc l e) (ha : (a.act doc).Sound host e)
include h ha

lemma entry_perm :
    ((e.act host (a.act doc)).entry doc a.subject.coerce).dots.Perm
      ((e.entry doc a.subject.coerce).dots.filter (fun d => d.actor ≠ a.actor) ++
        [e.assertion doc a.agent a.value]) := by
  have hroom : e.Room doc (peerOf a.agent.bytes) := ha.room
  have hfilter : (e.entry doc a.subject.coerce).dots.filter
      (fun d => ¬ d.clock.Precedes (e.assertion doc a.agent a.value).clock) =
      (e.entry doc a.subject.coerce).dots.filter (fun d => d.actor ≠ a.actor) := by
    refine filter_congr fun d hd => ?_
    rw [decide_eq_decide, h.orderly.sane.precedes_assertion_iff a.value hroom hd, h.own _ d hd,
      forall_mem_singleton]
    rfl
  have hperm := h.orderly.sane.entry_assert_perm a.value hroom host a.subject a.env
  rw [hfilter] at hperm
  exact hperm

theorem act : Recalls doc (l ++ [a]) (e.act host (a.act doc)) := by
  have hperm := h.entry_perm ha
  have hmem : ∀ d, d ∈ ((e.act host (a.act doc)).entry doc a.subject.coerce).dots ↔
      (d ∈ (e.entry doc a.subject.coerce).dots ∧ d.actor ≠ a.actor) ∨
        d = e.assertion doc a.agent a.value := fun _ => Frontier.mem_iff_of_perm hperm
  have hother : ∀ s, s ≠ a.subject.coerce →
      (e.act host (a.act doc)).entry doc s = e.entry doc s := fun s hs =>
    Engine.entry_assert_of_ne fun _ => hs
  refine ⟨h.orderly.act ha, fun s d hd => ?_, fun s => ?_, fun s p v => ?_⟩
  · by_cases hs : s = a.subject.coerce
    · subst hs
      rcases (hmem d).mp hd with ⟨hd, -⟩ | rfl
      · exact h.own _ d hd
      · rfl
    · rw [hother s hs] at hd
      exact h.own s d hd
  · by_cases hs : s = a.subject.coerce
    · subst hs
      rw [(hperm.map Dot.actor).nodup_iff, map_append, nodup_append]
      refine ⟨(h.nodup _).sublist (filter_sublist.map _), nodup_singleton _, ?_⟩
      intro p hp p' hp' heq
      obtain ⟨d, hd, rfl⟩ := mem_map.mp hp
      rw [map_singleton, mem_singleton] at hp'
      exact of_decide_eq_true (mem_filter.mp hd).2 (heq.trans hp')
    · rw [hother s hs]
      exact h.nodup s
  · rw [stated_append]
    by_cases hs : s = a.subject.coerce
    · subst hs
      by_cases hp : a.actor = p
      · -- only the new assertion is left of this actor
        rw [if_pos ⟨hp, rfl⟩]
        constructor
        · rintro ⟨d, hd, hactor, rfl⟩
          rcases (hmem d).mp hd with ⟨-, hne⟩ | rfl
          · exact absurd (hactor.trans hp.symm) hne
          · rfl
        · intro hv
          exact ⟨_, (hmem _).mpr (.inr rfl), hp, Option.some.inj hv⟩
      · rw [if_neg fun hc => hp hc.1, ← h.exists_iff]
        constructor
        · rintro ⟨d, hd, rfl, hv⟩
          rcases (hmem d).mp hd with ⟨hd, -⟩ | rfl
          · exact ⟨d, hd, rfl, hv⟩
          · exact absurd rfl hp
        · rintro ⟨d, hd, rfl, hv⟩
          exact ⟨d, (hmem d).mpr (.inl ⟨hd, Ne.symm hp⟩), rfl, hv⟩
    · rw [if_neg fun hc => hs hc.2.symm, hother s hs]
      exact h.exists_iff s p v

end Recalls

/-- After assertions the registers hold what each actor has last said. -/
theorem recalls_asserted (host : Host) (doc : List UInt8) (hlen : l.length < 2 ^ 64) :
    Recalls doc l (asserted host doc l) := by
  have hsound := sound_acts host (l.map (Assertion.act doc)) (by rwa [length_map])
  clear hlen
  induction l using List.reverseRecOn with
  | nil => exact .new
  | append_singleton l a ih =>
    rw [map_append, along_append] at hsound
    rw [asserted, map_append, runFrom_append]
    exact (ih hsound.1).act hsound.2.1

/-! ### What agents have last said -/

lemma mem_of_lastWhere {p : Assertion → Bool} (h : lastWhere p l = some a) : a ∈ l ∧ p a = true :=
  ⟨mem_reverse.mp (mem_of_find?_eq_some h), List.find?_some h⟩

lemma lastWhere_congr {p q : Assertion → Bool} (h : ∀ a ∈ l, p a = q a) :
    lastWhere p l = lastWhere q l := by
  induction l using List.reverseRecOn with
  | nil => rfl
  | append_singleton l a ih =>
    rw [lastWhere_append, lastWhere_append, h a (by simp),
      ih fun b hb => h b (mem_append_left _ hb)]

/-- Agents are told apart, and their texts are valid UTF-8. -/
structure Legible (l : List Assertion) : Prop where
  names : ∀ a ∈ l, ∀ b ∈ l, peerOf a.agent.bytes = peerOf b.agent.bytes → a.agent = b.agent
  texts : ∀ a ∈ l, a.subject.valid = true ∧ a.value.valid = true

lemma actorHex_injective : Function.Injective actorHex := fun _ _ h =>
  Vector.toList_inj.mp (hexEncode_injective h)

lemma Legible.stated_eq (h : Legible l) (ha : a ∈ l) (s : GoString) :
    stated l a.actor s = latest l a.agent s := by
  have hwhere : lastWhere (fun b => b.actor = a.actor && b.subject.coerce = s) l =
      lastWhere (fun b => b.agent = a.agent && b.subject = s) l := by
    refine lastWhere_congr fun b hb => ?_
    have hactor : b.actor = a.actor ↔ b.agent = a.agent := by
      constructor
      · exact fun hab => h.names b hb a ha (actorHex_injective hab)
      · intro hab
        rw [Assertion.actor, Assertion.actor, hab]
    rw [GoString.coerce_of_valid (h.texts b hb).1, Bool.decide_congr hactor]
  rw [stated, latest, hwhere]
  cases hlast : lastWhere (fun b => b.agent = a.agent && b.subject = s) l with
  | none => rfl
  | some b =>
    have hb := (mem_of_lastWhere hlast).1
    rw [Option.map_some, Option.map_some, GoString.coerce_of_valid (h.texts b hb).2]

lemma Legible.stated_eq_some_iff (h : Legible l) {p s v : GoString} :
    stated l p s = some v ↔ ∃ n, actorHex (peerOf n.bytes) = p ∧ latest l n s = some v := by
  constructor
  · intro hv
    obtain ⟨a, ha, -⟩ := Option.map_eq_some_iff.mp hv
    obtain ⟨hmem, hp⟩ := mem_of_lastWhere ha
    rw [Bool.and_eq_true, decide_eq_true_eq, decide_eq_true_eq] at hp
    rw [← hp.1, h.stated_eq hmem] at hv
    exact ⟨a.agent, hp.1, hv⟩
  · rintro ⟨n, rfl, hv⟩
    obtain ⟨a, ha, -⟩ := Option.map_eq_some_iff.mp hv
    obtain ⟨hmem, hp⟩ := mem_of_lastWhere ha
    rw [Bool.and_eq_true, decide_eq_true_eq, decide_eq_true_eq] at hp
    have hstated := h.stated_eq hmem s
    rw [Assertion.actor, hp.1] at hstated
    rw [hstated, hv]

/-- After fewer than `2 ^ 64` assertions by agents that are told apart, a subject is an open
conflict iff the values that agents have last asserted of it are not all equal, and its
candidates are these values, one for each agent. -/
theorem conflict_iff_latest_differ (host : Host) (doc : List UInt8) (l : List Assertion)
    (hlegible : Legible l) (hlen : l.length < 2 ^ 64) (s : GoString) :
    (s ∈ ((asserted host doc l).conflictsOf doc).map BeliefConflict.subject ↔
        ∃ n n' v v', latest l n s = some v ∧ latest l n' s = some v' ∧ v ≠ v') ∧
      ∀ c ∈ (asserted host doc l).conflictsOf doc, c.subject = s →
        (c.candidates.map fun x => (x.actor, x.value)).Nodup ∧
        ∀ p b, (p, b) ∈ c.candidates.map (fun x => (x.actor, x.value)) ↔
          ∃ n v, latest l n s = some v ∧ peerOf n.bytes = p ∧ v.bytes = b := by
  have h := recalls_asserted host doc hlen
  have hheld : ∀ p v, (∃ d ∈ ((asserted host doc l).entry doc s).dots, d.actor = p ∧ d.value = v) ↔
      ∃ n, actorHex (peerOf n.bytes) = p ∧ latest l n s = some v := fun p v =>
    (h.exists_iff s p v).trans hlegible.stated_eq_some_iff
  refine ⟨?_, fun c hc hs => ?_⟩
  · rw [← Engine.listed_isSome_iff, h.orderly.indexed.listed, if_pos trivial, conflictOf_isSome_iff]
    constructor
    · rintro ⟨d, hd, d', hd', hne⟩
      obtain ⟨n, -, hn⟩ := (hheld d.actor d.value).mp ⟨d, hd, rfl, rfl⟩
      obtain ⟨n', -, hn'⟩ := (hheld d'.actor d'.value).mp ⟨d', hd', rfl, rfl⟩
      exact ⟨n, n', d.value, d'.value, hn, hn', hne⟩
    · rintro ⟨n, n', v, v', hn, hn', hne⟩
      obtain ⟨d, hd, -, rfl⟩ := (hheld _ v).mpr ⟨n, rfl, hn⟩
      obtain ⟨d', hd', -, rfl⟩ := (hheld _ v').mpr ⟨n', rfl, hn'⟩
      exact ⟨d, hd, d', hd', hne⟩
  · have hc' := (h.orderly.mem_conflictsOf_iff.mp hc).2
    rw [hs] at hc'
    rw [hc', conflictFor, List.map_map]
    refine ⟨List.Nodup.map_on (fun d hd d' hd' heq => ?_) (.of_map Dot.actor (h.nodup s)), ?_⟩
    · -- candidates of one peer are writes of one actor
      obtain ⟨p, hp⟩ := h.orderly.named doc s d hd
      obtain ⟨p', hp'⟩ := h.orderly.named doc s d' hd'
      rw [comp_apply, comp_apply, Prod.mk.injEq, candidate_actor hp,
        candidate_actor hp'] at heq
      exact List.inj_on_of_nodup_map (h.nodup s) hd hd' (by rw [hp, hp', heq.1])
    · intro p b
      rw [List.mem_map]
      constructor
      · rintro ⟨d, hd, heq⟩
        obtain ⟨q, hq⟩ := h.orderly.named doc s d hd
        obtain ⟨n, hactor, hn⟩ := (hheld d.actor d.value).mp ⟨d, hd, rfl, rfl⟩
        rw [comp_apply, Prod.mk.injEq, candidate_actor hq] at heq
        exact ⟨n, d.value, hn, (actorHex_injective (hactor.trans hq)).trans heq.1, heq.2⟩
      · rintro ⟨n, v, hn, rfl, rfl⟩
        obtain ⟨d, hd, hactor, rfl⟩ := (hheld _ v).mpr ⟨n, rfl, hn⟩
        refine ⟨d, hd, ?_⟩
        rw [comp_apply, candidate_actor hactor]
        rfl

namespace Sample

def quarrel (first second : GoString) : List Assertion :=
  [⟨first, sky, blue, env⟩, ⟨second, sky, grey, env⟩]

def longName (digit : UInt8) : GoString := ⟨List.replicate 32 97 ++ [digit]⟩

end Sample

/-- Two agents with different names are both heard. -/
theorem conflict_iff_latest_differ_sample :
    Sample.sky ∈ ((asserted Sample.host Sample.doc (Sample.quarrel Sample.alice
      Sample.bob)).conflictsOf Sample.doc).map BeliefConflict.subject := by
  have hlegible : Legible (Sample.quarrel Sample.alice Sample.bob) :=
    ⟨by decide +kernel, by decide +kernel⟩
  refine (conflict_iff_latest_differ Sample.host Sample.doc _ hlegible (by decide)
    Sample.sky).1.mpr ?_
  exact ⟨Sample.alice, Sample.bob, Sample.blue, Sample.grey, by decide +kernel, by decide +kernel,
    by decide +kernel⟩

/-- Two agents whose names agree in the first 32 bytes contradict each other, and there is no
conflict. -/
theorem namesakes_silenced :
    let l := Sample.quarrel (Sample.longName 49) (Sample.longName 50)
    (∃ n n' v v', latest l n Sample.sky = some v ∧ latest l n' Sample.sky = some v' ∧ v ≠ v') ∧
      Sample.sky ∉ ((asserted Sample.host Sample.doc l).conflictsOf Sample.doc).map
        BeliefConflict.subject := by
  refine ⟨⟨Sample.longName 49, Sample.longName 50, Sample.blue, Sample.grey, ?_⟩, ?_⟩
  · decide +kernel
  · decide +kernel

end Cerberus.State
