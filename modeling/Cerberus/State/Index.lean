import Cerberus.State.Assertions

/-!
# The index of conflicts and the registers

The index of open conflicts is kept beside the registers: an op brings it up to date for the keys it
writes if its domain is that of beliefs, but the registers take in the writes of every op. So an op
of another domain that writes to a listed subject leaves the old conflict in the index
(`stale_conflict`). This is the only way in which they come apart (`index_matches_iff`).
-/

namespace Cerberus.State

open Foundation

open Contract (PeerID)

variable {host : Host} {e e' : Engine} {docId : List UInt8} {f : Effect}

/-- A listed conflict is one of its register. -/
structure Live (host : Host) (e : Engine) (docId : List UInt8) (c : BeliefConflict) : Prop where
  candidates : c.candidates = (e.entry docId c.subject).dots.map Dot.candidate
  contested : ∃ d ∈ (e.entry docId c.subject).dots, ∃ d' ∈ (e.entry docId c.subject).dots,
    d.value ≠ d'.value
  resolves : ∀ env resolver winning,
    (e.resolve host env docId resolver c.subject winning).2.1 = true

/-- Every listed conflict is live. -/
def Matches (host : Host) (e : Engine) : Prop :=
  ∀ docId, ∀ c ∈ e.conflictsOf docId, Live host e docId c

/-- The write brings the index up to date, or leaves the registers of listed subjects alone. -/
def Write.Heeds (host : Host) (e : Engine) (w : Write) : Prop :=
  ∀ f, w.effect host e = some f → f.indexed = false → ∀ s d, f.writes s = some d →
    (e.listed f.docId s).isSome = true → (e.entry f.docId s).absorb host d = e.entry f.docId s

/-! ### What a conflict tells about its register -/

lemma resolve_snd_fst (env : Env) (resolver : PeerID) (subject winning : GoString) :
    (e.resolve host env docId resolver subject winning).2.1 =
      (e.entry docId subject).conflicted := by
  by_cases h : (e.entry docId subject).conflicted = true
  · obtain ⟨d, hd, hk⟩ := Engine.exists_of_conflicted h
    rw [Engine.resolve, hd]
    simp only [hk, h, if_true]
  · rw [Engine.resolve_of_not_conflicted env h, Bool.eq_false_of_not_eq_true h]

lemma live_iff {c : BeliefConflict} : Live host e docId c ↔
    c.candidates = (e.entry docId c.subject).dots.map Dot.candidate ∧
      (e.entry docId c.subject).conflicted = true := by
  constructor
  · intro h
    exact ⟨h.candidates, MvEntry.conflicted_iff.mpr h.contested⟩
  · rintro ⟨hcand, hconf⟩
    refine ⟨hcand, MvEntry.conflicted_iff.mp hconf, fun env resolver winning => ?_⟩
    rw [resolve_snd_fst, hconf]

lemma candidates_of_conflictOf {s : GoString} {ent : MvEntry} {c : BeliefConflict}
    (h : conflictOf docId s ent = some c) :
    c.candidates = ent.dots.map Dot.candidate ∧ ent.conflicted = true := by
  rw [conflictOf] at h
  split_ifs at h with hconf
  cases h
  exact ⟨rfl, hconf⟩

def BeliefCandidate.dot (c : BeliefCandidate) : Dot := ⟨actorHex c.actor, ⟨c.value⟩, c.clock⟩

lemma dot_candidate {d : Dot} {p : PeerID} (h : d.actor = actorHex p) : d.candidate.dot = d := by
  rw [BeliefCandidate.dot, candidate_actor h, ← h, Dot.candidate]

lemma eq_of_map_candidate_eq {m m' : MvEntry} (hm : ∀ d ∈ m.dots, ∃ p, d.actor = actorHex p)
    (hm' : ∀ d ∈ m'.dots, ∃ p, d.actor = actorHex p)
    (h : m.dots.map Dot.candidate = m'.dots.map Dot.candidate) : m = m' := by
  have hback : ∀ l : List Dot, (∀ d ∈ l, ∃ p, d.actor = actorHex p) →
      (l.map Dot.candidate).map BeliefCandidate.dot = l := by
    intro l hl
    rw [List.map_map]
    refine (List.map_congr_left fun d hd => ?_).trans (List.map_id l)
    obtain ⟨p, hp⟩ := hl d hd
    exact dot_candidate hp
  have hdots : m.dots = m'.dots := by rw [← hback m.dots hm, ← hback m'.dots hm', h]
  obtain ⟨l⟩ := m
  exact congrArg MvEntry.mk hdots

/-! ### One write -/

/-- What the engine is like whatever the ops are. -/
structure Wellformed (e : Engine) : Prop where
  keyed : e.Keyed
  /-- The author of a write is the hexadecimal form of a peer. -/
  named : ∀ docId k, ∀ d ∈ (e.entry docId k).dots, ∃ p, d.actor = actorHex p

namespace Wellformed

lemma new : Wellformed .new where
  keyed := Engine.keyed_new
  named _ _ _ hd := absurd hd List.not_mem_nil

variable (h : Wellformed e)
include h

lemma write (host : Host) (w : Write) : Wellformed (e.write host w) := by
  rcases Engine.write_cases host e w with ⟨-, heq⟩ | ⟨f, hf, hperf⟩
  · rw [heq]
    exact h
  · refine ⟨hperf.keyed h.keyed, fun j k d hd => ?_⟩
    rcases hperf.mem_entry hd with hd | ⟨-, hd⟩
    · exact h.named j k d hd
    · exact (Engine.shape_of_writes hf hd).2

lemma matches_iff : Matches host e ↔
    ∀ docId s c, e.listed docId s = some c →
      c.candidates = (e.entry docId s).dots.map Dot.candidate ∧
        (e.entry docId s).conflicted = true := by
  constructor
  · intro hm docId s c hc
    have hs : c.subject = s := Table.key_of_lookup hc
    have hmem : c ∈ e.conflictsOf docId := (h.keyed docId).mem_iff.mpr (hs ▸ hc)
    exact hs ▸ live_iff.mp (hm docId c hmem)
  · intro hl docId c hc
    exact live_iff.mpr (hl docId c.subject c ((h.keyed docId).mem_iff.mp hc))

lemma matches_of_indexed (h' : Wellformed e') (hperf : Performs host f e e')
    (hindexed : f.indexed = true) (hm : Matches host e) : Matches host e' := by
  rw [h'.matches_iff]
  rw [h.matches_iff] at hm
  intro j s c hc
  rw [hperf.listed] at hc
  split_ifs at hc with hw
  · exact candidates_of_conflictOf hc
  · -- the register has not been written to
    rw [hperf.entry_of_not_writes fun hj => Option.not_isSome_iff_eq_none.mp fun hs =>
      hw ⟨hj, hindexed, hs⟩]
    exact hm j s c hc

/-- A write that leaves the index as it is keeps it matching if it changes no register of a listed
subject, and only then. -/
lemma matches_iff_of_not_indexed (h' : Wellformed e')
    (hperf : Performs host f e e') (hindexed : f.indexed = false) (hm : Matches host e) :
    Matches host e' ↔ ∀ s d, f.writes s = some d → (e.listed f.docId s).isSome = true →
      (e.entry f.docId s).absorb host d = e.entry f.docId s := by
  have hlisted : ∀ j s, e'.listed j s = e.listed j s := by
    intro j s
    rw [hperf.listed, if_neg]
    rintro ⟨-, habs, -⟩
    rw [hindexed] at habs
    cases habs
  rw [h.matches_iff] at hm
  rw [h'.matches_iff]
  simp only [hlisted]
  constructor
  · intro hm' s d hd hsome
    obtain ⟨c, hc⟩ := Option.isSome_iff_exists.mp hsome
    have heq := (hm' f.docId s c hc).1.symm.trans (hm f.docId s c hc).1
    have hent := eq_of_map_candidate_eq (h'.named f.docId s) (h.named f.docId s) heq
    rw [← hperf.entry_of_writes hd]
    exact hent
  · intro hkeep j s c hc
    suffices hent : e'.entry j s = e.entry j s by
      rw [hent]
      exact hm j s c hc
    rw [hperf.entry]
    split_ifs with hj
    · cases hd : f.writes s with
      | none => rfl
      | some d =>
        subst hj
        exact hkeep s d hd (Option.isSome_iff_exists.mpr ⟨c, hc⟩)
    · rfl

theorem matches_write_iff (w : Write) (hm : Matches host e) :
    Matches host (e.write host w) ↔ w.Heeds host e := by
  have h' := h.write host w
  unfold Write.Heeds
  rcases Engine.write_cases host e w with ⟨hf, heq⟩ | ⟨f, hf, hperf⟩
  · rw [heq, hf]
    exact iff_of_true hm fun f hf => absurd hf.symm (Option.some_ne_none f)
  · rw [hf]
    cases hindexed : f.indexed with
    | true =>
      refine iff_of_true (h.matches_of_indexed h' hperf hindexed hm) fun g hg hg' => ?_
      cases hg
      rw [hindexed] at hg'
      cases hg'
    | false =>
      rw [h.matches_iff_of_not_indexed h' hperf hindexed hm]
      constructor
      · intro hkeep g hg _
        cases hg
        exact hkeep
      · intro hheeds
        exact hheeds f rfl hindexed

end Wellformed

/-! ### Runs -/

/-- The index matches the registers all along a run iff every op of another domain leaves
the registers of listed subjects as they are. The states of a run are those between two writes: a
`Merge` releases the lock after each op. -/
theorem index_matches_iff (host : Host) (cs : List Call) :
    (∀ ws, ws <+: Engine.writesOf host .new cs →
        Matches host (runFrom (Engine.write host) .new ws)) ↔
      Along (Engine.write host) (fun e w => w.Heeds host e) .new
        (Engine.writesOf host .new cs) := by
  refine forall_prefix_iff_along (I := Wellformed) (fun _ w h => h.write host w)
    (fun _ w h hm => h.matches_write_iff w hm) Wellformed.new ?_
  intro docId c hc
  exact absurd hc List.not_mem_nil

section

open Sample (skyOp alice bob sky blue grey doc kv)

namespace Sample

/-- Two agents contradict each other about the sky, and an op of another domain that has seen both
takes the side of the first. -/
def overruled : List Call :=
  [.deliver (.apply (skyOp domainBelief alice blue) env),
    .deliver (.apply (skyOp domainBelief bob grey) env),
    .deliver (.apply { skyOp kv alice blue with
      clock := (skyOp kv bob grey).clock.put (actorHex (peerOf alice.bytes)) 2 } env)]

end Sample

/-- The contradiction is still listed with both candidates though its register holds one value, and
`Resolve` finds nothing to resolve. -/
theorem stale_conflict :
    ((after Sample.host Sample.overruled).conflictsOf doc).map
        (fun c => (c.subject, c.candidates.length)) = [(sky, 2)] ∧
      (((after Sample.host Sample.overruled).entry doc sky).dots.map Dot.value = [blue]) ∧
      ((after Sample.host Sample.overruled).resolve Sample.host Sample.env doc
        (peerOf alice.bytes) sky blue).2.1 = false := by
  decide +kernel

end

end Cerberus.State
