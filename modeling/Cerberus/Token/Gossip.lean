import Cerberus.Mesh.Fanout
import Cerberus.Token.Revocation

/-!
# Gossip of revocations

`RevocationGossip` publishes every revocation of a node once (`HookPublish`), and applies those it
hears from other nodes (`Run` in `daemon/auth/gossip.go`). The fabric loses messages between
partitioned nodes and drops samples for a full subscriber queue.

Nothing is ever published again: `ApplyRevocation` runs no hooks, and nodes that connect exchange
nothing. So what a node misses it gets only by another revocation of the same id. `missed` records
who missed what, and `Accounted` says that everybody holds every revoked id, will hear of it, or has
missed it. If no step of a run makes a node miss anything (`Heard`), the nodes agree when they are
quiescent (`converge_of_heard`).
-/

namespace Cerberus.Gossip

open Foundation Mesh Function
open List hiding Vector

open Token (Issuer RevocationEvent)
open Fanout (Sample offer capacity)

/-- `DefaultRevocationTopic`, which every node publishes on and subscribes to. -/
def defaultRevocationTopic : GoString := .lit "sys/revocations"

example : matchKey defaultRevocationTopic defaultRevocationTopic = true := by decide +kernel

def coerced (ev : RevocationEvent) : RevocationEvent := ⟨ev.id.coerce, ev.reason.coerce⟩

/-- A published sample on its way to one of the other nodes. -/
structure Message (n : ℕ) where
  src : Fin n
  dst : Fin n
  payload : List UInt8

/-- The nodes and the fabric between them. -/
structure Net (n : ℕ) where
  issuers : Fin n → Issuer
  linked : Fin n → Fin n → Bool
  transit : List (Message n)
  queues : Fin n → List Sample
  /-- The history: a node did not get an id that another one holds or may get. -/
  missed : List (Fin n × GoString)

inductive Event (n : ℕ)
  /-- `Revoke`: `stored` is whether the store takes the write, `published` whether the fabric takes
  the message. -/
  | revoke (i : Fin n) (id : GoString) (stored published : Bool)
  /-- A message comes to the `readLoop` of a node it is linked with. -/
  | deliver (k : ℕ)
  /-- A message between partitioned nodes is lost. -/
  | lose (k : ℕ)
  | apply (i : Fin n) (stored : Bool)
  /-- Two nodes are partitioned, or connect again. -/
  | link (i j : Fin n) (up : Bool)

variable (J : Marshaller RevocationEvent coerced) {n : ℕ}

/-- The payload of `publish`, as `HookPublish` calls it. -/
def payload (id : GoString) : List UInt8 := J.marshal ⟨id, ⟨[]⟩⟩

/-- The id in a message, if it decodes to one. -/
def carried (payload : List UInt8) : Option GoString :=
  (J.unmarshal payload).bind fun ev => if ev.id = ⟨[]⟩ then none else some ev.id

def others (i : Fin n) : List (Fin n) := (List.finRange n).filter (· ≠ i)

/-- What a node misses with a message. -/
def misses (i : Fin n) (payload : List UInt8) : List (Fin n × GoString) :=
  (carried J payload).toList.map fun id => (i, id)

/-- Who misses what when a node revokes an id. An id that is empty or no UTF-8 does not arrive as
it is; the node itself does not hold what arrives in its place. -/
def unheard (i : Fin n) (id : GoString) (published : Bool) : List (Fin n × GoString) :=
  if published then
    match carried J (payload J id) with
    | some w => if w = id then [] else (others i).map (fun j => (j, id)) ++ [(i, w)]
    | none => (others i).map fun j => (j, id)
  else (others i).map fun j => (j, id)

namespace Net

/-- `Revoke` with the hook of `HookPublish`, which swallows the error of `publish`. A message may
stay in transit as long as it takes, so nothing has to happen between the write and the hook. -/
def revoke (s : Net n) (i : Fin n) (id : GoString) (stored published : Bool) : Net n :=
  if stored then
    { s with
      issuers := Function.update s.issuers i (Token.revoke (s.issuers i) id stored)
      transit := if published then s.transit ++ (others i).map fun j => ⟨i, j, payload J id⟩
        else s.transit
      missed := s.missed ++ unheard J i id published }
  else s

def deliver (s : Net n) (k : ℕ) : Net n :=
  match s.transit[k]? with
  | some m =>
    if s.linked m.src m.dst then
      { s with
        transit := s.transit.eraseIdx k
        queues := Function.update s.queues m.dst
          (offer (s.queues m.dst) ⟨defaultRevocationTopic, m.payload⟩)
        missed := if (s.queues m.dst).length < capacity then s.missed
          else s.missed ++ misses J m.dst m.payload }
    else s
  | none => s

def lose (s : Net n) (k : ℕ) : Net n :=
  match s.transit[k]? with
  | some m =>
    if s.linked m.src m.dst then s
    else
      { s with
        transit := s.transit.eraseIdx k
        missed := s.missed ++ misses J m.dst m.payload }
  | none => s

/-- A round of `Run`, which ignores the error of `ApplyRevocation`. -/
def apply (s : Net n) (i : Fin n) (stored : Bool) : Net n :=
  match s.queues i with
  | sample :: queue =>
    { s with
      issuers := Function.update s.issuers i
        (Token.receive (s.issuers i) (J.unmarshal sample.payload) stored)
      queues := Function.update s.queues i queue
      missed := if stored then s.missed else s.missed ++ misses J i sample.payload }
  | [] => s

def link (s : Net n) (i j : Fin n) (up : Bool) : Net n :=
  { s with
    linked := fun a b => if (a = i ∧ b = j) ∨ (a = j ∧ b = i) then up else s.linked a b }

def revoked (s : Net n) (i : Fin n) : Finset GoString := (s.issuers i).revoked

end Net

def step (s : Net n) : Event n → Net n
  | .revoke i id stored published => s.revoke J i id stored published
  | .deliver k => s.deliver J k
  | .lose k => s.lose J k
  | .apply i stored => s.apply J i stored
  | .link i j up => s.link i j up

/-- Nodes that hold the same ids, all connected, before the first revocation. -/
def start (seeds : Fin n → Vector UInt8 32) (R : Finset GoString) : Net n where
  issuers i := Token.fromSeed (seeds i) R
  linked _ _ := true
  transit := []
  queues _ := []
  missed := []

/-- All nodes are connected, and nothing is in transit or waits in a channel. -/
structure Quiescent (s : Net n) : Prop where
  linked : ∀ i j, i ≠ j → s.linked i j = true
  transit : s.transit = []
  queues : ∀ i, s.queues i = []

/-- All nodes hold the same revocation set. -/
def Agree (s : Net n) : Prop := ∀ i j, s.revoked i = s.revoked j

/-- The step makes no node miss anything: a revoked id that is stored is published, and arrives as
it is; a message that is delivered finds room in the queue; none is lost; and what is taken out of
a queue is stored. -/
def Heard (s : Net n) : Event n → Prop
  | .revoke _ id stored published =>
    stored = true → published = true ∧ id ≠ ⟨[]⟩ ∧ id.coerce = id
  | .deliver k => ∀ m ∈ s.transit[k]?, s.linked m.src m.dst = true →
    (s.queues m.dst).length < capacity
  | .lose k => ∀ m ∈ s.transit[k]?, s.linked m.src m.dst = true
  | .apply i stored => s.queues i ≠ [] → stored = true
  | .link _ _ _ => True

/-! ### What becomes of a revocation -/

/-- The node is about to hear of the id. -/
def OnWay (s : Net n) (j : Fin n) (id : GoString) : Prop :=
  (∃ m ∈ s.transit, m.dst = j ∧ carried J m.payload = some id) ∨
    ∃ sample ∈ s.queues j, carried J sample.payload = some id

/-- The node holds the id, is about to hear of it, or has missed it. -/
def Reached (s : Net n) (j : Fin n) (id : GoString) : Prop :=
  id ∈ s.revoked j ∨ OnWay J s j id ∨ (j, id) ∈ s.missed

/-- Some node holds the id or is about to hear of it. -/
def Known (s : Net n) (id : GoString) : Prop := ∃ i, id ∈ s.revoked i ∨ OnWay J s i id

/-- Every id that some node knows is accounted for at every node. -/
def Accounted (s : Net n) : Prop := ∀ id, Known J s id → ∀ j, Reached J s j id

variable {J} {s : Net n}

lemma mem_others {i j : Fin n} : j ∈ others i ↔ j ≠ i := by
  simp [others]

lemma mem_misses {i j : Fin n} {p : List UInt8} {id : GoString} :
    (j, id) ∈ misses J i p ↔ j = i ∧ carried J p = some id := by
  simp only [misses, mem_map, Option.mem_toList, Prod.mk.injEq]
  constructor
  · rintro ⟨id', hid, rfl, rfl⟩
    exact ⟨rfl, hid⟩
  · rintro ⟨rfl, hid⟩
    exact ⟨id, hid, rfl, rfl⟩

lemma revoked_receive (iss : Issuer) (p : List UInt8) (stored : Bool) (id : GoString) :
    id ∈ (Token.receive iss (J.unmarshal p) stored).revoked ↔
      id ∈ iss.revoked ∨ (stored = true ∧ carried J p = some id) := by
  unfold Token.receive carried
  cases hun : J.unmarshal p with
  | none => simp
  | some ev =>
    simp only [Option.bind_some]
    by_cases hid : ev.id = ⟨[]⟩
    · simp [hid]
    · rw [if_neg hid, if_neg hid]
      cases stored with
      | false => simp [Token.applyRevocation, Issuer.markRevoked]
      | true =>
        simp only [Token.applyRevocation, Issuer.markRevoked, if_true, Finset.mem_insert,
          true_and, Option.some.injEq]
        rw [or_comm, eq_comm]

section Revoke

variable {i j : Fin n} {id id' : GoString} {published : Bool}

lemma mem_revoked_revoke : id' ∈ (s.revoke J i id true published).revoked j ↔
    id' ∈ s.revoked j ∨ (j = i ∧ id' = id) := by
  by_cases hj : j = i
  · subst hj
    simp only [Net.revoke, Net.revoked, if_true, update_self, Token.revoke,
      Issuer.markRevoked, Finset.mem_insert, true_and]
    exact or_comm
  · simp only [Net.revoke, Net.revoked, if_true, update_of_ne hj, hj, false_and, or_false]

lemma onWay_revoke : OnWay J (s.revoke J i id true published) j id' ↔
    OnWay J s j id' ∨ (published = true ∧ j ≠ i ∧ carried J (payload J id) = some id') := by
  cases published with
  | false => simp [OnWay, Net.revoke]
  | true =>
    have hcopies : (∃ m ∈ (others i).map fun j => (⟨i, j, payload J id⟩ : Message n),
        m.dst = j ∧ carried J m.payload = some id') ↔
          j ≠ i ∧ carried J (payload J id) = some id' := by
      simp only [mem_map, mem_others]
      constructor
      · rintro ⟨-, ⟨j, hj, rfl⟩, rfl, hcarried⟩
        exact ⟨hj, hcarried⟩
      · rintro ⟨hj, hcarried⟩
        exact ⟨_, ⟨j, hj, rfl⟩, rfl, hcarried⟩
    simp only [OnWay, Net.revoke, if_true, mem_append, or_and_right, exists_or, hcopies,
      true_and]
    exact or_right_comm

lemma mem_unheard_of_ne (hj : j ≠ i)
    (h : ¬ (published = true ∧ carried J (payload J id) = some id)) :
    (j, id) ∈ unheard J i id published := by
  have hmem : (j, id) ∈ (others i).map fun j => (j, id) :=
    mem_map.mpr ⟨j, mem_others.mpr hj, rfl⟩
  unfold unheard
  split_ifs with hpub
  · cases hcarried : carried J (payload J id) with
    | none => exact hmem
    | some w =>
      have hw : w ≠ id := fun hw => h ⟨hpub, hw ▸ hcarried⟩
      simp only [if_neg hw]
      exact mem_append_left _ hmem
  · exact hmem

lemma mem_unheard_self (hpub : published = true) (hcarried : carried J (payload J id) = some id')
    (hid : id' ≠ id) : (i, id') ∈ unheard J i id published := by
  simp only [unheard, hpub, if_true, hcarried, if_neg hid]
  exact mem_append_right _ (mem_singleton_self _)

end Revoke

lemma mem_eraseIdx_or {α : Type} {a b : α} {l : List α} {k : ℕ} (hk : l[k]? = some a)
    (hb : b ∈ l) : b ∈ l.eraseIdx k ∨ b = a := by
  obtain ⟨i, hi⟩ := mem_iff_getElem?.mp hb
  by_cases hik : i = k
  · subst hik
    exact .inr (Option.some.inj (hi.symm.trans hk))
  · exact .inl (mem_eraseIdx_iff_getElem?.mpr ⟨i, hik, hi⟩)

lemma Accounted.of_mono (h : Accounted J s) {t : Net n} (hknown : ∀ id, Known J t id → Known J s id)
    (hreached : ∀ j id, Reached J s j id → Reached J t j id) : Accounted J t :=
  fun id hid j => hreached j id (h id (hknown id hid) j)

namespace Accounted

variable {t : Net n}

variable (h : Accounted J s)
include h

lemma take {k : ℕ} {m : Message n} (hm : s.transit[k]? = some m)
    (hissuers : t.issuers = s.issuers) (htransit : t.transit = s.transit.eraseIdx k)
    (hkept : ∀ j, ∀ sample ∈ s.queues j, sample ∈ t.queues j)
    (hnew : ∀ j, ∀ sample ∈ t.queues j,
      sample ∈ s.queues j ∨ (j = m.dst ∧ sample.payload = m.payload))
    (hmissed : ∀ p ∈ s.missed, p ∈ t.missed)
    (hfate : ∀ id, carried J m.payload = some id → Reached J t m.dst id) : Accounted J t := by
  have hrevoked : ∀ i, t.revoked i = s.revoked i := fun i => by rw [Net.revoked, hissuers]; rfl
  refine h.of_mono ?_ ?_
  · rintro id ⟨i, hid | ⟨m', hm', hway⟩ | ⟨sample, hsample, hcarried⟩⟩
    · exact ⟨i, .inl (hrevoked i ▸ hid)⟩
    · rw [htransit] at hm'
      exact ⟨i, .inr (.inl ⟨m', mem_of_mem_eraseIdx hm', hway⟩)⟩
    · rcases hnew i sample hsample with hsample | ⟨rfl, hpayload⟩
      · exact ⟨i, .inr (.inr ⟨sample, hsample, hcarried⟩)⟩
      · rw [hpayload] at hcarried
        exact ⟨m.dst, .inr (.inl ⟨m, mem_of_getElem? hm, rfl, hcarried⟩)⟩
  · rintro j id (hid | (⟨m', hm', hdst, hcarried⟩ | ⟨sample, hsample, hcarried⟩) | hmiss)
    · exact .inl (hrevoked j ▸ hid)
    · rcases mem_eraseIdx_or hm hm' with hm' | rfl
      · exact .inr (.inl (.inl ⟨m', htransit ▸ hm', hdst, hcarried⟩))
      · exact hdst ▸ hfate id hcarried
    · exact .inr (.inl (.inr ⟨sample, hkept j sample hsample, hcarried⟩))
    · exact .inr (.inr (hmissed _ hmiss))

lemma drop {k : ℕ} {m : Message n} (hm : s.transit[k]? = some m) :
    Accounted J { s with
      transit := s.transit.eraseIdx k
      missed := s.missed ++ misses J m.dst m.payload } := by
  refine h.take hm rfl rfl (fun _ _ hsample => hsample) (fun _ _ hsample => .inl hsample)
    (fun p hp => mem_append_left _ hp) fun id hid => ?_
  exact .inr (.inr (mem_append_right _ (mem_misses.mpr ⟨rfl, hid⟩)))

lemma lose (k : ℕ) : Accounted J (s.lose J k) := by
  unfold Net.lose
  split
  · rename_i m hm
    split_ifs with hlink
    · exact h
    · exact h.drop hm
  · exact h

lemma deliver (k : ℕ) : Accounted J (s.deliver J k) := by
  unfold Net.deliver
  split
  · rename_i m hm
    split_ifs with hlink hroom
    · have hqueue : ∀ (j : Fin n) (sample : Sample), sample ∈ Function.update s.queues m.dst
          (s.queues m.dst ++ [⟨defaultRevocationTopic, m.payload⟩]) j ↔
            sample ∈ s.queues j ∨ (j = m.dst ∧ sample = ⟨defaultRevocationTopic, m.payload⟩) := by
        intro j sample
        by_cases hj : j = m.dst
        · subst hj
          simp
        · simp [hj]
      simp only [offer, if_pos hroom]
      refine h.take hm rfl rfl (fun j sample hsample => (hqueue j sample).mpr (.inl hsample))
        (fun j sample hsample => ?_) (fun p hp => hp) fun id hid => ?_
      · refine ((hqueue j sample).mp hsample).imp_right ?_
        rintro ⟨rfl, rfl⟩
        exact ⟨rfl, rfl⟩
      · exact .inr (.inl (.inr ⟨_, (hqueue _ _).mpr (.inr ⟨rfl, rfl⟩), hid⟩))
    -- a full channel drops the sample
    · simp only [offer, if_neg hroom, update_eq_self]
      exact h.drop hm
    · exact h
  · exact h

lemma apply (i : Fin n) (stored : Bool) : Accounted J (s.apply J i stored) := by
  unfold Net.apply
  split
  · rename_i sample queue hqueue
    set t : Net n := ⟨_, s.linked, s.transit, _, _⟩ with ht
    have hrevoked : ∀ (j : Fin n) (id : GoString), id ∈ t.revoked j ↔
        id ∈ s.revoked j ∨ (j = i ∧ stored = true ∧ carried J sample.payload = some id) := by
      intro j id
      by_cases hj : j = i
      · subst hj
        simp only [ht, Net.revoked, update_self, revoked_receive, true_and]
      · simp only [ht, Net.revoked, update_of_ne hj, hj, false_and, or_false]
    have hqueues : ∀ (j : Fin n) (sample' : Sample), sample' ∈ s.queues j ↔
        sample' ∈ t.queues j ∨ (j = i ∧ sample' = sample) := by
      intro j sample'
      by_cases hj : j = i
      · subst hj
        simp only [ht, update_self, hqueue, mem_cons, true_and]
        exact or_comm
      · simp only [ht, update_of_ne hj, hj, false_and, or_false]
    refine h.of_mono ?_ ?_
    · rintro id ⟨j, hid | hway | ⟨sample', hsample, hcarried⟩⟩
      · rcases (hrevoked j id).mp hid with hid | ⟨rfl, -, hcarried⟩
        · exact ⟨j, .inl hid⟩
        · exact ⟨j, .inr (.inr ⟨sample, (hqueues j sample).mpr (.inr ⟨rfl, rfl⟩), hcarried⟩)⟩
      · exact ⟨j, .inr (.inl hway)⟩
      · exact ⟨j, .inr (.inr ⟨sample', (hqueues j sample').mpr (.inl hsample), hcarried⟩)⟩
    · rintro j id (hid | (hway | ⟨sample', hsample, hcarried⟩) | hmiss)
      · exact .inl ((hrevoked j id).mpr (.inl hid))
      · exact .inr (.inl (.inl hway))
      · rcases (hqueues j sample').mp hsample with hsample | ⟨rfl, rfl⟩
        · exact .inr (.inl (.inr ⟨sample', hsample, hcarried⟩))
        · cases stored with
          | true => exact .inl ((hrevoked j id).mpr (.inr ⟨rfl, rfl, hcarried⟩))
          | false =>
            exact .inr (.inr (mem_append_right _ (mem_misses.mpr ⟨rfl, hcarried⟩)))
      · refine .inr (.inr ?_)
        cases stored with
        | true => exact hmiss
        | false => exact mem_append_left _ hmiss
  · exact h

lemma revoke (i : Fin n) (id : GoString) (stored published : Bool) :
    Accounted J (s.revoke J i id stored published) := by
  cases stored with
  | false => exact h
  | true =>
    have hmono : ∀ (j : Fin n) (id' : GoString), Reached J s j id' →
        Reached J (s.revoke J i id true published) j id' := by
      rintro j id' (hid | hway | hmiss)
      · exact .inl (mem_revoked_revoke.mpr (.inl hid))
      · exact .inr (.inl (onWay_revoke.mpr (.inl hway)))
      · exact .inr (.inr (mem_append_left _ hmiss))
    rintro id' ⟨k, hid | hway⟩ j
    · rcases mem_revoked_revoke.mp hid with hid | ⟨-, rfl⟩
      · exact hmono j id' (h id' ⟨k, .inl hid⟩ j)
      -- the id itself
      · by_cases hj : j = i
        · exact .inl (mem_revoked_revoke.mpr (.inr ⟨hj, rfl⟩))
        · by_cases hsent : published = true ∧ carried J (payload J id') = some id'
          · exact .inr (.inl (onWay_revoke.mpr (.inr ⟨hsent.1, hj, hsent.2⟩)))
          · exact .inr (.inr (mem_append_right _ (mem_unheard_of_ne hj hsent)))
    · rcases onWay_revoke.mp hway with hway | ⟨hpub, -, hcarried⟩
      · exact hmono j id' (h id' ⟨k, .inr hway⟩ j)
      -- what the others hear in its place
      · by_cases hj : j = i
        · by_cases hid : id' = id
          · exact .inl (mem_revoked_revoke.mpr (.inr ⟨hj, hid⟩))
          · exact .inr (.inr (mem_append_right _ (hj ▸ mem_unheard_self hpub hcarried hid)))
        · exact .inr (.inl (onWay_revoke.mpr (.inr ⟨hpub, hj, hcarried⟩)))

lemma step (e : Event n) : Accounted J (Gossip.step J s e) := by
  cases e with
  | revoke i id stored published => exact h.revoke i id stored published
  | deliver k => exact h.deliver k
  | lose k => exact h.lose k
  | apply i stored => exact h.apply i stored
  | link i j up => exact h

end Accounted

lemma accounted_start (seeds : Fin n → Vector UInt8 32) (R : Finset GoString) :
    Accounted J (start seeds R) := by
  rintro id ⟨i, hid | ⟨m, hm, -⟩ | ⟨sample, hsample, -⟩⟩ j
  · exact .inl hid
  · exact absurd hm not_mem_nil
  · exact absurd hsample not_mem_nil

/-- Quiescent nodes that have missed nothing agree. -/
lemma Accounted.agree (h : Accounted J s) (hq : Quiescent s) (hmissed : s.missed = []) :
    Agree s := by
  have hsub : ∀ i j, s.revoked i ⊆ s.revoked j := by
    intro i j id hid
    rcases h id ⟨i, .inl hid⟩ j with hj | (⟨m, hm, -⟩ | ⟨sample, hsample, -⟩) | hmiss
    · exact hj
    · rw [hq.transit] at hm
      exact absurd hm not_mem_nil
    · rw [hq.queues j] at hsample
      exact absurd hsample not_mem_nil
    · rw [hmissed] at hmiss
      exact absurd hmiss not_mem_nil
  exact fun i j => (hsub i j).antisymm (hsub j i)

/-- An id that is not empty and is UTF-8 arrives as it is. -/
lemma carried_payload {id : GoString} (hne : id ≠ ⟨[]⟩) (hcoerce : id.coerce = id) :
    carried J (payload J id) = some id := by
  rw [carried, payload, J.unmarshal_marshal, Option.bind_some, coerced, hcoerce, if_neg hne]

/-- A step of which everybody hears leaves the record of what was missed as it is. -/
lemma missed_step {e : Event n} (h : Heard s e) : (step J s e).missed = s.missed := by
  cases e with
  | revoke i id stored published =>
    rcases stored with _ | _
    · rfl
    · obtain ⟨hpub, hne, hcoerce⟩ := h rfl
      simp [step, Net.revoke, unheard, hpub, carried_payload hne hcoerce]
  | deliver k =>
    simp only [step, Net.deliver]
    split
    · rename_i m hm
      split_ifs with hlink hroom
      · rfl
      · exact absurd (h m hm hlink) hroom
      · rfl
    · rfl
  | lose k =>
    simp only [step, Net.lose]
    split
    · rename_i m hm
      rw [if_pos (h m hm)]
    · rfl
  | apply i stored =>
    simp only [step, Net.apply]
    split
    · rename_i sample queue hqueue
      rw [if_pos (h (by rw [hqueue]; exact cons_ne_nil _ _))]
    · rfl
  | link i j up => rfl

variable (J)

/-- For any number of nodes and any interleaving of revocations, deliveries, partitions and
reconnects of which no step makes a node miss anything: nodes that are all connected, with nothing
in transit, hold the same revocation set. -/
theorem converge_of_heard (seeds : Fin n → Vector UInt8 32) (R : Finset GoString)
    (es : List (Event n)) (hes : Along (step J) Heard (start seeds R) es)
    (hq : Quiescent (runFrom (step J) (start seeds R) es)) :
    Agree (runFrom (step J) (start seeds R) es) := by
  have haccounted : Accounted J (runFrom (step J) (start seeds R) es) :=
    runFrom_keeps (fun _ e h => h.step e) (accounted_start seeds R) es
  refine haccounted.agree hq (Along.keeps (I := fun s => s.missed = []) ?_ rfl hes)
  exact fun s e hs he => (missed_step he).trans hs

/-! ### A partition -/

def sampleJson : Marshaller RevocationEvent coerced :=
  .hex (fun ev => [ev.id, ev.reason])
    (fun l => ⟨l.headD ⟨[]⟩, l.tail.headD ⟨[]⟩⟩) (fun _ => rfl)
    (fun ev => by simp [coerced])

/-- A node revokes while another one is cut off, and the message waits until they connect again:
both hold the id. -/
theorem converge_of_heard_reconnected :
    Agree (runFrom (step sampleJson) (start (n := 2) (fun _ => Vector.replicate 32 0) ∅)
      [.link 0 1 false, .revoke 0 (.lit "1") true true, .link 0 1 true, .deliver 0,
        .apply 1 true]) := by
  refine converge_of_heard sampleJson _ _ _ ?_ ⟨?_, ?_, ?_⟩
  · exact ⟨trivial, fun _ => ⟨rfl, by decide, by decide +kernel⟩, trivial,
      fun _ _ _ => show 0 < capacity by decide, fun _ => rfl, trivial⟩
  · decide +kernel
  · rfl
  · decide +kernel

/-- A node revokes while another one is cut off, and the message is lost; after they connect again
the nodes are quiescent, and only the first one holds the id. -/
theorem partition_diverges :
    let s := runFrom (step sampleJson) (start (n := 2) (fun _ => Vector.replicate 32 0) ∅)
      [.link 0 1 false, .revoke 0 (.lit "1") true true, .lose 0, .link 0 1 true]
    Quiescent s ∧ ¬ Agree s := by
  intro s
  refine ⟨⟨?_, ?_, ?_⟩, ?_⟩
  · decide +kernel
  · rfl
  · intro i
    rfl
  · intro hagree
    have hne : s.revoked 0 ≠ s.revoked 1 := by decide +kernel
    exact hne (hagree 0 1)

end Cerberus.Gossip
