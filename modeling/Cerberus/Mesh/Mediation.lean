import Cerberus.Mesh.Services

/-!
# What the services of the mesh check

A request that reaches the store or the audio device of the node should come from the peer of the
stream, with an envelope that this peer has signed, that is valid now, that carries the right for
the operation, and that names the resource of the service (`Rightful`).

All three gates verify the envelope under the key of the issuer, and look for the right. None of
them looks at the resource, and the one for components does not look at the peer. What is let
through is `Admitted` (`touches_iff`).
-/

namespace Cerberus.Mesh

open Foundation Contract

open Envelope (Grant decodeEnvelopeAndSig verifyGrant)

variable {ε σ γ : Type}

inductive Service
  | shard
  | audio
  | component
  deriving DecidableEq

def Service.resource (site : GoString) : Service → ResourceRef
  | shard => meshShardResource site
  | audio => audioResource site
  | component => meshFabricResource site

/-- The libraries that the three handlers rely on. -/
structure Libraries (γ : Type) extends Host where
  unmarshalAudio : List UInt8 → Option AudioRequest
  unmarshalComponent : List UInt8 → Option ComponentFetchRequest
  cast : List UInt8 → Option γ

/-- The store and the devices that a node serves. -/
structure Node (ε σ γ : Type) where
  shards : ShardServer ε σ
  audio : Option (AudioServer ε σ)
  components : Option (ComponentSource ε σ γ)

/-- The node, with a flag that is set when the store or the device is touched. -/
def Node.flagged (node : Node ε σ γ) : Node ε (σ × Bool) γ where
  shards :=
    { putShard := fun cidBytes shard s =>
        let res := node.shards.putShard cidBytes shard s.1
        (res.1, res.2, true)
      getShard := fun cidBytes s =>
        let res := node.shards.getShard cidBytes s.1
        (res.1, res.2, true) }
  audio := node.audio.map fun srv =>
    { playIncoming := fun r s =>
        let res := srv.playIncoming r s.1
        (res.1, res.2, true)
      captureOutgoing := fun s =>
        let res := srv.captureOutgoing s.1
        (res.1, res.2, true) }
  components := node.components.map fun store =>
    { has := fun c s =>
        let res := store.has c s.1
        (res.1, res.2, true)
      get := fun c s =>
        let res := store.get c s.1
        (res.1, res.2, true) }

section

variable (L : Libraries γ) (now : Option Int64) (isRevoked : Option (CapID → Bool))

def serve (node : Node ε σ γ) (svc : Service) (ackFails : Bool) (ss : StreamSession) (s : σ) :
    Option σ :=
  match svc with
  | .shard =>
    (handleShardStream L.toHost (some selfIssuerResolver) now isRevoked node.shards ss s).map
      Prod.snd
  | .audio =>
    (handleAudioStream L.toHost (some selfIssuerResolver) now isRevoked L.unmarshalAudio node.audio
      ackFails ss s).map Prod.snd
  | .component =>
    (handleComponentFetchStream L.toHost (some selfIssuerResolver) now isRevoked
      L.unmarshalComponent L.cast node.components ss s).map Prod.snd

/-- The stream reaches the store or the device. -/
def Touches (node : Node ε σ γ) (svc : Service) (ackFails : Bool) (ss : StreamSession) (s : σ) :
    Prop :=
  ∃ s', serve L now isRevoked node.flagged svc ackFails ss (s, false) = some (s', true)

/-- What a request presents, and the right that its operation needs. -/
structure Presented where
  cap : List UInt8
  issuer : PeerID
  right : Right

/-- What a request claims, if it decodes. -/
def presented (svc : Service) (ss : StreamSession) : Option Presented := do
  let raw ← ss.recv
  match svc with
  | .shard =>
    let req ← L.unmarshal raw
    let right ← shardRightFor req.op
    return ⟨req.cap, req.issuer, right⟩
  | .audio =>
    let req ← L.unmarshalAudio raw
    let right ← audioRightFor req.dir
    return ⟨req.cap, req.issuer, right⟩
  | .component =>
    let req ← L.unmarshalComponent raw
    return ⟨req.cap, req.issuer, .lit "read"⟩

end

/-- The envelope is signed by the issuer of the request, valid now, and carries the right. -/
structure Valid (H : Envelope.Host) (now : Int64) (isRevoked : Option (CapID → Bool))
    (p : Presented) (g : Grant) : Prop where
  issuer : g.issuer = p.issuer
  signed : ∃ sig, decodeEnvelopeAndSig H p.cap = some (.ok (g, sig)) ∧
    H.ed25519.verifyBytes p.issuer (Envelope.canonicalBytes H g) sig = true
  notBefore : g.notBefore ≤ now
  expiry : g.expiry ≠ 0 → now < g.expiry
  unrevoked : ∀ revoked ∈ isRevoked, Envelope.isRevokedBy revoked g = false
  right : p.right ∈ g.rights

/-- The request comes from the peer of the stream, its envelope is valid, and it names the resource. -/
structure Rightful (H : Envelope.Host) (now : Int64) (isRevoked : Option (CapID → Bool))
    (peer : Option PeerID) (R : ResourceRef) (p : Presented) : Prop where
  peer : peer = some p.issuer
  envelope : ∃ g, Valid H now isRevoked p g ∧ g.resource.kind = R.kind ∧ g.resource.path = R.path

/-- The store or the device is there, and the request names something it can be asked for. -/
def Ready (L : Libraries γ) (node : Node ε σ γ) (ackFails : Bool) (ss : StreamSession) :
    Service → Prop
  | .shard => True
  | .audio => node.audio.isSome = true ∧ ackFails = false
  | .component => node.components.isSome = true ∧
      ∃ raw ∈ ss.recv, ∃ req ∈ L.unmarshalComponent raw, (L.cast req.cid).isSome = true

/-- The stream carries a request with a valid envelope for a service that is ready; for shards and
audio, its issuer is the peer of the stream. -/
structure Admitted (L : Libraries γ) (now : Option Int64) (isRevoked : Option (CapID → Bool))
    (node : Node ε σ γ) (svc : Service) (ackFails : Bool) (ss : StreamSession) (p : Presented)
    (g : Grant) : Prop where
  presented : presented L svc ss = some p
  peer : svc ≠ .component → ss.remotePeerID = some p.issuer
  valid : Valid L.envelope (now.getD 0) isRevoked p g
  ready : Ready L node ackFails ss svc

variable {L : Libraries γ} {now : Option Int64} {isRevoked : Option (CapID → Bool)}
  {node : Node ε σ γ} {svc : Service} {ackFails : Bool} {ss : StreamSession} {s : σ}
  {p : Presented} {g : Grant}

/-! ### The gate -/

lemma verifyGrant_eq_ok_iff {H : Envelope.Host} {sig : List UInt8} {g' : Grant} {t : Int64}
    (hdecode : decodeEnvelopeAndSig H p.cap = some (.ok (g', sig))) :
    verifyGrant H p.issuer g' sig t isRevoked = .ok g ∧ p.right ∈ g.rights ↔
      Valid H t isRevoked p g := by
  constructor
  · rintro ⟨h, hright⟩
    unfold verifyGrant at h
    split_ifs at h with hissuer hsig hbefore hexpiry hrevoked
    cases h
    refine ⟨(not_not.mp hissuer).symm, ⟨sig, hdecode, ?_⟩, ?_, ?_, ?_, hright⟩
    · exact Bool.eq_true_of_not_eq_false hsig
    · exact Int64.not_lt.mp hbefore
    · exact fun hne => Int64.not_le.mp fun hle => hexpiry ⟨hne, hle⟩
    · rintro revoked rfl
      exact Bool.eq_false_of_not_eq_true hrevoked
  · rintro ⟨hissuer, ⟨sig', hdecode', hsig⟩, hbefore, hexpiry, hrevoked, hright⟩
    cases hdecode.symm.trans hdecode'
    refine ⟨?_, hright⟩
    have hlive : isRevoked.any (Envelope.isRevokedBy · g) = false := by
      cases isRevoked with
      | none => rfl
      | some revoked => exact hrevoked revoked rfl
    rw [verifyGrant, if_neg (not_not.mpr hissuer.symm), if_neg (by rw [hsig]; decide),
      if_neg (Int64.not_lt.mpr hbefore),
      if_neg fun h => Int64.not_le.mpr (hexpiry h.1) h.2, hlive, if_neg Bool.false_ne_true]

/-- The gate lets a request through exactly when its envelope is valid. -/
lemma verifyShardCap_eq_ok_iff (hne : p.right ≠ ⟨[]⟩) :
    verifyShardCap L.toHost (some selfIssuerResolver) now isRevoked p.cap p.issuer p.right =
      some (.ok g) ↔ Valid L.envelope (now.getD 0) isRevoked p g := by
  have hlen : ¬ p.issuer.toList.length ≠ 32 := not_not.mpr (Vector.length_toList ..)
  unfold verifyShardCap selfIssuerResolver Envelope.verify
  simp only [if_neg hlen, Envelope.copyFixed_toList]
  rcases hdecode : decodeEnvelopeAndSig L.envelope p.cap with _ | ⟨e | ⟨g', sig⟩⟩
  · refine iff_of_false ?_ fun h => ?_
    · split_ifs <;> simp
    · obtain ⟨sig, hdecode', -⟩ := h.signed
      cases hdecode.symm.trans hdecode'
  · refine iff_of_false ?_ fun h => ?_
    · split_ifs <;> simp
    · obtain ⟨sig, hdecode', -⟩ := h.signed
      cases hdecode.symm.trans hdecode'
  · have hcap : p.cap ≠ [] := by
      intro hnil
      rw [hnil] at hdecode
      cases hdecode
    rw [if_neg hcap, ← verifyGrant_eq_ok_iff hdecode]
    rcases hgrant : verifyGrant L.envelope p.issuer g' sig (now.getD 0) isRevoked with e | g''
    · simp [hgrant]
    · simp only [hgrant, Option.map_some, Option.some.injEq, Except.ok.injEq]
      split_ifs with hright
      · refine iff_of_false (by simp) ?_
        rintro ⟨rfl, hmem⟩
        exact hright.2 hmem
      · have hmem : p.right ∈ g''.rights := not_not.mp fun hmem => hright ⟨hne, hmem⟩
        refine ⟨fun heq => ?_, fun heq => by rw [heq.1]⟩
        obtain rfl := Except.ok.inj heq
        exact ⟨rfl, hmem⟩

/-! ### The handlers -/

variable {right : Right}

lemma shardRightFor_ne {op : ShardOp} (h : shardRightFor op = some right) : right ≠ ⟨[]⟩ := by
  unfold shardRightFor at h
  split_ifs at h
  · cases h
    decide
  · cases h
    decide

lemma audioRightFor_ne {dir : AudioDir} (h : audioRightFor dir = some right) : right ≠ ⟨[]⟩ := by
  unfold audioRightFor at h
  split_ifs at h
  · cases h
    decide
  · cases h
    decide

/-- What follows a gate that returns is touched exactly when the gate lets the request through and
what follows touches it. -/
lemma exists_map_iff {α : Type} {r : Option (Except GateErr Grant)} (hr : ∃ x, r = some x)
    {f : Except GateErr Grant → α × σ × Bool} {y : α × σ × Bool}
    (herr : ∀ e, (f (.error e)).2.2 = false) (hok : ∀ g, f (.ok g) = y) :
    (∃ s', (r.map f).map Prod.snd = some (s', true)) ↔
      (∃ g, r = some (.ok g)) ∧ y.2.2 = true := by
  obtain ⟨x, rfl⟩ := hr
  rcases x with e | g
  · refine iff_of_false ?_ ?_
    · rintro ⟨s', hs'⟩
      have hflag := congrArg Prod.snd (Option.some.inj hs')
      rw [herr e] at hflag
      cases hflag
    · rintro ⟨⟨g, hg⟩, -⟩
      cases hg
  · simp only [Option.map_some, hok]
    constructor
    · rintro ⟨s', hs'⟩
      exact ⟨⟨g, rfl⟩, congrArg Prod.snd (Option.some.inj hs')⟩
    · rintro ⟨-, hflag⟩
      exact ⟨y.2.1, by rw [← hflag]⟩

lemma flag_shardOperation {req : ShardRequest} (hright : shardRightFor req.op = some right) :
    (shardOperation node.flagged.shards req (s, false)).2.2 = true := by
  unfold shardRightFor at hright
  unfold shardOperation Node.flagged
  split_ifs at hright ⊢
  · split
    · rename_i heq
      exact (congrArg (fun res => res.2.2) heq).symm
    · rename_i heq
      exact (congrArg (fun res => res.2.2) heq).symm
  · split
    · rename_i heq
      exact (congrArg (fun res => res.2.2) heq).symm
    · rename_i heq
      exact (congrArg (fun res => res.2.2) heq).symm

lemma not_admitted (h : presented L svc ss = none) :
    ¬ ∃ p g, Admitted L now isRevoked node svc ackFails ss p g := by
  rintro ⟨p, g, hp, -⟩
  rw [h] at hp
  cases hp

lemma not_admitted_of_peer (hp : presented L svc ss = some p) (hsvc : svc ≠ .component)
    (hpeer : ss.remotePeerID ≠ some p.issuer) :
    ¬ ∃ p g, Admitted L now isRevoked node svc ackFails ss p g := by
  rintro ⟨p', g, hp', hissuer, -⟩
  cases hp.symm.trans hp'
  exact hpeer (hissuer hsvc)

/-- A request that is presented by the right peer is admitted exactly when the gate lets it through
and the service is ready. -/
lemma exists_admitted_iff (hp : presented L svc ss = some p) (hne : p.right ≠ ⟨[]⟩)
    (hpeer : svc ≠ .component → ss.remotePeerID = some p.issuer) :
    (∃ p g, Admitted L now isRevoked node svc ackFails ss p g) ↔
      (∃ g, verifyShardCap L.toHost (some selfIssuerResolver) now isRevoked p.cap p.issuer p.right =
        some (.ok g)) ∧ Ready L node ackFails ss svc := by
  simp only [verifyShardCap_eq_ok_iff hne]
  constructor
  · rintro ⟨p', g, hp', -, hvalid, hready⟩
    cases hp.symm.trans hp'
    exact ⟨⟨g, hvalid⟩, hready⟩
  · rintro ⟨⟨g, hvalid⟩, hready⟩
    exact ⟨p, g, hp, hpeer, hvalid, hready⟩

lemma touches_shard_iff : Touches L now isRevoked node .shard ackFails ss s ↔
    ∃ p g, Admitted L now isRevoked node .shard ackFails ss p g := by
  unfold Touches
  simp only [serve, handleShardStream]
  rcases hrecv : ss.recv with _ | raw
  · exact iff_of_false (by simp) (not_admitted (by simp [presented, hrecv]))
  dsimp only
  rcases hreq : L.unmarshal raw with _ | req
  · exact iff_of_false (by simp) (not_admitted (by simp [presented, hrecv, hreq]))
  dsimp only
  rcases hright : shardRightFor req.op with _ | right
  · exact iff_of_false (by simp) (not_admitted (by simp [presented, hrecv, hreq, hright]))
  have hp : presented L .shard ss = some ⟨req.cap, req.issuer, right⟩ := by
    simp [presented, hrecv, hreq, hright]
  dsimp only
  split_ifs with hpeer
  · exact iff_of_false (by simp) (not_admitted_of_peer hp (by decide) hpeer)
  · rw [exists_map_iff (exists_verifyShardCap ..) (fun _ => rfl) (fun _ => rfl),
      exists_admitted_iff hp (shardRightFor_ne hright) fun _ => not_not.mp hpeer]
    exact and_congr_right fun _ => iff_of_true (flag_shardOperation hright) trivial

lemma flag_audioSession {dir : AudioDir} (hright : audioRightFor dir = some right)
    (r : Input GoString) :
    (audioSession node.flagged.audio ackFails dir r (s, false)).2.2 = true ↔
      node.audio.isSome = true ∧ ackFails = false := by
  unfold audioRightFor at hright
  unfold audioSession Node.flagged
  rcases node.audio with _ | srv
  · simp
  · split_ifs at hright ⊢ <;> simp_all

lemma touches_audio_iff : Touches L now isRevoked node .audio ackFails ss s ↔
    ∃ p g, Admitted L now isRevoked node .audio ackFails ss p g := by
  unfold Touches
  simp only [serve, handleAudioStream]
  rcases hrecv : ss.recv with _ | raw
  · exact iff_of_false (by simp) (not_admitted (by simp [presented, hrecv]))
  dsimp only
  rcases hreq : L.unmarshalAudio raw with _ | req
  · exact iff_of_false (by simp) (not_admitted (by simp [presented, hrecv, hreq]))
  dsimp only
  rcases hright : audioRightFor req.dir with _ | right
  · exact iff_of_false (by simp) (not_admitted (by simp [presented, hrecv, hreq, hright]))
  have hp : presented L .audio ss = some ⟨req.cap, req.issuer, right⟩ := by
    simp [presented, hrecv, hreq, hright]
  dsimp only
  split_ifs with hpeer
  · exact iff_of_false (by simp) (not_admitted_of_peer hp (by decide) hpeer)
  · rw [verifyAudioCap,
      exists_map_iff (y := audioSession node.flagged.audio ackFails req.dir ss.rest (s, false))
        (exists_verifyShardCap ..) (fun _ => rfl) (fun _ => rfl), flag_audioSession hright,
      exists_admitted_iff hp (audioRightFor_ne hright) fun _ => not_not.mp hpeer]
    rfl

lemma flag_fetchComponent (cid : List UInt8) :
    (fetchComponent L.cast node.flagged.components cid (s, false)).2.2 = true ↔
      node.components.isSome = true ∧ (L.cast cid).isSome = true := by
  unfold fetchComponent Node.flagged
  rcases L.cast cid with _ | c
  · simp
  · rcases node.components with _ | store
    · simp
    · simp only [Option.map_some, Option.isSome_some, and_self, iff_true]
      split
      · rename_i heq
        exact (congrArg (fun res => res.2.2) heq).symm
      · split
        · rename_i heq
          exact (congrArg (fun res => res.2.2) heq).symm
        · rename_i heq
          exact (congrArg (fun res => res.2.2) heq).symm

lemma touches_component_iff : Touches L now isRevoked node .component ackFails ss s ↔
    ∃ p g, Admitted L now isRevoked node .component ackFails ss p g := by
  unfold Touches
  simp only [serve, handleComponentFetchStream]
  rcases hrecv : ss.recv with _ | raw
  · exact iff_of_false (by simp) (not_admitted (by simp [presented, hrecv]))
  dsimp only
  rcases hreq : L.unmarshalComponent raw with _ | req
  · exact iff_of_false (by simp) (not_admitted (by simp [presented, hrecv, hreq]))
  have hp : presented L .component ss = some ⟨req.cap, req.issuer, .lit "read"⟩ := by
    simp [presented, hrecv, hreq]
  have hready : Ready L node ackFails ss .component ↔
      node.components.isSome = true ∧ (L.cast req.cid).isSome = true := by
    simp [Ready, hrecv, hreq]
  dsimp only
  rw [verifyComponentFetchCap, exists_map_iff (exists_verifyShardCap ..) (fun _ => rfl)
    (fun _ => rfl), flag_fetchComponent, ← hready,
    exists_admitted_iff hp (show GoString.lit "read" ≠ ⟨[]⟩ by decide) fun h => absurd rfl h]

/-- A stream touches the store or the device exactly when it carries an admitted request. -/
lemma touches_iff : Touches L now isRevoked node svc ackFails ss s ↔
    ∃ p g, Admitted L now isRevoked node svc ackFails ss p g := by
  cases svc with
  | shard => exact touches_shard_iff
  | audio => exact touches_audio_iff
  | component => exact touches_component_iff

/-- A stream touches the store or the device of the node only with a rightful request, iff every
admitted request of the stream has an envelope that names the resource of the service and, for a
component, the peer of the stream as its issuer. -/
theorem served_rightfully_iff (L : Libraries γ) (now : Option Int64)
    (isRevoked : Option (CapID → Bool)) (node : Node ε σ γ) (site : GoString) (svc : Service)
    (ackFails : Bool) (ss : StreamSession) (s : σ) :
    (Touches L now isRevoked node svc ackFails ss s → ∃ p, presented L svc ss = some p ∧
      Rightful L.envelope (now.getD 0) isRevoked ss.remotePeerID (svc.resource site) p) ↔
    ∀ p g, Admitted L now isRevoked node svc ackFails ss p g →
      g.resource.kind = (svc.resource site).kind ∧ g.resource.path = (svc.resource site).path ∧
        (svc = .component → ss.remotePeerID = some p.issuer) := by
  rw [touches_iff]
  constructor
  · intro h p g hadmitted
    obtain ⟨p', hp', hissuer, g', hvalid', hkind, hpath⟩ := h ⟨p, g, hadmitted⟩
    cases hadmitted.presented.symm.trans hp'
    -- one envelope decodes to one grant
    obtain ⟨sig, hdecode, -⟩ := hadmitted.valid.signed
    obtain ⟨sig', hdecode', -⟩ := hvalid'.signed
    cases hdecode.symm.trans hdecode'
    exact ⟨hkind, hpath, fun _ => hissuer⟩
  · rintro h ⟨p, g, hadmitted⟩
    obtain ⟨hkind, hpath, hcomponent⟩ := h p g hadmitted
    refine ⟨p, hadmitted.presented, ?_, g, hadmitted.valid, hkind, hpath⟩
    by_cases hsvc : svc = .component
    · exact hcomponent hsvc
    · exact hadmitted.peer hsvc

namespace Sample

def peer : PeerID := Vector.replicate 32 9

def stranger : PeerID := Vector.replicate 32 8

def grant (R : ResourceRef) : Grant :=
  { Envelope.sampleGrant with
    rights := [.lit "read", .lit "write"], caveats := [], issuer := peer, resource := R }

def libraries (R : ResourceRef) : Libraries GoString where
  envelope := Envelope.sampleHost
  unmarshal _ := some ⟨shardOpPut, [], [], Envelope.sealed Envelope.sampleHost peer (grant R), peer⟩
  unmarshalAudio _ := none
  unmarshalComponent _ := some ⟨[], Envelope.sealed Envelope.sampleHost peer (grant R), peer⟩
  cast b := some ⟨b⟩

def emptyNode : Node Unit Unit GoString where
  shards := ⟨fun _ _ s => (.ok (), s), fun _ s => (.ok [], s)⟩
  audio := none
  components := some ⟨fun _ s => (true, s), fun _ s => (.ok [], s)⟩

def session (remote : PeerID) : StreamSession := ⟨some remote, ⟨[putUint32 0], none⟩⟩

def site : GoString := .lit "home"

end Sample

open Sample in
/-- A shard is put with an envelope for the audio device, and a component is handed to a peer with the
envelope of another one. -/
theorem unrightful_served :
    (Touches (libraries (audioResource site)) (some 15) none emptyNode .shard false (session peer)
        () ∧
      ¬ ∃ p, presented (libraries (audioResource site)) .shard (session peer) = some p ∧
        Rightful Envelope.sampleHost 15 none (some peer) (meshShardResource site) p) ∧
    Touches (libraries (meshFabricResource site)) (some 15) none emptyNode .component false
        (session stranger) () ∧
      ¬ ∃ p, presented (libraries (meshFabricResource site)) .component (session stranger) = some p ∧
        Rightful Envelope.sampleHost 15 none (some stranger) (meshFabricResource site) p := by
  refine ⟨⟨⟨(), by decide +kernel⟩, ?_⟩, ⟨(), by decide +kernel⟩, ?_⟩
  · rintro ⟨p, hp, -, g, hvalid, hkind, -⟩
    cases hp
    obtain ⟨sig, hdecode, -⟩ := hvalid.signed
    have hgrant : Envelope.decodeEnvelopeAndSig Envelope.sampleHost
        (Envelope.sealed Envelope.sampleHost peer (grant (audioResource site))) =
          some (.ok (grant (audioResource site), List.replicate 64 0)) := by decide +kernel
    cases hgrant.symm.trans hdecode
    exact absurd hkind (by decide)
  · rintro ⟨p, hp, hpeer, -⟩
    cases hp
    exact absurd hpeer (by decide)

end Cerberus.Mesh
