import Cerberus.Dfs.Memory
import Cerberus.System.Model

/-!
# What peers can do to a file

A node serves its local shard store to its peers, and the same store holds its own files. A peer
with a capability of its own may put any bytes under any id: neither the handler nor the server
compares them. So a peer can overwrite the shards of a file. `Get` notices this, but the shard is
lost (`file_survives_visits_iff`).
-/

namespace Cerberus.System

open Foundation Contract Dfs List

/-- A stream of a peer, and the time at which it is served. -/
structure Visit where
  session : Mesh.StreamSession
  now : Option Int64

section

variable (H : Mesh.Host) (cast : List UInt8 → Option Cid)
  (resolveIssuer : Option Mesh.IssuerPubResolver) (isRevoked : Option (CapID → Bool))

/-- The local store in memory after streams have been served; `none` is a panic. -/
def serve (visits : List Visit) (b : Blocks) : Option Blocks :=
  visits.foldlM (fun b v =>
    (Mesh.handleShardStream H resolveIssuer v.now isRevoked (localShardServer cast memShardStore)
      v.session b).map Prod.snd) b

/-- The shard that a visit puts into the store. -/
def putOf (v : Visit) : Option (Cid × List UInt8) := do
  let req ← Mesh.authorized H resolveIssuer v.now isRevoked v.session
  if req.op = Mesh.shardOpPut then return (← cast req.cidBytes, req.data) else none

def putsOf (visits : List Visit) : List (Cid × List UInt8) :=
  visits.filterMap (putOf H cast resolveIssuer isRevoked)

end

/-- What was put last under an id. -/
def lastPut (c : Cid) (puts : List (Cid × List UInt8)) : Option (List UInt8) :=
  (puts.findRev? (·.1 = c)).map Prod.snd

/-- The last put under the id of the shard has other bytes. -/
def Spoiled (F : Dfs.Host) (puts : List (Cid × List UInt8)) (shard : List UInt8) : Prop :=
  (lastPut (shardCID F shard) puts).any (· ≠ shard)

instance (F : Dfs.Host) (puts : List (Cid × List UInt8)) (shard : List UInt8) :
    Decidable (Spoiled F puts shard) := inferInstanceAs (Decidable (_ = true))

/-! ### Serving -/

section

variable {H : Mesh.Host} {cast : List UInt8 → Option Cid}
  {resolveIssuer : Option Mesh.IssuerPubResolver} {isRevoked : Option (CapID → Bool)}

def putAllOf (puts : List (Cid × List UInt8)) (b : Blocks) : Blocks :=
  puts.foldl (fun b p => b.put p.1 p.2) b

lemma putShard_localShardServer (cidBytes shard : List UInt8) (b : Blocks) :
    (localShardServer cast memShardStore).putShard cidBytes shard b =
      match cast cidBytes with
      | none => (.error .badCid, b)
      | some c => (.ok (), b.put c shard) := rfl

lemma exists_getShard_localShardServer (cast : List UInt8 → Option Cid) (cidBytes : List UInt8)
    (b : Blocks) :
    ∃ res, (localShardServer cast memShardStore).getShard cidBytes b = (res, b) := by
  unfold localShardServer memShardStore
  cases hc : cast cidBytes with
  | none => exact ⟨.error .badCid, by simp only [hc]⟩
  | some c =>
    cases hfind : b.find c with
    | error e => exact ⟨.error (.store e), by simp only [hc, hfind]⟩
    | ok shard => exact ⟨.ok shard, by simp only [hc, hfind]⟩

lemma snd_handle_visit (v : Visit) (b : Blocks) :
    (Mesh.handleShardStream H resolveIssuer v.now isRevoked (localShardServer cast memShardStore)
        v.session b).map Prod.snd =
      some (putAllOf (putOf H cast resolveIssuer isRevoked v).toList b) := by
  obtain ⟨resp, h⟩ := Mesh.exists_handleShardStream H resolveIssuer v.now isRevoked
    (localShardServer cast memShardStore) v.session b
  rw [h, Option.map_some]
  refine congrArg some ?_
  unfold putOf
  cases Mesh.authorized H resolveIssuer v.now isRevoked v.session with
  | none => rfl
  | some req =>
    simp only [Option.bind_eq_bind, Option.bind_some]
    unfold Mesh.shardOperation
    split_ifs
    · rw [putShard_localShardServer]
      cases cast req.cidBytes with
      | none => rfl
      | some c => rfl
    · obtain ⟨res, hget⟩ := exists_getShard_localShardServer cast req.cidBytes b
      rw [hget]
      cases res with
      | error e => rfl
      | ok shard => rfl
    · rfl

lemma serve_eq (visits : List Visit) (b : Blocks) :
    serve H cast resolveIssuer isRevoked visits b =
      some (putAllOf (putsOf H cast resolveIssuer isRevoked visits) b) := by
  induction visits generalizing b with
  | nil => rfl
  | cons v visits ih =>
    unfold serve at ih ⊢
    rw [foldlM_cons, snd_handle_visit]
    simp only [Option.bind_eq_bind, Option.bind_some]
    rw [ih]
    unfold putsOf putAllOf
    rw [filterMap_cons]
    cases putOf H cast resolveIssuer isRevoked v with
    | none => rfl
    | some p => rfl

lemma lastPut_cons (c : Cid) (p : Cid × List UInt8) (puts : List (Cid × List UInt8)) :
    lastPut c (p :: puts) = (lastPut c puts).or (if p.1 = c then some p.2 else none) := by
  unfold lastPut
  rw [List.findRev?]
  cases List.findRev? (fun p : Cid × List UInt8 => p.1 = c) puts with
  | none => by_cases hc : p.1 = c <;> simp [hc]
  | some q => simp

lemma get?_putAllOf (puts : List (Cid × List UInt8)) (b : Blocks) (c : Cid) :
    (putAllOf puts b).get? c = (lastPut c puts).or (b.get? c) := by
  unfold putAllOf
  induction puts generalizing b with
  | nil => rfl
  | cons p puts ih =>
    rw [foldl_cons, ih, lastPut_cons, Option.or_assoc, OrdMap.get?_put]
    by_cases hc : c = p.1
    · simp [hc]
    · simp [hc, Ne.symm hc]

end

/-! ### Files -/

/-- A file in the local store of a node, and any streams that peers open, with requests for any ids
and any bytes: afterwards `Get` returns the file iff every chunk has enough shards that are
not spoiled. -/
theorem file_survives_visits_iff (F : Dfs.Host) (H : Mesh.Host) (cast : List UInt8 → Option Cid)
    (resolveIssuer : Option Mesh.IssuerPubResolver) (isRevoked : Option (CapID → Bool))
    (cfg : Config) (hcfg : cfg.validate = none) (r : Input GoString) (man : Manifest)
    (b₀ b : Blocks) (hput : put F memShardStore cfg r b₀ = some (.ok man, b))
    (code : ErasureCode cfg.dataShards cfg.parityShards)
    (hcode : F.newEncoder cfg.dataShards cfg.parityShards = some code) (visits : List Visit)
    (hb₀ : b₀.Genuine F (shardsOf code cfg.chunkSize r.bytes))
    (hsha : Collisionless F (shardsOf code cfg.chunkSize r.bytes ++
      (putsOf H cast resolveIssuer isRevoked visits).map Prod.snd)) :
    ∃ b', serve H cast resolveIssuer isRevoked visits b = some b' ∧
      ((get F memShardStore man b').1 = .ok r.bytes ↔
        ∀ chunk ∈ chunksOf cfg.chunkSize r.bytes, cfg.dataShards ≤ (code.shards chunk).countP
          fun shard => ¬ Spoiled F (putsOf H cast resolveIssuer isRevoked visits) shard) := by
  obtain ⟨hman, rfl⟩ := put_ok_of_encoder hcfg hcode hput
  obtain ⟨hk, hm⟩ := counts_pos hcfg
  have hn := chunkSize_pos hcfg
  have hshards : Collisionless F (shardsOf code cfg.chunkSize r.bytes) := fun x hx y hy =>
    hsha x (mem_append_left _ hx) y (mem_append_left _ hy)
  have hheld := (get?_putAll hshards b₀).1
  refine ⟨_, serve_eq visits _, ?_⟩
  rw [get_mem_iff hman hn hcode hk hm]
  · refine forall₂_congr fun chunk hchunk => ?_
    refine Eq.to_iff (congrArg (cfg.dataShards ≤ ·) (countP_congr fun shard hshard => ?_))
    have hshard' := hheld shard (mem_flatMap.mpr ⟨chunk, hchunk, hshard⟩)
    unfold Blocks.Holds at hshard'
    simp only [decide_eq_true_eq]
    unfold Blocks.Holds Spoiled
    rw [get?_putAllOf, hshard']
    cases lastPut (shardCID F shard)
        (putsOf H cast resolveIssuer isRevoked visits) with
    | none => simp
    | some x => simp
  · -- whatever is stored was there before, or is a shard, or was put by a peer
    intro c x hx shard hshard heq
    unfold putAllOf at hx
    rcases OrdMap.get?_foldl_put_cases hx with hx | ⟨p, hp, -, rfl⟩
    · exact genuine_putAll hshards hb₀ c x hx shard hshard heq
    · exact hsha _ (mem_append_right _ (mem_map_of_mem hp)) shard
        (mem_append_left _ hshard) heq

namespace Sample

def peer : PeerID := Vector.replicate 32 9

def grant : Envelope.Grant :=
  { Envelope.sampleGrant with rights := [.lit "write"], caveats := [], issuer := peer }

def meshHost : Mesh.Host where
  envelope := Envelope.sampleHost
  unmarshal raw := some
    { op := Mesh.shardOpPut
      cidBytes := raw.take 36
      data := raw.drop 36
      cap := Envelope.sealed Envelope.sampleHost peer grant
      issuer := peer }

def visit (c : Cid) (data : List UInt8) : Visit where
  session := ⟨some peer, ⟨[putUint32 (36 + data.length).toUInt32, c.bytes, data], none⟩⟩
  now := some 15

/-- `serve` as a node does, which accepts every peer and revokes nothing. -/
def served (visits : List Visit) (b : Blocks) : Option Blocks :=
  serve meshHost (fun x => some ⟨x⟩) (some Mesh.selfIssuerResolver) none visits b

end Sample

open Sample

/-- One of the three shards of `[1, 2, 3]` is overwritten, and the file is still there. -/
theorem file_survives_visits_iff_sample :
    ∃ man b b', put host memShardStore config (reader [1, 2, 3]) .empty =
        some (.ok man, b) ∧
      served [visit (shardCID host [1, 2]) [0]] b = some b' ∧
      (get host memShardStore man b').1 = .ok [1, 2, 3] := by
  obtain ⟨b', hserve, hiff⟩ := file_survives_visits_iff host meshHost
    (fun x => some ⟨x⟩) (some Mesh.selfIssuerResolver) none config rfl
    (reader [1, 2, 3]) _ .empty _ rfl .xor rfl
    [visit (shardCID host [1, 2]) [0]] (genuine_empty _ _) (by decide +kernel)
  exact ⟨_, _, b', rfl, hserve, hiff.mpr (by decide +kernel)⟩

/-- Two of the three shards of `[1, 2, 3]` are overwritten by a peer: the file is lost. -/
theorem file_destroyed :
    ∃ man b b', put host memShardStore config (reader [1, 2, 3]) .empty =
        some (.ok man, b) ∧
      served [visit (shardCID host [1, 2]) [0],
        visit (shardCID host [3, 0]) [0]] b = some b' ∧
      (get host memShardStore man b').1 = .error (.tooFewShards 0 1 2) := by
  refine ⟨_, _, _, rfl, serve_eq _ _, by decide +kernel⟩

end Cerberus.System
