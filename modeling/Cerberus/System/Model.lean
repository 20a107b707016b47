import Cerberus.Dfs.Model
import Cerberus.Foundation.Base64
import Cerberus.Mesh.Model

/-!
# Scattered shards

The shard store of a node in `daemon/system` (`shardstore.go`). `LocalShardServer` serves the local
store of the node to its peers. `RemoteScatterShardStore` keeps most shards in the local store;
every third call of `PutShard` places its shard on a peer. On a local miss `GetShard` asks the peers
that it knows, all at once, and takes the first answer without an error.

What the mesh does in a call is part of the call.
-/

namespace Cerberus.System

open Foundation Contract Dfs

/-! ### Serving the local store -/

inductive ServerErr
  | badCid
  | store (cause : ShardStoreErr)
  deriving DecidableEq

def localShardServer {σ : Type} (cast : List UInt8 → Option Cid) (store : ShardStore σ) :
    Mesh.ShardServer ServerErr σ where
  putShard cidBytes shard s :=
    match cast cidBytes with
    | none => (.error .badCid, s)
    | some c =>
      match store.putShard c shard s with
      | (.error e, s') => (.error (.store e), s')
      | (.ok _, s') => (.ok (), s')
  getShard cidBytes s :=
    match cast cidBytes with
    | none => (.error .badCid, s)
    | some c =>
      match store.getShard c s with
      | (.error e, s') => (.error (.store e), s')
      | (.ok shard, s') => (.ok shard, s')

/-! ### Scattering -/

def remotePlacement : GoString := .lit "mesh:"

def placementEvery : UInt64 := 3

def getShardFanoutCap : ℕ := 8

def encodePeer (p : PeerID) : GoString := Base64.stdEncode p.toList

/-- `RemoteScatterShardStore`, over the state of the local store. -/
structure Scatter (σ : Type) where
  putCount : UInt64
  store : σ

structure PutMesh where
  peers : List PeerID
  /-- The count that `pickPeer` loads, which other calls may have raised. -/
  count : UInt64
  cap : Option (List UInt8)
  /-- `RequestPutShard` at a peer returns no error. -/
  stores : PeerID → Bool

def pickPeer (mesh : PutMesh) : Option PeerID :=
  mesh.peers[(mesh.count / placementEvery).toNat % mesh.peers.length]?

/-- The peer on which a call with a number places its shard, if it does. -/
def remotePeer (n : UInt64) (mesh : PutMesh) : Option PeerID :=
  if n % placementEvery = 0 then
    match pickPeer mesh with
    | none => none
    | some peer =>
      match mesh.cap with
      | none => none
      | some _ => if mesh.stores peer then some peer else none
  else none

variable {σ : Type}

def Scatter.putShard (localStore : ShardStore σ) (mesh : PutMesh) (c : Cid) (shard : List UInt8)
    (r : Scatter σ) : Except ShardStoreErr GoString × Scatter σ :=
  let n := r.putCount + 1
  match remotePeer n mesh with
  | some peer => (.ok (remotePlacement ++ encodePeer peer), { r with putCount := n })
  | none =>
    let res := localStore.putShard c shard r.store
    (res.1, ⟨n, res.2⟩)

/-! ### Fetching -/

inductive FetchErr (ε : Type)
  | noIssuer (c : Cid)
  | noPeers (c : Cid)
  /-- Not found on so many peers before the deadline, with the last error. -/
  | deadline (c : Cid) (queried : ℕ) (last : Option ε)
  | notFound (c : Cid) (queried : ℕ) (last : Option ε)
  deriving DecidableEq

inductive Received (ε : Type)
  | result (res : Except ε (List UInt8))
  | done

/-- The loop of `GetShard` over `queried` peers, of which `left` have not answered. A channel that
gives nothing any more blocks; then the deadline passes. -/
def collect {ε : Type} (c : Cid) (queried : ℕ) :
    ℕ → Option ε → List (Received ε) → Except (FetchErr ε) (List UInt8)
  | 0, lastErr, _ => .error (.notFound c queried lastErr)
  | _ + 1, lastErr, [] => .error (.deadline c queried lastErr)
  | _ + 1, lastErr, .done :: _ => .error (.deadline c queried lastErr)
  | _ + 1, _, .result (.ok data) :: _ => .ok data
  | left + 1, _, .result (.error e) :: rest => collect c queried left (some e) rest

structure GetMesh (ε : Type) where
  cap : Option (List UInt8)
  peers : List PeerID
  /-- What arrives on the channel of the results, and the deadline. -/
  received : List (Received ε)

def GetMesh.queried {ε : Type} (mesh : GetMesh ε) : List PeerID := mesh.peers.take getShardFanoutCap

def Scatter.getShard {ε : Type} (localStore : ShardStore σ) (mesh : GetMesh ε) (c : Cid)
    (r : Scatter σ) : Except (FetchErr ε) (List UInt8) × Scatter σ :=
  match localStore.getShard c r.store with
  | (.ok b, s) => (.ok b, { r with store := s })
  | (.error _, s) =>
    let res :=
      match mesh.cap with
      | none => .error (.noIssuer c)
      | some _ =>
        if mesh.peers = [] then .error (.noPeers c)
        else collect c mesh.queried.length mesh.queried.length none mesh.received
    (res, { r with store := s })

end Cerberus.System
