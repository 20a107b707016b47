import Cerberus.Envelope.Codec
import Cerberus.Foundation.Input

/-!
# Shards over the mesh

The serving side of `daemon/mesh` for shards (`shard.go`, `session.go`): a peer opens a stream,
sends one framed request with a signed capability, and the handler verifies it before it touches the
store of the node. The issuer that the request claims has to be the peer that the transport has
authenticated, and its public key is its id, so a peer authorizes its own requests.

Decoding the request from JSON is a parameter (`Host`), and the store that is served is any state
with two operations. A function that verifies a capability returns an option: `none` is a panic,
which never happens (`exists_handleShardStream`).
-/

namespace Cerberus.Mesh

open Foundation Contract

abbrev ShardOp := GoString

def shardOpPut : ShardOp := .lit "put"

def shardOpGet : ShardOp := .lit "get"

structure ShardRequest where
  op : ShardOp
  cidBytes : List UInt8
  data : List UInt8
  cap : List UInt8
  issuer : PeerID

inductive GateErr
  | noResolver
  | noCap
  | unknownIssuer (id : PeerID)
  | denied (cause : Envelope.Err)
  | lacksRight (right : Right)
  deriving DecidableEq

/-- The errors of the handler; `ε` are those of the server behind it. -/
inductive ShardErr (ε : Type)
  | decode
  | unknownOp (op : ShardOp)
  | issuerMismatch
  | gate (cause : GateErr)
  | server (cause : ε)
  deriving DecidableEq

/-- `shardResponse`: `OK` with data, or an error. -/
abbrev ShardResponse (ε : Type) := Except (ShardErr ε) (List UInt8)

/-- `ShardServer`, over a state `σ` that the operations may change. -/
structure ShardServer (ε σ : Type) where
  putShard : List UInt8 → List UInt8 → σ → Except ε Unit × σ
  getShard : List UInt8 → σ → Except ε (List UInt8) × σ

structure Host where
  envelope : Envelope.Host
  /-- `json.Unmarshal` into a `shardRequest`; `none` is an error. -/
  unmarshal : List UInt8 → Option ShardRequest

structure StreamSession where
  /-- `RemotePeerID`, if the authenticated key is one of Ed25519. -/
  remotePeerID : Option PeerID
  input : Input GoString

/-- `Recv`: four bytes with the length, and so many bytes. -/
def StreamSession.recv (ss : StreamSession) : Option (List UInt8) :=
  let hdr := ss.input.readFull 4
  let body := hdr.2.2.readFull (uint32 hdr.1).toNat
  if hdr.2.1.isSome ∨ body.2.1.isSome then none else some body.1

abbrev IssuerPubResolver := PeerID → Option (List UInt8)

def selfIssuerResolver : IssuerPubResolver := fun id => some id.toList

def shardRightFor (op : ShardOp) : Option Right :=
  if op = shardOpPut then some (.lit "write")
  else if op = shardOpGet then some (.lit "read")
  else none

section

variable {ε σ : Type} (H : Host) (resolveIssuer : Option IssuerPubResolver) (now : Option Int64)
  (isRevoked : Option (CapID → Bool))

/-- `verifyShardCap`; without a clock the time is zero. -/
def verifyShardCap (env : List UInt8) (claimedIssuer : PeerID) (requiredRight : Right) :
    Option (Except GateErr Envelope.Grant) :=
  match resolveIssuer with
  | none => some (.error .noResolver)
  | some resolve =>
    if env = [] then some (.error .noCap)
    else
      match resolve claimedIssuer with
      | none => some (.error (.unknownIssuer claimedIssuer))
      | some pub =>
        (Envelope.verify H.envelope env pub (now.getD 0) isRevoked).map fun
          | .error e => .error (.denied e)
          | .ok grant =>
            if requiredRight ≠ ⟨[]⟩ ∧ requiredRight ∉ grant.rights then
              .error (.lacksRight requiredRight)
            else .ok grant

def shardOperation (server : ShardServer ε σ) (req : ShardRequest) (s : σ) :
    ShardResponse ε × σ :=
  if req.op = shardOpPut then
    match server.putShard req.cidBytes req.data s with
    | (.error e, s') => (.error (.server e), s')
    | (.ok (), s') => (.ok [], s')
  else if req.op = shardOpGet then
    match server.getShard req.cidBytes s with
    | (.error e, s') => (.error (.server e), s')
    | (.ok data, s') => (.ok data, s')
  else (.error (.unknownOp req.op), s)

/-- `handleShardStream`; no response means that the stream is reset. -/
def handleShardStream (server : ShardServer ε σ) (ss : StreamSession) (s : σ) :
    Option (Option (ShardResponse ε) × σ) :=
  match ss.recv with
  | none => some (none, s)
  | some raw =>
    match H.unmarshal raw with
    | none => some (some (.error .decode), s)
    | some req =>
      match shardRightFor req.op with
      | none => some (some (.error (.unknownOp req.op)), s)
      | some requiredRight =>
        if ss.remotePeerID ≠ some req.issuer then some (some (.error .issuerMismatch), s)
        else
          (verifyShardCap H resolveIssuer now isRevoked req.cap req.issuer requiredRight).map fun
            | .error e => (some (.error (.gate e)), s)
            | .ok _ =>
              let res := shardOperation server req s
              (some res.1, res.2)

/-- The request of a stream, if the handler lets it through to the server. -/
def authorized (ss : StreamSession) : Option ShardRequest := do
  let raw ← ss.recv
  let req ← H.unmarshal raw
  let requiredRight ← shardRightFor req.op
  if ss.remotePeerID ≠ some req.issuer then none
  else
    match ← verifyShardCap H resolveIssuer now isRevoked req.cap req.issuer requiredRight with
    | .error _ => none
    | .ok _ => some req

lemma exists_verifyShardCap (env : List UInt8) (claimedIssuer : PeerID) (requiredRight : Right) :
    ∃ r, verifyShardCap H resolveIssuer now isRevoked env claimedIssuer requiredRight = some r := by
  unfold verifyShardCap
  cases resolveIssuer with
  | none => exact ⟨_, rfl⟩
  | some resolve =>
    simp only
    split_ifs
    · exact ⟨_, rfl⟩
    · cases resolve claimedIssuer with
      | none => exact ⟨_, rfl⟩
      | some pub =>
        obtain ⟨r, hr⟩ := Envelope.exists_verify H.envelope env pub (now.getD 0) isRevoked
        simp only [hr]
        exact ⟨_, rfl⟩

/-- The handler always returns. It leaves the state of the server as it is, unless it lets the
request through. -/
theorem exists_handleShardStream (server : ShardServer ε σ) (ss : StreamSession) (s : σ) :
    ∃ resp, handleShardStream H resolveIssuer now isRevoked server ss s = some (resp,
      match authorized H resolveIssuer now isRevoked ss with
      | none => s
      | some req => (shardOperation server req s).2) := by
  unfold handleShardStream authorized
  cases ss.recv with
  | none => exact ⟨_, rfl⟩
  | some raw =>
    simp only [Option.bind_eq_bind, Option.bind_some]
    cases H.unmarshal raw with
    | none => exact ⟨_, rfl⟩
    | some req =>
      simp only [Option.bind_some]
      cases shardRightFor req.op with
      | none => exact ⟨_, rfl⟩
      | some requiredRight =>
        simp only [Option.bind_some]
        split_ifs
        · exact ⟨_, rfl⟩
        · obtain ⟨r, hr⟩ :=
            exists_verifyShardCap H resolveIssuer now isRevoked req.cap req.issuer requiredRight
          rw [hr]
          cases r with
          | error e => exact ⟨_, rfl⟩
          | ok grant => exact ⟨_, rfl⟩

end

end Cerberus.Mesh
