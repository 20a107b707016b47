import Cerberus.Mesh.Model

/-!
# Audio and components over the mesh

The other two services of `daemon/mesh` that take a signed capability (`audio.go`, `component.go`).

The gates are those of the shards; the one for components asks for the right to read. Its handler
does not compare the issuer of the request with the peer of the stream.
-/

namespace Cerberus.Mesh

open Foundation Contract

def StreamSession.rest (ss : StreamSession) : Input GoString :=
  let hdr := ss.input.readFull 4
  (hdr.2.2.readFull (uint32 hdr.1).toNat).2.2

def meshShardResource (site : GoString) : ResourceRef :=
  ⟨.lit "fs", Vector.replicate 32 0, .lit "cerberus/" ++ site ++ .lit "/mesh-shard", none⟩

abbrev AudioDir := GoString

def audioDirPlay : AudioDir := .lit "play"

def audioDirMonitor : AudioDir := .lit "monitor"

def audioResource (site : GoString) : ResourceRef :=
  ⟨.lit "audio", Vector.replicate 32 0, .lit "cerberus/" ++ site ++ .lit "/audio", none⟩

def audioRightFor (dir : AudioDir) : Option Right :=
  if dir = audioDirPlay then some (.lit "write")
  else if dir = audioDirMonitor then some (.lit "read")
  else none

structure AudioRequest where
  dir : AudioDir
  cap : List UInt8
  issuer : PeerID

inductive AudioErr
  | decode
  | unknownDir (dir : AudioDir)
  | issuerMismatch
  | gate (cause : GateErr)
  | noBackend
  deriving DecidableEq

/-- `AudioServer`, over the state `σ` of the audio device. -/
structure AudioServer (ε σ : Type) where
  playIncoming : Input GoString → σ → Option ε × σ
  /-- `CaptureOutgoing`: what it writes to the stream, and its error. -/
  captureOutgoing : σ → (List UInt8 × Option ε) × σ

structure AudioEnd where
  ack : Option (Except AudioErr Unit)
  written : List UInt8
  reset : Bool
  deriving DecidableEq

/-! ### Components -/

def meshFabricResource (site : GoString) : ResourceRef :=
  ⟨.lit "topic", Vector.replicate 32 0, .lit "cerberus/" ++ site ++ .lit "/mesh-fabric", none⟩

structure ComponentFetchRequest where
  cid : List UInt8
  cap : List UInt8
  issuer : PeerID

/-- The errors of `componentFetchResponse`; `γ` are the content ids. -/
inductive ComponentErr (ε γ : Type)
  | decode
  | gate (cause : GateErr)
  | badCid
  | notFound (c : γ)
  | source (cause : ε)
  deriving DecidableEq

structure ComponentSource (ε σ γ : Type) where
  has : γ → σ → Bool × σ
  get : γ → σ → Except ε (List UInt8) × σ

section

variable {ε σ γ : Type} (H : Host) (resolveIssuer : Option IssuerPubResolver) (now : Option Int64)
  (isRevoked : Option (CapID → Bool))

def verifyAudioCap (env : List UInt8) (claimedIssuer : PeerID) (requiredRight : Right) :
    Option (Except GateErr Envelope.Grant) :=
  verifyShardCap H resolveIssuer now isRevoked env claimedIssuer requiredRight

def verifyComponentFetchCap (env : List UInt8) (claimedIssuer : PeerID) :
    Option (Except GateErr Envelope.Grant) :=
  verifyShardCap H resolveIssuer now isRevoked env claimedIssuer (.lit "read")

def audioSession (srv : Option (AudioServer ε σ)) (ackFails : Bool) (dir : AudioDir)
    (r : Input GoString) (s : σ) : AudioEnd × σ :=
  match srv with
  | none => (⟨some (.error .noBackend), [], false⟩, s)
  | some srv =>
    if ackFails then (⟨none, [], true⟩, s)
    else if dir = audioDirPlay then
      let res := srv.playIncoming r s
      (⟨some (.ok ()), [], res.1.isSome⟩, res.2)
    else if dir = audioDirMonitor then
      let res := srv.captureOutgoing s
      (⟨some (.ok ()), res.1.1, res.1.2.isSome⟩, res.2)
    else (⟨some (.ok ()), [], false⟩, s)

def handleAudioStream (unmarshal : List UInt8 → Option AudioRequest)
    (srv : Option (AudioServer ε σ)) (ackFails : Bool) (ss : StreamSession) (s : σ) :
    Option (AudioEnd × σ) :=
  match ss.recv with
  | none => some (⟨none, [], true⟩, s)
  | some raw =>
    match unmarshal raw with
    | none => some (⟨some (.error .decode), [], false⟩, s)
    | some req =>
      match audioRightFor req.dir with
      | none => some (⟨some (.error (.unknownDir req.dir)), [], false⟩, s)
      | some requiredRight =>
        if ss.remotePeerID ≠ some req.issuer then
          some (⟨some (.error .issuerMismatch), [], false⟩, s)
        else
          (verifyAudioCap H resolveIssuer now isRevoked req.cap req.issuer requiredRight).map fun
            | .error e => (⟨some (.error (.gate e)), [], false⟩, s)
            | .ok _ => audioSession srv ackFails req.dir ss.rest s

def fetchComponent (cast : List UInt8 → Option γ) (store : Option (ComponentSource ε σ γ))
    (cid : List UInt8) (s : σ) : Except (ComponentErr ε γ) (List UInt8) × σ :=
  match cast cid with
  | none => (.error .badCid, s)
  | some c =>
    match store with
    | none => (.error (.notFound c), s)
    | some store =>
      match store.has c s with
      | (false, s) => (.error (.notFound c), s)
      | (true, s) =>
        match store.get c s with
        | (.error e, s) => (.error (.source e), s)
        | (.ok b, s) => (.ok b, s)

/-- `handleComponentFetchStream`; no response means that the stream is reset. -/
def handleComponentFetchStream (unmarshal : List UInt8 → Option ComponentFetchRequest)
    (cast : List UInt8 → Option γ) (store : Option (ComponentSource ε σ γ)) (ss : StreamSession)
    (s : σ) : Option (Option (Except (ComponentErr ε γ) (List UInt8)) × σ) :=
  match ss.recv with
  | none => some (none, s)
  | some raw =>
    match unmarshal raw with
    | none => some (some (.error .decode), s)
    | some req =>
      (verifyComponentFetchCap H resolveIssuer now isRevoked req.cap req.issuer).map fun
        | .error e => (some (.error (.gate e)), s)
        | .ok _ =>
          let res := fetchComponent cast store req.cid s
          (some res.1, res.2)

end

end Cerberus.Mesh
