import Cerberus.Contract.Kernel
import Cerberus.Dataplane.Model
import Cerberus.Foundation.Loop

/-!
# The sender of a transfer

The sending side of `daemon/dataplane` (`client.go`, `frame.go`): `Send` writes the header, and then
it copies its source to the stream, chunk by chunk, and reads the acknowledgement. It closes the
stream when the copy has ended, with or without an error.

What the network does is part of a transfer (`Network`): the error of every write, and what either
side reads. A reader gets the front of what was written, and the end of the file only after all of
it, and after the stream was closed (`Carries`).
-/

namespace Cerberus.Dataplane

open Foundation Contract

def endpointQUIC : GoString := .lit "quic"

structure Endpoint where
  kind : GoString
  addr : GoString
  transferID : UInt64
  cap : CapHandle
  quota : Quota
  signedCap : List UInt8
  issuer : PeerID
  serverPeerID : PeerID

structure Server where
  grants : UInt64 → Option Grant
  addr : GoString
  peerID : PeerID

def Server.registerSignedGrant (transferID : UInt64) (cap : CapHandle) (quota : Quota)
    (envelope : List UInt8) (issuer : PeerID) (s : Server) : Endpoint × Server :=
  (⟨endpointQUIC, s.addr, transferID, cap, quota, envelope, issuer, s.peerID⟩,
    { s with grants := Function.update s.grants transferID (some ⟨cap, quota⟩) })

def Server.registerGrant (transferID : UInt64) (cap : CapHandle) (quota : Quota) (s : Server) :
    Endpoint × Server :=
  s.registerSignedGrant transferID cap quota [] (Vector.replicate 32 0)

/-- The header as JSON; what is written reads back. -/
structure HeaderCodec where
  marshal : Header → Except GoString (List UInt8)
  unmarshal : List UInt8 → Option Header
  marshal_ne : ∀ h b, marshal h = .ok b → b ≠ []
  unmarshal_marshal : ∀ h b, marshal h = .ok b → unmarshal b = some h

/-! ### Writing -/

/-- `writeHeader`: what it has written, and its error. The stream gives the error of every write. -/
def writeHeader (marshal : Header → Except GoString (List UInt8)) (write : ℕ → Option GoString)
    (h : Header) : List UInt8 × Option GoErr :=
  match marshal h with
  | .error e => ([], some (.other (.lit "dataplane: marshal header: " ++ e)))
  | .ok b =>
    if maxHeaderLen < b.length then
      ([], some (.other (.lit "dataplane: header too large (" ++
        .formatUint (UInt64.ofNat b.length) ++ .lit " bytes)")))
    else
      match write 0 with
      | some e => (putUint32 (len32 b), some (.other e))
      | none =>
        match write 1 with
        | some e => (putBytes b, some (.other e))
        | none => (putBytes b, none)

def chunkSize : UInt64 := 64 * 1024

/-- Why `copyQuota` stopped early. -/
inductive CopyErr
  | source (text : GoString)
  | write (text : GoString)
  | quotaExceeded
  deriving DecidableEq

def CopyErr.error : CopyErr → GoString
  | source text => text
  | write text => text
  | quotaExceeded => errQuotaExceeded

def readErrText : ReadErr GoString → GoString
  | .eof => .lit "EOF"
  | .unexpectedEOF => .lit "unexpected EOF"
  | .fault e => e

def copyErrOf : ReadErr GoString → Option CopyErr
  | .eof => none
  | e => some (.source (readErrText e))

variable {R : ByteReader GoString}

/-- `copyQuota` between two rounds: the chunks that it has written, and how much that is. -/
structure Copying (R : ByteReader GoString) where
  total : UInt64
  src : R.State
  written : List (List UInt8)

/-- What `copyQuota` returns, and what it has written. -/
structure Copied where
  total : UInt64
  written : List (List UInt8)
  err : Option CopyErr

/-- The end of a round: what the read returned besides the bytes. -/
def Copying.next (c : Copying R) : Option (ReadErr GoString) → Copying R ⊕ Copied
  | none => .inl c
  | some e => .inr ⟨c.total, c.written, copyErrOf e⟩

/-- What a round of `copyQuota` asks for: one byte more than the limit, to see an overrun. -/
def want (limit total : UInt64) : UInt64 :=
  let remain := limit - total
  if remain + 1 < chunkSize then remain + 1 else chunkSize

/-- A round of `copyQuota`. The header took the writes 0 and 1. -/
def copyRound (write : ℕ → Option GoString) (limit : UInt64) (c : Copying R) :
    Copying R ⊕ Copied :=
  let res := R.read (want limit c.total).toNat c.src
  let nr := UInt64.ofNat res.1.length
  if res.1 = [] then Copying.next { c with src := res.2.2 } res.2.1
  else if limit < c.total + nr then
    let keep := res.1.take (limit - c.total).toNat
    if keep = [] then .inr ⟨c.total, c.written, some .quotaExceeded⟩
    else
      match write (2 + c.written.length) with
      | some e => .inr ⟨c.total, c.written ++ [keep], some (.write e)⟩
      | none => .inr ⟨c.total + (limit - c.total), c.written ++ [keep], some .quotaExceeded⟩
  else
    match write (2 + c.written.length) with
    | some e => .inr ⟨c.total, c.written ++ [res.1], some (.write e)⟩
    | none => Copying.next ⟨c.total + nr, res.2.2, c.written ++ [res.1]⟩ res.2.1

/-- What a copy has written, running or ended. -/
def writtenSoFar : Copying R ⊕ Copied → List UInt8
  | .inl c => c.written.flatten
  | .inr d => d.written.flatten

def Denial.message : Denial → GoString
  | unauthorized => (errf ErrorCode.denied (.lit "unknown or unauthorized transfer")).error
  | noSignedCap => (errf ErrorCode.denied (.lit "transfer carries no signed capability")).error
  | signedCapDenied cause =>
    (errf ErrorCode.denied (.lit "signed capability denied: " ++ cause)).error
  | kernel cause => cause
  | quotaExceeded => errQuotaExceeded

def Err.message : Err GoString → GoString
  | badHeader => (errf ErrorCode.denied (.lit "bad header")).error
  | denied cause => cause.message
  | sink cause => cause
  | overrun => errQuotaExceeded

def ackOK : UInt8 := 0

def ackErr : UInt8 := 1

/-- What the server writes to acknowledge a transfer. -/
def ackBytes : Ack GoString → List UInt8
  | .ok () => [ackOK]
  | .error e => ackErr :: e.message.bytes

def readAck (reply : Input GoString) : Option GoErr :=
  match reply.fault with
  | some e => some (errf ErrorCode.partitioned e)
  | none =>
    match reply.bytes with
    | [] => some (errf ErrorCode.partitioned (.lit "no ack from server"))
    | code :: msg =>
      if code = ackOK then none
      else if ErrorCode.quotaExceeded.bytes <:+: msg then
        some (errf ErrorCode.quotaExceeded ⟨msg⟩)
      else if ErrorCode.revoked.bytes <:+: msg then some (errf ErrorCode.revoked ⟨msg⟩)
      else some (errf ErrorCode.denied ⟨msg⟩)

/-! ### A transfer -/

/-- What the network does in one transfer. -/
structure Network where
  dial : Option GoString
  openStream : Option GoString
  write : ℕ → Option GoString
  close : Option GoString
  input : Input GoString
  /-- A read of a stream that is no error gives something. -/
  pieces_ne : ∀ p ∈ input.pieces, p ≠ []
  reply : Input GoString

/-- A reader gets the front of what was sent, and the end of the file only after all of it, and if
the stream was closed. -/
structure Carries (sent : List UInt8) (closed : Bool) (r : Input GoString) : Prop where
  isPrefix : r.bytes <+: sent
  whole : r.fault = none → closed = true ∧ r.bytes = sent

/-- `Close` after a copy closes the stream, unless a write failed or it fails itself. -/
def Copied.closes (d : Copied) (close : Option GoString) : Bool :=
  match d.err, close with
  | some (.write _), _ => false
  | _, some _ => false
  | _, none => true

/-- What the goroutine of `Send` sends to `writeErr`. -/
def Copied.writeErr (d : Copied) (close : Option GoString) : Option GoString :=
  match d.err with
  | some e => some e.error
  | none => close

/-- The end of `Send`: whether the stream is closed, and the result. The acknowledgement counts
before an error of the copy. -/
def Network.outcome (net : Network) : Copying R ⊕ Copied → Bool × Option (Except GoErr Unit)
  | .inl _ => (false, none)
  | .inr d =>
    (d.closes net.close,
      match readAck net.reply, d.writeErr net.close with
      | some e, _ => some (.error e)
      | none, some e => some (.error (errf ErrorCode.partitioned e))
      | none, none => some (.ok ()))

/-- A stream of the sender: what was written to it, and whether it was closed. -/
structure Outgoing where
  bytes : List UInt8
  closed : Bool

def Endpoint.header (ep : Endpoint) (n : UInt64) : Header :=
  ⟨ep.transferID, ep.cap, n, ep.signedCap, ep.issuer⟩

/-- `Send`, when the copy has made `k` rounds: its stream, if it opened one, and what it returns, if
it has come to that. A kind in the text of an error is quoted as it is. -/
def send (marshal : Header → Except GoString (List UInt8)) (net : Network) (ep : Endpoint)
    (r : Input GoString) (n : UInt64) (k : ℕ) : Option Outgoing × Option (Except GoErr Unit) :=
  if ep.kind ≠ endpointQUIC then
    (none, some (.error (.other (.lit "dataplane: unsupported endpoint kind \"" ++ ep.kind ++
      .lit "\""))))
  else if ep.quota.bytes < n then
    (none, some (.error (errf ErrorCode.quotaExceeded (.lit "blob " ++ .formatUint n ++
      .lit " bytes exceeds quota " ++ .formatUint ep.quota.bytes))))
  else
    match net.dial, net.openStream with
    | some e, _ => (none, some (.error (errf ErrorCode.partitioned e)))
    | none, some e => (none, some (.error (errf ErrorCode.partitioned e)))
    | none, none =>
      match writeHeader marshal net.write (ep.header n) with
      | (header, some e) => (some ⟨header, false⟩, some (.error e))
      | (header, none) =>
        let copy := rounds (copyRound (R := .ofInput GoString) net.write ep.quota.bytes) k
          ⟨0, r, []⟩
        (some ⟨header ++ writtenSoFar copy, (net.outcome copy).1⟩, (net.outcome copy).2)

end Cerberus.Dataplane
