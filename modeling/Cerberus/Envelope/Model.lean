import Cerberus.Contract.Capability
import Cerberus.Foundation.Signature
import Cerberus.Foundation.Sorting
import Cerberus.Foundation.Wire

/-!
# Signed capability envelopes

The envelopes of `daemon/auth` (`signedcap.go`): a grant in a canonical binary form, followed by the
Ed25519 signature of its issuer. A node that holds only the issuer's public key can decode an
envelope and verify it. A child grant may be issued from a parent envelope if it is narrower.

The text of a float under `%v`, the sort of the caveats and the signature scheme are parameters
(`Host`), the random bytes of a new grant are arguments. A function that decodes returns an option:
`none` is a panic, an index outside the buffer.
-/

namespace Cerberus.Envelope

open Foundation Contract

structure Grant where
  id : CapID
  resource : ResourceRef
  rights : List Right
  caveats : List Caveat
  issuer : PeerID
  parent : Option CapID
  ancestors : List CapID
  notBefore : Int64
  expiry : Int64
  nonce : Vector UInt8 12
  deriving DecidableEq

/-! ### Text -/

def formatInt (n : Int64) : GoString :=
  let digits : GoString := ⟨(Nat.toDigits 10 n.toInt.natAbs).map fun c => c.toNat.toUInt8⟩
  if n < 0 then .lit "-" ++ digits else digits

/-- `fmt.Sprintf("%v", v)`; `floatText` is the text of a float. -/
def formatVal (floatText : UInt64 → GoString) : AnyVal → GoString
  | .nil => .lit "<nil>"
  | .string s => s
  | .bool b => if b then .lit "true" else .lit "false"
  | .uint64 n => .formatUint n
  | .int64 n => formatInt n
  | .int n => formatInt n
  | .float64 bits => floatText bits
  | .other _ text _ => text

def caveatKey (floatText : UInt64 → GoString) (c : Caveat) : GoString :=
  c.op ++ .lit "=" ++ formatVal floatText c.val

structure Host where
  /-- `crypto/ed25519`; a private key is its seed. -/
  ed25519 : SignatureScheme (Vector UInt8 32) PeerID (List UInt8) (Vector UInt8 64)
  floatText : UInt64 → GoString
  sort : KeySort (caveatKey floatText)

/-! ### Errors -/

inductive Widening
  | right (r : Right)
  | caveat (op : GoString)
  | resource (child parent : GoString)
  | quotaDropped
  | bytes (child parent : UInt64)
  | flops (child parent : UInt64)
  | secs (child parent : UInt64)
  | notBefore
  | expiry
  deriving DecidableEq

inductive Err
  | badEnvelope
  | badSignature
  | notYetValid
  | expired
  | revoked
  | wrongIssuer
  | notAttenuated (why : Widening)
  | noKey
  | noRights
  deriving DecidableEq

/-! ### Narrowing -/

def hasPathPrefix (sub base : GoString) : Bool :=
  if base = ⟨[]⟩ ∨ sub = base then true
  else if sub.bytes.length < base.bytes.length ∨ sub.bytes.take base.bytes.length ≠ base.bytes then
    false
  else
    base.bytes.getLast? = some 0x2F || sub.bytes[base.bytes.length]? = some 0x2F

/-- The child's bound in one dimension of a quota exceeds the parent's; zero is no bound. -/
def exceeds (parent child : UInt64) : Bool := parent ≠ 0 && (child = 0 || parent < child)

def quotaNarrower (parent child : Option Quota) : Except Widening Unit :=
  match parent, child with
  | none, _ => .ok ()
  | some _, none => .error .quotaDropped
  | some p, some c =>
    if exceeds p.bytes c.bytes then .error (.bytes c.bytes p.bytes)
    else if exceeds p.flops c.flops then .error (.flops c.flops p.flops)
    else if exceeds p.secs c.secs then .error (.secs c.secs p.secs)
    else .ok ()

variable (H : Host)

def checkNarrower (parent child : Grant) : Except Widening Unit :=
  match child.rights.find? (· ∉ parent.rights) with
  | some r => .error (.right r)
  | none =>
    let cc := child.caveats.map (caveatKey H.floatText)
    match parent.caveats.find? (caveatKey H.floatText · ∉ cc) with
    | some c => .error (.caveat c.op)
    | none =>
      if parent.resource.path ≠ ⟨[]⟩ ∧
          hasPathPrefix child.resource.path parent.resource.path = false then
        .error (.resource child.resource.path parent.resource.path)
      else
        match quotaNarrower parent.resource.quota child.resource.quota with
        | .error why => .error why
        | .ok () =>
          if child.notBefore < parent.notBefore then .error .notBefore
          else if parent.expiry ≠ 0 ∧ (child.expiry = 0 ∨ parent.expiry < child.expiry) then
            .error .expiry
          else .ok ()

/-! ### Encoding -/

def putQuota : Option Quota → List UInt8
  | none => [0]
  | some q => [1] ++ putUint64 q.bytes ++ putUint64 q.flops ++ putUint64 q.secs

def putCaveat (c : Caveat) : List UInt8 :=
  putBytes c.op.bytes ++ putBytes (formatVal H.floatText c.val).bytes

def putParent : Option CapID → List UInt8
  | none => [0]
  | some p => [1] ++ putBytes p.toList

def canonicalBytes (g : Grant) : List UInt8 :=
  [2] ++ putBytes g.id.toList ++
  putBytes g.resource.kind.bytes ++ putBytes g.resource.node.toList ++
  putBytes g.resource.path.bytes ++ putQuota g.resource.quota ++
  putList (fun r : Right => putBytes r.bytes) g.rights ++
  putList (putCaveat H) (H.sort.sort g.caveats) ++
  putBytes g.issuer.toList ++ putParent g.parent ++
  putUint64 g.notBefore.toUInt64 ++ putUint64 g.expiry.toUInt64 ++ putBytes g.nonce.toList ++
  putList (fun a : CapID => putBytes a.toList) g.ancestors

def encodeEnvelope (g : Grant) (sig : List UInt8) : List UInt8 := canonicalBytes H g ++ sig

/-! ### Decoding -/

def copyFixed (n : ℕ) (src : List UInt8) : Vector UInt8 n :=
  if h : src.length = n then ⟨src.toArray, h⟩ else Vector.replicate n 0

def readFixed (n : ℕ) : Reader (Vector UInt8 n) := do return copyFixed n (← Reader.bytes)

def readStr : Reader GoString := do return ⟨← Reader.bytes⟩

def readQuota : Reader (Option Quota) := do
  if (← Reader.u8) ≠ 1 then return none
  return some ⟨← Reader.u64, ← Reader.u64, ← Reader.u64⟩

def readCaveat : Reader Caveat := do return ⟨← readStr, .string (← readStr)⟩

def readParent : Reader (Option CapID) := do
  if (← Reader.u8) = 1 then return some (← readFixed 16) else return none

/-- `decodeCanonical`, the fields after the version. -/
def readGrant : Reader Grant := do
  let id ← readFixed 16
  let kind ← readStr
  let node ← readFixed 32
  let path ← readStr
  let quota ← readQuota
  let rights ← Reader.list readStr
  let caveats ← Reader.list readCaveat
  let issuer ← readFixed 32
  let parent ← readParent
  let notBefore ← Reader.u64
  let expiry ← Reader.u64
  let nonce ← readFixed 12
  let ancestors ← Reader.list (readFixed 16)
  return { id, resource := ⟨kind, node, path, quota⟩, rights, caveats, issuer, parent, ancestors,
           notBefore := notBefore.toInt64, expiry := expiry.toInt64, nonce }

def readCanonical : Reader (Except Err Grant) := do
  if (← Reader.u8) ≠ 2 then return .error .badEnvelope
  let g ← readGrant
  if (← get).failed then return .error .badEnvelope
  return .ok g

def decodeCanonical (b : List UInt8) : Option (Except Err Grant) :=
  (readCanonical (Cursor.start b)).map Prod.fst

def decodeEnvelopeAndSig (env : List UInt8) : Option (Except Err (Grant × List UInt8)) :=
  if env.length < 64 then some (.error .badEnvelope)
  else do
    let pre ← slice? env 0 (env.length - 64)
    let sig ← slice? env (env.length - 64) env.length
    match ← decodeCanonical pre with
    | .error e => return .error e
    | .ok g => return if canonicalBytes H g ≠ pre then .error .badEnvelope else .ok (g, sig)

/-! ### Issuing and verifying -/

/-- The grant that `Issue` signs: issued by this key, with random bytes for a zero id or nonce. -/
def filled (seed : Vector UInt8 32) (g : Grant) (id : CapID) (nonce : Vector UInt8 12) : Grant :=
  { g with
    issuer := H.ed25519.publicKey seed
    id := if g.id = Vector.replicate 16 0 then id else g.id
    nonce := if g.nonce = Vector.replicate 12 0 then nonce else g.nonce }

def issue (keys : Option (Vector UInt8 32)) (g : Grant) (id : CapID) (nonce : Vector UInt8 12) :
    Except Err (List UInt8) :=
  match keys with
  | none => .error .noKey
  | some seed =>
    let g := filled H seed g id nonce
    if g.rights = [] then .error .noRights
    else .ok (encodeEnvelope H g (H.ed25519.sign seed (canonicalBytes H g)).toList)

/-- The child grant of `IssueAttenuated`, with its defaults and its place in the chain. -/
def childOf (parent child : Grant) : Grant :=
  { child with
    resource :=
      if child.resource = ⟨⟨[]⟩, Vector.replicate 32 0, ⟨[]⟩, none⟩ then parent.resource
      else child.resource
    notBefore := if child.notBefore = 0 then parent.notBefore else child.notBefore
    expiry := if child.expiry = 0 then parent.expiry else child.expiry
    parent := some parent.id
    ancestors := parent.ancestors ++ [parent.id] }

def issueAttenuated (keys : Option (Vector UInt8 32)) (parentEnvelope : List UInt8) (child : Grant)
    (id : CapID) (nonce : Vector UInt8 12) : Option (Except Err (List UInt8)) :=
  (decodeEnvelopeAndSig H parentEnvelope).map fun
    | .error e => .error e
    | .ok (parent, _) =>
      match checkNarrower H parent (childOf parent child) with
      | .error why => .error (.notAttenuated why)
      | .ok () => issue H keys (childOf parent child) id nonce

/-- The revocation checks of `Verify`: the id, the ancestors and the parent. -/
def isRevokedBy (isRevoked : CapID → Bool) (g : Grant) : Bool :=
  isRevoked g.id || g.ancestors.any isRevoked || g.parent.any isRevoked

def verifyGrant (pub : PeerID) (g : Grant) (sig : List UInt8) (now : Int64)
    (isRevoked : Option (CapID → Bool)) : Except Err Grant :=
  if pub ≠ g.issuer then .error .wrongIssuer
  else if H.ed25519.verifyBytes pub (canonicalBytes H g) sig = false then .error .badSignature
  else if now < g.notBefore then .error .notYetValid
  else if g.expiry ≠ 0 ∧ g.expiry ≤ now then .error .expired
  else if isRevoked.any (isRevokedBy · g) then .error .revoked
  else .ok g

def verify (envelope issuerPub : List UInt8) (now : Int64) (isRevoked : Option (CapID → Bool)) :
    Option (Except Err Grant) :=
  if issuerPub.length ≠ 32 then some (.error .badEnvelope)
  else
    (decodeEnvelopeAndSig H envelope).map fun
      | .error e => .error e
      | .ok (g, sig) => verifyGrant H (copyFixed 32 issuerPub) g sig now isRevoked

end Cerberus.Envelope
