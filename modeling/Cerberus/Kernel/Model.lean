import Cerberus.Foundation.Loop
import Cerberus.Foundation.Run
import Cerberus.Foundation.Signature
import Cerberus.Kernel.Contract

/-!
# The capability kernel

The signed kernel of `core/ocap` (`lib.rs`): a table of Ed25519-signed capabilities under opaque
handles. Minting signs a root capability, attenuation signs a child of a capability in the table,
and verification walks from a capability up its chain of parents to a root.

What the kernel takes from other crates is a parameter (`Platform`): the signature scheme, the CBOR
form a signature covers and the JSON form caveats are compared by. The random bytes of a new
capability are arguments. The handle counter is an `AtomicU64`, whose `fetch_add` wraps around, and
the walk is a loop that is not bounded by anything in the code.
-/

namespace Cerberus.Kernel

open Foundation

/-- The crates that the kernel rests on, and the build. -/
structure Platform where
  /-- `ed25519_dalek`; a signing key is its seed. -/
  ed25519 : SignatureScheme (Vector UInt8 32) PeerId (List UInt8) Sig
  cbor : Capability → List UInt8
  json : Caveat → Option Text
  /-- True when arithmetic overflow panics, false when it wraps around. -/
  overflowChecks : Bool

structure SignedEntry where
  cap : Capability
  revoked : Bool

structure SignedKernel where
  signing : Vector UInt8 32
  issuer : PeerId
  next : UInt64
  byHandle : Finmap fun _ : CapHandle => SignedEntry
  byId : Finmap fun _ : CapId => CapHandle

def denied (msg : String) : CapError := ⟨.denied, msg⟩

def revoked : CapError := ⟨.revoked, ""⟩

/-- `right_for_op`: the right that an operation needs. -/
def rightForOp (op : Text) : Option Right :=
  if op.1 = .lit "read" then some .read
  else if op.1 = .lit "write" then some .write
  else if op.1 = .lit "alloc" then some .alloc
  else if op.1 = .lit "exec" ∨ op.1 = .lit "run" then some .exec
  else if op.1 = .lit "mount" then some .mount
  else if op.1 = .lit "spend" then some .spend
  else if op.1 = .lit "revoke" then some .revoke
  else none

variable (P : Platform)

def withSeed (seed : Vector UInt8 32) : SignedKernel where
  signing := seed
  issuer := P.ed25519.publicKey seed
  next := 1
  byHandle := ∅
  byId := ∅

/-- `signing_bytes`: the signature covers the capability with a zero signature. -/
def signingBytes (cap : Capability) : List UInt8 :=
  P.cbor { cap with sig := Vector.replicate 64 0 }

def sign (k : SignedKernel) (cap : Capability) : Capability :=
  { cap with sig := P.ed25519.sign k.signing (signingBytes P cap) }

def verifySig (cap : Capability) : Except CapError Unit :=
  if P.ed25519.isKey cap.issuer = false then .error (denied "bad issuer key")
  else if P.ed25519.verify cap.issuer (signingBytes P cap) cap.sig then .ok ()
  else .error (denied "bad signature")

def insert (k : SignedKernel) (cap : Capability) : CapHandle × SignedKernel :=
  (k.next,
    { k with
      next := k.next + 1
      byId := k.byId.insert cap.id k.next
      byHandle := k.byHandle.insert k.next ⟨cap, false⟩ })

/-- `now_unix + t`; no result is the panic of a build with overflow checks. -/
def addSecs (now t : UInt64) : Option UInt64 :=
  if P.overflowChecks = true ∧ 2 ^ 64 ≤ now.toNat + t.toNat then none else some (now + t)

def newRoot (k : SignedKernel) (resource : ResourceRef) (rights : List Right)
    (caveats : List Caveat) (now : UInt64) (ttl : Option UInt64) (id : CapId)
    (nonce : Vector UInt8 12) : Option Capability := do
  let exp ← ttl.mapM (addSecs P now)
  return sign P k
    { v := 1, id, resource, rights, caveats, parent := none, issuer := k.issuer, nbf := now, exp,
      nonce, sig := Vector.replicate 64 0 }

def mintRoot (k : SignedKernel) (resource : ResourceRef) (rights : List Right)
    (caveats : List Caveat) (now : UInt64) (ttl : Option UInt64) (id : CapId)
    (nonce : Vector UInt8 12) : Option (CapHandle × SignedKernel) :=
  (newRoot P k resource rights caveats now ttl id nonce).map (insert k)

def checkCaveats (requested : UInt64) : List Caveat → Except CapError Unit
  | [] => .ok ()
  | c :: cs =>
    if c.op.1 = .lit "max_bytes" ∧ ∃ max ∈ c.val.asU64, max < requested then
      .error ⟨.quotaExceeded, "max_bytes"⟩
    else checkCaveats requested cs

def checkQuotaBytes (k : SignedKernel) (h : CapHandle) (requested : UInt64) :
    Except CapError Unit :=
  match k.byHandle.lookup h with
  | none => .error (denied "unknown handle")
  | some e =>
    if ∃ q ∈ e.cap.resource.quota, q.bytes ≠ 0 ∧ q.bytes < requested then
      .error ⟨.quotaExceeded, "resource quota"⟩
    else checkCaveats requested e.cap.caveats

def caveatKey (c : Caveat) : Text := (P.json c).getD ⟨⟨[]⟩, GoString.valid_nil⟩

/-- The end of a round of the loop in `verify_chain`: accept a root of this node, or look up the
parent of the current link and check that the link narrows it. -/
def ascend (k : SignedKernel) (cur : Capability) : Capability ⊕ Except CapError Unit :=
  match cur.parent with
  | none =>
    if cur.issuer ≠ k.issuer then .inr (.error (denied "root not trusted")) else .inr (.ok ())
  | some parentId =>
    match k.byId.lookup parentId with
    | none => .inr (.error (denied "dangling parent"))
    | some ph =>
      match k.byHandle.lookup ph with
      | none => .inr (.error (denied "dangling parent"))
      | some pe =>
        if pe.revoked then .inr (.error revoked)
        else if ¬ ∀ r ∈ cur.rights, r ∈ pe.cap.rights then
          .inr (.error (denied "rights escalation"))
        else if ¬ ∀ c ∈ pe.cap.caveats, caveatKey P c ∈ cur.caveats.map (caveatKey P) then
          .inr (.error (denied "caveat dropped"))
        else .inl pe.cap

/-- The body of the loop in `verify_chain`: check the window and the signature of one link and go on
with its parent. -/
def walk (k : SignedKernel) (now : UInt64) (cur : Capability) :
    Capability ⊕ Except CapError Unit :=
  if now < cur.nbf then .inr (.error (denied "not yet valid"))
  else if ∃ exp ∈ cur.exp, exp ≤ now then .inr (.error (denied "expired"))
  else
    match verifySig P cur with
    | .error err => .inr (.error err)
    | .ok () => ascend P k cur

def verifyChain (k : SignedKernel) (now : UInt64) (fuel : ℕ) (cap : Capability) :
    Option (Except CapError Unit) :=
  loop (walk P k now) fuel cap

def newChild (k : SignedKernel) (parent : Capability) (drop : List Right) (add : List Caveat)
    (id : CapId) (nonce : Vector UInt8 12) : Capability :=
  sign P k
    { v := 1, id, resource := parent.resource, rights := parent.rights.filter (· ∉ drop),
      caveats := parent.caveats ++ add, parent := some parent.id, issuer := k.issuer, nbf := 0,
      exp := none, nonce, sig := Vector.replicate 64 0 }

def attenuate (k : SignedKernel) (parent : CapHandle) (drop : List Right) (add : List Caveat)
    (id : CapId) (nonce : Vector UInt8 12) : Except CapError CapHandle × SignedKernel :=
  match k.byHandle.lookup parent with
  | none => (.error (denied "no parent"), k)
  | some e =>
    if e.revoked then (.error revoked, k)
    else
      let (h, k') := insert k (newChild P k e.cap drop add id nonce)
      (.ok h, k')

/-- `verify`; no result is a walk that takes more than `fuel` rounds. -/
def verify (k : SignedKernel) (fuel : ℕ) (h : CapHandle) (op : Text) (now : UInt64) :
    Option (Except CapError Unit) :=
  match k.byHandle.lookup h with
  | none => some (.error (denied "unknown handle"))
  | some e =>
    if e.revoked then some (.error revoked)
    else if ∃ req ∈ rightForOp op, req ∉ e.cap.rights then
      some (.error (denied "operation not in rights"))
    else verifyChain P k now fuel e.cap

def revoke (k : SignedKernel) (h : CapHandle) : Except CapError Unit × SignedKernel :=
  match k.byHandle.lookup h with
  | none => (.error (denied "unknown handle"), k)
  | some e => (.ok (), { k with byHandle := k.byHandle.insert h { e with revoked := true } })

def isRevoked (k : SignedKernel) (h : CapHandle) : Bool :=
  ((k.byHandle.lookup h).map SignedEntry.revoked).getD true

/-! ### Runs -/

/-- A call that changes the kernel, with the random bytes it draws. -/
inductive Call
  | mintRoot (resource : ResourceRef) (rights : List Right) (caveats : List Caveat) (now : UInt64)
      (ttl : Option UInt64) (id : CapId) (nonce : Vector UInt8 12)
  | attenuate (parent : CapHandle) (drop : List Right) (add : List Caveat) (id : CapId)
      (nonce : Vector UInt8 12)
  | revoke (h : CapHandle)

def step (k : SignedKernel) : Call → SignedKernel
  | .mintRoot resource rights caveats now ttl id nonce =>
    ((mintRoot P k resource rights caveats now ttl id nonce).map Prod.snd).getD k
  | .attenuate parent drop add id nonce => (attenuate P k parent drop add id nonce).2
  | .revoke h => (revoke k h).2

def run (seed : Vector UInt8 32) (calls : List Call) : SignedKernel :=
  runFrom (step P) (withSeed P seed) calls

def issued (k : SignedKernel) : Call → Option Capability
  | .mintRoot resource rights caveats now ttl id nonce =>
    newRoot P k resource rights caveats now ttl id nonce
  | .attenuate parent drop add id nonce =>
    match k.byHandle.lookup parent with
    | none => none
    | some e => if e.revoked then none else some (newChild P k e.cap drop add id nonce)
  | .revoke _ => none

/-- The random id that a call draws is not that of an earlier capability. -/
def FreshId (k : SignedKernel) (c : Call) : Prop :=
  ∀ cap ∈ issued P k c, k.byId.lookup cap.id = none

/-- The number of capabilities that a sequence of calls stores. -/
def issuedCount (seed : Vector UInt8 32) (calls : List Call) : ℕ :=
  totalCost (step P) (fun k c => (issued P k c).toList.length) (withSeed P seed) calls

end Cerberus.Kernel
