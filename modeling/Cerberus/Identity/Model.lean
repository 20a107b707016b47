import Cerberus.Foundation.Fallible
import Cerberus.Kernel.Model

/-!
# The identity verifier

The `cap_verify` seam of `core/identity` (`lib.rs`): whether a capability may be used at a time,
given the set of revoked ids. It is the counterpart of the kernel's `verify` for a capability that
is in no table. The set of revoked ids is that of `core/crdt`.
-/

namespace Cerberus.Identity

open Foundation Kernel

/-- `RevocationSet`: a set of ids that only grows. -/
structure RevocationSet where
  revoked : Finset CapId

def RevocationSet.isRevoked (rev : RevocationSet) (id : CapId) : Bool := id ∈ rev.revoked

variable (P : Platform)

def verify (pubkey : PeerId) (msg : List UInt8) (sig : Sig) : Bool :=
  if P.ed25519.isKey pubkey = false then false else P.ed25519.verify pubkey msg sig

def verifyCapability (cap : Capability) : Bool := verify P cap.issuer (signingBytes P cap) cap.sig

def capVerify (cap : Capability) (now : UInt64) (rev : RevocationSet) : Except CapError Unit :=
  if rev.isRevoked cap.id then .error ⟨.revoked, "capability revoked"⟩
  else if now < cap.nbf then .error ⟨.denied, "capability not yet valid"⟩
  else if ∃ exp ∈ cap.exp, exp < now then .error ⟨.denied, "capability expired"⟩
  else if verifyCapability P cap = false then .error ⟨.denied, "invalid issuer signature"⟩
  else .ok ()

lemma verifySig_of_verifyCapability {P : Platform} {cap : Capability}
    (h : verifyCapability P cap = true) : verifySig P cap = .ok () := by
  rw [verifyCapability, verify] at h
  rw [verifySig]
  split at h
  · cases h
  · rename_i hkey
    rw [if_neg hkey, if_pos h]

end Cerberus.Identity
