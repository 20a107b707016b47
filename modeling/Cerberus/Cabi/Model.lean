import Cerberus.Ffi.Model
import Cerberus.Foundation.Records
import Cerberus.Identity.Model

/-!
# The C functions of a process

A process has one kernel and one set of revoked ids (`core/cabi`). The functions on capabilities
work on the kernel; `cerberus_revoke` and the functions on the set work on the set (`core/crdt`).

A null pointer is `none`. A pointer to readable bytes is what can be read from it on; the caller
has to give as many as the function reads. Sizes are natural numbers, since what they count is in
memory. The random bytes that the kernel draws are arguments.
-/

namespace Cerberus

open Foundation

open Kernel (CapId SignedKernel)

/-! ### The set of revoked ids -/

namespace Identity.RevocationSet

def new : RevocationSet := ⟨∅⟩

def revoke (rev : RevocationSet) (id : CapId) : RevocationSet := ⟨insert id rev.revoked⟩

def len (rev : RevocationSet) : ℕ := rev.revoked.card

def merge (rev other : RevocationSet) : RevocationSet := ⟨rev.revoked ∪ other.revoked⟩

/-- Ids are ordered byte by byte. -/
def IdLe (a b : CapId) : Prop := (⟨a.toList⟩ : GoString) ≤ ⟨b.toList⟩

instance decidableIdLe : DecidableRel IdLe := fun a b =>
  inferInstanceAs (Decidable ((⟨a.toList⟩ : GoString) ≤ ⟨b.toList⟩))

instance isTransIdLe : IsTrans CapId IdLe := ⟨fun _ _ _ h h' => le_trans (α := GoString) h h'⟩

instance antisymmIdLe : Std.Antisymm IdLe := ⟨fun _ _ h h' =>
  Vector.toList_inj.mp (congrArg GoString.bytes (le_antisymm h h'))⟩

instance totalIdLe : Std.Total IdLe := ⟨fun _ _ => le_total (α := GoString) _ _⟩

def elements (rev : RevocationSet) : List CapId := rev.revoked.sort IdLe

end Identity.RevocationSet

open Identity (RevocationSet)

namespace Cabi

abbrev capIdLen : ℕ := 16

def maxRevocationsPerMerge : ℕ := 100000

def cerberusRevoke (rev : RevocationSet) (capId : Option CapId) : Int32 × RevocationSet :=
  match capId with
  | none => (1, rev)
  | some id => (0, rev.revoke id)

def cerberusIsRevoked (rev : RevocationSet) (capId : Option CapId) : Int32 :=
  match capId with
  | none => 0
  | some id => if rev.isRevoked id then 1 else 0

def cerberusRevocationsMerge (rev : RevocationSet) (data : Option (List UInt8)) (len : ℕ) :
    ℤ × RevocationSet :=
  if len = 0 then (0, rev)
  else
    match data with
    | none => (-1, rev)
    | some buf =>
      if len % capIdLen ≠ 0 then (-1, rev)
      else if maxRevocationsPerMerge < len / capIdLen then (-1, rev)
      else
        let ids : List CapId := records capIdLen (len / capIdLen) buf
        let peer := ids.foldl RevocationSet.revoke .new
        (len / capIdLen, rev.merge peer)

def cerberusRevocationsExportLen (rev : RevocationSet) : ℕ := rev.len * capIdLen

/-- `cerberus_revocations_export`, into a buffer of the given capacity: the result, and the bytes
that were written. -/
def cerberusRevocationsExport (rev : RevocationSet) (out : Option ℕ) : ℤ × List UInt8 :=
  match out with
  | none => (-1, [])
  | some cap =>
    if cap < rev.len * capIdLen then (-1, [])
    else (rev.len * capIdLen, packed rev.elements)

/-! ### Processes -/

structure Process where
  kernel : SignedKernel
  revocations : RevocationSet

variable (P : Kernel.Platform)

def cerberusCapMintVram (k : SignedKernel) (bytes : UInt64) (id : CapId) (nonce : Vector UInt8 12) :
    UInt64 × SignedKernel :=
  Ffi.cerberusCapMint P k 0 (0x01 ||| 0x04) bytes 0 0 0 id nonce

/-- A call that changes the state, with the random bytes that the kernel draws. -/
inductive Call
  | capMint (kind rights : UInt32) (quotaBytes maxCaveat now ttl : UInt64) (id : CapId)
      (nonce : Vector UInt8 12)
  | capMintVram (bytes : UInt64) (id : CapId) (nonce : Vector UInt8 12)
  | capAttenuate (parent : UInt64) (dropRights : UInt32) (maxCaveat : UInt64) (id : CapId)
      (nonce : Vector UInt8 12)
  | capRevoke (handle : UInt64)
  | revoke (capId : Option CapId)
  | revocationsMerge (data : Option (List UInt8)) (len : ℕ)

def step (s : Process) : Call → Process
  | .capMint kind rights quotaBytes maxCaveat now ttl id nonce =>
    { s with kernel :=
        (Ffi.cerberusCapMint P s.kernel kind rights quotaBytes maxCaveat now ttl id nonce).2 }
  | .capMintVram bytes id nonce =>
    { s with kernel := (cerberusCapMintVram P s.kernel bytes id nonce).2 }
  | .capAttenuate parent dropRights maxCaveat id nonce =>
    { s with kernel :=
        (Ffi.cerberusCapAttenuate P s.kernel parent dropRights maxCaveat id nonce).2 }
  | .capRevoke handle => { s with kernel := (Ffi.cerberusCapRevoke s.kernel handle).2 }
  | .revoke capId => { s with revocations := (cerberusRevoke s.revocations capId).2 }
  | .revocationsMerge data len =>
    { s with revocations := (cerberusRevocationsMerge s.revocations data len).2 }

def run (seed : Vector UInt8 32) (calls : List Call) : Process :=
  runFrom (step P) ⟨Kernel.withSeed P seed, .new⟩ calls

end Cabi

end Cerberus
