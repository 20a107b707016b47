import Cerberus.Contract.Capability
import Cerberus.Kernel.Model

/-!
# The path from the daemon to the kernel

The daemon reaches the kernel through three layers: the Go wrapper `rustKernel` (`daemon/ffi`), the
C functions of `core/cabi`, and the signed kernel. Rights cross the boundary as a bit mask, kinds
as a number, one `max_bytes` caveat as a `u64`; an operation crosses as a C string.

The process has one kernel. What the C functions do with it is state passing, as in the kernel's
own model; the random bytes that the kernel draws are arguments again.
-/

namespace Cerberus.Ffi

open Foundation

open Kernel (SignedKernel CapId CapError denied)

open Contract (CapHandle Right Caveat ResourceRef)

/-! ### The C functions -/

def rightsFromMask (mask : UInt32) : List Kernel.Right :=
  [(0x01, Kernel.Right.read), (0x02, .write), (0x04, .alloc), (0x08, .exec), (0x10, .mount),
    (0x20, .spend), (0x40, .revoke)].filterMap fun (bit, r) =>
      if mask &&& bit ≠ 0 then some r else none

def kindFromU32 (k : UInt32) : Kernel.ResourceKind :=
  match k with
  | 0 => .vram
  | 1 => .gpu
  | 2 => .cpu
  | 3 => .fs
  | 4 => .audio
  | 5 => .topic
  | 6 => .wallet
  | 7 => .killswitch
  | _ => .cpu

def maxBytesCaveats (max : UInt64) : List Kernel.Caveat :=
  if max = 0 then [] else [⟨⟨.lit "max_bytes", by decide⟩, .posInt max⟩]

def localResource (kind : UInt32) (quotaBytes : UInt64) : Kernel.ResourceRef where
  kind := kindFromU32 kind
  node := Vector.replicate 32 0
  path := ⟨.lit "/cer/dev/local", by decide⟩
  quota := some ⟨quotaBytes, 0, 0⟩

variable (P : Kernel.Platform)

/-- `cerberus_cap_mint`. A panic of the kernel is caught and returned as handle 0. -/
def cerberusCapMint (k : SignedKernel) (kind rights : UInt32)
    (quotaBytes maxCaveat now ttl : UInt64) (id : CapId) (nonce : Vector UInt8 12) :
    UInt64 × SignedKernel :=
  (Kernel.mintRoot P k (localResource kind quotaBytes) (rightsFromMask rights)
    (maxBytesCaveats maxCaveat) now (if ttl = 0 then none else some ttl) id nonce).getD (0, k)

def cerberusCapAttenuate (k : SignedKernel) (parent : UInt64) (dropRights : UInt32)
    (maxCaveat : UInt64) (id : CapId) (nonce : Vector UInt8 12) :
    UInt64 × SignedKernel :=
  let (r, k') :=
    Kernel.attenuate P k parent (rightsFromMask dropRights) (maxBytesCaveats maxCaveat) id nonce
  (r.toOption.getD 0, k')

/-- `CStr::to_str`: the bytes before the first NUL, if they are UTF-8, and otherwise nothing. -/
def cStr (s : GoString) : Kernel.Text :=
  let t : GoString := ⟨s.bytes.takeWhile (· ≠ 0)⟩
  if h : t.valid = true then ⟨t, h⟩ else ⟨⟨[]⟩, GoString.valid_nil⟩

/-- `cerberus_cap_verify`; no result is a walk that takes more than `fuel` rounds. -/
def cerberusCapVerify (k : SignedKernel) (fuel : ℕ) (handle : UInt64) (op : GoString)
    (now : UInt64) : Option Int32 :=
  (Kernel.verify P k fuel handle (cStr op) now).map fun r => if r.toBool then 0 else 1

def cerberusCapRevoke (k : SignedKernel) (handle : UInt64) : Int32 × SignedKernel :=
  let (r, k') := Kernel.revoke k handle
  (if r.toBool then 0 else 1, k')

/-! ### The Go wrapper -/

def rightBit (r : Right) : UInt32 :=
  if r = .lit "read" then 0x01
  else if r = .lit "write" then 0x02
  else if r = .lit "alloc" then 0x04
  else if r = .lit "exec" then 0x08
  else if r = .lit "mount" then 0x10
  else if r = .lit "spend" then 0x20
  else if r = .lit "revoke" then 0x40
  else 0

def rightsMask (rights : List Right) : UInt32 :=
  rights.foldl (fun m r => m ||| rightBit r) 0

def kindEnum (k : Contract.ResourceKind) : UInt32 :=
  if k = .lit "vram" then 0
  else if k = .lit "gpu" then 1
  else if k = .lit "cpu" then 2
  else if k = .lit "fs" then 3
  else if k = .lit "audio" then 4
  else if k = .lit "topic" then 5
  else if k = .lit "wallet" then 6
  else if k = .lit "killswitch" then 7
  else 2

/-- A float is greater than zero: it has no sign, and it is neither zero nor a NaN. -/
def floatPos (bits : UInt64) : Bool := 0 < bits && bits ≤ 0x7FF0000000000000

/-- `maxBytesCaveat`; `floatToUint64` converts a positive float. -/
def maxBytesCaveat (floatToUint64 : UInt64 → UInt64) : List Caveat → UInt64
  | [] => 0
  | c :: cs =>
    if c.op ≠ .lit "max_bytes" then maxBytesCaveat floatToUint64 cs
    else
      match c.val with
      | .uint64 v => v
      | .int64 v => if 0 < v then v.toUInt64 else maxBytesCaveat floatToUint64 cs
      | .int v => if 0 < v then v.toUInt64 else maxBytesCaveat floatToUint64 cs
      | .float64 v => if floatPos v then floatToUint64 v else maxBytesCaveat floatToUint64 cs
      | _ => maxBytesCaveat floatToUint64 cs

variable (floatToUint64 : UInt64 → UInt64)

def mint (k : SignedKernel) (r : ResourceRef) (rights : List Right)
    (caveats : List Caveat) (id : CapId) (nonce : Vector UInt8 12) :
    Except CapError CapHandle × SignedKernel :=
  let (h, k') := cerberusCapMint P k (kindEnum r.kind) (rightsMask rights)
    ((r.quota.map Contract.Quota.bytes).getD 0) (maxBytesCaveat floatToUint64 caveats) 0 0 id nonce
  (if h = 0 then .error (denied "mint failed") else .ok h, k')

def attenuate (k : SignedKernel) (parent : CapHandle)
    (dropRights : List Right) (addCaveats : List Caveat) (id : CapId)
    (nonce : Vector UInt8 12) : Except CapError CapHandle × SignedKernel :=
  let (h, k') := cerberusCapAttenuate P k parent (rightsMask dropRights)
    (maxBytesCaveat floatToUint64 addCaveats) id nonce
  (if h = 0 then .error (denied "attenuate failed") else .ok h, k')

def verify (k : SignedKernel) (fuel : ℕ) (h : CapHandle) (req : Contract.Request)
    (now : Int64) : Option (Except CapError Unit) :=
  (cerberusCapVerify P k fuel h req.op now.toUInt64).map fun r =>
    if r = 0 then .ok () else .error (denied "verify failed")

def revoke (k : SignedKernel) (h : CapHandle) :
    Except CapError Unit × SignedKernel :=
  let (r, k') := cerberusCapRevoke k h
  (if r = 0 then .ok () else .error (denied "revoke failed"), k')

/-! ### Runs -/

/-- A call of the daemon that changes the kernel, with the random bytes that the kernel draws. -/
inductive Call
  | mint (r : ResourceRef) (rights : List Right)
      (caveats : List Caveat) (id : CapId) (nonce : Vector UInt8 12)
  | attenuate (parent : CapHandle) (dropRights : List Right)
      (addCaveats : List Caveat) (id : CapId) (nonce : Vector UInt8 12)
  | revoke (h : CapHandle)

def step (k : SignedKernel) : Call → SignedKernel
  | .mint r rights caveats id nonce => (mint P floatToUint64 k r rights caveats id nonce).2
  | .attenuate parent dropRights addCaveats id nonce =>
    (attenuate P floatToUint64 k parent dropRights addCaveats id nonce).2
  | .revoke h => (revoke k h).2

def run (seed : Vector UInt8 32) (calls : List Call) : SignedKernel :=
  runFrom (step P floatToUint64) (Kernel.withSeed P seed) calls

end Cerberus.Ffi
