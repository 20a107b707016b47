import Cerberus.Dataplane.Client
import Cerberus.Ffi.Confinement
import Cerberus.Ninep.Model
import Cerberus.System.Files

/-!
# The composed daemon

`Compose` of `daemon/system` (`system.go`, `fs.go`) puts a namespace and a data plane over one kernel.
An open in the namespace registers a grant at the data plane, for the capability that was used, and
the data plane asks the kernel again when the transfer arrives.

Each of the two has a clock of its own that never moves: the namespace is made without one, so it
asks the kernel at time 0, and the data plane asks at the time of `Compose`.

The kernel is a parameter; `rustKernel` is the one that the daemon has. `BeginRead`, which sends a
file to a receiver, is a parameter, and so are the audio devices that the platform finds.
-/

namespace Cerberus.System

open Foundation Contract

/-- What the namespace and the data plane share: the kernel, the server of the data plane, and what
takes part in a write. -/
structure Daemon (κ σ : Type) where
  kernel : κ
  addr : GoString
  peerID : PeerID
  files : Files σ

variable {κ σ : Type}

def Daemon.dataplane (d : Daemon κ σ) : Dataplane.Server := ⟨d.files.grants, d.addr, d.peerID⟩

def kernelOf (K : CapKernel κ) : CapKernel (Daemon κ σ) where
  verify cap req now d :=
    let res := K.verify cap req now d.kernel
    (res.1, { d with kernel := res.2 })

/-- The endpoint that the namespace hands out for one of the data plane. -/
def toDataEndpoint (ep : Dataplane.Endpoint) : Ninep.DataEndpoint :=
  ⟨ep.kind, ep.addr, ep.transferID, ep.quota, ep.serverPeerID⟩

def granter : Ninep.Granter (Daemon κ σ) := fun cap _ transferID quota d =>
  let res := d.dataplane.registerGrant transferID cap quota
  (.ok (toDataEndpoint res.1), { d with files := { d.files with grants := res.2.grants } })

abbrev BeginRead (κ σ : Type) :=
  GoString → CapHandle → Ninep.RecvEndpoint → Daemon κ σ → Option GoErr × Daemon κ σ

def dfsFSStore (beginRead : BeginRead κ σ) : Ninep.FSStore (Daemon κ σ) where
  beginWrite path cap transferID d :=
    let res := d.dataplane.registerGrant transferID cap ⟨fsWriteQuota, 0, 0⟩
    (.ok (toDataEndpoint res.1), { d with files := beginWrite path cap transferID d.files })
  beginRead := beginRead

def vramPath : GoString := .lit "/cer/dev/vram/local/0"

def vramRef : ResourceRef :=
  ⟨.lit "vram", Vector.replicate 32 0, vramPath, some ⟨2 * 1024 * 1024 * 1024, 0, 0⟩⟩

def compose (K : CapKernel κ) (beginRead : BeginRead κ σ)
    (audioDevices : List (GoString × ResourceRef)) : Ninep.Server (Daemon κ σ) :=
  let ns := (Ninep.Server.new (kernelOf K)).register vramPath vramRef
  let ns := audioDevices.foldl (fun ns d => ns.register d.1 d.2) ns
  { ns with granter := some granter, fs := some (dfsFSStore beginRead) }

/-- A stream that reaches the data plane; no verifier of signed capabilities is set. -/
def arriving (K : CapKernel κ) (now : Int64) (d : Daemon κ σ) (input : Input GoString)
    (hne : ∀ p ∈ input.pieces, p ≠ []) : Dataplane.Stream where
  input := input
  pieces_ne := hne
  verifyCap := none
  kernelVerify cap := (K.verify cap ⟨.lit "read", Ninep.zeroRef⟩ now d.kernel).1.map GoErr.error

/-- `rustKernel` as a kernel of the daemon; a walk that takes more than `fuel` rounds is no grant. -/
def rustKernel (P : Kernel.Platform) (fuel : ℕ) : CapKernel Kernel.SignedKernel where
  verify cap req now k :=
    match Ffi.verify P k fuel cap req now with
    | some (.ok ()) => (none, k)
    | _ => (some (errf ErrorCode.denied (.lit "verify failed")), k)

/-- A namespace as `Compose` leaves it, with any devices, and after any number of opens. -/
structure Wired (K : CapKernel κ) (beginRead : BeginRead κ σ) (s : Ninep.Server (Daemon κ σ)) :
    Prop where
  kernel : s.kernel = kernelOf K
  now : s.now = 0
  granter : s.granter = some System.granter
  fs : s.fs = some (dfsFSStore beginRead)

variable {K : CapKernel κ} {beginRead : BeginRead κ σ} {s : Ninep.Server (Daemon κ σ)}

lemma wired_compose (audioDevices : List (GoString × ResourceRef)) :
    Wired K beginRead (compose K beginRead audioDevices) := by
  have hfold : ∀ ns : Ninep.Server (Daemon κ σ),
      (audioDevices.foldl (fun ns d => ns.register d.1 d.2) ns).kernel = ns.kernel ∧
        (audioDevices.foldl (fun ns d => ns.register d.1 d.2) ns).now = ns.now := by
    induction audioDevices with
    | nil => exact fun ns => ⟨rfl, rfl⟩
    | cons d ds ih => exact fun ns => ih (ns.register d.1 d.2)
  exact ⟨(hfold _).1, (hfold _).2, rfl, rfl⟩

end Cerberus.System
