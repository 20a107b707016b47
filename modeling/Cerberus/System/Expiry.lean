import Cerberus.System.Endpoints

/-!
# Capabilities that have expired

A capability should stop working when its window has ended. The kernel sees to that at the time that
it is given, and that is not the time of the use: the namespace passes 0 for as long as it runs, and
the data plane the time of `Compose` (`Composed.Kept`).

The kernel is any one that denies what it is asked after the end of a window.
-/

namespace Cerberus.System

open Foundation Contract Dataplane Option

open Ninep (fsSubPath fsResource fsRoot)

variable {κ σ : Type}

/-- The ways to use a capability. -/
inductive Use
  | walk (path : GoString) (cap : CapHandle)
  | openCtl (path : GoString) (cap : CapHandle)
  | readInfo (path : GoString) (cap : CapHandle)
  | openFSWrite (path : GoString) (cap : CapHandle)
  | openFSRead (path : GoString) (cap : CapHandle) (recv : Ninep.RecvEndpoint)
  | transfer (h : Header)

def Use.cap : Use → CapHandle
  | walk _ cap | openCtl _ cap | readInfo _ cap | openFSWrite _ cap | openFSRead _ cap _ => cap
  | transfer h => h.cap

/-- The daemon at work: the namespace, what it shares with the data plane, and the clock of the data
plane. -/
structure Composed (κ σ : Type) where
  ns : Ninep.Server (Daemon κ σ)
  daemon : Daemon κ σ
  now : Int64

inductive Event (κ σ : Type)
  | use (t : Int64) (u : Use)
  | register (dir : GoString) (ref : ResourceRef)
  /-- Anything that does not concern the two servers themselves, such as calls of the kernel and what
  a transfer does after it has been authorized. -/
  | other (f : Daemon κ σ → Daemon κ σ)

namespace Composed

section

variable (K : CapKernel κ) (J : Ninep.Json)

/-- A transfer up to its payload: whether it is authorized, and the kernel after it was asked. -/
def transfer (h : Header) (c : Composed κ σ) : Bool × Composed κ σ :=
  let st := arriving K c.now c.daemon ⟨[], none⟩ nofun
  ((authorize c.daemon.files.grants st h).toBool,
    match c.daemon.files.grants h.transferID with
    | none => c
    | some g =>
      if g.cap ≠ h.cap then c
      else
        let res := K.verify g.cap ⟨.lit "read", Ninep.zeroRef⟩ c.now c.daemon.kernel
        { c with daemon := { c.daemon with kernel := res.2 } })

/-- Whether a use is accepted, and what it leaves. -/
def perform (c : Composed κ σ) : Use → Bool × Composed κ σ
  | .walk path cap =>
    let res := c.ns.walk path cap c.daemon
    (res.1.isNone, { c with daemon := res.2 })
  | .openCtl path cap =>
    let res := c.ns.openCtl path cap c.daemon
    (res.1.toBool, { c with ns := res.2.1, daemon := res.2.2 })
  | .readInfo path cap =>
    let res := c.ns.readInfo J path cap c.daemon
    (res.1.toBool, { c with daemon := res.2 })
  | .openFSWrite path cap =>
    let res := c.ns.openFSWrite path cap c.daemon
    (res.1.toBool, { c with ns := res.2.1, daemon := res.2.2 })
  | .openFSRead path cap recv =>
    let res := c.ns.openFSRead path cap recv c.daemon
    (res.1.isNone, { c with daemon := res.2 })
  | .transfer h => c.transfer K h

def step (c : Composed κ σ) : Event κ σ → Composed κ σ
  | .use _ u => (c.perform K J u).2
  | .register dir ref => { c with ns := c.ns.register dir ref }
  | .other f => { c with daemon := f c.daemon }

end

def start (K : CapKernel κ) (beginRead : BeginRead κ σ)
    (audioDevices : List (GoString × ResourceRef)) (d : Daemon κ σ) (now : Int64) : Composed κ σ :=
  ⟨compose K beginRead audioDevices, d, now⟩

/-- The request that the server makes to the kernel. -/
def asks (c : Composed κ σ) : Use → Option Request
  | .walk path _ => (c.ns.deviceFor path).map fun dev => ⟨.lit "read", dev.2⟩
  | .openCtl path _ =>
    (c.ns.deviceFor path).bind fun dev =>
      if path = dev.1 ++ .lit "/ctl" then some ⟨.lit "alloc", dev.2⟩ else none
  | .readInfo path _ =>
    (c.ns.deviceFor path).bind fun dev =>
      if path = dev.1 ++ .lit "/info" then some ⟨.lit "read", dev.2⟩ else none
  | .openFSWrite path _ =>
    (fsSubPath path).map fun sub =>
      ⟨.lit "write", fsResource (fsRoot ++ .lit "/" ++ sub)⟩
  | .openFSRead path _ _ =>
    (fsSubPath path).map fun sub =>
      ⟨.lit "read", fsResource (fsRoot ++ .lit "/" ++ sub)⟩
  | .transfer h =>
    if (c.daemon.files.grants h.transferID).map Grant.cap = some h.cap then
      some ⟨.lit "read", Ninep.zeroRef⟩
    else none

/-- What comes after the request succeeds: the descriptor can be encoded, the file can be sent, the
transfer declares no more than its quota. `k` is the kernel after the request. -/
def Finishes (J : Ninep.Json) (beginRead : BeginRead κ σ) (c : Composed κ σ) (k : κ) : Use → Prop
  | .readInfo path _ => ∀ dev ∈ c.ns.deviceFor path,
    (J.info dev.2.kind dev.2.path dev.2.quota).toBool = true
  | .openFSRead path cap recv => ∀ sub ∈ fsSubPath path,
    (beginRead (fsRoot ++ .lit "/" ++ sub) cap recv { c.daemon with kernel := k }).1 = none
  | .transfer h => ∀ g ∈ c.daemon.files.grants h.transferID, h.length ≤ g.quota.bytes
  | _ => True

/-- The time that the server passes to the kernel. -/
def clock (composed : Int64) : Use → Int64
  | .transfer _ => composed
  | _ => 0

/-- The kernel grants the request of the use at that time, and the use goes through. -/
def GoesThrough (K : CapKernel κ) (J : Ninep.Json) (beginRead : BeginRead κ σ) (composed : Int64)
    (c : Composed κ σ) (u : Use) : Prop :=
  ∃ req, c.asks u = some req ∧
    (K.verify u.cap req (clock composed u) c.daemon.kernel).1 = none ∧
    c.Finishes J beginRead (K.verify u.cap req (clock composed u) c.daemon.kernel).2 u

/-! ### The clocks -/

/-- The namespace is wired as `Compose` left it, and the data plane has the time of `Compose`. -/
structure Kept (K : CapKernel κ) (beginRead : BeginRead κ σ) (composed : Int64)
    (c : Composed κ σ) : Prop where
  wired : Wired K beginRead c.ns
  now : c.now = composed

variable {K : CapKernel κ} {J : Ninep.Json} {beginRead : BeginRead κ σ} {composed : Int64}
  {c : Composed κ σ} {u : Use}

section

variable (h : Wired K beginRead c.ns) (path : GoString) (cap : CapHandle)
include h

lemma wired_openCtl : Wired K beginRead (c.ns.openCtl path cap c.daemon).2.1 := by
  unfold Ninep.Server.openCtl
  cases c.ns.deviceFor path with
  | none => exact h
  | some dev =>
    simp only [h.granter]
    split_ifs
    · exact h
    · rcases c.ns.check cap (.lit "alloc") dev.2 c.daemon with ⟨_ | e, d⟩
      · exact ⟨h.kernel, h.now, rfl, h.fs⟩
      · exact h

lemma wired_openFSWrite : Wired K beginRead (c.ns.openFSWrite path cap c.daemon).2.1 := by
  unfold Ninep.Server.openFSWrite
  cases fsSubPath path with
  | none => exact h
  | some sub =>
    simp only [h.fs]
    generalize c.ns.check cap (.lit "write")
      (fsResource (fsRoot ++ .lit "/" ++ sub)) c.daemon = res
    obtain ⟨_ | e, d⟩ := res
    · exact ⟨h.kernel, h.now, h.granter, rfl⟩
    · exact h

end

section

variable (h : Kept K beginRead composed c)
include h

lemma Kept.perform (u : Use) : Kept K beginRead composed (c.perform K J u).2 := by
  cases u with
  | walk path cap => exact ⟨h.wired, h.now⟩
  | openCtl path cap => exact ⟨wired_openCtl h.wired path cap, h.now⟩
  | readInfo path cap => exact ⟨h.wired, h.now⟩
  | openFSWrite path cap => exact ⟨wired_openFSWrite h.wired path cap, h.now⟩
  | openFSRead path cap recv => exact ⟨h.wired, h.now⟩
  | transfer hd =>
    unfold Composed.perform transfer
    simp only
    cases c.daemon.files.grants hd.transferID with
    | none => exact h
    | some g =>
      simp only
      split_ifs
      · exact h
      · exact ⟨h.wired, h.now⟩

lemma Kept.step (e : Event κ σ) : Kept K beginRead composed (c.step K J e) := by
  cases e with
  | use t u => exact h.perform u
  | register dir ref =>
    exact ⟨⟨h.wired.kernel, h.wired.now, h.wired.granter, h.wired.fs⟩, h.now⟩
  | other f => exact ⟨h.wired, h.now⟩

/-! ### What is accepted -/

section

variable (path : GoString) (cap : CapHandle)

lemma Kept.accepted_walk :
    (c.perform K J (.walk path cap)).1 = true ↔
      c.GoesThrough K J beginRead composed (.walk path cap) := by
  unfold GoesThrough
  simp only [Composed.perform, asks, Finishes, Use.cap, clock, Ninep.Server.walk]
  cases c.ns.deviceFor path with
  | none => simp
  | some dev => simp [check_of_wired h.wired]

lemma Kept.accepted_openCtl :
    (c.perform K J (.openCtl path cap)).1 = true ↔
      c.GoesThrough K J beginRead composed (.openCtl path cap) := by
  unfold GoesThrough
  simp only [Composed.perform, asks, Finishes, Use.cap, clock, Ninep.Server.openCtl]
  cases c.ns.deviceFor path with
  | none => simp [Except.toBool]
  | some dev =>
    by_cases hctl : path = dev.1 ++ .lit "/ctl"
    · simp only [hctl, check_of_wired h.wired, h.wired.granter, ne_eq, not_true_eq_false, if_false,
        bind_some, if_true, Option.some.injEq, exists_eq_left', and_true]
      rcases K.verify cap ⟨.lit "alloc", dev.2⟩ 0 c.daemon.kernel with ⟨_ | e, k⟩
      · exact iff_of_true rfl rfl
      · simp [Except.toBool]
    · simp [hctl, Except.toBool]

lemma Kept.accepted_readInfo :
    (c.perform K J (.readInfo path cap)).1 = true ↔
      c.GoesThrough K J beginRead composed (.readInfo path cap) := by
  unfold GoesThrough
  simp only [Composed.perform, asks, Finishes, Use.cap, clock, Ninep.Server.readInfo]
  cases c.ns.deviceFor path with
  | none => simp [Except.toBool]
  | some dev =>
    by_cases hinfo : path = dev.1 ++ .lit "/info"
    · simp only [hinfo, check_of_wired h.wired, ne_eq, not_true_eq_false, if_false,
        bind_some, if_true, Option.some.injEq, exists_eq_left', mem_def, forall_eq']
      rcases K.verify cap ⟨.lit "read", dev.2⟩ 0 c.daemon.kernel with ⟨_ | e, k⟩
      · simp
      · simp [Except.toBool]
    · simp [hinfo, Except.toBool]

lemma Kept.accepted_openFSWrite :
    (c.perform K J (.openFSWrite path cap)).1 = true ↔
      c.GoesThrough K J beginRead composed (.openFSWrite path cap) := by
  unfold GoesThrough
  simp only [Composed.perform, asks, Finishes, Use.cap, clock, Ninep.Server.openFSWrite]
  cases fsSubPath path with
  | none => simp [Except.toBool]
  | some sub =>
    simp only [check_of_wired h.wired, h.wired.fs, map_some, Option.some.injEq,
      exists_eq_left', and_true]
    generalize K.verify cap
      ⟨.lit "write", fsResource (fsRoot ++ .lit "/" ++ sub)⟩ 0 c.daemon.kernel = res
    obtain ⟨_ | e, k⟩ := res
    · exact iff_of_true rfl rfl
    · simp [Except.toBool]

lemma Kept.accepted_openFSRead (recv : Ninep.RecvEndpoint) :
    (c.perform K J (.openFSRead path cap recv)).1 = true ↔
      c.GoesThrough K J beginRead composed (.openFSRead path cap recv) := by
  unfold GoesThrough
  simp only [Composed.perform, asks, Finishes, Use.cap, clock, Ninep.Server.openFSRead]
  cases fsSubPath path with
  | none => simp
  | some sub =>
    simp only [check_of_wired h.wired, h.wired.fs, map_some, Option.some.injEq,
      exists_eq_left', mem_def, forall_eq']
    generalize K.verify cap
      ⟨.lit "read", fsResource (fsRoot ++ .lit "/" ++ sub)⟩ 0 c.daemon.kernel = res
    obtain ⟨_ | e, k⟩ := res
    · simp [dfsFSStore]
    · simp

end

lemma Kept.accepted_transfer (hd : Header) :
    (c.perform K J (.transfer hd)).1 = true ↔
      c.GoesThrough K J beginRead composed (.transfer hd) := by
  have hne : ∀ p ∈ ([] : List (List UInt8)), p ≠ [] := fun p hp => absurd hp List.not_mem_nil
  have hauth : (c.perform K J (.transfer hd)).1 = true ↔ ∃ g, Authorized c.daemon.files.grants
      (arriving K composed c.daemon ⟨[], none⟩ hne) hd g := by
    simp only [← authorize_eq_ok_iff, ← h.now]
    simp only [Composed.perform, transfer]
    cases authorize c.daemon.files.grants (arriving K c.now c.daemon ⟨[], none⟩ hne) hd with
    | error e => simp [Except.toBool]
    | ok g => simp [Except.toBool]
  rw [hauth, GoesThrough]
  simp only [asks, Finishes, Use.cap, clock]
  constructor
  · rintro ⟨g, hg⟩
    have hcap : (c.daemon.files.grants hd.transferID).map Grant.cap = some hd.cap := by
      rw [hg.grant, map_some, hg.cap]
    refine ⟨_, if_pos hcap, ?_, ?_⟩
    · rw [← hg.cap]
      exact map_eq_none_iff.mp hg.kernel
    · intro g' hg'
      obtain rfl := Option.some.inj (hg.grant.symm.trans hg')
      exact hg.length
  · rintro ⟨req, hreq, hgrant, hquota⟩
    split_ifs at hreq with hcap
    cases hreq
    obtain ⟨g, hg, hgcap⟩ := map_eq_some_iff.mp hcap
    refine ⟨g, hg, hgcap, ?_, ?_, hquota g hg⟩
    · intro verify hverify
      cases hverify
    · rw [hgcap]
      exact map_eq_none_iff.mpr hgrant

/-- A use is accepted iff the kernel grants its request at the time of its server, and it goes
through after that. -/
lemma Kept.accepted_iff (u : Use) :
    (c.perform K J u).1 = true ↔ c.GoesThrough K J beginRead composed u := by
  cases u with
  | walk path cap => exact h.accepted_walk path cap
  | openCtl path cap => exact h.accepted_openCtl path cap
  | readInfo path cap => exact h.accepted_readInfo path cap
  | openFSWrite path cap => exact h.accepted_openFSWrite path cap
  | openFSRead path cap recv => exact h.accepted_openFSRead path cap recv
  | transfer hd => exact h.accepted_transfer hd

end

/-- The window of the capability has ended. -/
def Ended (exp : κ → CapHandle → Option Int64) (c : Composed κ σ) (u : Use) (t : Int64) : Prop :=
  ∃ e ∈ exp c.daemon.kernel u.cap, e ≤ t

end Composed

open Composed

/-- Over a kernel that denies every request after the end of a window: in a run of the daemon, every
use of a capability whose window has ended is denied, iff none goes through whose window had
not ended at the time that its server passes to the kernel, 0 for the namespace and the time of
`Compose` for the data plane. -/
theorem expired_denied_iff (K : CapKernel κ) (exp : κ → CapHandle → Option Int64)
    (hK : ∀ cap req now k, (∃ e ∈ exp k cap, e ≤ now) → (K.verify cap req now k).1 ≠ none)
    (J : Ninep.Json) (beginRead : BeginRead κ σ) (audioDevices : List (GoString × ResourceRef))
    (d : Daemon κ σ) (composed : Int64) (es : List (Event κ σ)) :
    Along (step K J) (fun c e => ∀ t u, e = .use t u → c.Ended exp u t →
        (c.perform K J u).1 = false) (start K beginRead audioDevices d composed) es ↔
    Along (step K J) (fun c e => ∀ t u, e = .use t u → c.Ended exp u t →
        ¬ c.Ended exp u (clock composed u) → ¬ c.GoesThrough K J beginRead composed u)
      (start K beginRead audioDevices d composed) es := by
  have hstart : Kept K beginRead composed (start K beginRead audioDevices d composed) :=
    ⟨wired_compose audioDevices, rfl⟩
  refine along_congr_of_keeps (N := fun _ _ => True) (fun c e h _ => h.step e) (fun c e h _ => ?_)
    hstart (along_of_forall_mem fun _ _ _ => trivial)
  refine forall₂_congr fun t u => imp_congr_right fun _ => imp_congr_right fun _ => ?_
  rw [← Bool.not_eq_true, h.accepted_iff]
  refine ⟨fun hno _ => hno, fun hno hgoes => ?_⟩
  by_cases hended : c.Ended exp u (clock composed u)
  · obtain ⟨req, -, hgrant, -⟩ := hgoes
    exact hK _ req _ _ hended hgrant
  · exact hno hended hgoes

namespace Windowed

/-- A kernel whose capabilities are all good until a time. -/
def kernel (exp : Int64) : CapKernel Unit where
  verify _ _ now k :=
    (if now < exp then none else some (errf ErrorCode.denied (.lit "expired")), k)

lemma kernel_denies (exp : Int64) (cap : CapHandle) (req : Request) (now : Int64) (k : Unit)
    (h : ∃ e ∈ some exp, e ≤ now) : ((kernel exp).verify cap req now k).1 ≠ none := by
  obtain ⟨e, he, hle⟩ := h
  obtain rfl := Option.some.inj he
  simp [kernel, Int64.not_lt.mpr hle]

def started (exp : Int64) : Composed Unit Unit :=
  start (kernel exp) (fun _ _ _ d => (none, d)) []
    ⟨(), .lit "127.0.0.1:7000", Vector.replicate 32 0,
      ⟨fun _ => none, fun _ => none, .empty, ()⟩⟩ 50

/-- The daemon with a grant for transfer 1 when it is composed. -/
def granted (exp : Int64) : Composed Unit Unit :=
  start (kernel exp) (fun _ _ _ d => (none, d)) []
    { (started exp).daemon with
      files := ⟨fun _ => some ⟨7, 1, 0, 0⟩, fun _ => none, .empty, ()⟩ } 50

def encoding : Ninep.Json := ⟨fun _ => some [], fun _ _ _ => .ok []⟩

def walking : Use := .walk vramPath 7

def sending : Use := .transfer ⟨1, 7, 1, [], Vector.replicate 32 0⟩

/-- The daemon after the control file of the device has been opened. -/
def opened (exp : Int64) : Composed Unit Unit :=
  (started exp).step (kernel exp) encoding (.use 60 (.openCtl (vramPath ++ .lit "/ctl") 7))

end Windowed

open Windowed in
/-- A transfer under a grant is denied at time 200, if its capability was good until time 40: the
data plane was composed at time 50. -/
theorem expired_denied_iff_sample : (granted 40).Ended (fun _ _ => some 40) sending 200 ∧
    ((granted 40).perform (kernel 40) encoding sending).1 = false := by
  have hended : (granted 40).Ended (fun _ _ => some 40) sending 200 := ⟨40, rfl, by decide⟩
  have hall := (expired_denied_iff (kernel 40) (fun _ _ => some 40) (kernel_denies 40) encoding
    (fun _ _ _ d => (none, d)) [] (granted 40).daemon 50 [.use 200 sending]).mpr
    ⟨fun t u hu _ hclock => ?_, trivial⟩
  · exact ⟨hended, hall.1 200 sending rfl hended⟩
  · cases hu
    exact absurd ⟨40, rfl, by decide⟩ hclock

open Windowed in
/-- At time 200, a walk and a transfer with a capability that was good until time 100 are accepted. -/
theorem expired_accepted :
    (started 100).Ended (fun _ _ => some 100) walking 200 ∧
      ((started 100).perform (kernel 100) encoding walking).1 = true ∧
      (opened 100).Ended (fun _ _ => some 100) sending 200 ∧
      ((opened 100).perform (kernel 100) encoding sending).1 = true :=
  ⟨⟨100, rfl, by decide⟩, by decide +kernel, ⟨100, rfl, by decide⟩, by decide +kernel⟩

end Cerberus.System
