import Cerberus.System.Daemon

/-!
# Endpoints that can be used

An endpoint is handed out for a capability that may allocate, or write, and the data plane lets its
transfer pass for a capability that may read. So an endpoint can be used iff the capability has the
right to read as well, and its chain holds at the time of `Compose` (`granted_usable_iff`).
-/

namespace Cerberus.System

open Foundation Contract Dataplane

variable {κ σ : Type} {K : CapKernel κ} {beginRead : BeginRead κ σ}
  {s s' : Ninep.Server (Daemon κ σ)} {d d' : Daemon κ σ} {path : GoString} {cap : CapHandle}
  {ep : Ninep.DataEndpoint}

/-- The header of a transfer for an endpoint. -/
structure Presents (ep : Ninep.DataEndpoint) (cap : CapHandle) (h : Header) : Prop where
  transferID : h.transferID = ep.streamID
  cap : h.cap = cap
  length : h.length ≤ ep.quota.bytes

/-- What an open leaves behind: a request of it was granted, and its grant is registered. -/
structure Granted (K : CapKernel κ) (d : Daemon κ σ) (cap : CapHandle) (ep : Ninep.DataEndpoint)
    (d' : Daemon κ σ) : Prop where
  verified : ∃ req, K.verify cap req 0 d.kernel = (none, d'.kernel)
  grant : d'.files.grants ep.streamID = some ⟨cap, ep.quota⟩

lemma check_of_wired (hs : Wired K beginRead s) (op : GoString) (ref : ResourceRef) :
    s.check cap op ref d = ((K.verify cap ⟨op, ref⟩ 0 d.kernel).1,
      { d with kernel := (K.verify cap ⟨op, ref⟩ 0 d.kernel).2 }) := by
  rw [Ninep.Server.check, hs.kernel, hs.now]
  rfl

lemma fill_granted (id : UInt64) (quota : Quota) (ep : Ninep.DataEndpoint)
    (hid : ep.streamID = id) (hquota : ep.quota = quota) :
    (Ninep.Server.fill ep id quota).streamID = id ∧
      (Ninep.Server.fill ep id quota).quota = quota := by
  simp [Ninep.Server.fill, hid, hquota]

lemma granted_openCtl (hs : Wired K beginRead s) (h : s.openCtl path cap d = (.ok ep, s', d')) :
    Granted K d cap ep d' := by
  unfold Ninep.Server.openCtl at h
  cases hfind : s.deviceFor path with
  | none =>
    rw [hfind] at h
    cases h
  | some dev =>
    simp only [hfind, check_of_wired hs, hs.granter] at h
    split_ifs at h
    · cases h
    · rcases hres : K.verify cap ⟨.lit "alloc", dev.2⟩ 0 d.kernel with ⟨_ | e, k'⟩
      · simp only [hres] at h
        cases h
        refine ⟨⟨_, hres⟩, ?_⟩
        obtain ⟨hid, hquota⟩ := fill_granted (s.nextStream + 1) (dev.2.quota.getD Ninep.zeroQuota)
          (toDataEndpoint ({ d with kernel := k' }.dataplane.registerGrant (s.nextStream + 1) cap
            (dev.2.quota.getD Ninep.zeroQuota)).1) rfl rfl
        rw [hid, hquota]
        exact Function.update_self _ _ _
      · rw [hres] at h
        cases h

lemma granted_openFSWrite (hs : Wired K beginRead s)
    (h : s.openFSWrite path cap d = (.ok ep, s', d')) : Granted K d cap ep d' := by
  unfold Ninep.Server.openFSWrite at h
  cases hsub : Ninep.fsSubPath path with
  | none =>
    rw [hsub] at h
    cases h
  | some sub =>
    simp only [hsub, check_of_wired hs, hs.fs] at h
    rcases hres : K.verify cap ⟨.lit "write", Ninep.fsResource (Ninep.fsRoot ++ .lit "/" ++ sub)⟩ 0
      d.kernel with ⟨_ | e, k'⟩
    · simp only [hres] at h
      cases h
      refine ⟨⟨_, hres⟩, ?_⟩
      exact Function.update_self _ _ _
    · rw [hres] at h
      cases h

lemma Granted.authorize_iff (hg : Granted K d cap ep d') {h : Header} (hh : Presents ep cap h)
    {now : Int64} {input : Input GoString} {hne : ∀ p ∈ input.pieces, p ≠ []} :
    (∃ g, authorize d'.files.grants (arriving K now d' input hne) h = .ok g) ↔
      (K.verify cap ⟨.lit "read", Ninep.zeroRef⟩ now d'.kernel).1 = none := by
  simp only [authorize_eq_ok_iff]
  constructor
  · rintro ⟨g, hauth⟩
    have hgrant := hh.transferID ▸ hauth.grant
    obtain rfl := Option.some.inj (hg.grant.symm.trans hgrant)
    exact Option.map_eq_none_iff.mp hauth.kernel
  · intro hkernel
    refine ⟨⟨cap, ep.quota⟩, ?_, hh.cap.symm, ?_, Option.map_eq_none_iff.mpr hkernel, hh.length⟩
    · rw [hh.transferID]
      exact hg.grant
    · intro verify hverify
      cases hverify

lemma rustKernel_verify_iff {P : Kernel.Platform} {fuel : ℕ} {req : Request} {now : Int64}
    {k : Kernel.SignedKernel} : ((rustKernel P fuel).verify cap req now k).1 = none ↔
      Kernel.verify P k fuel cap (Ffi.cStr req.op) now.toUInt64 = some (.ok ()) := by
  simp only [rustKernel, Ffi.verify, Ffi.cerberusCapVerify]
  rcases Kernel.verify P k fuel cap (Ffi.cStr req.op) now.toUInt64 with _ | _ | _
  · simp
  · simp [Except.toBool]
  · simp [Except.toBool]

lemma rustKernel_verify_snd (P : Kernel.Platform) (fuel : ℕ) (cap : CapHandle) (req : Request)
    (now : Int64) (k : Kernel.SignedKernel) : ((rustKernel P fuel).verify cap req now k).2 = k := by
  unfold rustKernel
  simp only
  split
  · rfl
  · rfl

/-- An endpoint for which an open in the namespace has returned, and a transfer that presents it and
the capability, within its quota and at the same state of the kernel: the data plane lets the transfer
pass iff the capability has the right to read, and its chain holds at the time of the data
plane. If no capability has a window, the right decides. -/
theorem granted_usable_iff {σ : Type} (P : Kernel.Platform) (fuel : ℕ)
    (beginRead : BeginRead Kernel.SignedKernel σ)
    (s s' : Ninep.Server (Daemon Kernel.SignedKernel σ))
    (hs : Wired (rustKernel P fuel) beginRead s) (d d' : Daemon Kernel.SignedKernel σ)
    (path : GoString) (cap : CapHandle) (ep : Ninep.DataEndpoint)
    (hopen : s.openCtl path cap d = (.ok ep, s', d') ∨ s.openFSWrite path cap d = (.ok ep, s', d'))
    (h : Header) (hh : Presents ep cap h) (now : Int64) (input : Input GoString)
    (hne : ∀ p ∈ input.pieces, p ≠ []) :
    ((∃ g, authorize d'.files.grants (arriving (rustKernel P fuel) now d' input hne) h = .ok g) ↔
      ∃ e, d.kernel.byHandle.lookup cap = some e ∧ Kernel.Right.read ∈ e.cap.rights ∧
        Kernel.verifyChain P d.kernel now.toUInt64 fuel e.cap = some (.ok ())) ∧
    (Ffi.Windowless d.kernel →
      ((∃ g, authorize d'.files.grants (arriving (rustKernel P fuel) now d' input hne) h = .ok g) ↔
        ∃ e, d.kernel.byHandle.lookup cap = some e ∧ Kernel.Right.read ∈ e.cap.rights)) := by
  have hgranted : Granted (rustKernel P fuel) d cap ep d' := by
    rcases hopen with hopen | hopen
    · exact granted_openCtl hs hopen
    · exact granted_openFSWrite hs hopen
  obtain ⟨req, hreq⟩ := hgranted.verified
  have hkernel : d'.kernel = d.kernel := by
    rw [← rustKernel_verify_snd P fuel cap req 0 d.kernel, hreq]
  -- the open was granted, so the capability is stored, and its chain holds at time 0
  obtain ⟨e₀, he₀, hlive, -, hchain⟩ :=
    Kernel.verify_eq_ok_iff.mp (rustKernel_verify_iff.mp (congrArg Prod.fst hreq))
  have hread : Kernel.rightForOp (Ffi.cStr (.lit "read")) = some .read := by decide
  have hiff : (∃ g, authorize d'.files.grants (arriving (rustKernel P fuel) now d' input hne) h =
      .ok g) ↔ Kernel.Right.read ∈ e₀.cap.rights ∧
        Kernel.verifyChain P d.kernel now.toUInt64 fuel e₀.cap = some (.ok ()) := by
    rw [hgranted.authorize_iff hh, rustKernel_verify_iff, Kernel.verify_eq_ok_iff, hkernel]
    simp only [he₀, Option.some.injEq, exists_eq_left', hlive, true_and, hread, Option.mem_def,
      forall_eq']
  rw [hiff]
  refine ⟨?_, fun hw => ?_⟩
  · simp [he₀]
  · have htime : Kernel.verifyChain P d.kernel now.toUInt64 fuel e₀.cap = some (.ok ()) := by
      rw [hw.verifyChain_eq he₀ _ (0 : Int64).toUInt64]
      exact hchain
    simp [he₀, htime]

namespace Allocating

def kernel (rights : List Contract.Right) : Kernel.SignedKernel :=
  Ffi.run Kernel.samplePlatform id Kernel.sampleSeed
    [.mint vramRef rights [] (Kernel.capId 0 0) (Vector.replicate 12 0)]

def daemon (rights : List Contract.Right) : Daemon Kernel.SignedKernel Unit :=
  ⟨kernel rights, .lit "127.0.0.1:7000", Vector.replicate 32 0,
    ⟨fun _ => none, fun _ => none, .empty, ()⟩⟩

def rust : CapKernel Kernel.SignedKernel := rustKernel Kernel.samplePlatform 1

def composed : Ninep.Server (Daemon Kernel.SignedKernel Unit) :=
  compose rust (fun _ _ _ d => (none, d)) []

def ctl : GoString := vramPath ++ .lit "/ctl"

/-- A transfer of one byte for the first open. -/
def header : Header := ⟨1, 1, 1, [], Vector.replicate 32 0⟩

def nothing : Input GoString := ⟨[], none⟩

def stream (d : Daemon Kernel.SignedKernel Unit) : Stream := arriving rust 1000 d nothing nofun

end Allocating

open Allocating in
/-- A capability that may read and allocate opens the control file, and its transfer passes. -/
theorem granted_usable_iff_sample : ∃ ep s' d',
    composed.openCtl ctl 1 (daemon [.lit "read", .lit "alloc"]) = (.ok ep, s', d') ∧
      ∃ g, authorize d'.files.grants (stream d') header = .ok g := by
  refine ⟨_, _, _, rfl, ?_⟩
  refine ((granted_usable_iff Kernel.samplePlatform 1 _ composed _ (wired_compose [])
    (daemon [.lit "read", .lit "alloc"]) _ ctl 1 _ (.inl rfl) header ?_ 1000 nothing nofun).2
      ?_).mpr ?_
  · exact ⟨rfl, rfl, by decide +kernel⟩
  · exact Ffi.windowless_run
  · exact ⟨_, rfl, by decide +kernel⟩

open Allocating in
/-- A capability that may only allocate opens the control file, and its transfer is rejected. -/
theorem alloc_unusable : ∃ ep s' d',
    composed.openCtl ctl 1 (daemon [.lit "alloc"]) = (.ok ep, s', d') ∧
      Presents ep 1 header ∧
      authorize d'.files.grants (stream d') header =
        .error (.kernel (.lit "DENIED: verify failed")) := by
  refine ⟨_, _, _, rfl, ⟨rfl, rfl, by decide +kernel⟩, ?_⟩
  rfl

end Cerberus.System
