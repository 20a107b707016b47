import Cerberus.Cabi.Model
import Cerberus.Kernel.Cascade

/-!
# Which revocations are enforced

A process holds revocations in two places: `cerberus_cap_revoke` marks a capability in the kernel's
table, `cerberus_revoke` and `cerberus_revocations_merge` add ids to the set of revoked ids. The
verification of a capability reads the table and never the set (`enforces_iff`).
-/

namespace Cerberus.Cabi

open Foundation Relation Option

open Kernel (CapId CapHandle SignedKernel SignedEntry)

/-- The call of the kernel that a C function makes. -/
def Call.toKernel : Call → Option Kernel.Call
  | .capMint kind rights quotaBytes maxCaveat now ttl id nonce =>
    some (.mintRoot (Ffi.localResource kind quotaBytes) (Ffi.rightsFromMask rights)
      (Ffi.maxBytesCaveats maxCaveat) now (if ttl = 0 then none else some ttl) id nonce)
  | .capMintVram bytes id nonce =>
    some (.mintRoot (Ffi.localResource 0 bytes) (Ffi.rightsFromMask (0x01 ||| 0x04))
      (Ffi.maxBytesCaveats 0) 0 none id nonce)
  | .capAttenuate parent dropRights maxCaveat id nonce =>
    some (.attenuate parent (Ffi.rightsFromMask dropRights) (Ffi.maxBytesCaveats maxCaveat) id
      nonce)
  | .capRevoke handle => some (.revoke handle)
  | .revoke _ => none
  | .revocationsMerge _ _ => none

variable (P : Kernel.Platform)

/-- Verification ends, and never with success. -/
def Denies (k : SignedKernel) (h : CapHandle) (op : GoString) (now : UInt64) : Prop :=
  (∃ fuel r, Ffi.cerberusCapVerify P k fuel h op now = some r) ∧
    ∀ fuel, Ffi.cerberusCapVerify P k fuel h op now ≠ some 0

/-- A capability is denied when its id, or that of a capability on its chain, is in the set of
revoked ids. -/
def Enforces (s : Process) : Prop :=
  ∀ h a e, ReflTransGen (Kernel.Parent s.kernel) h a → s.kernel.byHandle.lookup a = some e →
    s.revocations.isRevoked e.cap.id = true → ∀ op now, Denies P s.kernel h op now

/-- The capability or one it was derived from is marked as revoked in the table. -/
def RevokedInTable (k : SignedKernel) (h : CapHandle) : Prop :=
  ∃ a, ReflTransGen (Kernel.Parent k) h a ∧ Kernel.Revoked k a

/-- At no time are the capability and all those it was derived from within their windows. -/
def NeverOpen (k : SignedKernel) (h : CapHandle) : Prop :=
  ∀ now, ∃ a e, ReflTransGen (Kernel.Parent k) h a ∧ k.byHandle.lookup a = some e ∧
    ¬ Kernel.WindowOpen e.cap now

variable {P} {k : SignedKernel} {s : Process} {h : CapHandle} {n : ℕ}

lemma kernel_step (c : Call) :
    (step P s c).kernel = (c.toKernel).elim s.kernel (Kernel.step P s.kernel) := by
  cases c with
  | capMint kind rights quotaBytes maxCaveat now ttl id nonce =>
    simp only [step, Ffi.cerberusCapMint, Call.toKernel, elim_some, Kernel.step]
    cases Kernel.mintRoot P s.kernel _ _ _ _ _ _ _ <;> rfl
  | capMintVram bytes id nonce =>
    simp only [step, cerberusCapMintVram, Ffi.cerberusCapMint, Call.toKernel, elim_some,
      Kernel.step, if_pos]
    cases Kernel.mintRoot P s.kernel _ _ _ _ _ _ _ <;> rfl
  | capAttenuate parent dropRights maxCaveat id nonce => rfl
  | capRevoke handle => rfl
  | revoke capId => rfl
  | revocationsMerge data len => rfl

lemma kernel_run (seed : Vector UInt8 32) (calls : List Call) :
    (run P seed calls).kernel = Kernel.run P seed (calls.filterMap Call.toKernel) := by
  have hfrom : ∀ s : Process, (runFrom (step P) s calls).kernel =
      runFrom (Kernel.step P) s.kernel (calls.filterMap Call.toKernel) := by
    induction calls with
    | nil => exact fun _ => rfl
    | cons c calls ih =>
      intro s
      rw [runFrom_cons, ih, kernel_step]
      cases hc : c.toKernel with
      | none => rw [List.filterMap_cons_none hc, elim_none]
      | some kc => rw [List.filterMap_cons_some hc, elim_some, runFrom_cons]
  exact hfrom _

/-! ### What is denied -/

lemma denies_iff (hs : Kernel.Sound P n k) {op : GoString} {now : UInt64} :
    Denies P k h op now ↔ ¬ Kernel.Authorized k h (Ffi.cStr op) now := by
  have hzero : ∀ fuel, Ffi.cerberusCapVerify P k fuel h op now = some 0 ↔
      Kernel.verify P k fuel h (Ffi.cStr op) now = some (.ok ()) := by
    intro fuel
    rw [Ffi.cerberusCapVerify]
    cases Kernel.verify P k fuel h (Ffi.cStr op) now with
    | none => simp
    | some r => cases r <;> simp [Except.toBool]
  rw [← hs.accepts_iff, Kernel.Accepts, not_exists]
  refine ⟨fun hdeny fuel => mt (hzero fuel).mpr (hdeny.2 fuel), fun hno => ⟨?_, fun fuel => ?_⟩⟩
  · obtain ⟨fuel, r, hr⟩ := hs.exists_verify h (Ffi.cStr op) now
    exact ⟨fuel, _, by rw [Ffi.cerberusCapVerify, hr]; rfl⟩
  · exact mt (hzero fuel).mp (hno fuel)

/-- A stored capability is denied for every operation at every time iff the table marks its
chain as revoked, or the chain is never within its windows. -/
lemma forall_denies_iff (hs : Kernel.Sound P n k) {e : SignedEntry}
    (he : k.byHandle.lookup h = some e) :
    (∀ op now, Denies P k h op now) ↔ RevokedInTable k h ∨ NeverOpen k h := by
  simp only [denies_iff hs]
  constructor
  · intro hdeny
    by_contra hno
    rw [not_or, NeverOpen, not_forall] at hno
    obtain ⟨hrev, now, hopen⟩ := hno
    -- the empty operation needs no right
    refine hdeny ⟨[]⟩ now ⟨⟨e, he, fun r hr => by cases hr⟩, hs.rooted he, fun a ha => ?_⟩
    obtain ⟨e', he', -⟩ := hs.narrows_of_chain ha he
    refine ⟨e', he', Bool.eq_false_of_not_eq_true fun hr => hrev ⟨a, ha, e', he', hr⟩, ?_⟩
    by_contra hw
    exact hopen ⟨a, e', ha, he', hw⟩
  · rintro (⟨a, ha, hrev⟩ | hnever) op now hauth
    · exact hrev.not_authorized ha hauth
    · obtain ⟨a, e', ha, he', hw⟩ := hnever now
      obtain ⟨e₁, he₁, -, hw₁⟩ := hauth.chain.inForce a ha
      rw [he'] at he₁
      cases he₁
      exact hw hw₁

lemma exists_lookup_of_chain {a : CapHandle} {e : SignedEntry}
    (ha : ReflTransGen (Kernel.Parent k) h a) (he : k.byHandle.lookup a = some e) :
    ∃ e', k.byHandle.lookup h = some e' := by
  rcases ReflTransGen.cases_head ha with rfl | ⟨b, ⟨e', -, he', -⟩, -⟩
  · exact ⟨e, he⟩
  · exact ⟨e', he'⟩

/-- In every run with distinct ids that stores at most `2 ^ 64` capabilities, the revoked ids are
enforced iff each capability that has one of them on its chain is marked as revoked in the
table, or never within its windows. -/
theorem enforces_iff (P : Kernel.Platform) (seed : Vector UInt8 32) (calls : List Call)
    (hp : Kernel.Proper P seed (calls.filterMap Call.toKernel)) :
    Enforces P (run P seed calls) ↔
      ∀ h a e, ReflTransGen (Kernel.Parent (run P seed calls).kernel) h a →
        (run P seed calls).kernel.byHandle.lookup a = some e →
        (run P seed calls).revocations.isRevoked e.cap.id = true →
        RevokedInTable (run P seed calls).kernel h ∨ NeverOpen (run P seed calls).kernel h := by
  have hs := hp.sound
  rw [← kernel_run] at hs
  refine forall₃_congr fun h a e => forall₃_congr fun ha he _ => ?_
  obtain ⟨e', he'⟩ := exists_lookup_of_chain ha he
  exact forall_denies_iff hs he'

/-- A capability is minted and its id is put into the set of revoked ids. -/
def sampleCalls : List Call :=
  [.capMint 0 0x01 0 0 0 0 (Vector.replicate 16 5) (Vector.replicate 12 0),
    .revoke (some (Vector.replicate 16 5))]

theorem enforces_sample :
    Enforces Kernel.samplePlatform
      (run Kernel.samplePlatform Kernel.sampleSeed (sampleCalls ++ [.capRevoke 1])) := by
  have hp : Kernel.Proper Kernel.samplePlatform Kernel.sampleSeed
      ((sampleCalls ++ [Call.capRevoke 1]).filterMap Call.toKernel) := by
    refine ⟨⟨?_, ?_, trivial⟩, by decide +kernel⟩
    · rintro cap ⟨⟩
      rfl
    · rintro cap ⟨⟩
  refine (enforces_iff _ _ _ hp).mpr fun h a e ha he _ => .inl ⟨a, ha, ?_⟩
  by_cases ha1 : a = 1
  · subst ha1
    exact ⟨_, rfl, rfl⟩
  · -- there is no other entry
    refine absurd (he.symm.trans ?_) (some_ne_none e)
    exact (Finmap.lookup_insert_of_ne _ ha1).trans (Finmap.lookup_insert_of_ne _ ha1)

/-- A capability whose id is in the set of revoked ids is still accepted. -/
theorem revoked_id_accepted :
    (run Kernel.samplePlatform Kernel.sampleSeed sampleCalls).revocations.isRevoked
        (Vector.replicate 16 5) = true ∧
      ((run Kernel.samplePlatform Kernel.sampleSeed sampleCalls).kernel.byHandle.lookup 1).map
        (fun e => e.cap.id) = some (Vector.replicate 16 5) ∧
      Ffi.cerberusCapVerify Kernel.samplePlatform
        (run Kernel.samplePlatform Kernel.sampleSeed sampleCalls).kernel 1 1 (.lit "read") 0 =
          some 0 := by
  decide +kernel

end Cerberus.Cabi
