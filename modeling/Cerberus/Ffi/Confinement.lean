import Cerberus.Ffi.Model
import Cerberus.Foundation.Path
import Cerberus.Kernel.Cascade

/-!
# Confinement on the path the daemon uses

A capability should only be good for the resource it was minted for. On the path from the daemon to
the kernel nothing carries the resource of a request: the Go wrapper passes the operation alone, and
what it mints is always the same local path. So the verdict does not depend on the resource, and a
handle is confined only when it is good for nothing (`confined_iff_revoked`).
-/

namespace Cerberus.Ffi

open Foundation Relation

open Kernel (SignedKernel CapId Proper verifyChain)

open Contract (CapHandle Right Caveat ResourceRef Request)

variable (P : Kernel.Platform) (floatToUint64 : UInt64 → UInt64)

/-- The call of the kernel that a call of the daemon becomes. -/
def Call.toKernel : Call → Kernel.Call
  | .mint r rights caveats id nonce =>
    .mintRoot (localResource (kindEnum r.kind) ((r.quota.map Contract.Quota.bytes).getD 0))
      (rightsFromMask (rightsMask rights))
      (maxBytesCaveats (maxBytesCaveat floatToUint64 caveats)) 0 none id nonce
  | .attenuate parent dropRights addCaveats id nonce =>
    .attenuate parent (rightsFromMask (rightsMask dropRights))
      (maxBytesCaveats (maxBytesCaveat floatToUint64 addCaveats)) id nonce
  | .revoke h => .revoke h

variable {P floatToUint64} {k : SignedKernel} {seed : Vector UInt8 32} {calls : List Call}

lemma step_eq (c : Call) :
    step P floatToUint64 k c = Kernel.step P k (c.toKernel floatToUint64) := by
  cases c with
  | mint r rights caveats id nonce =>
    simp only [step, mint, cerberusCapMint, Call.toKernel, Kernel.step, if_pos]
    cases Kernel.mintRoot P k _ _ _ _ _ _ _ <;> rfl
  | attenuate parent dropRights addCaveats id nonce => rfl
  | revoke h => rfl

lemma run_eq : run P floatToUint64 seed calls =
    Kernel.run P seed (calls.map (Call.toKernel floatToUint64)) := by
  rw [run, Kernel.run, runFrom, runFrom, List.foldl_map]
  congr 1
  funext k c
  exact step_eq c

variable (P)

/-- The daemon accepts the request. -/
def Verifies (k : SignedKernel) (h : CapHandle) (req : Request)
    (now : Int64) : Prop :=
  ∃ fuel, verify P k fuel h req now = some (.ok ())

variable {P}

variable {h : CapHandle} {R : ResourceRef} {nonce : Vector UInt8 12} {c : Call}

lemma verifies_iff {req : Request} {now : Int64} :
    Verifies P k h req now ↔ Kernel.Accepts P k h (cStr req.op) now.toUInt64 := by
  refine exists_congr fun fuel => ?_
  rw [verify, cerberusCapVerify]
  cases Kernel.verify P k fuel h (cStr req.op) now.toUInt64 with
  | none => simp
  | some r => cases r <;> simp [Except.toBool]

/-- A resource lies inside another one. -/
def Within (R' R : ResourceRef) : Prop :=
  R'.kind = R.kind ∧ R'.node = R.node ∧ R'.path.Inside R.path

/-- The daemon accepts requests on the handle only for what is within the resource. -/
def Confined (P : Kernel.Platform) (k : SignedKernel) (h : CapHandle)
    (R : ResourceRef) : Prop :=
  ∀ req now, Verifies P k h req now → Within req.resource R

/-- The handle was minted for a resource, or derived from one that was. -/
inductive GrantedFor (P : Kernel.Platform) (floatToUint64 : UInt64 → UInt64)
    (seed : Vector UInt8 32) (calls : List Call) (R : ResourceRef) :
    CapHandle → Prop
  | minted {pre post : List Call} {rights : List Right}
      {caveats : List Caveat} {id : CapId} {nonce : Vector UInt8 12}
      {h : CapHandle} (hcalls : calls = pre ++ .mint R rights caveats id nonce :: post)
      (hok : (mint P floatToUint64 (run P floatToUint64 seed pre) R rights caveats id nonce).1 =
        .ok h) : GrantedFor P floatToUint64 seed calls R h
  | attenuated {pre post : List Call} {dropRights : List Right}
      {addCaveats : List Caveat} {id : CapId} {nonce : Vector UInt8 12}
      {a h : CapHandle} (ha : GrantedFor P floatToUint64 seed calls R a)
      (hcalls : calls = pre ++ .attenuate a dropRights addCaveats id nonce :: post)
      (hok : (attenuate P floatToUint64 (run P floatToUint64 seed pre) a dropRights addCaveats id
        nonce).1 = .ok h) : GrantedFor P floatToUint64 seed calls R h

/-! ### What is granted is stored, and has no window -/

def Stored (k : SignedKernel) (h : CapHandle) : Prop :=
  ∃ e, k.byHandle.lookup h = some e

lemma stored_mint {rights : List Right} {caveats : List Caveat}
    {id : CapId} (hok : (mint P floatToUint64 k R rights caveats id nonce).1 = .ok h) :
    Stored (step P floatToUint64 k (.mint R rights caveats id nonce)) h := by
  obtain ⟨cap, hmint⟩ : ∃ cap, mint P floatToUint64 k R rights caveats id nonce =
      (if k.next = 0 then .error (Kernel.denied "mint failed") else .ok k.next,
        (Kernel.insert k cap).2) := ⟨_, rfl⟩
  rw [hmint] at hok
  dsimp only at hok
  split_ifs at hok
  cases hok
  rw [step, hmint]
  exact ⟨_, Finmap.lookup_insert _⟩

lemma stored_attenuate {a : CapHandle} {dropRights : List Right}
    {addCaveats : List Caveat} {id : CapId}
    (hok : (attenuate P floatToUint64 k a dropRights addCaveats id nonce).1 = .ok h) :
    Stored (step P floatToUint64 k (.attenuate a dropRights addCaveats id nonce)) h := by
  simp only [step, attenuate, cerberusCapAttenuate] at hok ⊢
  rcases Kernel.live_or_dead k a with ⟨e, he, hr⟩ | hdead
  · simp only [Kernel.attenuate_of_live he hr, Except.toOption, Option.getD_some] at hok ⊢
    split_ifs at hok
    cases hok
    exact ⟨_, Finmap.lookup_insert _⟩
  · cases hfst : (Kernel.attenuate P k a (rightsFromMask (rightsMask dropRights))
        (maxBytesCaveats (maxBytesCaveat floatToUint64 addCaveats)) id nonce).1 with
    | ok h' => exact absurd hfst (Kernel.attenuate_fst_of_dead hdead)
    | error err => simp [hfst, Except.toOption] at hok

lemma stored_of_append {pre post : List Call}
    (hp : Proper P seed ((pre ++ c :: post).map (Call.toKernel floatToUint64)))
    (hs : Stored (step P floatToUint64 (run P floatToUint64 seed pre) c) h) :
    Stored (run P floatToUint64 seed (pre ++ c :: post)) h := by
  have hsplit : (pre ++ c :: post).map (Call.toKernel floatToUint64) =
      (pre ++ [c]).map (Call.toKernel floatToUint64) ++
        post.map (Call.toKernel floatToUint64) := by
    rw [← List.map_append, List.append_assoc]
    rfl
  have hfirst : Stored (Kernel.run P seed ((pre ++ [c]).map (Call.toKernel floatToUint64))) h := by
    rw [← run_eq, run, runFrom_append]
    exact hs
  rw [hsplit] at hp
  rw [run_eq, hsplit]
  refine hp.keeps (J := fun k => Stored k h) (fun n k c hsound hn hst => ?_) hfirst
  obtain ⟨e, he⟩ := hst
  obtain ⟨e', he', -⟩ := hsound.exists_lookup_step hn he
  exact ⟨e', he'⟩

lemma GrantedFor.stored (hp : Proper P seed (calls.map (Call.toKernel floatToUint64)))
    (hg : GrantedFor P floatToUint64 seed calls R h) :
    Stored (run P floatToUint64 seed calls) h := by
  cases hg with
  | minted hcalls hok =>
    subst hcalls
    exact stored_of_append hp (stored_mint hok)
  | attenuated _ hcalls hok =>
    subst hcalls
    exact stored_of_append hp (stored_attenuate hok)

/-- No capability has a validity window. -/
def Windowless (k : SignedKernel) : Prop :=
  ∀ h e, k.byHandle.lookup h = some e → e.cap.nbf = 0 ∧ e.cap.exp = none

lemma windowless_issued {cap : Kernel.Capability}
    (hi : Kernel.issued P k (c.toKernel floatToUint64) = some cap) :
    cap.nbf = 0 ∧ cap.exp = none := by
  cases c with
  | mint r rights caveats id nonce =>
    cases hi
    exact ⟨rfl, rfl⟩
  | attenuate parent dropRights addCaveats id nonce =>
    rcases Kernel.live_or_dead k parent with ⟨e, he, hr⟩ | hdead
    · rw [Call.toKernel, Kernel.issued_attenuate_of_live he hr] at hi
      cases hi
      exact ⟨rfl, rfl⟩
    · rw [Call.toKernel, Kernel.issued_attenuate_of_dead hdead] at hi
      cases hi
  | revoke h => cases hi

lemma Windowless.of_step (hw : Windowless k) (c : Call) :
    Windowless (step P floatToUint64 k c) := by
  rw [step_eq]
  have hstep := Kernel.effect P k (c.toKernel floatToUint64)
  revert hstep
  generalize Kernel.step P k (c.toKernel floatToUint64) = k'
  intro hstep h e he
  cases hstep with
  | nothing _ => exact hw h e he
  | issues cap hi =>
    rcases Kernel.lookup_insert_eq_some_iff.mp he with ⟨rfl, rfl⟩ | ⟨-, he⟩
    · exact windowless_issued hi
    · exact hw h e he
  | revokes h' e' _ he' =>
    obtain ⟨e₀, he₀, hc⟩ := Kernel.lookup_flag he' he
    rw [← hc]
    exact hw h e₀ he₀

lemma windowless_run : Windowless (run P floatToUint64 seed calls) := by
  refine runFrom_keeps (fun k c hw => hw.of_step c) ?_ calls
  intro h e he
  cases he

lemma Windowless.verifyChain_eq (hw : Windowless k) {e : Kernel.SignedEntry}
    (he : k.byHandle.lookup h = some e) (now now' : UInt64) (fuel : ℕ) :
    verifyChain P k now fuel e.cap = verifyChain P k now' fuel e.cap := by
  unfold verifyChain
  -- every capability that the walk visits is stored
  refine loop_congr (I := fun c => ∃ h e, k.byHandle.lookup h = some e ∧ e.cap = c) ?_
    ⟨h, e, he, rfl⟩ fuel
  rintro c ⟨h, e, he, rfl⟩
  refine ⟨?_, fun c' hc' => ?_⟩
  · obtain ⟨hnbf, hexp⟩ := hw h e he
    simp only [Kernel.walk, hnbf, hexp, UInt64.not_lt_zero, if_false]
    rfl
  · obtain ⟨_, p, e', _, _, he', hcap⟩ := Kernel.exists_of_walk_eq_inl hc'
    exact ⟨p, e', he', hcap⟩

/-! ### Confinement -/

/-- The verdict does not depend on the resource, so a handle is confined only when it is good for
nothing. -/
lemma confined_iff_dead : Confined P k h R ↔ ∀ req now, ¬ Verifies P k h req now := by
  constructor
  · intro hconf req now hv
    -- the same request on a resource of another kind
    have hother := hconf ⟨req.op, { R with kind := R.kind ++ ⟨[0x78]⟩ }⟩ now
      (verifies_iff.mpr (verifies_iff.mp hv))
    have hlen := congrArg (fun s : GoString => s.bytes.length) hother.1
    simp at hlen
  · intro hdead req now hv
    exact absurd hv (hdead req now)

lemma verifies_of_not_revoked {n : ℕ} (hs : Kernel.Sound P n k) (hw : Windowless k)
    (hst : Stored k h) (hno : ∀ a, ReflTransGen (Kernel.Parent k) h a → ¬ Kernel.Revoked k a)
    (R : ResourceRef) : Verifies P k h ⟨⟨[]⟩, R⟩ 0 := by
  obtain ⟨e, he⟩ := hst
  rw [verifies_iff, hs.accepts_iff]
  refine ⟨⟨e, he, fun r hr => nomatch hr⟩, hs.rooted he, fun a ha => ?_⟩
  obtain ⟨e', he', -⟩ := hs.narrows_of_chain ha he
  obtain ⟨hnbf, hexp⟩ := hw a e' he'
  refine ⟨e', he', ?_, Kernel.windowOpen_always hnbf hexp⟩
  exact Bool.eq_false_of_not_eq_true fun hr => hno a ha ⟨e', he', hr⟩

/-- A handle that the daemon holds for a resource is confined to it iff no request on the
handle is accepted at all; with distinct ids and at most `2 ^ 64` capabilities, this is when the
capability or one that it was derived from is revoked. -/
theorem confined_iff_revoked (P : Kernel.Platform) (floatToUint64 : UInt64 → UInt64)
    (seed : Vector UInt8 32) (calls : List Call) (R : Contract.ResourceRef)
    (h : Contract.CapHandle) (hg : GrantedFor P floatToUint64 seed calls R h) :
    (Confined P (run P floatToUint64 seed calls) h R ↔
      ∀ req now, ¬ Verifies P (run P floatToUint64 seed calls) h req now) ∧
    (Kernel.Proper P seed (calls.map (Call.toKernel floatToUint64)) →
      (Confined P (run P floatToUint64 seed calls) h R ↔
        ∃ a, Kernel.DerivedFrom P seed (calls.map (Call.toKernel floatToUint64)) a h ∧
          Kernel.Revoked (run P floatToUint64 seed calls) a)) := by
  refine ⟨confined_iff_dead, fun hp => ?_⟩
  have hs := hp.sound
  rw [← run_eq] at hs
  rw [confined_iff_dead]
  simp only [hp.derivedFrom_iff, ← run_eq]
  constructor
  · intro hdead
    by_contra hno
    push Not at hno
    exact hdead _ _ (verifies_of_not_revoked hs windowless_run (hg.stored hp) hno R)
  · rintro ⟨a, ha, hrev⟩ req now hv
    exact hrev.not_authorized ha (hs.accepts_iff.mp (verifies_iff.mp hv))

def topicResource : ResourceRef :=
  ⟨.lit "topic", Vector.replicate 32 0, .lit "sys/revocations", none⟩

def topicCalls : List Call :=
  [.mint topicResource [.lit "read"] [] (Kernel.capId 0 0) (Vector.replicate 12 0)]

lemma grantedFor_topic (more : List Call) :
    GrantedFor Kernel.samplePlatform id Kernel.sampleSeed (topicCalls ++ more) topicResource 1 :=
  .minted (List.nil_append _).symm rfl

theorem confined_topic_iff_revoked :
    Confined Kernel.samplePlatform
      (run Kernel.samplePlatform id Kernel.sampleSeed (topicCalls ++ [.revoke 1])) 1
      topicResource := by
  have hp : Kernel.Proper Kernel.samplePlatform Kernel.sampleSeed
      ((topicCalls ++ [Call.revoke 1]).map (Call.toKernel id)) := by
    refine ⟨⟨?_, ?_, trivial⟩, by decide +kernel⟩
    · rintro cap ⟨⟩
      rfl
    · rintro cap ⟨⟩
  exact ((confined_iff_revoked _ _ _ _ _ _ (grantedFor_topic _)).2 hp).mpr
    ⟨1, .refl, _, rfl, rfl⟩

def walletRequest : Request :=
  ⟨.lit "read", ⟨.lit "wallet", Vector.replicate 32 1, .lit "/cer/wallet/main", none⟩⟩

/-- A capability minted for a topic is accepted for the wallet of another node. -/
theorem topic_opens_wallet :
    GrantedFor Kernel.samplePlatform id Kernel.sampleSeed topicCalls topicResource 1 ∧
      Verifies Kernel.samplePlatform (run Kernel.samplePlatform id Kernel.sampleSeed topicCalls) 1
        walletRequest 0 ∧
      ¬ Within walletRequest.resource topicResource := by
  refine ⟨grantedFor_topic [], ⟨1, by decide +kernel⟩, ?_⟩
  rintro ⟨hkind, -⟩
  exact absurd hkind (by decide)

end Cerberus.Ffi
