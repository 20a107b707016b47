import Cerberus.Envelope.Chain
import Cerberus.Identity.Model
import Cerberus.Kernel.Authority

/-!
# Three verifiers and one validity window

A capability with a window from `nbf` to `exp` is judged by three verifiers: `cap_verify` of the
identity crate, `verify` of the kernel, and `Verify` of the Go daemon. The kernel and the daemon
take the window as half open, `[nbf, exp)`. The identity crate takes it as closed: it still accepts
the capability at the instant of its expiry.
-/

namespace Cerberus.Identity

open Foundation

/-! ### Times -/

/-- The seconds since 1970 that both a `u64` and an `int64` can hold. -/
abbrev Time := Fin (2 ^ 63)

def Time.u64 (t : Time) : UInt64 := UInt64.ofNat t

def Time.i64 (t : Time) : Int64 := Int64.ofNat t

open Time (u64 i64)

variable {t t' : Time}

@[simp] lemma Time.u64_lt : u64 t < u64 t' ↔ t < t' := by
  have ht : (t : ℕ) < 2 ^ 64 := t.2.trans (by decide)
  have ht' : (t' : ℕ) < 2 ^ 64 := t'.2.trans (by decide)
  rw [UInt64.lt_iff_toNat_lt, u64, u64, UInt64.toNat_ofNat_of_lt' ht,
    UInt64.toNat_ofNat_of_lt' ht', Fin.lt_def]

@[simp] lemma Time.u64_le : u64 t ≤ u64 t' ↔ t ≤ t' := by
  rw [← UInt64.not_lt, Time.u64_lt, not_lt]

lemma Time.toInt_i64 (t : Time) : (i64 t).toInt = (t : ℕ) :=
  Int64.toInt_ofNat_of_lt t.2

@[simp] lemma Time.i64_lt : i64 t < i64 t' ↔ t < t' := by
  rw [Int64.lt_iff_toInt_lt, Time.toInt_i64, Time.toInt_i64, Int.ofNat_lt, Fin.lt_def]

@[simp] lemma Time.i64_le : i64 t ≤ i64 t' ↔ t ≤ t' := by
  rw [← Int64.not_lt, Time.i64_lt, not_lt]

@[simp] lemma Time.i64_eq_zero : i64 t = 0 ↔ t = 0 := by
  rw [← Int64.toInt_inj, Time.toInt_i64, Int64.toInt_zero, Int.natCast_eq_zero, Fin.ext_iff]
  rfl

/-! ### A root in three places -/

/-- A root capability with a window, as each of the verifiers gets it, with every check but that of
the window passing. -/
structure HeldRoot (P : Kernel.Platform) (H : Envelope.Host) (nbf exp : Time) where
  exp_ne_zero : exp ≠ 0
  cap : Kernel.Capability
  cap_parent : cap.parent = none
  cap_nbf : cap.nbf = u64 nbf
  cap_exp : cap.exp = some (u64 exp)
  cap_signed : verifyCapability P cap = true
  /-- The set of revoked ids that the identity crate looks at. -/
  rev : RevocationSet
  not_revoked : rev.isRevoked cap.id = false
  kernel : Kernel.SignedKernel
  handle : Kernel.CapHandle
  stored : kernel.byHandle.lookup handle = some ⟨cap, false⟩
  issued : cap.issuer = kernel.issuer
  /-- An operation that the rights of the capability allow. -/
  op : Kernel.Text
  allowed : ∀ r ∈ Kernel.rightForOp op, r ∈ cap.rights
  /-- The envelope that the daemon verifies, and the public key it does so under. -/
  env : List UInt8
  pub : List UInt8
  grant : Envelope.Grant
  sig : List UInt8
  pub_length : pub.length = 32
  decoded : Envelope.decodeEnvelopeAndSig H env = some (.ok (grant, sig))
  grant_issuer : Envelope.copyFixed 32 pub = grant.issuer
  grant_signed : H.ed25519.verifyBytes grant.issuer (Envelope.canonicalBytes H grant) sig = true
  grant_notBefore : grant.notBefore = i64 nbf
  grant_expiry : grant.expiry = i64 exp
  /-- The revocation predicate that the daemon uses. -/
  isRevoked : Option (Contract.CapID → Bool)
  unflagged : isRevoked.any (Envelope.isRevokedBy · grant) = false

variable {P : Kernel.Platform} {H : Envelope.Host} {nbf exp : Time}

namespace HeldRoot

/-- The identity crate accepts. -/
def Identifies (R : HeldRoot P H nbf exp) (now : Time) : Prop :=
  capVerify P R.cap (u64 now) R.rev = .ok ()

/-- The kernel accepts. -/
def Admits (R : HeldRoot P H nbf exp) (now : Time) : Prop :=
  Kernel.Accepts P R.kernel R.handle R.op (u64 now)

/-- The daemon accepts. -/
def Verifies (R : HeldRoot P H nbf exp) (now : Time) : Prop :=
  Envelope.verify H R.env R.pub (i64 now) R.isRevoked = some (.ok R.grant)

variable (R : HeldRoot P H nbf exp) (now : Time)

lemma identifies_iff : R.Identifies now ↔ nbf ≤ now ∧ now ≤ exp := by
  have hexp : (∃ e ∈ R.cap.exp, e < u64 now) ↔ exp < now := by
    simp [R.cap_exp]
  rw [Identifies, capVerify, R.not_revoked, if_neg Bool.false_ne_true, R.cap_nbf, R.cap_signed]
  simp only [ite_error_eq_ok_iff, Time.u64_lt, hexp, not_lt]
  simp

lemma admits_iff : R.Admits now ↔ nbf ≤ now ∧ now < exp := by
  have hopen : Kernel.WindowOpen R.cap (u64 now) ↔ nbf ≤ now ∧ now < exp := by
    simp [Kernel.WindowOpen, R.cap_nbf, R.cap_exp]
  rw [← hopen]
  have hreturns : R.Admits now ↔
      Returns (Kernel.walk P R.kernel (u64 now)) R.cap (.ok ()) := by
    refine exists_congr fun fuel => ?_
    rw [Kernel.verify_eq_verifyChain R.stored rfl R.allowed]
    rfl
  rw [hreturns]
  by_cases hw : Kernel.WindowOpen R.cap (u64 now)
  · have hwalk : Kernel.walk P R.kernel (u64 now) R.cap = .inr (.ok ()) := by
      rw [Kernel.walk_of_windowOpen (verifySig_of_verifyCapability R.cap_signed) hw, Kernel.ascend,
        R.cap_parent]
      exact if_neg (not_not.mpr R.issued)
    rw [returns_iff_of_inr hwalk]
    exact iff_of_true rfl hw
  · obtain ⟨err, hwalk⟩ := Kernel.walk_of_not_windowOpen (P := P) (k := R.kernel) hw
    rw [returns_iff_of_inr hwalk]
    exact iff_of_false (by simp) hw

lemma verifies_iff : R.Verifies now ↔ nbf ≤ now ∧ now < exp := by
  rw [Verifies, Envelope.verify, if_neg (not_not.mpr R.pub_length), R.decoded]
  simp only [Option.map_some, Option.some.injEq]
  rw [Envelope.verifyGrant, R.grant_issuer, if_neg (not_not.mpr rfl), R.grant_signed,
    if_neg (by decide), R.unflagged, R.grant_notBefore, R.grant_expiry]
  simp only [ite_error_eq_ok_iff, Time.i64_lt, Time.i64_le, ne_eq, Time.i64_eq_zero, R.exp_ne_zero]
  simp

/-- The three verifiers say the same. -/
def Agree : Prop := (R.Identifies now ↔ R.Admits now) ∧ (R.Admits now ↔ R.Verifies now)

end HeldRoot

/-- For every root capability with a window and every time, the three verifiers give the same answer
iff the time is not the instant at which the capability expires, or lies before its
start. -/
theorem verifiers_agree_iff (P : Kernel.Platform) (H : Envelope.Host) (nbf exp : Time)
    (R : HeldRoot P H nbf exp) (now : Time) : R.Agree now ↔ ¬ (now = exp ∧ nbf ≤ exp) := by
  rw [HeldRoot.Agree, R.identifies_iff, R.admits_iff, R.verifies_iff]
  constructor
  · rintro ⟨hagree, -⟩ ⟨rfl, hle⟩
    exact absurd (hagree.mp ⟨hle, le_rfl⟩).2 (lt_irrefl _)
  · intro hne
    refine ⟨⟨?_, fun ⟨hnbf, hlt⟩ => ⟨hnbf, hlt.le⟩⟩, Iff.rfl⟩
    rintro ⟨hnbf, hle⟩
    refine ⟨hnbf, hle.lt_of_ne ?_⟩
    rintro rfl
    exact hne ⟨rfl, hnbf⟩

def mintedKernel : Kernel.SignedKernel :=
  Kernel.run Kernel.samplePlatform Kernel.sampleSeed
    [.mintRoot Kernel.sampleResource [.read] [] 10 (some 10) (Kernel.capId 0 0)
      (Vector.replicate 12 0)]

def mintedCap : Kernel.Capability where
  v := 1
  id := Kernel.capId 0 0
  resource := Kernel.sampleResource
  rights := [.read]
  caveats := []
  parent := none
  issuer := Kernel.sampleSeed
  nbf := 10
  exp := some 20
  nonce := Vector.replicate 12 0
  sig := Vector.replicate 64 0

def heldSample : HeldRoot Kernel.samplePlatform Envelope.sampleHost 10 20 where
  exp_ne_zero := by decide
  cap := mintedCap
  cap_parent := rfl
  cap_nbf := rfl
  cap_exp := rfl
  cap_signed := by decide
  rev := ⟨∅⟩
  not_revoked := rfl
  kernel := mintedKernel
  handle := 1
  stored := Finmap.lookup_insert _
  issued := rfl
  op := Kernel.readOp
  allowed := by decide
  env := Envelope.sealed Envelope.sampleHost Envelope.sampleKey Envelope.sampleGrant
  pub := Envelope.sampleKey.toList
  grant := Envelope.sorted Envelope.sampleHost Envelope.sampleGrant
  sig := List.replicate 64 0
  pub_length := rfl
  decoded := Envelope.decodeEnvelopeAndSig_sealed Envelope.encodable_sampleGrant _
  grant_issuer := Envelope.copyFixed_toList _
  grant_signed := rfl
  grant_notBefore := rfl
  grant_expiry := rfl
  isRevoked := none
  unflagged := rfl

/-- At its expiry a capability is accepted by `cap_verify`, and by nobody else. -/
theorem accepted_at_expiry :
    heldSample.Identifies 20 ∧ ¬ heldSample.Admits 20 ∧ ¬ heldSample.Verifies 20 := by
  rw [heldSample.identifies_iff, heldSample.admits_iff, heldSample.verifies_iff]
  decide

end Cerberus.Identity
