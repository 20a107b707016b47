import Cerberus.Foundation.Encoding
import Cerberus.Kernel.Invariant

/-!
# Going round the handle counter

The kernel's handle counter wraps around, so a long enough run stores a capability under a handle
that is in use. Here such runs are made: `fillers m` mints `m` capabilities that matter to nobody,
and `Filled` says what is left of the kernel after it.
-/

namespace Cerberus.Kernel

open Foundation Finmap

/-- The ids that the runs below draw: eight bytes of a tag and a number. -/
def capId (tag : UInt8) (i : ℕ) : CapId :=
  ⟨(List.replicate 8 tag ++ putUint64 (UInt64.ofNat i)).toArray, by simp⟩

lemma capId_inj {tag tag' : UInt8} {i j : ℕ} (h : capId tag i = capId tag' j) :
    tag = tag' ∧ UInt64.ofNat i = UInt64.ofNat j := by
  have hlist : List.replicate 8 tag ++ putUint64 (UInt64.ofNat i) =
      List.replicate 8 tag' ++ putUint64 (UInt64.ofNat j) := by
    simpa [capId] using h
  obtain ⟨htag, hnum⟩ := List.append_inj hlist rfl
  refine ⟨(List.cons.inj htag).1, ?_⟩
  rw [← uint64_putUint64 (UInt64.ofNat i), hnum, uint64_putUint64]

def sampleResource : ResourceRef :=
  ⟨.cpu, Vector.replicate 32 0, ⟨⟨[]⟩, GoString.valid_nil⟩, none⟩

def mintCall (rights : List Right) (id : CapId) : Call :=
  .mintRoot sampleResource rights [] 0 none id (Vector.replicate 12 0)

/-- Attenuate a capability without dropping rights or adding caveats. -/
def delegateCall (parent : CapHandle) (id : CapId) : Call :=
  .attenuate parent [] [] id (Vector.replicate 12 0)

/-- Calls that move the handle counter by `m`. -/
def fillers (m : ℕ) : List Call := (List.range m).map fun i => mintCall [] (capId 1 i)

variable {P : Platform} {k k' : SignedKernel}

def mintedCap (P : Platform) (k : SignedKernel) (rights : List Right) (id : CapId) : Capability :=
  sign P k
    { v := 1, id, resource := sampleResource, rights, caveats := [], parent := none,
      issuer := k.issuer, nbf := 0, exp := none, nonce := Vector.replicate 12 0,
      sig := Vector.replicate 64 0 }

lemma step_mintCall (rights : List Right) (id : CapId) :
    step P k (mintCall rights id) = (insert k (mintedCap P k rights id)).2 := rfl

/-- What `m` fillers leave of a kernel. -/
structure Filled (m : ℕ) (k k' : SignedKernel) : Prop where
  issuer : k'.issuer = k.issuer
  signing : k'.signing = k.signing
  next : k'.next = k.next + UInt64.ofNat m
  byHandle : ∀ h, (∀ i < m, h ≠ k.next + UInt64.ofNat i) →
    k'.byHandle.lookup h = k.byHandle.lookup h
  byId : ∀ id, (∀ i < m, id ≠ capId 1 i) → k'.byId.lookup id = k.byId.lookup id

lemma Filled.step {m : ℕ} (h : Filled m k k') :
    Filled (m + 1) k (step P k' (mintCall [] (capId 1 m))) where
  issuer := h.issuer
  signing := h.signing
  next := by
    rw [step_mintCall]
    change k'.next + 1 = _
    rw [h.next, UInt64.ofNat_add]
    exact add_assoc _ _ _
  byHandle h' hh := by
    rw [step_mintCall]
    refine (lookup_insert_of_ne _ ?_).trans (h.byHandle h' fun i hi => hh i (by omega))
    rw [h.next]
    exact hh m (Nat.lt_succ_self m)
  byId id hid := by
    rw [step_mintCall]
    exact (lookup_insert_of_ne _ (hid m (Nat.lt_succ_self m))).trans
      (h.byId id fun i hi => hid i (by omega))

/-- Up to `2 ^ 64` fillers have distinct ids, and touch no other entry. -/
theorem filled_fillers (hk : ∀ i, k.byId.lookup (capId 1 i) = none) {m : ℕ} (hm : m ≤ 2 ^ 64) :
    Filled m k (runFrom (step P) k (fillers m)) ∧
      Along (step P) (FreshId P) k (fillers m) := by
  induction m with
  | zero =>
    refine ⟨⟨rfl, rfl, ?_, fun _ _ => rfl, fun _ _ => rfl⟩, trivial⟩
    exact (add_zero _).symm
  | succ m ih =>
    obtain ⟨hfill, halong⟩ := ih (by omega)
    have hsplit : fillers (m + 1) = fillers m ++ [mintCall [] (capId 1 m)] := by
      rw [fillers, List.range_succ, List.map_append]
      rfl
    rw [hsplit, runFrom_append, along_append]
    refine ⟨hfill.step, halong, ?_, trivial⟩
    rintro cap ⟨⟩
    -- the id of the next filler differs from the ids of those before it
    refine (hfill.byId _ fun i hi heq => ?_).trans (hk m)
    have hnum := congrArg UInt64.toNat (capId_inj heq).2
    rw [UInt64.toNat_ofNat', UInt64.toNat_ofNat'] at hnum
    rw [Nat.mod_eq_of_lt (by omega), Nat.mod_eq_of_lt (by omega)] at hnum
    omega

section Round

variable {m : ℕ}

lemma Filled.byId_zero (h : Filled m k k') (i : ℕ) :
    k'.byId.lookup (capId 0 i) = k.byId.lookup (capId 0 i) :=
  h.byId _ fun _ _ heq => absurd (capId_inj heq).1 (by decide)

variable (h : Filled m k k') (hnext : k.next = 3) (hm : m + 2 = 2 ^ 64)

include h hnext hm

lemma Filled.lookup_of_round {a : CapHandle} (ha : a = 1 ∨ a = 2) :
    k'.byHandle.lookup a = k.byHandle.lookup a := by
  refine h.byHandle a fun i hi heq => ?_
  have hnum := congrArg UInt64.toNat heq
  have h3 : UInt64.toNat 3 = 3 := rfl
  rw [hnext, UInt64.toNat_add, UInt64.toNat_ofNat', h3] at hnum
  rcases ha with rfl | rfl
  · have h1 : UInt64.toNat 1 = 1 := rfl
    omega
  · have h2 : UInt64.toNat 2 = 2 := rfl
    omega

lemma Filled.next_of_round : k'.next = 1 := by
  refine UInt64.toNat_inj.mp ?_
  have h3 : UInt64.toNat 3 = 3 := rfl
  have h1 : UInt64.toNat 1 = 1 := rfl
  rw [h.next, hnext, UInt64.toNat_add, UInt64.toNat_ofNat', h3, h1]
  omega

end Round

/-! ### A capability and its child -/

lemma Signed.of_eq {c : Capability} (h : Signed P k c) (hi : k'.issuer = k.issuer)
    (hs : k'.signing = k.signing) : Signed P k' c :=
  ⟨h.issuer.trans hi.symm, by rw [hs]; exact h.sig⟩

def pairCalls : List Call := [mintCall [.read] (capId 0 0), delegateCall 1 (capId 0 1)]

def firstCap (P : Platform) (seed : Vector UInt8 32) : Capability :=
  mintedCap P (withSeed P seed) [.read] (capId 0 0)

def secondCap (P : Platform) (seed : Vector UInt8 32) : Capability :=
  newChild P (withSeed P seed) (firstCap P seed) [] [] (capId 0 1) (Vector.replicate 12 0)

variable {seed : Vector UInt8 32}

/-- The child is in place, the id of its parent leads to the handle 1, and the key is that of the
seed. -/
structure HoldsChild (P : Platform) (seed : Vector UInt8 32) (k : SignedKernel) : Prop where
  issuer : k.issuer = P.ed25519.publicKey seed
  signing : k.signing = seed
  child : k.byHandle.lookup 2 = some ⟨secondCap P seed, false⟩
  firstId : k.byId.lookup (capId 0 0) = some 1
  secondId : k.byId.lookup (capId 0 1) = some 2

namespace HoldsChild

variable (h : HoldsChild P seed k)
include h

lemma key : k.issuer = P.ed25519.publicKey k.signing := by
  rw [h.issuer, h.signing]

lemma signed : Signed P k (secondCap P seed) :=
  Signed.of_eq (k := withSeed P seed) ⟨rfl, rfl⟩ h.issuer h.signing

lemma of_round {m : ℕ} (hfill : Filled m k k') (hnext : k.next = 3)
    (hm : m + 2 = 2 ^ 64) : HoldsChild P seed k' where
  issuer := hfill.issuer.trans h.issuer
  signing := hfill.signing.trans h.signing
  child := (hfill.lookup_of_round hnext hm (.inr rfl)).trans h.child
  firstId := (hfill.byId_zero 0).trans h.firstId
  secondId := (hfill.byId_zero 1).trans h.secondId

lemma of_insert (hnext : k.next = 1) {c : Capability}
    (hid : c.id = capId 0 2) : HoldsChild P seed (insert k c).2 where
  issuer := h.issuer
  signing := h.signing
  child := by
    refine (lookup_insert_of_ne _ ?_).trans h.child
    rw [hnext]
    decide
  firstId := by
    refine (lookup_insert_of_ne _ ?_).trans h.firstId
    rw [hid]
    decide
  secondId := by
    refine (lookup_insert_of_ne _ ?_).trans h.secondId
    rw [hid]
    decide

end HoldsChild

lemma byId_pairCalls_of_ne {id : CapId} (h₀ : id ≠ capId 0 0) (h₁ : id ≠ capId 0 1) :
    (run P seed pairCalls).byId.lookup id = none :=
  (lookup_insert_of_ne _ h₁).trans (lookup_insert_of_ne _ h₀)

lemma along_pairCalls : Along (step P) (FreshId P) (withSeed P seed) pairCalls := by
  refine ⟨?_, ?_, trivial⟩
  · rintro cap ⟨⟩
    rfl
  · rintro cap ⟨⟩
    rfl

lemma byId_pairCalls_filler (i : ℕ) : (run P seed pairCalls).byId.lookup (capId 1 i) = none :=
  byId_pairCalls_of_ne (fun h => absurd (capId_inj h).1 (by decide))
    fun h => absurd (capId_inj h).1 (by decide)

/-- A platform to run the kernel on, with a signature that says nothing. -/
def samplePlatform : Platform where
  ed25519 := .constant
  cbor := fun _ => []
  json := fun c => some c.op
  overflowChecks := true

def sampleSeed : Vector UInt8 32 := Vector.replicate 32 7

end Cerberus.Kernel
