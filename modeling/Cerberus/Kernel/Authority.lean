import Cerberus.Kernel.Wrap

/-!
# What the kernel authorizes

The authority of a handle is a statement about its chain of parents: the chain ends in a root, and
every capability on it is unrevoked and inside its validity window (`LiveChain`). The kernel finds
this out by walking the chain through its two tables. In a sound kernel the walk is right in both
directions and always ends, since a parent is older than its child.

A kernel that goes once round its handle counter may walk a chain for ever.
-/

namespace Cerberus.Kernel

open Foundation Relation

/-- The time is in the half-open window. -/
def WindowOpen (c : Capability) (now : UInt64) : Prop := c.nbf ≤ now ∧ ∀ exp ∈ c.exp, now < exp

/-- The entry is unrevoked and inside its validity window. -/
def InForce (e : SignedEntry) (now : UInt64) : Prop := e.revoked = false ∧ WindowOpen e.cap now

/-- The entry of a handle names that of another one as its parent. -/
def Parent (k : SignedKernel) (h p : CapHandle) : Prop :=
  ∃ e e', k.byHandle.lookup h = some e ∧ k.byHandle.lookup p = some e' ∧
    e.cap.parent = some e'.cap.id

/-- The chain of a handle ends in a root and holds at every link. -/
structure LiveChain (k : SignedKernel) (now : UInt64) (h : CapHandle) : Prop where
  rooted : ∃ r e, ReflTransGen (Parent k) h r ∧ k.byHandle.lookup r = some e ∧ e.cap.parent = none
  inForce : ∀ a, ReflTransGen (Parent k) h a →
    ∃ e, k.byHandle.lookup a = some e ∧ InForce e now

/-- The handle is known, it has the right that the operation needs, and its chain is live. -/
structure Authorized (k : SignedKernel) (h : CapHandle) (op : Text) (now : UInt64) : Prop where
  rights : ∃ e, k.byHandle.lookup h = some e ∧ ∀ r ∈ rightForOp op, r ∈ e.cap.rights
  chain : LiveChain k now h

/-- Verification ends and grants the operation. -/
def Accepts (P : Platform) (k : SignedKernel) (h : CapHandle) (op : Text) (now : UInt64) : Prop :=
  ∃ fuel, verify P k fuel h op now = some (.ok ())

variable {P : Platform} {k : SignedKernel} {n : ℕ} {h p : CapHandle} {e e' : SignedEntry}
  {now : UInt64}

variable {c : Capability}

lemma windowOpen_always (hnbf : c.nbf = 0) (hexp : c.exp = none) : WindowOpen c now := by
  refine ⟨?_, fun exp h => ?_⟩
  · rw [hnbf]
    exact UInt64.zero_le
  · rw [hexp] at h
    cases h

/-! ### Chains -/

section

variable (he : k.byHandle.lookup h = some e) (hroot : e.cap.parent = none)
include he hroot

lemma not_parent_of_root : ¬ Parent k h p := by
  rintro ⟨e₁, e₂, h₁, -, hp⟩
  rw [he] at h₁
  cases h₁
  rw [hroot] at hp
  cases hp

lemma liveChain_root_iff : LiveChain k now h ↔ InForce e now := by
  constructor
  · intro hl
    obtain ⟨e₁, h₁, hf⟩ := hl.inForce h .refl
    rw [he] at h₁
    cases h₁
    exact hf
  · intro hf
    refine ⟨⟨h, e, .refl, he, hroot⟩, fun a ha => ?_⟩
    rcases ReflTransGen.cases_head ha with rfl | ⟨p, hp, -⟩
    · exact ⟨e, he, hf⟩
    · exact absurd hp (not_parent_of_root he hroot)

end

lemma Sound.parent_unique (hs : Sound P n k) {p' : CapHandle} (hp : Parent k h p)
    (hp' : Parent k h p') : p' = p := by
  obtain ⟨e₁, e₂, h₁, h₂, hpar⟩ := hp
  obtain ⟨e₃, e₄, h₃, h₄, hpar'⟩ := hp'
  rw [h₁] at h₃
  cases h₃
  rw [hpar] at hpar'
  exact hs.handle_unique h₄ h₂ (Option.some.inj hpar').symm

lemma Sound.liveChain_child_iff (hs : Sound P n k) (he : k.byHandle.lookup h = some e)
    (hp : Parent k h p) : LiveChain k now h ↔ InForce e now ∧ LiveChain k now p := by
  constructor
  · intro hl
    obtain ⟨e₁, h₁, hf⟩ := hl.inForce h .refl
    rw [he] at h₁
    cases h₁
    refine ⟨hf, ?_, fun a ha => hl.inForce a (.head hp ha)⟩
    obtain ⟨r, er, hr, her, hroot⟩ := hl.rooted
    rcases ReflTransGen.cases_head hr with rfl | ⟨q, hq, hqr⟩
    · exact absurd hp (not_parent_of_root her hroot)
    · exact ⟨r, er, hs.parent_unique hp hq ▸ hqr, her, hroot⟩
  · rintro ⟨hf, hl⟩
    obtain ⟨r, er, hr, her, hroot⟩ := hl.rooted
    refine ⟨⟨r, er, .head hp hr, her, hroot⟩, fun a ha => ?_⟩
    rcases ReflTransGen.cases_head ha with rfl | ⟨q, hq, hqa⟩
    · exact ⟨e, he, hf⟩
    · exact hl.inForce a (hs.parent_unique hp hq ▸ hqa)

/-! ### The walk -/

lemma verifySig_of_signed (hiss : k.issuer = P.ed25519.publicKey k.signing) (h : Signed P k c) :
    verifySig P c = .ok () := by
  rw [verifySig, h.issuer, h.sig, hiss, P.ed25519.isKey_publicKey, P.ed25519.verify_sign]
  rfl

lemma walk_of_not_windowOpen (hw : ¬ WindowOpen c now) :
    ∃ err, walk P k now c = .inr (.error err) := by
  rw [walk]
  by_cases hn : now < c.nbf
  · rw [if_pos hn]
    exact ⟨_, rfl⟩
  · rw [if_neg hn]
    have hexp : ∃ exp ∈ c.exp, exp ≤ now := by
      by_contra hno
      push Not at hno
      exact hw ⟨UInt64.not_lt.mp hn, fun exp hexp => UInt64.not_le.mp (hno exp hexp)⟩
    rw [if_pos hexp]
    exact ⟨_, rfl⟩

lemma walk_of_windowOpen (hsig : verifySig P c = .ok ()) (hw : WindowOpen c now) :
    walk P k now c = ascend P k c := by
  have hnbf : ¬ now < c.nbf := UInt64.not_lt.mpr hw.1
  have hexp : ¬ ∃ exp ∈ c.exp, exp ≤ now := by
    rintro ⟨exp, hexp, hle⟩
    exact UInt64.not_le.mpr (hw.2 exp hexp) hle
  rw [walk, if_neg hnbf, if_neg hexp, hsig]

lemma ascend_of_parent {id : CapId} (hpar : c.parent = some id) (hid : k.byId.lookup id = some p)
    (he' : k.byHandle.lookup p = some e') (hnar : Narrows c e'.cap) :
    ascend P k c = if e'.revoked then .inr (.error revoked) else .inl e'.cap := by
  have hrights : ∀ r ∈ c.rights, r ∈ e'.cap.rights := fun r hr => hnar.rights hr
  have hcav : ∀ c' ∈ e'.cap.caveats, caveatKey P c' ∈ c.caveats.map (caveatKey P) :=
    fun c' hc' => List.mem_map_of_mem (hnar.caveats.subset hc')
  rw [ascend, hpar]
  simp only [hid, he']
  rw [if_neg (not_not.mpr hrights), if_neg (not_not.mpr hcav)]

section

variable (hs : Sound P n k) (he : k.byHandle.lookup h = some e)
include hs he

lemma Sound.walk_eq_ascend (hw : WindowOpen e.cap now) : walk P k now e.cap = ascend P k e.cap :=
  walk_of_windowOpen (verifySig_of_signed hs.issuer (hs.signed h e he)) hw

lemma Sound.walk_root (hw : WindowOpen e.cap now) (hroot : e.cap.parent = none) :
    walk P k now e.cap = .inr (.ok ()) := by
  rw [hs.walk_eq_ascend he hw, ascend, hroot]
  exact if_neg (not_not.mpr (hs.signed h e he).issuer)

lemma Sound.walk_child (hw : WindowOpen e.cap now) (he' : k.byHandle.lookup p = some e')
    (hpar : e.cap.parent = some e'.cap.id) :
    walk P k now e.cap = if e'.revoked then .inr (.error revoked) else .inl e'.cap := by
  obtain ⟨q, e₁, hq, hqid, -, hnar⟩ := hs.parent h e he e'.cap.id hpar
  obtain rfl : q = p := hs.handle_unique hq he' hqid
  rw [hq] at he'
  cases he'
  rw [hs.walk_eq_ascend he hw, ascend_of_parent hpar (hs.indexed q e' hq) hq hnar]

lemma Sound.exists_parent (hpar : e.cap.parent ≠ none) :
    ∃ p e', k.byHandle.lookup p = some e' ∧ e.cap.parent = some e'.cap.id ∧ age p < age h := by
  obtain ⟨id, hid⟩ := Option.ne_none_iff_exists'.mp hpar
  obtain ⟨p, e', hp, hpid, hage, -⟩ := hs.parent h e he id hid
  exact ⟨p, e', hp, by rw [hid, hpid], hage⟩

lemma Sound.rooted :
    ∃ r e, ReflTransGen (Parent k) h r ∧ k.byHandle.lookup r = some e ∧ e.cap.parent = none := by
  induction ha : age h using Nat.strong_induction_on generalizing h e with
  | _ a ih =>
    by_cases hroot : e.cap.parent = none
    · exact ⟨h, e, .refl, he, hroot⟩
    · obtain ⟨p, e', he', hpar, hage⟩ := hs.exists_parent he hroot
      obtain ⟨r, er, hr, her, hrt⟩ := ih (age p) (ha ▸ hage) he' rfl
      exact ⟨r, er, .head ⟨e, e', he, he', hpar⟩ hr, her, hrt⟩

/-- The walk from an unrevoked entry succeeds iff the chain is live. -/
theorem Sound.returns_walk_iff
    (hr : e.revoked = false) : Returns (walk P k now) e.cap (.ok ()) ↔ LiveChain k now h := by
  induction ha : age h using Nat.strong_induction_on generalizing h e with
  | _ a ih =>
    by_cases hw : WindowOpen e.cap now
    · by_cases hroot : e.cap.parent = none
      · rw [returns_iff_of_inr (hs.walk_root he hw hroot), liveChain_root_iff he hroot]
        exact ⟨fun _ => ⟨hr, hw⟩, fun _ => rfl⟩
      · obtain ⟨p, e', he', hpar, hage⟩ := hs.exists_parent he hroot
        have hchain : LiveChain k now h ↔ InForce e now ∧ LiveChain k now p :=
          hs.liveChain_child_iff he ⟨e, e', he, he', hpar⟩
        have hwalk := hs.walk_child he hw he' hpar
        cases hr' : e'.revoked with
        | true =>
          rw [hr', if_pos rfl] at hwalk
          rw [returns_iff_of_inr hwalk, hchain]
          refine ⟨fun habs => (nomatch habs), ?_⟩
          rintro ⟨-, hl⟩
          obtain ⟨e₁, h₁, hf, -⟩ := hl.inForce p .refl
          rw [he'] at h₁
          cases h₁
          rw [hr'] at hf
          cases hf
        | false =>
          rw [hr', if_neg Bool.false_ne_true] at hwalk
          rw [returns_iff_of_inl hwalk, hchain, ih (age p) (ha ▸ hage) he' hr' rfl]
          exact ⟨fun hl => ⟨⟨hr, hw⟩, hl⟩, And.right⟩
    · obtain ⟨err, hwalk⟩ := walk_of_not_windowOpen (P := P) (k := k) hw
      rw [returns_iff_of_inr hwalk]
      refine ⟨fun habs => (nomatch habs), fun hl => ?_⟩
      obtain ⟨e₁, h₁, -, hopen⟩ := hl.inForce h .refl
      rw [he] at h₁
      cases h₁
      exact absurd hopen hw

theorem Sound.exists_returns_walk : ∃ r, Returns (walk P k now) e.cap r := by
  -- a round goes to an older entry
  refine exists_returns (n := age h)
    (I := fun a c => ∃ h e, k.byHandle.lookup h = some e ∧ e.cap = c ∧ age h = a) ?_
    ⟨h, e, he, rfl, rfl⟩
  rintro a c c' ⟨h, e, he, rfl, rfl⟩ hround
  by_cases hw : WindowOpen e.cap now
  · by_cases hroot : e.cap.parent = none
    · rw [hs.walk_root he hw hroot] at hround
      cases hround
    · obtain ⟨p, e', he', hpar, hage⟩ := hs.exists_parent he hroot
      rw [hs.walk_child he hw he' hpar] at hround
      split at hround
      · cases hround
      · cases hround
        exact ⟨age p, hage, p, e', he', rfl, rfl⟩
  · obtain ⟨err, hwalk⟩ := walk_of_not_windowOpen (P := P) (k := k) hw
    rw [hwalk] at hround
    cases hround

end

/-! ### Verification -/

variable {op : Text}

lemma verify_eq_verifyChain (he : k.byHandle.lookup h = some e) (hr : e.revoked = false)
    (hop : ∀ r ∈ rightForOp op, r ∈ e.cap.rights) (fuel : ℕ) :
    verify P k fuel h op now = verifyChain P k now fuel e.cap := by
  have hop' : ¬ ∃ req ∈ rightForOp op, req ∉ e.cap.rights := by
    rintro ⟨r, hreq, hno⟩
    exact hno (hop r hreq)
  rw [verify, he]
  dsimp only
  rw [hr, if_neg Bool.false_ne_true, if_neg hop']

lemma verify_eq_error (hno : ¬ ∃ e, k.byHandle.lookup h = some e ∧ e.revoked = false ∧
    ∀ r ∈ rightForOp op, r ∈ e.cap.rights) :
    ∃ err, ∀ fuel, verify P k fuel h op now = some (.error err) := by
  simp only [verify]
  cases he : k.byHandle.lookup h with
  | none => exact ⟨_, fun _ => rfl⟩
  | some e =>
    dsimp only
    by_cases hr : e.revoked = true
    · simp only [if_pos hr]
      exact ⟨_, fun _ => rfl⟩
    · simp only [if_neg hr]
      have hop : ∃ req ∈ rightForOp op, req ∉ e.cap.rights := by
        by_contra hall
        push Not at hall
        exact hno ⟨e, he, Bool.eq_false_of_not_eq_true hr, hall⟩
      simp only [if_pos hop]
      exact ⟨_, fun _ => rfl⟩

lemma verify_eq_ok_iff {fuel : ℕ} : verify P k fuel h op now = some (.ok ()) ↔
      ∃ e, k.byHandle.lookup h = some e ∧ e.revoked = false ∧
        (∀ r ∈ rightForOp op, r ∈ e.cap.rights) ∧
        verifyChain P k now fuel e.cap = some (.ok ()) := by
  constructor
  · intro hok
    by_cases hlive : ∃ e, k.byHandle.lookup h = some e ∧ e.revoked = false ∧
        ∀ r ∈ rightForOp op, r ∈ e.cap.rights
    · obtain ⟨e, he, hr, hop⟩ := hlive
      rw [verify_eq_verifyChain he hr hop] at hok
      exact ⟨e, he, hr, hop, hok⟩
    · obtain ⟨err, herr⟩ : ∃ err, ∀ fuel, verify P k fuel h op now = some (.error err) :=
        verify_eq_error hlive
      rw [herr] at hok
      cases hok
  · rintro ⟨e, he, hr, hop, hchain⟩
    rw [verify_eq_verifyChain he hr hop]
    exact hchain

theorem Sound.accepts_iff (hs : Sound P n k) : Accepts P k h op now ↔ Authorized k h op now := by
  by_cases hok : ∃ e, k.byHandle.lookup h = some e ∧ e.revoked = false ∧
      ∀ r ∈ rightForOp op, r ∈ e.cap.rights
  · obtain ⟨e, he, hr, hop⟩ := hok
    have hwalk : Returns (walk P k now) e.cap (.ok ()) ↔ LiveChain k now h :=
      hs.returns_walk_iff he hr
    constructor
    · rintro ⟨fuel, hfuel⟩
      rw [verify_eq_verifyChain he hr hop] at hfuel
      exact ⟨⟨e, he, hop⟩, hwalk.mp ⟨fuel, hfuel⟩⟩
    · intro hauth
      obtain ⟨fuel, hfuel⟩ := hwalk.mpr hauth.chain
      exact ⟨fuel, (verify_eq_verifyChain he hr hop fuel).trans hfuel⟩
  · obtain ⟨err, herr⟩ : ∃ err, ∀ fuel, verify P k fuel h op now = some (.error err) :=
      verify_eq_error hok
    constructor
    · rintro ⟨fuel, hfuel⟩
      rw [herr fuel] at hfuel
      cases hfuel
    · intro hauth
      obtain ⟨e, he, hop⟩ := hauth.rights
      obtain ⟨e₁, h₁, hr, -⟩ := hauth.chain.inForce h .refl
      rw [he] at h₁
      cases h₁
      exact absurd ⟨e, he, hr, hop⟩ hok

theorem Sound.exists_verify (hs : Sound P n k) (h : CapHandle) (op : Text) (now : UInt64) :
    ∃ fuel r, verify P k fuel h op now = some r := by
  by_cases hok : ∃ e, k.byHandle.lookup h = some e ∧ e.revoked = false ∧
      ∀ r ∈ rightForOp op, r ∈ e.cap.rights
  · obtain ⟨e, he, hr, hop⟩ := hok
    obtain ⟨r, fuel, hfuel⟩ : ∃ r, Returns (walk P k now) e.cap r := hs.exists_returns_walk he
    exact ⟨fuel, r, (verify_eq_verifyChain he hr hop fuel).trans hfuel⟩
  · obtain ⟨err, herr⟩ : ∃ err, ∀ fuel, verify P k fuel h op now = some (.error err) :=
      verify_eq_error hok
    exact ⟨0, _, herr 0⟩

/-- In every run with distinct ids that stores at most `2 ^ 64` capabilities, the kernel accepts an
operation on a handle iff the handle is known, has the right for the operation and has a
live chain; and verification always ends. -/
theorem verify_iff_authorized (P : Platform) (seed : Vector UInt8 32) (calls : List Call)
    (hp : Proper P seed calls) (h : CapHandle) (op : Text) (now : UInt64) :
    (Accepts P (run P seed calls) h op now ↔ Authorized (run P seed calls) h op now) ∧
      ∃ fuel r, verify P (run P seed calls) fuel h op now = some r :=
  ⟨hp.sound.accepts_iff, hp.sound.exists_verify h op now⟩

def readOp : Text := ⟨.lit "read", by decide⟩

theorem verify_pair_iff_authorized :
    Proper samplePlatform sampleSeed pairCalls ∧
      (Accepts samplePlatform (run samplePlatform sampleSeed pairCalls) 2 readOp 0 ↔
        Authorized (run samplePlatform sampleSeed pairCalls) 2 readOp 0) := by
  have hp : Proper samplePlatform sampleSeed pairCalls :=
    ⟨along_pairCalls, by decide +kernel⟩
  exact ⟨hp, (verify_iff_authorized _ _ _ hp 2 readOp 0).1⟩

/-! ### A chain that runs into itself -/

/-- The child of a capability is delegated once more after the counter has gone round, and its child
takes the handle of its parent. -/
def loopingCalls : List Call :=
  pairCalls ++ fillers (2 ^ 64 - 2) ++ [delegateCall 2 (capId 0 2)]

variable {seed : Vector UInt8 32}

lemma walk_secondCap (h : HoldsChild P seed k) (hone : k.byHandle.lookup 1 = some ⟨c, false⟩)
    (hnar : Narrows (secondCap P seed) c) : walk P k 0 (secondCap P seed) = .inl c := by
  rw [walk_of_windowOpen (verifySig_of_signed h.key h.signed) (windowOpen_always rfl rfl)]
  exact ascend_of_parent rfl h.firstId hone hnar

section

variable {m : ℕ} {k' : SignedKernel}
  (hfill : Filled m (run P seed pairCalls) k') (hm : m + 2 = 2 ^ 64)

include hfill hm

lemma holdsChild_of_round : HoldsChild P seed k' :=
  HoldsChild.of_round ⟨rfl, rfl, rfl, rfl, rfl⟩ hfill rfl hm

lemma step_delegateCall_of_round : step P k' (delegateCall 2 (capId 0 2)) =
    (insert k' (newChild P k' (secondCap P seed) [] [] (capId 0 2) (Vector.replicate 12 0))).2 := by
  rw [delegateCall, step, attenuate_of_live (holdsChild_of_round hfill hm).child rfl]

lemma verify_eq_none_of_round (fuel : ℕ) :
    verify P (step P k' (delegateCall 2 (capId 0 2))) fuel 1 readOp 0 = none := by
  rw [step_delegateCall_of_round hfill hm]
  have hnext : k'.next = 1 := hfill.next_of_round rfl hm
  set c := secondCap P seed with hc
  set g := newChild P k' c [] [] (capId 0 2) (Vector.replicate 12 0) with hg
  set k₁ := (insert k' g).2 with hk₁
  have hchild : HoldsChild P seed k₁ := (holdsChild_of_round hfill hm).of_insert hnext rfl
  have hone : k₁.byHandle.lookup 1 = some ⟨g, false⟩ := by
    rw [← hnext]
    exact Finmap.lookup_insert _
  have hsg : Signed P k₁ g := ⟨rfl, rfl⟩
  have hrights : g.rights = c.rights := rfl
  have hgc : walk P k₁ 0 g = .inl c := by
    rw [walk_of_windowOpen (verifySig_of_signed hchild.key hsg) (windowOpen_always rfl rfl)]
    exact ascend_of_parent rfl hchild.secondId hchild.child (narrows_newChild _ _ _ _ _)
  have hcg : walk P k₁ 0 c = .inl g :=
    walk_secondCap hchild hone ⟨rfl, hrights ▸ List.Subset.refl _, List.nil_prefix⟩
  have hop : ∀ r ∈ rightForOp readOp, r ∈ g.rights := by
    intro r hr
    cases hr
    exact List.mem_singleton_self _
  rw [verify_eq_verifyChain hone rfl hop]
  refine loop_eq_none (I := fun x => x = g ∨ x = c) ?_ (.inl rfl) fuel
  rintro x (rfl | rfl)
  · exact ⟨c, hgc, .inr rfl⟩
  · exact ⟨g, hcg, .inl rfl⟩

lemma along_loopingCalls_of_round : FreshId P k' (delegateCall 2 (capId 0 2)) := by
  intro cap hcap
  rw [delegateCall, issued_attenuate_of_live (holdsChild_of_round hfill hm).child rfl] at hcap
  cases hcap
  exact (hfill.byId_zero 2).trans rfl

end

/-- A run with distinct ids after which the walk from the handle 1 never ends. -/
theorem walk_never_ends :
    Along (step samplePlatform) (FreshId samplePlatform)
        (withSeed samplePlatform sampleSeed) loopingCalls ∧
      ∀ fuel, verify samplePlatform (run samplePlatform sampleSeed loopingCalls) fuel 1
        readOp 0 = none := by
  obtain ⟨m, hm⟩ : ∃ m, m = 2 ^ 64 - 2 := ⟨_, rfl⟩
  obtain ⟨hfill, halong⟩ := filled_fillers (P := samplePlatform)
    (k := run samplePlatform sampleSeed pairCalls) byId_pairCalls_filler
    (m := m) (by omega)
  rw [loopingCalls, ← hm, run, runFrom_append, along_append, along_append, runFrom_append]
  refine ⟨⟨⟨along_pairCalls, halong⟩, ?_, trivial⟩, fun fuel => ?_⟩
  · exact along_loopingCalls_of_round hfill (by omega)
  · exact verify_eq_none_of_round hfill (by omega) fuel

end Cerberus.Kernel
