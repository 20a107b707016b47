import Cerberus.Envelope.Narrowing

/-!
# Delegation chains

A chain of envelopes starts with a root grant and goes on with children issued from the envelope
before, possibly by other issuers. The ids of the chain travel in the leaf, so whoever holds only
the leaf can refuse it when any grant of the chain is revoked.

This needs the lengths and counts of the grants to be below `2 ^ 32`.
-/

namespace Cerberus.Envelope

open Foundation Contract
open List hiding Vector

/-- The grants of a chain from the root to the leaf, as they were signed, with the key of the leaf's
issuer and the leaf's envelope. -/
inductive Chain (H : Host) : List Grant → Vector UInt8 32 → List UInt8 → Prop
  | root {seed : Vector UInt8 32} {g : Grant} {id : CapID} {nonce : Vector UInt8 12}
      {env : List UInt8} (hparent : g.parent = none) (hancestors : g.ancestors = [])
      (hok : issue H (some seed) g id nonce = .ok env) :
      Chain H [filled H seed g id nonce] seed env
  | child {gs : List Grant} {seed seed' : Vector UInt8 32} {env env' sig : List UInt8}
      {parent child : Grant} {id : CapID} {nonce : Vector UInt8 12} (hc : Chain H gs seed env)
      (hdec : decodeEnvelopeAndSig H env = some (.ok (parent, sig)))
      (hok : issueAttenuated H (some seed') env child id nonce = some (.ok env')) :
      Chain H (gs ++ [filled H seed' (childOf parent child) id nonce]) seed' env'

variable {H : Host} {gs : List Grant} {leaf : Grant} {seed : Vector UInt8 32} {env : List UInt8}

/-- What the leaf of a chain of grants carries. -/
structure LeafOf (H : Host) (pre : List Grant) (leaf : Grant) (seed : Vector UInt8 32)
    (env : List UInt8) : Prop where
  /-- The envelope is the leaf's canonical form, signed with the key `seed`. -/
  env : env = sealed H seed leaf
  issuer : leaf.issuer = H.ed25519.publicKey seed
  /-- The ancestors are the ids of the grants before, the root first. -/
  ancestors : leaf.ancestors = pre.map Grant.id
  window : ∀ a ∈ pre, ∀ now, InWindow leaf now → InWindow a now

lemma of_issueAttenuated {keys : Option (Vector UInt8 32)} {parent child : Grant}
    {sig env' : List UInt8} {id : CapID} {nonce : Vector UInt8 12}
    (hdec : decodeEnvelopeAndSig H env = some (.ok (parent, sig)))
    (hok : issueAttenuated H keys env child id nonce = some (.ok env')) :
    Passes H parent (childOf parent child) ∧ ∃ seed, keys = some seed ∧
      env' = sealed H seed (filled H seed (childOf parent child) id nonce) := by
  rw [issueAttenuated, hdec] at hok
  simp only [Option.map_some, Option.some.injEq] at hok
  split at hok
  · cases hok
  · rename_i hcheck
    obtain ⟨seed, hkeys, -, henv⟩ := issue_eq_ok_iff.mp hok
    exact ⟨checkNarrower_eq_ok_iff.mp hcheck, seed, hkeys, henv⟩

theorem Chain.leafOf {l : List Grant} (hc : Chain H l seed env) (hl : ∀ g ∈ l, Encodable g) :
    ∃ pre leaf, l = pre ++ [leaf] ∧ LeafOf H pre leaf seed env := by
  induction hc with
  | root hparent hancestors hok =>
    obtain ⟨_, hkeys, -, henv⟩ := issue_eq_ok_iff.mp hok
    cases hkeys
    exact ⟨[], _, rfl, henv, rfl, hancestors, fun a ha => absurd ha not_mem_nil⟩
  | child hc hdec hok ih =>
    obtain ⟨pre, leaf, rfl, hleaf⟩ := ih fun g hg => hl g (mem_append_left _ hg)
    obtain ⟨hcheck, _, hkeys, henv⟩ := of_issueAttenuated hdec hok
    cases hkeys
    -- the parent that was decoded is the leaf of the chain so far, with its caveats sorted
    have henc : Encodable leaf := hl leaf (by simp)
    rw [hleaf.env, decodeEnvelopeAndSig_sealed henc] at hdec
    cases hdec
    refine ⟨_, _, rfl, henv, rfl, ?_, fun a ha now hw => ?_⟩
    · rw [map_append, ← hleaf.ancestors]
      rfl
    · have hparent : InWindow leaf now := hcheck.window now hw
      rcases mem_append.mp ha with ha | ha
      · exact hleaf.window a ha now hparent
      · rw [mem_singleton] at ha
        exact ha ▸ hparent

lemma isRevokedBy_of_flagged {pre : List Grant} (hleaf : LeafOf H pre leaf seed env)
    {isRevoked : CapID → Bool}
    (h : isRevoked leaf.id = true ∨ ∃ a ∈ pre, isRevoked a.id = true) :
    isRevokedBy isRevoked leaf = true := by
  rw [isRevokedBy, Bool.or_eq_true, Bool.or_eq_true]
  left
  refine h.imp_right ?_
  rintro ⟨a, ha, hrev⟩
  rw [hleaf.ancestors, any_eq_true]
  exact ⟨a.id, mem_map_of_mem ha, hrev⟩

/-- For every chain of grants with lengths and counts below `2 ^ 32` and strings as the values of
their caveats: the leaf decodes to the grant that was signed, its ancestors are the ids of the chain
from the root to its parent, its window is inside that of every ancestor, and with any predicate
that flags the leaf or an ancestor it is rejected at every time, inside its window as revoked. -/
theorem revocation_cascades (H : Host) (gs : List Grant) (leaf : Grant) (seed : Vector UInt8 32)
    (env : List UInt8) (hc : Chain H (gs ++ [leaf]) seed env)
    (hl : ∀ g ∈ gs ++ [leaf], Encodable g) :
    (∃ g sig, decodeEnvelopeAndSig H env = some (.ok (g, sig)) ∧ SameGrant g leaf ∧
      g.ancestors = gs.map Grant.id) ∧
    (∀ a ∈ gs, ∀ now, InWindow leaf now → InWindow a now) ∧
    ∀ isRevoked : CapID → Bool,
      (isRevoked leaf.id = true ∨ ∃ a ∈ gs, isRevoked a.id = true) → ∀ now,
        (∃ e, verify H env (H.ed25519.publicKey seed).toList now (some isRevoked) =
          some (.error e)) ∧
        (InWindow leaf now →
          verify H env (H.ed25519.publicKey seed).toList now (some isRevoked) =
            some (.error .revoked)) := by
  obtain ⟨pre, leaf', hsplit, hleaf⟩ := hc.leafOf hl
  obtain ⟨rfl, hlast⟩ := append_inj' hsplit rfl
  cases hlast
  have henc : Encodable leaf := hl leaf (by simp)
  refine ⟨?_, hleaf.window, fun isRevoked hflag now => ?_⟩
  · rw [hleaf.env, decodeEnvelopeAndSig_sealed henc]
    exact ⟨_, _, rfl, sameGrant_sorted leaf, hleaf.ancestors⟩
  · have hrev : (some isRevoked).any (isRevokedBy · leaf) = true :=
      isRevokedBy_of_flagged hleaf hflag
    rw [hleaf.env, verify_sealed henc hleaf.issuer, hrev, if_pos rfl]
    constructor
    · split_ifs <;> exact ⟨_, rfl⟩
    · intro hw
      rw [if_neg hw.checks.1, if_neg hw.checks.2]

/-! ### A root and its child -/

def sampleKey : Vector UInt8 32 := Vector.replicate 32 0

def sampleChild (kind : GoString) : Grant where
  id := Vector.replicate 16 2
  resource := { sampleGrant.resource with kind }
  rights := sampleGrant.rights
  caveats := sampleGrant.caveats
  issuer := sampleKey
  parent := some sampleGrant.id
  ancestors := [sampleGrant.id]
  notBefore := 10
  expiry := 20
  nonce := Vector.replicate 12 1

lemma childOf_sampleChild (kind : GoString) :
    childOf (sorted sampleHost sampleGrant) (sampleChild kind) = sampleChild kind := by
  have hres : (sampleChild kind).resource ≠ ⟨⟨[]⟩, Vector.replicate 32 0, ⟨[]⟩, none⟩ := by
    intro h
    have hpath : sampleGrant.resource.path = ⟨[]⟩ := congrArg ResourceRef.path h
    exact absurd hpath (by decide)
  rw [childOf, if_neg hres]
  rfl

lemma chain_sampleChild (kind : GoString) :
    Chain sampleHost ([sampleGrant] ++ [sampleChild kind]) sampleKey
      (sealed sampleHost sampleKey (sampleChild kind)) := by
  have hissue : issue sampleHost (some sampleKey) sampleGrant sampleGrant.id sampleGrant.nonce =
      .ok (sealed sampleHost sampleKey sampleGrant) := rfl
  have hroot : Chain sampleHost [sampleGrant] sampleKey (sealed sampleHost sampleKey sampleGrant) :=
    .root rfl rfl hissue
  have hdec := decodeEnvelopeAndSig_sealed (H := sampleHost) encodable_sampleGrant sampleKey
  have hchild := childOf_sampleChild kind
  have hok : issueAttenuated sampleHost (some sampleKey) (sealed sampleHost sampleKey sampleGrant)
      (sampleChild kind) sampleGrant.id sampleGrant.nonce =
        some (.ok (sealed sampleHost sampleKey (sampleChild kind))) := by
    rw [issueAttenuated, hdec, Option.map_some]
    simp only [hchild]
    rfl
  have hpair := hroot.child hdec hok
  rwa [hchild] at hpair

lemma encodable_sampleChild {kind : GoString} (hkind : kind.bytes.length < 2 ^ 32) :
    Encodable (sampleChild kind) where
  kind := hkind
  path := encodable_sampleGrant.path
  rightsCount := encodable_sampleGrant.rightsCount
  rights := encodable_sampleGrant.rights
  caveatsCount := encodable_sampleGrant.caveatsCount
  caveats := encodable_sampleGrant.caveats
  ancestorsCount := Nat.one_lt_two_pow (by decide)

theorem sampleChild_revocation_cascades :
    verify sampleHost (sealed sampleHost sampleKey (sampleChild (.lit "fs"))) sampleKey.toList 15
      (some (· = sampleGrant.id)) = some (.error .revoked) := by
  have henc : ∀ g ∈ [sampleGrant] ++ [sampleChild (.lit "fs")], Encodable g := by
    intro g hg
    rcases mem_pair.mp hg with rfl | rfl
    · exact encodable_sampleGrant
    · exact encodable_sampleChild (by decide)
  have h := revocation_cascades sampleHost _ _ _ _ (chain_sampleChild (.lit "fs")) henc
  exact (h.2.2 _ (.inr ⟨sampleGrant, by simp, by simp⟩) 15).2 ⟨by decide, by decide⟩

/-! ### A length of `2 ^ 32` -/

def zeroGrant (id : CapID) : Grant where
  id := id
  resource := ⟨⟨[]⟩, Vector.replicate 32 0, ⟨[]⟩, none⟩
  rights := []
  caveats := []
  issuer := Vector.replicate 32 0
  parent := none
  ancestors := []
  notBefore := 0
  expiry := 0
  nonce := Vector.replicate 12 0

lemma reads_fixed_zero {n : ℕ} (hn : n ≠ 0) :
    Reader.Reads (readFixed n) (putBytes []) (Vector.replicate n 0) := by
  have h := (Reader.reads_bytes (v := []) (by decide)).map (copyFixed n)
  rwa [copyFixed, dif_neg (fun h => hn h.symm)] at h

lemma reads_list_nil {α : Type} (item : Reader α) :
    Reader.Reads (Reader.list item) (putUint32 0) [] := by
  rw [← append_nil (putUint32 0)]
  exact (Reader.reads_u32 0).bind (Reader.reads_pure [])

lemma reads_zeroGrant (id : CapID) :
    Reader.Reads readGrant (putBytes id.toList ++ List.replicate 50 0) (zeroGrant id) :=
  (reads_fixed (by decide) id).bind <| (reads_str (s := ⟨[]⟩) (by decide)).bind <|
    (reads_fixed_zero (by decide)).bind <| (reads_str (s := ⟨[]⟩) (by decide)).bind <|
    (reads_quota none).bind <| (reads_list_nil _).bind <| (reads_list_nil _).bind <|
    (reads_fixed_zero (by decide)).bind <| (reads_parent none).bind <|
    (Reader.reads_u64 0).bind <| (Reader.reads_u64 0).bind <|
    (reads_fixed_zero (by decide)).bind <| (reads_list_nil _).map fun ancestors =>
      { zeroGrant id with ancestors }

lemma canonicalBytes_eq (H : Host) (g : Grant) : ∃ rest, canonicalBytes H g =
    [2] ++ putBytes g.id.toList ++ putBytes g.resource.kind.bytes ++ rest := by
  simp only [canonicalBytes, append_assoc]
  exact ⟨_, rfl⟩

lemma canonicalBytes_sampleChild {n : ℕ} (hmod : UInt32.ofNat n = 0) (hn : 46 ≤ n) :
    ∃ rest, n ≤ 46 + rest.length ∧
      canonicalBytes sampleHost (sampleChild ⟨List.replicate n 0⟩) =
        [2] ++ (putBytes (sampleChild ⟨[]⟩).id.toList ++ List.replicate 50 0) ++ rest := by
  -- the length field is zero, so the bytes of the kind are taken for the other fields
  have hkind : putBytes (List.replicate n 0) =
      List.replicate 50 0 ++ List.replicate (n - 46) 0 := by
    rw [putBytes, len32, length_replicate, hmod, replicate_append_replicate,
      show 50 + (n - 46) = 4 + n by omega, ← replicate_append_replicate]
    rfl
  obtain ⟨rest, hrest⟩ := canonicalBytes_eq sampleHost (sampleChild ⟨List.replicate n 0⟩)
  refine ⟨List.replicate (n - 46) 0 ++ rest, ?_, ?_⟩
  · rw [length_append, length_replicate]
    omega
  · change _ = [2] ++ _ ++ putBytes (List.replicate n 0) ++ rest at hrest
    rw [hrest, hkind]
    simp only [append_assoc]
    rfl

/-- A kind of `2 ^ 32` bytes has the length field of an empty one. The attenuation succeeds, but
the envelope of the child does not decode: it is not rejected as revoked. -/
theorem oversized_child_is_no_envelope :
    ∃ kind env, Chain sampleHost ([sampleGrant] ++ [sampleChild kind]) sampleKey env ∧
      (([sampleGrant] ++ [sampleChild kind]).map Grant.id).Nodup ∧
      (∀ g ∈ [sampleGrant] ++ [sampleChild kind], ∀ c ∈ g.caveats, ∃ s, c.val = .string s) ∧
      InWindow (sampleChild kind) 15 ∧
      verify sampleHost env sampleKey.toList 15 (some fun _ => true) =
        some (.error .badEnvelope) := by
  obtain ⟨n, hmod, hn⟩ : ∃ n : ℕ, UInt32.ofNat n = 0 ∧ 1000 ≤ n := ⟨2 ^ 32, by decide, by decide⟩
  obtain ⟨rest, hrest, hbytes⟩ := canonicalBytes_sampleChild hmod (by omega)
  have hids : [sampleGrant.id, (sampleChild ⟨[]⟩).id].Nodup := by decide
  have hwindow : InWindow (sampleChild ⟨[]⟩) 15 := ⟨by decide, by decide⟩
  refine ⟨_, _, chain_sampleChild ⟨List.replicate n 0⟩, hids, ?_, hwindow, ?_⟩
  · intro g hg c hc
    have hc' : c ∈ sampleGrant.caveats := by
      rcases mem_pair.mp hg with rfl | rfl <;> exact hc
    obtain ⟨-, s, hs, -⟩ := encodable_sampleGrant.caveats c hc'
    exact ⟨s, hs⟩
  · have hdec := decodeCanonical_of_reads (reads_zeroGrant (sampleChild ⟨[]⟩).id) rest
    have hne : canonicalBytes sampleHost (zeroGrant (sampleChild ⟨[]⟩).id) ≠
        canonicalBytes sampleHost (sampleChild ⟨List.replicate n 0⟩) := by
      intro h
      have hlen : (canonicalBytes sampleHost (zeroGrant (sampleChild ⟨[]⟩).id)).length < 200 := by
        decide +kernel
      rw [h, hbytes, length_append] at hlen
      omega
    rw [verify, if_neg (by decide), sealed, encodeEnvelope,
      decodeEnvelopeAndSig_append _ (by simp), hbytes, hdec, ← hbytes]
    simp only [Option.map_some, if_pos hne]

end Cerberus.Envelope
