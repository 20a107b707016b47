import Cerberus.Envelope.Model

/-!
# The envelope codec

The canonical form of a grant reads back, field by field, to the grant with its caveats sorted; so
the canonical form determines the grant up to the order of its caveats, and an envelope decodes to
what was encoded. In the other direction, decoding any bytes stays inside the buffer, the counts in
them cannot make it loop for longer than there are bytes, and what it accepts is in canonical form.
-/

namespace Cerberus.Envelope

open Foundation Contract
open List hiding Vector

open Reader (Reads Safe reads_u8 reads_u64 safe_u64 reads_pure list reads_list safe_u8 safe_list)

variable {H : Host} {g g' : Grant}

/-! ### Fields -/

variable {n : ℕ} {sig : List UInt8} {now : Int64} {seed : Vector UInt8 32}

@[simp] lemma copyFixed_toList (v : Vector UInt8 n) : copyFixed n v.toList = v := by
  have hlen : v.toList.length = n := by simp
  rw [copyFixed, dif_pos hlen]
  exact Vector.toArray_inj.mp Array.toArray_toList

lemma reads_fixed (hn : n < 2 ^ 32) (v : Vector UInt8 n) :
    Reads (readFixed n) (putBytes v.toList) v := by
  have h := (Reader.reads_bytes (v := v.toList) (by simpa using hn)).map (copyFixed n)
  rwa [copyFixed_toList] at h

lemma reads_str {s : GoString} (hs : s.bytes.length < 2 ^ 32) :
    Reads readStr (putBytes s.bytes) s :=
  (Reader.reads_bytes hs).map GoString.mk

lemma reads_quota (q : Option Quota) : Reads readQuota (putQuota q) q := by
  cases q with
  | none => exact (reads_u8 0).bind (reads_pure none)
  | some q =>
    rw [putQuota, append_assoc, append_assoc]
    exact (reads_u8 1).bind <| (reads_u64 q.bytes).bind <|
      (reads_u64 q.flops).bind <| (reads_u64 q.secs).map fun secs =>
        some (⟨q.bytes, q.flops, secs⟩ : Quota)

lemma reads_parent (p : Option CapID) : Reads readParent (putParent p) p := by
  cases p with
  | none => exact (reads_u8 0).bind (reads_pure none)
  | some p => exact (reads_u8 1).bind ((reads_fixed (by decide) p).map some)

/-- The lengths of a caveat fit, and its value is a string. -/
def CaveatOk (c : Caveat) : Prop :=
  c.op.bytes.length < 2 ^ 32 ∧ ∃ s, c.val = .string s ∧ s.bytes.length < 2 ^ 32

lemma reads_caveat {c : Caveat} (hc : CaveatOk c) :
    Reads readCaveat (putCaveat H c) c := by
  obtain ⟨op, val⟩ := c
  obtain ⟨hop, s, hval, hs⟩ := hc
  cases hval
  exact (reads_str hop).bind ((reads_str hs).map fun val => (⟨op, .string val⟩ : Caveat))

/-! ### Grants -/

/-- The lengths and counts of the grant are below `2 ^ 32`, and its caveats have strings as
values. -/
structure Encodable (g : Grant) : Prop where
  kind : g.resource.kind.bytes.length < 2 ^ 32
  path : g.resource.path.bytes.length < 2 ^ 32
  rightsCount : g.rights.length < 2 ^ 32
  rights : ∀ r ∈ g.rights, r.bytes.length < 2 ^ 32
  caveatsCount : g.caveats.length < 2 ^ 32
  caveats : ∀ c ∈ g.caveats, CaveatOk c
  ancestorsCount : g.ancestors.length < 2 ^ 32

/-- The grant as its canonical form reads back. -/
def sorted (H : Host) (g : Grant) : Grant := { g with caveats := H.sort.sort g.caveats }

lemma reads_grant (hg : Encodable g) :
    ∃ fields, canonicalBytes H g = [2] ++ fields ∧ Reads readGrant fields (sorted H g) := by
  have hrights : Reads (list readStr)
      (putList (fun r : Right => putBytes r.bytes) g.rights) g.rights :=
    reads_list hg.rightsCount fun r hr => reads_str (hg.rights r hr)
  have hcaveats : Reads (list readCaveat)
      (putList (putCaveat H) (H.sort.sort g.caveats)) (H.sort.sort g.caveats) :=
    reads_list (by rw [H.sort.length_sort]; exact hg.caveatsCount) fun c hc =>
      reads_caveat (hg.caveats c (H.sort.mem_sort.mp hc))
  have hancestors : Reads (list (readFixed 16))
      (putList (fun a : CapID => putBytes a.toList) g.ancestors) g.ancestors :=
    reads_list hg.ancestorsCount fun a _ => reads_fixed (by decide) a
  refine ⟨_, ?_, (reads_fixed (by decide) g.id).bind <| (reads_str hg.kind).bind <|
    (reads_fixed (by decide) g.resource.node).bind <| (reads_str hg.path).bind <|
    (reads_quota g.resource.quota).bind <| hrights.bind <| hcaveats.bind <|
    (reads_fixed (by decide) g.issuer).bind <| (reads_parent g.parent).bind <|
    (reads_u64 g.notBefore.toUInt64).bind <| (reads_u64 g.expiry.toUInt64).bind <|
    (reads_fixed (by decide) g.nonce).bind <| hancestors.map fun ancestors =>
      ({ sorted H g with ancestors } : Grant)⟩
  simp only [canonicalBytes, append_assoc]

lemma decodeCanonical_of_reads {fields : List UInt8} (h : Reads readGrant fields g)
    (rest : List UInt8) : decodeCanonical ([2] ++ fields ++ rest) = some (.ok g) := by
  have hread : Reads readCanonical ([2] ++ (fields ++ [])) (.ok g) :=
    (reads_u8 2).bind <| h.bind <| .of_failed <| reads_pure _
  rw [append_nil] at hread
  obtain ⟨r, hr⟩ := hread (Cursor.start ([2] ++ fields ++ rest)) rfl (Nat.zero_le _)
    (prefix_append _ rest)
  rw [decodeCanonical, hr]
  rfl

lemma decodeCanonical_canonicalBytes (hg : Encodable g) :
    decodeCanonical (canonicalBytes H g) = some (.ok (sorted H g)) := by
  obtain ⟨fields, hfields, hread⟩ := reads_grant (H := H) hg
  rw [hfields, ← append_nil ([2] ++ fields)]
  exact decodeCanonical_of_reads hread []

@[simp] lemma canonicalBytes_sorted (g : Grant) :
    canonicalBytes H (sorted H g) = canonicalBytes H g := by
  simp only [canonicalBytes, sorted, KeySort.sort_sort]

lemma slice?_envelope (pre : List UInt8) (hsig : sig.length = 64) :
    slice? (pre ++ sig) 0 ((pre ++ sig).length - 64) = some pre ∧
      slice? (pre ++ sig) ((pre ++ sig).length - 64) (pre ++ sig).length = some sig := by
  have hlen : (pre ++ sig).length - 64 = pre.length := by
    rw [length_append]
    omega
  rw [hlen]
  constructor
  · rw [slice?, if_pos ⟨Nat.zero_le _, by simp⟩]
    simp
  · rw [slice?, if_pos ⟨by simp, le_rfl⟩]
    simp

lemma decodeEnvelopeAndSig_append (pre : List UInt8) (hsig : sig.length = 64) :
    decodeEnvelopeAndSig H (pre ++ sig) = (decodeCanonical pre).map fun
      | .error e => .error e
      | .ok g => if canonicalBytes H g ≠ pre then .error .badEnvelope else .ok (g, sig) := by
  obtain ⟨hpre, hcut⟩ := slice?_envelope pre hsig
  have hlen : ¬ (pre ++ sig).length < 64 := by
    rw [length_append]
    omega
  rw [decodeEnvelopeAndSig, if_neg hlen, hpre, hcut]
  simp only [Option.bind_eq_bind, Option.bind_some]
  cases decodeCanonical pre with
  | none => rfl
  | some r => cases r <;> rfl

/-- Decoding an envelope gives back its grant, with the caveats sorted, and its signature. -/
theorem decodeEnvelopeAndSig_encodeEnvelope (hg : Encodable g) (sig : List UInt8)
    (hsig : sig.length = 64) :
    decodeEnvelopeAndSig H (encodeEnvelope H g sig) = some (.ok (sorted H g, sig)) := by
  rw [encodeEnvelope, decodeEnvelopeAndSig_append _ hsig, decodeCanonical_canonicalBytes hg]
  simp

/-- Equal up to the order of the caveats. -/
def SameGrant (g' g : Grant) : Prop :=
  g'.caveats.Perm g.caveats ∧ { g' with caveats := g.caveats } = g

lemma sameGrant_sorted (g : Grant) : SameGrant (sorted H g) g := ⟨H.sort.perm _, rfl⟩

/-- The canonical form determines the grant up to the order of its caveats. -/
theorem sameGrant_of_canonicalBytes_eq (hg : Encodable g) (hg' : Encodable g')
    (h : canonicalBytes H g' = canonicalBytes H g) : SameGrant g' g := by
  have hdec := decodeCanonical_canonicalBytes (H := H) hg
  rw [← h, decodeCanonical_canonicalBytes hg', Option.some.injEq, Except.ok.injEq] at hdec
  have hcav : H.sort.sort g'.caveats = H.sort.sort g.caveats := congrArg Grant.caveats hdec
  refine ⟨(H.sort.perm _).symm.trans (hcav ▸ H.sort.perm _), ?_⟩
  exact congrArg (fun x : Grant => { x with caveats := g.caveats }) hdec

/-! ### Verification of an issued envelope -/

def InWindow (g : Grant) (now : Int64) : Prop :=
  g.notBefore ≤ now ∧ (g.expiry = 0 ∨ now < g.expiry)

lemma InWindow.checks (hw : InWindow g now) :
    ¬ now < g.notBefore ∧ ¬ (g.expiry ≠ 0 ∧ g.expiry ≤ now) := by
  refine ⟨Int64.not_lt.mpr hw.1, ?_⟩
  rintro ⟨hne, hle⟩
  exact Int64.not_le.mpr (hw.2.resolve_left hne) hle

/-- The envelope that an issuer signs. -/
def sealed (H : Host) (seed : Vector UInt8 32) (g : Grant) : List UInt8 :=
  encodeEnvelope H g (H.ed25519.sign seed (canonicalBytes H g)).toList

lemma decodeEnvelopeAndSig_sealed (hg : Encodable g) (seed : Vector UInt8 32) :
    decodeEnvelopeAndSig H (sealed H seed g) =
      some (.ok (sorted H g, (H.ed25519.sign seed (canonicalBytes H g)).toList)) :=
  decodeEnvelopeAndSig_encodeEnvelope hg _ (by simp)

lemma issue_eq_ok_iff {keys : Option (Vector UInt8 32)} {id : CapID} {nonce : Vector UInt8 12}
    {env : List UInt8} :
    issue H keys g id nonce = .ok env ↔
      ∃ seed, keys = some seed ∧ g.rights ≠ [] ∧
        env = sealed H seed (filled H seed g id nonce) := by
  cases keys with
  | none => simp [issue]
  | some seed =>
    simp only [issue, Option.some.injEq, exists_eq_left']
    change (if g.rights = [] then _ else _) = _ ↔ _
    split_ifs with hr
    · simp [hr]
    · simp [hr, sealed, eq_comm]

section

variable (hg : Encodable g) (hiss : g.issuer = H.ed25519.publicKey seed)
include hg hiss

/-- Under its issuer's key, a sealed grant is checked for its window and its revocation. -/
theorem verify_sealed (now : Int64) (isRevoked : Option (CapID → Bool)) :
    verify H (sealed H seed g) (H.ed25519.publicKey seed).toList now isRevoked = some (
      if now < g.notBefore then .error .notYetValid
      else if g.expiry ≠ 0 ∧ g.expiry ≤ now then .error .expired
      else if isRevoked.any (isRevokedBy · g) then .error .revoked
      else .ok (sorted H g)) := by
  have hpub : (sorted H g).issuer = H.ed25519.publicKey seed := hiss
  rw [verify, if_neg (by simp), decodeEnvelopeAndSig_sealed hg]
  simp only [Option.map_some, copyFixed_toList, verifyGrant, canonicalBytes_sorted, hpub,
    SignatureScheme.verifyBytes_sign]
  rw [if_neg (not_not.mpr rfl), if_neg (by decide)]
  rfl

lemma verify_sealed_of_inWindow (hw : InWindow g now) {isRevoked : Option (CapID → Bool)}
    (hrev : isRevoked.any (isRevokedBy · g) = false) :
    verify H (sealed H seed g) (H.ed25519.publicKey seed).toList now isRevoked =
      some (.ok (sorted H g)) := by
  rw [verify_sealed hg hiss, if_neg hw.checks.1, if_neg hw.checks.2, hrev,
    if_neg Bool.false_ne_true]

end

lemma Encodable.filled (hg : Encodable g) (seed : Vector UInt8 32) (id : CapID)
    (nonce : Vector UInt8 12) : Encodable (filled H seed g id nonce) :=
  ⟨hg.kind, hg.path, hg.rightsCount, hg.rights, hg.caveatsCount, hg.caveats, hg.ancestorsCount⟩

lemma isRevokedBy_eq_false {isRevoked : CapID → Bool} (h : ∀ id, isRevoked id = false) (g : Grant) :
    isRevokedBy isRevoked g = false := by
  have hany : g.parent.any isRevoked = false := by
    cases g.parent with
    | none => rfl
    | some p => exact h p
  simp [isRevokedBy, h, hany]

/-- The codec round-trips: an encoded grant with a signature decodes to the same grant and
signature, grants with the same canonical form are the same, and `Verify` accepts what `Issue`
returns under the issuer's key, at every time inside the window and when nothing is revoked. -/
theorem envelope_round_trip (H : Host) (g : Grant) (hr : g.rights ≠ []) (hg : Encodable g) :
    (∀ sig : List UInt8, sig.length = 64 → ∃ g',
      decodeEnvelopeAndSig H (encodeEnvelope H g sig) = some (.ok (g', sig)) ∧ SameGrant g' g) ∧
    (∀ g₂, g₂.rights ≠ [] → Encodable g₂ → canonicalBytes H g₂ = canonicalBytes H g →
      SameGrant g₂ g) ∧
    ∀ seed id nonce, ∃ env, issue H (some seed) g id nonce = .ok env ∧
      ∀ now, InWindow g now → ∀ isRevoked : Option (CapID → Bool),
        (∀ p ∈ isRevoked, ∀ id, p id = false) → ∃ g',
          verify H env (H.ed25519.publicKey seed).toList now isRevoked = some (.ok g') ∧
            SameGrant g' (filled H seed g id nonce) := by
  refine ⟨fun sig hsig => ?_, fun g₂ _ hg₂ h => ?_, fun seed id nonce => ?_⟩
  · exact ⟨sorted H g, decodeEnvelopeAndSig_encodeEnvelope hg sig hsig, sameGrant_sorted g⟩
  · exact sameGrant_of_canonicalBytes_eq hg hg₂ h
  · refine ⟨_, issue_eq_ok_iff.mpr ⟨seed, rfl, hr, rfl⟩, fun now hw isRevoked hno => ?_⟩
    refine ⟨_, verify_sealed_of_inWindow (hg.filled seed id nonce) rfl hw ?_, sameGrant_sorted _⟩
    cases isRevoked with
    | none => rfl
    | some p => exact isRevokedBy_eq_false (hno p rfl) _

def sampleHost : Host where
  ed25519 := .constant
  floatText := fun _ => .lit "0"
  sort := KeySort.insertion _

def sampleGrant : Grant where
  id := Vector.replicate 16 1
  resource := ⟨.lit "fs", Vector.replicate 32 0, .lit "/cer/fs", some ⟨8, 0, 0⟩⟩
  rights := [.lit "read"]
  caveats := [⟨.lit "a", .string (.lit "b=c")⟩, ⟨.lit "a=b", .string (.lit "c")⟩]
  issuer := Vector.replicate 32 0
  parent := none
  ancestors := []
  notBefore := 10
  expiry := 20
  nonce := Vector.replicate 12 1

lemma encodable_sampleGrant : Encodable sampleGrant where
  kind := by decide
  path := by decide
  rightsCount := by decide
  rights := by decide
  caveatsCount := by decide
  caveats := by
    intro c hc
    rcases mem_pair.mp hc with rfl | rfl
    · exact ⟨by decide, _, rfl, by decide⟩
    · exact ⟨by decide, _, rfl, by decide⟩
  ancestorsCount := by decide

theorem sampleGrant_round_trip :
    ∃ g', decodeEnvelopeAndSig sampleHost
        (encodeEnvelope sampleHost sampleGrant (List.replicate 64 7)) =
      some (.ok (g', List.replicate 64 7)) ∧ SameGrant g' sampleGrant :=
  (envelope_round_trip sampleHost sampleGrant (by decide) encodable_sampleGrant).1 _ (by decide)

/-! ### Decoding anything -/

lemma safe_fixed (n : ℕ) : Safe 4 (readFixed n) := Reader.safe_bytes.bind fun _ => .pure _

lemma safe_str : Safe 4 readStr := Reader.safe_bytes.bind fun _ => .pure _

lemma safe_quota : Safe 1 readQuota :=
  safe_u8.bind fun _ => .ite (.pure none) <| safe_u64.bind fun _ =>
    safe_u64.bind fun _ => safe_u64.bind fun _ => .pure _

lemma safe_caveat : Safe 4 readCaveat :=
  safe_str.bind fun _ => safe_str.bind fun _ => .pure _

lemma safe_parent : Safe 1 readParent :=
  safe_u8.bind fun _ => .ite ((safe_fixed 16).bind fun _ => .pure _) (.pure none)

lemma safe_grant : Safe 4 readGrant :=
  (safe_fixed 16).bind fun _ => safe_str.bind fun _ => (safe_fixed 32).bind fun _ =>
    safe_str.bind fun _ => safe_quota.bind fun _ => (safe_list safe_str).bind fun _ =>
    (safe_list safe_caveat).bind fun _ => (safe_fixed 32).bind fun _ =>
    safe_parent.bind fun _ => safe_u64.bind fun _ => safe_u64.bind fun _ =>
    (safe_fixed 12).bind fun _ => (safe_list (safe_fixed 16)).bind fun _ => .pure _

lemma safe_canonical : Safe 1 readCanonical :=
  safe_u8.bind fun _ => .ite (.pure _) <| safe_grant.bind fun _ =>
    Reader.safe_get.bind fun _ => .ite (.pure _) (.pure _)

/-- Decoding the canonical form of anything ends inside the buffer, and its loops run at most once
per four bytes, and once more. -/
lemma exists_readCanonical (b : List UInt8) :
    ∃ r c, readCanonical (Cursor.start b) = some (r, c) ∧ c.rounds ≤ b.length / 4 + 1 := by
  obtain ⟨r, c, hrun, hstep⟩ := safe_canonical (Cursor.start b) (Nat.zero_le _)
  refine ⟨r, c, hrun, ?_⟩
  have hoff : c.off ≤ b.length := hstep.off
  have hpays := hstep.pays
  simp only [Cursor.paid, Cursor.start] at hpays
  split_ifs at hpays <;> omega

lemma decodeEnvelopeAndSig_of_le {b : List UInt8} (h : 64 ≤ b.length) :
    decodeEnvelopeAndSig H b = (decodeCanonical (b.take (b.length - 64))).map fun
      | .error e => .error e
      | .ok g =>
        if canonicalBytes H g ≠ b.take (b.length - 64) then .error .badEnvelope
        else .ok (g, b.drop (b.length - 64)) := by
  have hsig : (b.drop (b.length - 64)).length = 64 := by
    rw [length_drop]
    omega
  rw [← decodeEnvelopeAndSig_append _ hsig, take_append_drop]

lemma exists_decodeEnvelopeAndSig (H : Host) (b : List UInt8) :
    ∃ r, decodeEnvelopeAndSig H b = some r := by
  rcases lt_or_ge b.length 64 with hshort | hlong
  · exact ⟨_, if_pos hshort⟩
  · obtain ⟨r, c, hrun, -⟩ := exists_readCanonical (b.take (b.length - 64))
    rw [decodeEnvelopeAndSig_of_le hlong, decodeCanonical, hrun]
    exact ⟨_, rfl⟩

lemma exists_verify (H : Host) (envelope issuerPub : List UInt8) (now : Int64)
    (isRevoked : Option (CapID → Bool)) :
    ∃ r, verify H envelope issuerPub now isRevoked = some r := by
  unfold verify
  split_ifs
  · exact ⟨_, rfl⟩
  · obtain ⟨r, hr⟩ := exists_decodeEnvelopeAndSig H envelope
    rw [hr]
    exact ⟨_, rfl⟩

/-- Decoding any bytes never slices or indexes outside of them; its three loops together run at most
once per four bytes, and three times more; and what is accepted is the canonical form of the grant
that is returned, followed by the 64 bytes of the signature. -/
theorem decode_bounded (H : Host) (b : List UInt8) :
    (∃ r, decodeEnvelopeAndSig H b = some r) ∧
    (∀ r c, readCanonical (Cursor.start (b.take (b.length - 64))) = some (r, c) →
      c.rounds ≤ b.length / 4 + 3) ∧
    ∀ g sig, decodeEnvelopeAndSig H b = some (.ok (g, sig)) →
      sig.length = 64 ∧ b = canonicalBytes H g ++ sig := by
  refine ⟨exists_decodeEnvelopeAndSig H b, fun r c hrun => ?_, fun g sig h => ?_⟩
  · obtain ⟨r', c', hrun', hc⟩ := exists_readCanonical (b.take (b.length - 64))
    rw [hrun] at hrun'
    cases hrun'
    rw [length_take] at hc
    omega
  · rcases lt_or_ge b.length 64 with hshort | hlong
    · rw [decodeEnvelopeAndSig, if_pos hshort] at h
      cases h
    · rw [decodeEnvelopeAndSig_of_le hlong] at h
      obtain ⟨r, -, h⟩ := Option.map_eq_some_iff.mp h
      cases r with
      | error e => cases h
      | ok g' =>
        simp only at h
        split_ifs at h with heq
        cases h
        rw [not_not] at heq
        rw [heq, take_append_drop, length_drop]
        exact ⟨by omega, rfl⟩

end Cerberus.Envelope
