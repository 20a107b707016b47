import Cerberus.Token.Model

/-!
# Attenuated tokens

`Attenuate` mints a token of its own for the child. The rights of the child are among those of the
parent. Nothing else ties the child to its parent: it has an id and an expiry of its own, and a
resource given for it replaces that of the parent (`attenuate_narrows_iff`).
-/

namespace Cerberus.Token

open Foundation Relation

variable {H : Host} {iss : Issuer} {c : Claims}

/-- The issuer at a later time: the key is the same, and what was revoked is still revoked. -/
structure Later (iss later : Issuer) : Prop where
  seed : later.seed = iss.seed
  revoked : iss.revoked ⊆ later.revoked

/-- At every time after both readings of the clock and in every later state of the issuer, each
request that is authorized for the child is authorized for the parent. -/
def Narrows (H : Host) (iss : Issuer) (now now' : Int64) (parent child : GoString) : Prop :=
  ∀ t, now ≤ t → now' ≤ t → ∀ later, Later iss later → ∀ right resource,
    (∃ c, authorize H later t child right resource = .ok c) →
      ∃ c, authorize H later t parent right resource = .ok c

/-- The child can never be used: it grants no right, it has expired, or its id is a revoked one. -/
def StillBorn (iss : Issuer) (now now' : Int64) (cc : Claims) : Prop :=
  cc.rights = [] ∨ (cc.expiry ≠ 0 ∧ (cc.expiry ≤ now ∨ cc.expiry ≤ now')) ∨ cc.id ∈ iss.revoked

/-- The child has the id of the parent, expires no later and has a narrower resource. -/
structure Within (pc cc : Claims) : Prop where
  id : cc.id = pc.id
  expiry : pc.expiry = 0 ∨ (cc.expiry ≠ 0 ∧ cc.expiry ≤ pc.expiry)
  resource : cc.resource.hasPrefix pc.resource = true

lemma rights_of_kept {pc : Claims} {keepRights : List GoString}
    (hkept : ∀ r ∈ keepRights, pc.allows r ⟨[]⟩ = true) (hpc : pc.coerced = pc) {right : GoString}
    (h : ∃ r ∈ keepRights.map GoString.coerce, r = right ∨ r = .lit "admin") :
    ∃ r ∈ pc.rights, r = right ∨ r = .lit "admin" := by
  obtain ⟨_, hmem, hr⟩ := h
  obtain ⟨r, hkeep, rfl⟩ := List.mem_map.mp hmem
  obtain ⟨⟨s, hs, hsr⟩, -⟩ := Claims.allows_iff.mp (hkept r hkeep)
  rcases hsr with rfl | hadmin
  · -- a right of the parent is UTF-8, so coercing it changes nothing
    have hrights : pc.rights.map GoString.coerce = pc.rights := congrArg Claims.rights hpc
    refine ⟨s.coerce, ?_, hr⟩
    rw [← hrights]
    exact List.mem_map_of_mem hs
  · exact ⟨s, hs, .inr hadmin⟩

lemma hasPrefix_iff_forall {scope scope' : GoString} : scope'.hasPrefix scope = true ↔
    ∀ r : GoString, r = ⟨[]⟩ ∨ r.hasPrefix scope' = true →
      r = ⟨[]⟩ ∨ r.hasPrefix scope = true := by
  simp only [GoString.hasPrefix, List.isPrefixOf_iff_prefix]
  constructor
  · rintro h r (hr | hr)
    · exact .inl hr
    · exact .inr (h.trans hr)
  · intro h
    rcases h scope' (.inr (List.prefix_refl _)) with hnil | hpre
    · -- everything is in the empty scope, also a string with another first byte
      subst hnil
      cases hb : scope.bytes with
      | nil => exact List.nil_prefix
      | cons b bs =>
        rcases h ⟨[b + 1]⟩ (.inr List.nil_prefix) with hr | hr
        · cases hr
        · rw [hb, List.cons_prefix_cons] at hr
          exact absurd hr.1.symm (by simp)
    · exact hpre

lemma exists_max (a b : Int64) : ∃ m, a ≤ m ∧ b ≤ m ∧ ∀ t, a < t → b < t → m < t := by
  rcases Int64.le_total a b with h | h
  · exact ⟨b, h, Int64.le_refl b, fun _ _ hb => hb⟩
  · exact ⟨a, Int64.le_refl a, h, fun _ ha _ => ha⟩

/-! ### The child of a parent -/

lemma of_attenuate {now now' : Int64} {parent : GoString} {keepRights : List GoString}
    {resource : GoString} {ttl : Int64} {child : GoString} {iss' : Issuer}
    (h : attenuate H iss now now' parent keepRights resource ttl = .ok (child, iss')) :
    ∃ pc, verify H iss now parent = .ok pc ∧ (∀ r ∈ keepRights, pc.allows r ⟨[]⟩ = true) ∧
      child = text H iss.seed (newClaims H iss pc.subject keepRights
        (if resource = ⟨[]⟩ then pc.resource else resource) ttl now') := by
  rw [attenuate] at h
  split at h
  · cases h
  · rename_i pc hverify
    split at h
    · cases h
    · rename_i hfind
      cases h
      refine ⟨pc, hverify, fun r hr => ?_, rfl⟩
      have hnot := List.find?_eq_none.mp hfind r hr
      simpa using hnot

section

variable {now now' : Int64} {parent child : GoString} {pc cc : Claims}
  (hparent : verify H iss now parent = .ok pc)
  (hchild : read H (H.ed25519.publicKey iss.seed) child = .ok cc)

include hparent hchild

lemma narrows_iff_claims : Narrows H iss now now' parent child ↔
    ∀ t, now ≤ t → now' ≤ t → ∀ later, Later iss later → ∀ right resource,
      cc.Live later t ∧ cc.allows right resource = true →
        pc.Live later t ∧ pc.allows right resource = true := by
  obtain ⟨hread, -⟩ := verify_eq_ok_iff.mp hparent
  refine forall_congr' fun t => forall_congr' fun _ => forall_congr' fun _ =>
    forall_congr' fun later => forall_congr' fun hlater => forall_congr' fun right =>
      forall_congr' fun resource => ?_
  rw [authorize_iff (hlater.seed ▸ hchild), authorize_iff (hlater.seed ▸ hread)]

lemma narrows_of_stillBorn (h : StillBorn iss now now' cc) :
    Narrows H iss now now' parent child := by
  rw [narrows_iff_claims hparent hchild]
  rintro t ht ht' later hlater right resource ⟨hlive, hallows⟩
  rcases h with h | ⟨hne, h⟩ | h
  · obtain ⟨⟨r, hr, -⟩, -⟩ := Claims.allows_iff.mp hallows
    rw [h] at hr
    cases hr
  · have hlt : t < cc.expiry := hlive.unexpired.resolve_left hne
    have hle : cc.expiry ≤ t := by
      rcases h with h | h
      · exact Int64.le_trans h ht
      · exact Int64.le_trans h ht'
    exact absurd hle (Int64.not_le.mpr hlt)
  · exact absurd (hlater.revoked h) hlive.unrevoked

lemma narrows_of_within (hrights : ∀ right, (∃ r ∈ cc.rights, r = right ∨ r = .lit "admin") →
      ∃ r ∈ pc.rights, r = right ∨ r = .lit "admin") (h : Within pc cc) :
    Narrows H iss now now' parent child := by
  rw [narrows_iff_claims hparent hchild]
  rintro t ht ht' later hlater right resource ⟨hlive, hallows⟩
  obtain ⟨-, hplive⟩ := verify_eq_ok_iff.mp hparent
  obtain ⟨hright, hscope⟩ := Claims.allows_iff.mp hallows
  have hscope' : resource = ⟨[]⟩ ∨ resource.hasPrefix pc.resource = true :=
    hasPrefix_iff_forall.mp h.resource resource hscope
  refine ⟨⟨Int64.le_trans hplive.started ht, ?_, h.id ▸ hlive.unrevoked⟩,
    Claims.allows_iff.mpr ⟨hrights right hright, hscope'⟩⟩
  refine h.expiry.imp_right fun ⟨hne, hle⟩ => ?_
  exact Int64.lt_of_lt_of_le (hlive.unexpired.resolve_left hne) hle

lemma within_of_narrows (hstart : cc.notBefore = now') (hborn : ¬ StillBorn iss now now' cc)
    (h : Narrows H iss now now' parent child) : Within pc cc := by
  rw [narrows_iff_claims hparent hchild] at h
  obtain ⟨hrights, hborn⟩ := not_or.mp hborn
  obtain ⟨hexp, hrev⟩ := not_or.mp hborn
  rw [not_and_or, not_not, not_or, Int64.not_le, Int64.not_le] at hexp
  obtain ⟨m, hm, hm', hmin⟩ := exists_max now now'
  have hmopen : cc.expiry = 0 ∨ m < cc.expiry := by
    rcases hexp with hzero | ⟨hlt, hlt'⟩
    · exact .inl hzero
    · exact .inr (hmin _ hlt hlt')
  have hsame : Later iss iss := ⟨rfl, Finset.Subset.refl _⟩
  have hlive : cc.Live iss m := ⟨hstart ▸ hm', hmopen, hrev⟩
  -- a right that the child has
  obtain ⟨r, hr⟩ := List.exists_mem_of_ne_nil _ hrights
  have hallows : ∀ resource, resource = ⟨[]⟩ ∨ resource.hasPrefix cc.resource = true →
      cc.allows r resource = true :=
    fun resource hres => Claims.allows_iff.mpr ⟨⟨r, hr, .inl rfl⟩, hres⟩
  refine ⟨?_, ?_, ?_⟩
  · -- revoke the parent, and only the parent
    by_contra hne
    have hlater : Later iss { iss with revoked := insert pc.id iss.revoked } :=
      ⟨rfl, Finset.subset_insert _ _⟩
    have hlive' : cc.Live { iss with revoked := insert pc.id iss.revoked } m :=
      ⟨hlive.started, hlive.unexpired, by simp [hne, hrev]⟩
    have hp := (h m hm hm' _ hlater r ⟨[]⟩ ⟨hlive', hallows _ (.inl rfl)⟩).1
    exact hp.unrevoked (Finset.mem_insert_self _ _)
  · -- wait until the parent expires
    by_contra hno
    obtain ⟨hpzero, hno⟩ := not_or.mp hno
    rw [not_and_or, not_not, Int64.not_le] at hno
    obtain ⟨t, hmt, hpt, hmin'⟩ := exists_max m pc.expiry
    have htopen : cc.expiry = 0 ∨ t < cc.expiry := by
      rcases hmopen with hzero | hlt
      · exact .inl hzero
      · exact hno.imp_right (hmin' _ hlt)
    have hlive' : cc.Live iss t := ⟨Int64.le_trans hlive.started hmt, htopen, hrev⟩
    have hp := (h t (Int64.le_trans hm hmt) (Int64.le_trans hm' hmt) _ hsame r ⟨[]⟩
      ⟨hlive', hallows _ (.inl rfl)⟩).1
    exact absurd hpt (Int64.not_le.mpr (hp.unexpired.resolve_left hpzero))
  · refine hasPrefix_iff_forall.mpr fun resource hres => ?_
    have hp := (h m hm hm' _ hsame r resource ⟨hlive, hallows resource hres⟩).2
    exact (Claims.allows_iff.mp hp).2

end

/-- For every parent that the issuer accepts and every attenuation of it that succeeds: the child is
narrower than the parent, at every later time and in every later revocation state, iff the claims
that it is given can never be used or are within the parent's in id, expiry and resource. -/
theorem attenuate_narrows_iff (H : Host) (iss : Issuer) (now now' : Int64) (parent : GoString)
    (keepRights : List GoString) (resource : GoString) (ttl : Int64) (child : GoString)
    (iss' : Issuer) (h : attenuate H iss now now' parent keepRights resource ttl =
      .ok (child, iss')) :
    ∃ pc, verify H iss now parent = .ok pc ∧
      let cc := (newClaims H iss pc.subject keepRights
        (if resource = ⟨[]⟩ then pc.resource else resource) ttl now').coerced
      read H (H.ed25519.publicKey iss.seed) child = .ok cc ∧
        (Narrows H iss now now' parent child ↔ StillBorn iss now now' cc ∨ Within pc cc) := by
  obtain ⟨pc, hparent, hkept, rfl⟩ := of_attenuate h
  have hchild := read_text (H := H) iss.seed (newClaims H iss pc.subject keepRights
    (if resource = ⟨[]⟩ then pc.resource else resource) ttl now')
  have hpc : pc.coerced = pc := coerced_of_read (verify_eq_ok_iff.mp hparent).1
  refine ⟨pc, hparent, hchild, fun hn => ?_, ?_⟩
  · rw [or_iff_not_imp_left]
    exact fun hborn => within_of_narrows hparent hchild rfl hborn hn
  · rintro (hborn | hwithin)
    · exact narrows_of_stillBorn hparent hchild hborn
    · exact narrows_of_within hparent hchild (fun _ => rights_of_kept hkept hpc) hwithin

/-- The daemon has attenuated a token, at any time and with anything revoked. -/
def Attenuated (H : Host) (seed : Vector UInt8 32) (parent child : GoString) : Prop :=
  ∃ iss now now' keepRights resource ttl iss', iss.seed = seed ∧
    attenuate H iss now now' parent keepRights resource ttl = .ok (child, iss')

lemma Attenuated.exists_claims {seed : Vector UInt8 32} {parent child : GoString}
    (h : Attenuated H seed parent child) :
    ∃ pc cc, read H (H.ed25519.publicKey seed) parent = .ok pc ∧
      read H (H.ed25519.publicKey seed) child = .ok cc ∧ cc.subject = pc.subject ∧
      ∀ right resource, cc.allows right resource = true → pc.allows right ⟨[]⟩ = true := by
  obtain ⟨iss, now, now', keepRights, resource, ttl, iss', rfl, hchild⟩ := h
  obtain ⟨pc, hparent, hkept, rfl⟩ := of_attenuate hchild
  have hread := (verify_eq_ok_iff.mp hparent).1
  have hpc : pc.coerced = pc := coerced_of_read hread
  have hsubject : pc.subject.coerce = pc.subject := congrArg Claims.subject hpc
  refine ⟨pc, _, hread, read_text _ _, hsubject, fun right _ hallows => ?_⟩
  exact Claims.allows_iff.mpr
    ⟨rights_of_kept hkept hpc (Claims.allows_iff.mp hallows).1, .inl rfl⟩

/-- Delegation adds no right: a token that was attenuated any number of times speaks for the subject
of the first one, and what it allows on any resource is allowed by a right of the first one. -/
theorem allows_of_attenuated (H : Host) (seed : Vector UInt8 32) (root tok : GoString)
    (h : ReflTransGen (Attenuated H seed) root tok) (c c' : Claims)
    (hroot : read H (H.ed25519.publicKey seed) root = .ok c)
    (htok : read H (H.ed25519.publicKey seed) tok = .ok c') :
    c'.subject = c.subject ∧
      ∀ right resource, c'.allows right resource = true → c.allows right ⟨[]⟩ = true := by
  induction h generalizing c' with
  | refl =>
    obtain rfl : c = c' := Except.ok.inj (hroot.symm.trans htok)
    exact ⟨rfl, fun right _ hallows =>
      Claims.allows_iff.mpr ⟨(Claims.allows_iff.mp hallows).1, .inl rfl⟩⟩
  | tail _ hlast ih =>
    obtain ⟨pc, cc, hpc, hcc, hsubject, hrights⟩ := hlast.exists_claims
    obtain rfl : cc = c' := Except.ok.inj (hcc.symm.trans htok)
    obtain ⟨hsubject', hrights'⟩ := ih pc hpc
    exact ⟨hsubject.trans hsubject', fun right resource hallows =>
      hrights' right ⟨[]⟩ (hrights right resource hallows)⟩

/-! ### A child with another resource and a longer life -/

instance : Encodable Claims :=
  Encodable.ofLeftInverse (fun c => (c.id, c.subject, c.rights, c.resource, c.notBefore, c.expiry))
    (fun p => ⟨p.1, p.2.1, p.2.2.1, p.2.2.2.1, p.2.2.2.2.1, p.2.2.2.2.2⟩) fun _ => rfl

def sampleHost : Host where
  ed25519 := .constant
  json := .unary Claims.coerced_coerced
  seconds := fun ttl => ttl / 1000000000

def sampleIssuer : Issuer := ⟨Vector.replicate 32 7, 1, ∅⟩

def parentClaims : Claims where
  id := .lit "1"
  subject := .lit "alice"
  rights := [.lit "read"]
  resource := .lit "/a"
  notBefore := 0
  expiry := 3600

def childClaims : Claims where
  id := .lit "2"
  subject := .lit "alice"
  rights := [.lit "read"]
  resource := .lit "/b"
  notBefore := 10
  expiry := 7210

lemma attenuate_parentClaims :
    attenuate sampleHost sampleIssuer 10 10 (text sampleHost sampleIssuer.seed parentClaims)
      [.lit "read"] (.lit "/b") 7200000000000 =
      .ok (text sampleHost sampleIssuer.seed childClaims, { sampleIssuer with next := 2 }) := by
  have hread := read_text (H := sampleHost) sampleIssuer.seed parentClaims
  have hclaims : parentClaims.coerced = parentClaims := by decide
  rw [hclaims] at hread
  have hlive : parentClaims.Live sampleIssuer 10 := ⟨by decide, by decide, by decide⟩
  rw [attenuate, verify_eq_ok_iff.mpr ⟨hread, hlive⟩]
  rfl

theorem sampleChild_narrows_iff :
    ∃ pc, verify sampleHost sampleIssuer 10
        (text sampleHost sampleIssuer.seed parentClaims) = .ok pc ∧
      let cc := (newClaims sampleHost sampleIssuer pc.subject [.lit "read"] (.lit "/b")
        7200000000000 10).coerced
      read sampleHost (sampleHost.ed25519.publicKey sampleIssuer.seed)
        (text sampleHost sampleIssuer.seed childClaims) = .ok cc ∧
      (Narrows sampleHost sampleIssuer 10 10 (text sampleHost sampleIssuer.seed parentClaims)
          (text sampleHost sampleIssuer.seed childClaims) ↔
        StillBorn sampleIssuer 10 10 cc ∨ Within pc cc) :=
  attenuate_narrows_iff sampleHost sampleIssuer 10 10 _ [.lit "read"] (.lit "/b") 7200000000000 _ _
    attenuate_parentClaims

theorem allows_of_attenuated_child : childClaims.coerced.subject = parentClaims.coerced.subject :=
  (allows_of_attenuated sampleHost sampleIssuer.seed _ _
    (.single ⟨_, _, _, _, _, _, _, rfl, attenuate_parentClaims⟩) _ _ (read_text _ parentClaims)
    (read_text _ childClaims)).1

/-- The child is authorized for a resource that its parent is not authorized for, after its parent
has expired, and after its parent has been revoked. -/
theorem child_is_wider :
    ∃ parent child iss', attenuate sampleHost sampleIssuer 10 10 parent [.lit "read"] (.lit "/b")
        7200000000000 = .ok (child, iss') ∧
      ((∃ c, authorize sampleHost iss' 10 child (.lit "read") (.lit "/b") = .ok c) ∧
        ¬ ∃ c, authorize sampleHost iss' 10 parent (.lit "read") (.lit "/b") = .ok c) ∧
      ((∃ c, authorize sampleHost iss' 3600 child (.lit "read") ⟨[]⟩ = .ok c) ∧
        ¬ ∃ c, authorize sampleHost iss' 3600 parent (.lit "read") ⟨[]⟩ = .ok c) ∧
      (∃ c, authorize sampleHost (iss'.markRevoked (.lit "1") true) 10 child (.lit "read") ⟨[]⟩ =
          .ok c) ∧
        ¬ ∃ c, authorize sampleHost (iss'.markRevoked (.lit "1") true) 10 parent (.lit "read")
          ⟨[]⟩ = .ok c := by
  have hscope : childClaims.coerced.allows (.lit "read") (.lit "/b") = true := by decide
  have hread : childClaims.coerced.allows (.lit "read") ⟨[]⟩ = true := by decide
  set later : Issuer := { sampleIssuer with next := 2 }
  set later' : Issuer := later.markRevoked (.lit "1") true
  refine ⟨_, _, _, attenuate_parentClaims, ⟨?_, ?_⟩, ⟨?_, ?_⟩, ?_, ?_⟩
  · exact (authorize_text_iff later childClaims).mpr ⟨⟨by decide, by decide, by decide⟩, hscope⟩
  · intro h
    exact absurd ((authorize_text_iff later parentClaims).mp h).2 (by decide)
  · exact (authorize_text_iff later childClaims).mpr ⟨⟨by decide, by decide, by decide⟩, hread⟩
  · intro h
    exact absurd ((authorize_text_iff later parentClaims).mp h).1.unexpired (by decide)
  · exact (authorize_text_iff later' childClaims).mpr ⟨⟨by decide, by decide, by decide⟩, hread⟩
  · intro h
    exact absurd ((authorize_text_iff later' parentClaims).mp h).1.unrevoked (by decide)

end Cerberus.Token
