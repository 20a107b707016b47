import Cerberus.Foundation.Base64
import Cerberus.Foundation.Fallible
import Cerberus.Foundation.Signature

/-!
# Bearer tokens

The tokens of `daemon/auth` (`auth.go`): signed claims that a client presents with a request. The
daemon issues tokens, derives narrower ones for delegation, checks them and revokes them by their
id. A token is the base64 form of its JSON payload and of the signature of that payload, with a dot
between.

The clock is an argument, once for each reading. JSON, Ed25519 and the float that a duration goes
through are parameters (`Host`).
-/

namespace Cerberus.Token

open Foundation

structure Claims where
  id : GoString
  subject : GoString
  rights : List GoString
  resource : GoString
  notBefore : Int64
  expiry : Int64
  deriving DecidableEq

def Claims.coerced (c : Claims) : Claims :=
  { c with
    id := c.id.coerce
    subject := c.subject.coerce
    rights := c.rights.map GoString.coerce
    resource := c.resource.coerce }

@[simp] lemma Claims.coerced_coerced (c : Claims) : c.coerced.coerced = c.coerced := by
  simp [coerced]

def Claims.allows (c : Claims) (right resource : GoString) : Bool :=
  if ¬ ∃ r ∈ c.rights, r = right ∨ r = .lit "admin" then false
  else if c.resource ≠ ⟨[]⟩ ∧ resource ≠ ⟨[]⟩ ∧ resource.hasPrefix c.resource = false then false
  else true

structure Host where
  /-- `crypto/ed25519`; a private key is its seed. -/
  ed25519 : SignatureScheme (Vector UInt8 32) (Vector UInt8 32) (List UInt8) (Vector UInt8 64)
  json : Marshaller Claims Claims.coerced
  /-- `int64(ttl.Seconds())`, which goes through a float. -/
  seconds : Int64 → Int64

inductive Err
  | malformedToken
  | malformedPayload
  | malformedSignature
  | invalidSignature
  | malformedClaims
  | notYetValid
  | expired
  | revoked
  | cannotGrant (right : GoString)
  | lacksRight (right resource : GoString)
  deriving DecidableEq

/-- `Issuer`, with the set of ids that its revocation store holds. -/
structure Issuer where
  seed : Vector UInt8 32
  next : UInt64
  revoked : Finset GoString

/-- `FromSeed`, with a revocation store. -/
def fromSeed (seed : Vector UInt8 32) (revoked : Finset GoString) : Issuer := ⟨seed, 0, revoked⟩

def Issuer.isRevoked (iss : Issuer) (id : GoString) : Bool := id ∈ iss.revoked

/-- `markRevoked`; `stored` is whether the store took the write. -/
def Issuer.markRevoked (iss : Issuer) (id : GoString) (stored : Bool) : Issuer :=
  if stored then { iss with revoked := insert id iss.revoked } else iss

variable (H : Host)

def text (seed : Vector UInt8 32) (c : Claims) : GoString :=
  let payload := H.json.marshal c
  Base64.encode payload ++ .lit "." ++ Base64.encode (H.ed25519.sign seed payload).toList

def newClaims (iss : Issuer) (subject : GoString) (rights : List GoString) (resource : GoString)
    (ttl now : Int64) : Claims where
  id := .formatUint (iss.next + 1)
  subject := subject
  rights := rights
  resource := resource
  notBefore := now
  expiry := if 0 < ttl then now + H.seconds ttl else 0

def mint (iss : Issuer) (subject : GoString) (rights : List GoString) (resource : GoString)
    (ttl now : Int64) : GoString × Issuer :=
  (text H iss.seed (newClaims H iss subject rights resource ttl now),
    { iss with next := iss.next + 1 })

/-- The first half of `verify`: the claims of a token with a good signature. -/
def read (pub : Vector UInt8 32) (token : GoString) : Except Err Claims :=
  match token.cut 0x2E with
  | none => .error .malformedToken
  | some (first, second) =>
    match Base64.decode first with
    | none => .error .malformedPayload
    | some payload =>
      match Base64.decode second with
      | none => .error .malformedSignature
      | some sig =>
        if H.ed25519.verifyBytes pub payload sig = false then .error .invalidSignature
        else
          match H.json.unmarshal payload with
          | none => .error .malformedClaims
          | some c => .ok c

/-- The second half of `verify`: the window and the revocation of the claims. -/
def check (iss : Issuer) (now : Int64) (c : Claims) : Except Err Claims :=
  if now < c.notBefore then .error .notYetValid
  else if c.expiry ≠ 0 ∧ c.expiry ≤ now then .error .expired
  else if iss.isRevoked c.id then .error .revoked
  else .ok c

def verify (iss : Issuer) (now : Int64) (token : GoString) : Except Err Claims :=
  match read H (H.ed25519.publicKey iss.seed) token with
  | .error e => .error e
  | .ok c => check iss now c

/-- `Attenuate`, with the reading of the clock in `verify` and that in `Mint`. -/
def attenuate (iss : Issuer) (now now' : Int64) (parent : GoString) (keepRights : List GoString)
    (resource : GoString) (ttl : Int64) : Except Err (GoString × Issuer) :=
  match verify H iss now parent with
  | .error e => .error e
  | .ok pc =>
    match keepRights.find? (pc.allows · ⟨[]⟩ = false) with
    | some r => .error (.cannotGrant r)
    | none =>
      .ok (mint H iss pc.subject keepRights (if resource = ⟨[]⟩ then pc.resource else resource) ttl
        now')

def authorize (iss : Issuer) (now : Int64) (token right resource : GoString) :
    Except Err Claims :=
  match verify H iss now token with
  | .error e => .error e
  | .ok c => if c.allows right resource then .ok c else .error (.lacksRight right resource)

/-! ### Reading and checking -/

variable {H} {iss : Issuer} {now : Int64} {token right resource : GoString} {c c' : Claims}

/-- The claims of an issued token are read back, coerced to UTF-8. -/
@[simp] theorem read_text (seed : Vector UInt8 32) (c : Claims) :
    read H (H.ed25519.publicKey seed) (text H seed c) = .ok c.coerced := by
  have hcut : (text H seed c).cut 0x2E = some (Base64.encode (H.json.marshal c),
      Base64.encode (H.ed25519.sign seed (H.json.marshal c)).toList) :=
    GoString.cut_append (Base64.dot_notMem_encode _) _
  simp only [read, hcut, Base64.decode_encode, SignatureScheme.verifyBytes_sign,
    H.json.unmarshal_marshal]
  rfl

lemma coerced_of_read {pub : Vector UInt8 32} (h : read H pub token = .ok c) : c.coerced = c := by
  unfold read at h
  split at h
  · cases h
  split at h
  · cases h
  split at h
  · cases h
  split at h
  · cases h
  split at h
  · cases h
  · rename_i hc
    cases h
    exact H.json.normal_of_unmarshal _ _ hc

structure Claims.Live (c : Claims) (iss : Issuer) (now : Int64) : Prop where
  started : c.notBefore ≤ now
  unexpired : c.expiry = 0 ∨ now < c.expiry
  unrevoked : c.id ∉ iss.revoked

lemma check_eq_ok_iff : check iss now c = .ok c' ↔ c.Live iss now ∧ c = c' := by
  have hexp : ¬ (c.expiry ≠ 0 ∧ c.expiry ≤ now) ↔ c.expiry = 0 ∨ now < c.expiry := by
    rw [not_and_or, not_not, Int64.not_le]
  have hrev : ¬ iss.isRevoked c.id = true ↔ c.id ∉ iss.revoked := by
    rw [Issuer.isRevoked, decide_eq_true_iff]
  rw [check]
  simp only [ite_error_eq_ok_iff, Int64.not_lt, hexp, hrev, Except.ok.injEq]
  exact ⟨fun ⟨h₁, h₂, h₃, h⟩ => ⟨⟨h₁, h₂, h₃⟩, h⟩, fun ⟨⟨h₁, h₂, h₃⟩, h⟩ => ⟨h₁, h₂, h₃, h⟩⟩

lemma verify_eq_ok_iff : verify H iss now token = .ok c ↔
    read H (H.ed25519.publicKey iss.seed) token = .ok c ∧ c.Live iss now := by
  rw [verify]
  cases hread : read H (H.ed25519.publicKey iss.seed) token with
  | error e => simp
  | ok c₀ =>
    simp only [check_eq_ok_iff, Except.ok.injEq]
    constructor
    · rintro ⟨hlive, rfl⟩
      exact ⟨rfl, hlive⟩
    · rintro ⟨rfl, hlive⟩
      exact ⟨hlive, rfl⟩

lemma authorize_iff (hread : read H (H.ed25519.publicKey iss.seed) token = .ok c) :
    (∃ c', authorize H iss now token right resource = .ok c') ↔
      c.Live iss now ∧ c.allows right resource = true := by
  rw [authorize, verify, hread]
  dsimp only
  cases hcheck : check iss now c with
  | error e =>
    refine ⟨fun ⟨_, h⟩ => (nomatch h), fun ⟨hlive, _⟩ => ?_⟩
    rw [check_eq_ok_iff.mpr ⟨hlive, rfl⟩] at hcheck
    cases hcheck
  | ok c₀ =>
    obtain ⟨hlive, rfl⟩ := check_eq_ok_iff.mp hcheck
    dsimp only
    split_ifs with hallows
    · exact ⟨fun _ => ⟨hlive, hallows⟩, fun _ => ⟨c, rfl⟩⟩
    · exact ⟨fun ⟨_, h⟩ => (nomatch h), fun h => absurd h.2 hallows⟩

lemma authorize_text_iff (iss : Issuer) (c : Claims) :
    (∃ c', authorize H iss now (text H iss.seed c) right resource = .ok c') ↔
      c.coerced.Live iss now ∧ c.coerced.allows right resource = true :=
  authorize_iff (read_text iss.seed c)

lemma Claims.allows_iff : c.allows right resource = true ↔
    (∃ r ∈ c.rights, r = right ∨ r = .lit "admin") ∧
      (resource = ⟨[]⟩ ∨ resource.hasPrefix c.resource = true) := by
  have hscope : (resource = ⟨[]⟩ ∨ resource.hasPrefix c.resource = true) ↔
      ¬ (c.resource ≠ ⟨[]⟩ ∧ resource ≠ ⟨[]⟩ ∧ resource.hasPrefix c.resource = false) := by
    rw [not_and_or, not_and_or, not_not, not_not, Bool.not_eq_false]
    refine ⟨Or.inr, ?_⟩
    rintro (h | h)
    · rw [h]
      exact .inr rfl
    · exact h
  rw [allows, hscope]
  by_cases hright : ∃ r ∈ c.rights, r = right ∨ r = .lit "admin"
  · rw [if_neg (not_not.mpr hright), ite_eq_right_iff]
    exact ⟨fun h => ⟨hright, fun hout => (nomatch h hout)⟩, fun h hout => absurd hout h.2⟩
  · rw [if_pos hright]
    exact ⟨fun h => (nomatch h), fun h => absurd h.1 hright⟩

end Cerberus.Token
