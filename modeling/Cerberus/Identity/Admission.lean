import Cerberus.Identity.Model

/-!
# Admission

How a node is admitted (`core/identity`, `lib.rs`): the admitter issues a challenge with a random
nonce, the joining node signs it together with its id, and the admitter verifies the response
against the challenge it has issued. An `Admitter` keeps no state; the challenge is kept by its
caller.

A node signs with one key: answers to challenges, attestations and capabilities. The three kinds of
messages differ if the CBOR form of a capability does not start like the domain of an answer
(`message_eq_signingBytes`).
-/

namespace Cerberus.Identity

open Foundation Kernel

structure AdmissionChallenge where
  nonce : Vector UInt8 32
  deriving DecidableEq

namespace AdmissionChallenge

def domain : List UInt8 := (GoString.lit "cerberus-admit-v1").bytes

def signingBytes (c : AdmissionChallenge) (peer : PeerId) : List UInt8 :=
  domain ++ peer.toList ++ c.nonce.toList

end AdmissionChallenge

structure AdmissionResponse where
  peer : PeerId
  challenge : AdmissionChallenge
  sig : Sig
  teeQuote : Option (List UInt8)

inductive AdmissionError
  | staleChallenge
  | badSignature
  | attestationFailed
  deriving DecidableEq

/-- `TeeVerifier`. -/
abbrev TeeVerifier := PeerId → AdmissionChallenge → List UInt8 → Bool

def acceptAnyTee : TeeVerifier := fun _ _ quote => !quote.isEmpty

structure Admitter where
  requireTee : Bool
  tee : TeeVerifier

namespace Admitter

def openMesh : Admitter := ⟨false, acceptAnyTee⟩

def sealedWith (tee : TeeVerifier) : Admitter := ⟨true, tee⟩

def sealedStub : Admitter := sealedWith acceptAnyTee

def verify (P : Platform) (A : Admitter) (issued : AdmissionChallenge) (resp : AdmissionResponse) :
    Except AdmissionError PeerId :=
  if resp.challenge ≠ issued then .error .staleChallenge
  else if Identity.verify P resp.peer (issued.signingBytes resp.peer) resp.sig = false then
    .error .badSignature
  else if A.requireTee then
    match resp.teeQuote with
    | some q => if A.tee resp.peer issued q then .ok resp.peer else .error .attestationFailed
    | none => .error .attestationFailed
  else .ok resp.peer

end Admitter

/-! ### What a node signs -/

/-- `attest_msg`. -/
def attestMsg (peer : PeerId) (nonce : Vector UInt8 16) : List UInt8 := peer.toList ++ nonce.toList

/-- A use of the key of a node: `respond` and `respond_with_tee`, `attest`, `sign_capability`. -/
inductive KeyUse
  | respond (c : AdmissionChallenge)
  | attest (nonce : Vector UInt8 16)
  | signCapability (cap : Capability)

/-- What is signed. -/
def KeyUse.message (P : Platform) (peer : PeerId) : KeyUse → List UInt8
  | respond c => c.signingBytes peer
  | attest nonce => attestMsg peer nonce
  | signCapability cap => Kernel.signingBytes P cap

/-- `NodeIdentity`, given by the seed of its key. -/
structure NodeIdentity where
  seed : Vector UInt8 32

namespace NodeIdentity

variable (P : Platform) (node : NodeIdentity)

def peerId : PeerId := P.ed25519.publicKey node.seed

def sign (u : KeyUse) : Sig := P.ed25519.sign node.seed (u.message P (node.peerId P))

def respond (c : AdmissionChallenge) : AdmissionResponse :=
  ⟨node.peerId P, c, node.sign P (.respond c), none⟩

def respondWithTee (c : AdmissionChallenge) (teeQuote : List UInt8) : AdmissionResponse :=
  { node.respond P c with teeQuote := some teeQuote }

end NodeIdentity

variable {P : Platform} {A : Admitter} {c issued : AdmissionChallenge} {peer : PeerId}
  {resp : AdmissionResponse}

lemma message_eq_signingBytes (hcbor : ∀ cap, (P.cbor cap).head? ≠ some 0x63)
    {u : KeyUse} (h : u.message P peer = c.signingBytes peer) : u = .respond c := by
  rcases u with ⟨c'⟩ | nonce | cap
  · have hnonce := (List.append_cancel_left_eq _ _ _).mp h
    obtain ⟨nonce'⟩ := c'
    obtain rfl : nonce' = c.nonce := Vector.toList_inj.mp hnonce
    rfl
  · have hlength := congrArg List.length h
    simp only [KeyUse.message, attestMsg, AdmissionChallenge.signingBytes, List.length_append,
      Vector.length_toList] at hlength
    have hdomain : AdmissionChallenge.domain.length = 17 := by decide
    omega
  · refine absurd ((congrArg List.head? h).trans ?_) (hcbor _)
    rfl

/-! ### What an admitter accepts -/

lemma verify_eq_ok_iff : A.verify P issued resp = .ok peer ↔
    resp.challenge = issued ∧ resp.peer = peer ∧
      verify P peer (issued.signingBytes peer) resp.sig = true ∧
      (A.requireTee = true → ∃ q ∈ resp.teeQuote, A.tee peer issued q = true) := by
  obtain ⟨peer', challenge, sig, teeQuote⟩ := resp
  rw [← Bool.not_eq_false]
  unfold Admitter.verify
  constructor
  · intro h
    split_ifs at h with hstale hsig htee
    · rcases teeQuote with _ | q
      · cases h
      · simp only at h
        split_ifs at h with hquote
        cases h
        exact ⟨not_ne_iff.mp hstale, rfl, hsig, fun _ => ⟨q, rfl, hquote⟩⟩
    · cases h
      exact ⟨not_ne_iff.mp hstale, rfl, hsig, fun h => absurd h htee⟩
  · rintro ⟨rfl, rfl, hsig, htee⟩
    rw [if_neg (not_ne_iff.mpr rfl), if_neg hsig]
    split_ifs with hrequired
    · obtain ⟨q, rfl, hquote⟩ := htee hrequired
      exact if_pos hquote
    · rfl

/-- A node that answers is accepted, with a quote that the verifier accepts if one is required. -/
lemma verify_respondWithTee (node : NodeIdentity) (c : AdmissionChallenge) (q : List UInt8) :
    A.verify P c (node.respondWithTee P c q) = .ok (node.peerId P) ↔
      (A.requireTee = true → A.tee (node.peerId P) c q = true) := by
  have hsig : verify P (node.peerId P) (c.signingBytes (node.peerId P))
      (node.sign P (.respond c)) = true := by
    rw [verify, NodeIdentity.peerId, P.ed25519.isKey_publicKey]
    exact P.ed25519.verify_sign _ _
  rw [verify_eq_ok_iff]
  constructor
  · rintro ⟨-, -, -, htee⟩ hrequired
    obtain ⟨q', hq', hquote⟩ := htee hrequired
    cases hq'
    exact hquote
  · exact fun htee => ⟨rfl, rfl, hsig, fun hrequired => ⟨q, rfl, htee hrequired⟩⟩

/-! ### Runs -/

/-- What happens in a mesh: an admitter issues a challenge, a node uses its key, and an admitter
verifies a response, which may come from anybody. -/
inductive Event
  | issue (c : AdmissionChallenge)
  | sign (node : NodeIdentity) (u : KeyUse)
  | verify (issued : AdmissionChallenge) (resp : AdmissionResponse)

/-- Only the holder of its key can sign as `peer`: an answer that verifies was signed before. -/
def Unforged (P : Platform) (peer : PeerId) (es : List Event) : Prop :=
  ∀ pre c resp post, es = pre ++ .verify c resp :: post →
    verify P peer (c.signingBytes peer) resp.sig = true →
    ∃ node u, NodeIdentity.peerId P node = peer ∧ .sign node u ∈ pre ∧
      u.message P peer = c.signingBytes peer

/-- The node of the peer has answered the challenge. -/
def Answered (P : Platform) (peer : PeerId) (c : AdmissionChallenge) (es : List Event) : Prop :=
  ∃ node, NodeIdentity.peerId P node = peer ∧ .sign node (.respond c) ∈ es

/-- No replay: a peer that is admitted has answered the very challenge, after it was issued if the
nonce is fresh. What it has signed for other purposes or for other challenges is of no use. -/
theorem answered_of_verify_eq_ok (P : Platform) (A : Admitter) (peer : PeerId)
    (hcbor : ∀ cap, (P.cbor cap).head? ≠ some 0x63) (before during after : List Event)
    (c : AdmissionChallenge) (resp : AdmissionResponse)
    (hforge : Unforged P peer (before ++ .issue c :: (during ++ .verify c resp :: after)))
    (hfresh : ¬Answered P peer c before) (hok : A.verify P c resp = .ok peer) :
    Answered P peer c during ∧
      (A.requireTee = true → ∃ q ∈ resp.teeQuote, A.tee peer c q = true) := by
  obtain ⟨-, -, hsig, htee⟩ := verify_eq_ok_iff.mp hok
  refine ⟨?_, htee⟩
  obtain ⟨node, u, hnode, hmem, hmessage⟩ :=
    hforge (before ++ .issue c :: during) c resp after (by simp) hsig
  obtain rfl := message_eq_signingBytes hcbor hmessage
  rcases List.mem_append.mp hmem with hbefore | hlater
  · exact absurd ⟨node, hnode, hbefore⟩ hfresh
  · rcases List.mem_cons.mp hlater with heq | hduring
    · cases heq
    · exact ⟨node, hnode, hduring⟩

def Sample.platform : Platform where
  ed25519 := .constant
  cbor := fun _ => [0xa9]
  json := fun _ => none
  overflowChecks := true

/-- Between the challenge and its answer the node signs an attestation. -/
theorem answered_of_verify_eq_ok_sealed :
    let node : NodeIdentity := ⟨Vector.replicate 32 1⟩
    let c : AdmissionChallenge := ⟨Vector.replicate 32 2⟩
    Answered Sample.platform (node.peerId Sample.platform) c
      [.sign node (.attest (Vector.replicate 16 3)), .sign node (.respond c)] := by
  intro node c
  have hforge : Unforged Sample.platform (node.peerId Sample.platform)
      ([] ++ .issue c :: ([.sign node (.attest (Vector.replicate 16 3)), .sign node (.respond c)] ++
        .verify c (node.respondWithTee Sample.platform c [7]) :: [])) := by
    intro pre c' resp post hes _
    rcases pre with _ | ⟨_, _ | ⟨_, _ | ⟨_, _ | ⟨_, pre⟩⟩⟩⟩
    · cases hes
    · cases hes
    · cases hes
    · cases hes
      exact ⟨node, .respond c, rfl, by simp, rfl⟩
    · simp at hes
  exact (answered_of_verify_eq_ok Sample.platform .sealedStub _ (fun _ h => by cases h) [] _ [] c _
    hforge (fun h => by simp [Answered] at h)
    ((verify_respondWithTee node c [7]).mpr fun _ => rfl)).1

end Cerberus.Identity
