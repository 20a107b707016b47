import Cerberus.Ledger.Escrow
import Cerberus.Settlement.Window

/-!
# Honest providers

A fraud proof names the output that the challenger says a recomputation gives, and `Challenge` only
compares it with the claimed one: nothing in the RPC, the settler or the ledger executes the
component again. So an honest provider is slashed by any proof that names another output
(`honest_never_slashed_iff`). The true result of execution is a parameter.
-/

namespace Cerberus.Settler

open Foundation

open Ledger

section Execute

/- The content id of the output that a component really gives on an input. -/
variable (execute : (componentCID inputCID : GoString) → GoString)

/-- The claimed output is the result of running the component on the input. -/
def Honest (b : SettlementBinding) : Prop := b.outputCID = execute b.componentCID b.inputCID

/-- The fraud proof names the result of running the component on the input. -/
def Truthful (fraud : FraudProof) : Prop :=
  fraud.actualOutputCID = execute fraud.componentCID fraud.inputCID

/-- The proof is about the claim. -/
def Quotes (fraud : FraudProof) (b : SettlementBinding) : Prop :=
  fraud.componentCID = b.componentCID ∧ fraud.inputCID = b.inputCID ∧
    fraud.claimedOutputCID = b.outputCID

/-- The step slashes an honest provider. -/
def SlashesHonest (s : State) (e : Step) : Prop :=
  ∃ number tx p, e = .finish number ∧ claim s.ledger.store tx = some p ∧
    Honest execute p.binding ∧ Slashes s number tx

/-- In this step a challenge reaches an honest claim whose window is open and whose value is in
escrow, with a proof that quotes the claim and names an output that is not the result. -/
def FalseProof (s : State) (e : Step) : Prop :=
  ∃ number tx fraud now challenger p, e = .finish number ∧
    s.call? number = some (.challenge tx fraud now challenger) ∧
    (IsPending s.ledger tx p ∧ p.windowElapsed now = false) ∧
    Covered s.ledger p (slashPayouts p challenger) ∧
    Honest execute p.binding ∧ Quotes fraud p.binding ∧ ¬ Truthful execute fraud

variable {execute}

lemma Honest.contradicts_iff {b : SettlementBinding} (hb : Honest execute b) (fraud : FraudProof) :
    FraudProof.Contradicts fraud b ↔ Quotes fraud b ∧ ¬ Truthful execute fraud := by
  constructor
  · rintro ⟨hcomponent, hinput, hclaimed, hne⟩
    refine ⟨⟨hcomponent, hinput, hclaimed⟩, fun htrue => hne ?_⟩
    rw [htrue, hcomponent, hinput, hclaimed, hb]
  · rintro ⟨⟨hcomponent, hinput, hclaimed⟩, hfalse⟩
    refine ⟨hcomponent, hinput, hclaimed, fun heq => hfalse ?_⟩
    rw [Truthful, heq, hclaimed, hcomponent, hinput, hb]

lemma succeeds_challenge_iff {w : LedgerWorld} {tx now : UInt64} {fraud : FraudProof}
    {challenger : GoString} : (Call.challenge tx fraud now challenger).Succeeds w ↔
      ∃ p, Challengeable w tx fraud now p ∧ Covered w p (slashPayouts p challenger) := by
  constructor
  · intro hok
    obtain ⟨p, ps, st, r, hd, hcov, -⟩ := Call.exists_decides rfl hok
    cases hd with
    | challenge _ h => exact ⟨p, h, hcov⟩
  · rintro ⟨p, h, hcov⟩
    have hrun := (Decides.challenge challenger h).run_exec_covered hcov
    exact ⟨.slash ⟨tx, p.payment, p.bond⟩, by rw [Call.result, hrun]⟩

/-- An honest claim is slashed by a false proof, and by nothing else. -/
theorem slashesHonest_iff (s : State) (e : Step) :
    SlashesHonest execute s e ↔ FalseProof execute s e := by
  constructor
  · rintro ⟨number, tx, p, rfl, hp, hhonest, fraud, now, challenger, hc, hok⟩
    obtain ⟨q, ⟨hpending, hopen, hfraud⟩, hcov⟩ := succeeds_challenge_iff.mp hok
    obtain rfl := Option.some.inj (hp.symm.trans hpending.2.1)
    exact ⟨number, tx, fraud, now, challenger, p, rfl, hc, ⟨hpending, hopen⟩, hcov, hhonest,
      (hhonest.contradicts_iff fraud).mp hfraud⟩
  · rintro ⟨number, tx, fraud, now, challenger, p, rfl, hc, ⟨hpending, hopen⟩, hcov, hhonest,
      hfraud⟩
    have hch : Challengeable s.ledger tx fraud now p :=
      ⟨hpending, hopen, (hhonest.contradicts_iff fraud).mpr hfraud⟩
    exact ⟨number, tx, p, rfl, hpending.2.1, hhonest, fraud, now, challenger, hc,
      succeeds_challenge_iff.mpr ⟨p, hch, hcov⟩⟩

/-- A run in which every challenge names the result of running the component slashes no honest
provider. -/
theorem not_slashesHonest_of_truthful {s : State} {es : List Step}
    (h : Along step (fun s e => ∀ number tx fraud now challenger, e = .finish number →
      s.call? number = some (.challenge tx fraud now challenger) → Truthful execute fraud) s es) :
    Along step (fun s e => ¬ SlashesHonest execute s e) s es := by
  refine h.mono fun s e he hslashes => ?_
  obtain ⟨number, tx, fraud, now, challenger, p, hfinish, hc, -, -, -, -, hfalse⟩ :=
    (slashesHonest_iff s e).mp hslashes
  exact hfalse (he number tx fraud now challenger hfinish hc)

end Execute

/-- **Honest providers.** Along a run of the settlement layer no challenge of an honest claim
succeeds iff no challenge with a false proof reaches an honest claim that is open and
covered. -/
theorem honest_never_slashed_iff (execute : (componentCID inputCID : GoString) → GoString)
    (openMesh : Bool) (es : List Step) :
    Along step (fun s e => ¬ SlashesHonest execute s e) (start openMesh) es ↔
      Along step (fun s e => ¬ FalseProof execute s e) (start openMesh) es := by
  simp only [slashesHonest_iff]

/-- The provider "p" claims ten credits of "c" and posts a bond of five. -/
def bondedClaim : Request :=
  .settleCompletedTask ⟨[1], [0xde, 0xad]⟩ (.lit "in")
    { consumer := .lit "c"
      provider := .lit "p"
      paymentInput := 1
      payment := 10
      bondInput := 2
      bond := 5
      outputCID := .lit "out"
      disputeBlocks := 0 }

def spender : Rpc.DaemonRPC := ⟨fun _ _ _ => .ok ⟨.lit "m"⟩, true⟩

def inventedFraud : Rpc.EconomyChallengeRequest :=
  { token := .lit "t"
    tx := 1
    componentCID := .lit "dead"
    inputCID := .lit "in"
    claimedOutputCID := .lit "out"
    actualOutputCID := .lit "nonsense"
    challenger := .lit "" }

def slashedHonest : List Step :=
  [.outside (.mint (.lit "c") 10), .outside (.mint (.lit "p") 5), .request bondedClaim, .finish 0,
    .rpc spender inventedFraud, .finish 1]

/-- The component really gives "out", as "p" claimed. The challenge succeeds all the same: the RPC
reports the slash, and "m" owns the bond. -/
theorem slashedHonest_slashes :
    SlashesHonest (fun _ _ => .lit "out") (reached true (slashedHonest.take 5)) (.finish 1) ∧
      ((Rpc.economyChallenge spender inventedFraud).run
        (reached true (slashedHonest.take 4)).ledger).1 = .ok (.ok ⟨1, true, 10, 5⟩) ∧
      balanceReading (reached true slashedHonest).ledger (.lit "m") = .ok 5 := by
  have hclaim : claim (reached true (slashedHonest.take 5)).ledger.store 1 =
      some
        { tx := 1
          consumer := .lit "c"
          provider := .lit "p"
          payment := 10
          bond := 5
          openedAt := 0
          disputeBlock := 16
          binding := ⟨.lit "01", .lit "dead", .lit "in", .lit "out"⟩
          state := .pending } := by
    decide +kernel
  refine ⟨⟨1, 1, _, rfl, hclaim, rfl, ?_⟩, by decide +kernel, by decide +kernel⟩
  exact ⟨inventedFraud.fraud, 0, .lit "m", by decide +kernel, .slash ⟨1, 10, 5⟩, by decide +kernel⟩

end Cerberus.Settler
