import Cerberus.Ledger.Claims

/-!
# The settlement layer

`daemon/economy/settle.go`: the `Settler` turns a completed compute task into an optimistic
settlement on the durable ledger and measures dispute windows with the ledger's block height; and
the daemon's RPC method `EconomyChallenge` (`cmd/cerberusd/rpc.go`) that lets an authorized caller
dispute a settlement.

The procedures here are the methods run without interruption.

The settler has no state of its own. Of a compute task only the fields that settlement reads are
modelled, and of the RPC object the authorization, a parameter, and whether there is a settler.
-/

namespace Cerberus

open Foundation

/-- `contract.ComputeTask`, as far as settlement reads it. -/
structure ComputeTask where
  taskID : List UInt8
  component : List UInt8
  deriving DecidableEq, Repr

namespace Settler

open Ledger

/-- `Claim`: a provider's payment claim for a completed task. -/
structure Claim where
  consumer : GoString
  provider : GoString
  paymentInput : UInt64
  payment : UInt64
  bondInput : UInt64
  bond : UInt64
  outputCID : GoString
  /-- The length of the dispute window; zero stands for the default. -/
  disputeBlocks : UInt64
  deriving DecidableEq, Repr

def defaultDisputeBlocks : UInt64 := 16

def block : LedgerM UInt64 := readBlock

/-- `Advance`: move the block height; a failure to persist it is not reported, the height is then
the one before. -/
def advance (n : UInt64) : LedgerM UInt64 := tryCatch (advanceBlock n) fun _ => readBlock

/-- `SettleCompletedTask`: open an optimistic settlement for a completed task. -/
def settleCompletedTask (task : ComputeTask) (inputCID : GoString) (claim : Claim) :
    LedgerM UInt64 := do
  if claim.consumer.bytes = [] ∨ claim.provider.bytes = [] then
    throw .principalsRequired
  let window := if claim.disputeBlocks = 0 then defaultDisputeBlocks else claim.disputeBlocks
  let binding : SettlementBinding :=
    { taskID := hexEncode task.taskID
      componentCID := hexEncode task.component
      inputCID := inputCID
      outputCID := claim.outputCID }
  let now ← block
  openOptimistic
    { now := now
      paymentInput := claim.paymentInput
      consumer := claim.consumer
      payment := claim.payment
      bondInput := claim.bondInput
      provider := claim.provider
      bond := claim.bond
      disputeBlocks := window
      binding := binding }

def finalize (tx : UInt64) : LedgerM UInt64 := do
  let now ← block
  Ledger.finalize tx now

def challenge (tx : UInt64) (fraud : FraudProof) (challenger : GoString) : LedgerM Slash := do
  let now ← block
  Ledger.challenge tx fraud now challenger

end Settler

namespace Rpc

open Settler

/-- `auth.Claims`, as far as `EconomyChallenge` reads it. -/
structure AuthClaims where
  subject : GoString
  deriving DecidableEq, Repr

/-- `DaemonRPC`, as far as `EconomyChallenge` reads it. -/
structure DaemonRPC where
  /-- `authz.Authorize`, with the text of its error. -/
  authorize : (token right resource : GoString) → Except String AuthClaims
  settler : Bool

structure EconomyChallengeRequest where
  token : GoString
  tx : UInt64
  componentCID : GoString
  inputCID : GoString
  claimedOutputCID : GoString
  actualOutputCID : GoString
  challenger : GoString
  deriving DecidableEq, Repr

structure EconomyChallengeResponse where
  tx : UInt64
  slashed : Bool
  refunded : UInt64
  bondAwarded : UInt64
  deriving DecidableEq, Repr

inductive Err
  | unauthorized (e : String)
  | unavailable
  | challenge (e : LedgerErr)
  deriving DecidableEq, Repr

def EconomyChallengeRequest.fraud (req : EconomyChallengeRequest) : FraudProof :=
  { componentCID := req.componentCID
    inputCID := req.inputCID
    claimedOutputCID := req.claimedOutputCID
    actualOutputCID := req.actualOutputCID }

/-- `EconomyChallenge`: dispute a pending settlement with a fraud proof. -/
def economyChallenge (d : DaemonRPC) (req : EconomyChallengeRequest) :
    LedgerM (Except Err EconomyChallengeResponse) := do
  match d.authorize req.token (.lit "spend") (.lit "") with
  | .error e => return .error (.unauthorized e)
  | .ok claims =>
    if !d.settler then
      return .error .unavailable
    else
      let trimmed := req.challenger.trimSpace
      let challenger := if trimmed.bytes = [] then claims.subject else trimmed
      tryCatch
        (do
          let slash ← Settler.challenge req.tx req.fraud challenger
          return .ok
            { tx := slash.tx
              slashed := true
              refunded := slash.refunded
              bondAwarded := slash.bondAwarded })
        fun e => return .error (.challenge e)

end Rpc

end Cerberus
