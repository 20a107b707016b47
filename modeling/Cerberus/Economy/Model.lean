import Cerberus.Foundation.Fallible
import Cerberus.Foundation.GoString
import Cerberus.Foundation.OrderedMap

/-!
# The reference ledger

The ledger of `core/economy` (`lib.rs`): an eUTXO ledger in memory with optimistic settlement and
fraud proofs, the reference model for the daemon's durable ledger.

A `HashMap<u64, _>` is a finite map keyed by the numbers. The order in which a `HashMap` is
iterated is not determined by its contents, and whether `u64` arithmetic panics on overflow depends
on the build, so both are parameters of every call (`Env`). A call ends with a value, with an error
or with a panic; in all cases the ledger keeps what was done before.

A `String` is a byte string that is valid UTF-8. The fields of a zk-WASM proof that are not read
are left out, and so is the wallet resource.
-/

namespace Cerberus.Economy

open Foundation

abbrev PeerId := Vector UInt8 32

abbrev TaskId := Vector UInt8 16

/-- `ESCROW`: the owner of locked credits. -/
def escrow : PeerId := Vector.replicate 32 0xEE

/-- `String`: a byte string that is valid UTF-8. -/
abbrev Text := { s : GoString // s.valid = true }

/-- `Utxo`: an unspent compute-credit output. -/
structure Utxo where
  owner : PeerId
  value : UInt64
  deriving DecidableEq

structure SettlementBinding where
  taskId : TaskId
  componentCid : Text
  inputCid : Text
  outputCid : Text
  deriving DecidableEq

def SettlementBinding.default : SettlementBinding :=
  ⟨Vector.replicate 16 0, ⟨⟨[]⟩, rfl⟩, ⟨⟨[]⟩, rfl⟩, ⟨⟨[]⟩, rfl⟩⟩

structure FraudProof where
  componentCid : Text
  inputCid : Text
  claimedOutputCid : Text
  actualOutputCid : Text
  deriving DecidableEq

structure ZkWasmProof where
  scheme : Text
  deriving DecidableEq

inductive SettleMode
  | optimistic (disputeWindowBlocks : UInt64)
  | zkWasm (proof : ZkWasmProof)
  deriving DecidableEq

structure Slash where
  tx : UInt64
  refunded : UInt64
  bondAwarded : UInt64
  deriving DecidableEq, Repr

inductive ClaimState
  | pending
  | finalized
  | slashed
  deriving DecidableEq, Repr

structure PendingSettlement where
  tx : UInt64
  consumer : PeerId
  provider : PeerId
  payment : UInt64
  bond : UInt64
  openedAt : UInt64
  disputeWindowBlocks : UInt64
  binding : SettlementBinding
  state : ClaimState
  deriving DecidableEq

def saturatingAdd (a b : UInt64) : UInt64 :=
  if a.toNat + b.toNat < 2 ^ 64 then a + b else (0 : UInt64).complement

def PendingSettlement.windowElapsed (p : PendingSettlement) (now : UInt64) : Bool :=
  decide (saturatingAdd p.openedAt p.disputeWindowBlocks ≤ now)

structure Ledger where
  utxos : OrdMap ℕ Utxo
  pending : OrdMap ℕ PendingSettlement
  next : UInt64
  nextTx : UInt64
  /-- False in the Sealed profile. -/
  enabled : Bool

inductive Err
  | economyDisabledSealed
  | economyDisabled
  | noSuchUtxo
  | insufficientValue
  | invalidProofScheme
  | noSuchPaymentUtxo
  | insufficientValueForPayment
  | noSuchBondUtxo
  | bondNotOwned
  | insufficientValueForBond
  | noSuchPending
  | notPending
  | windowNotElapsed
  | windowClosed
  | bindingMismatch
  | claimedMismatch
  | outputsMatch
  | escrowUnderflow
  deriving DecidableEq, Repr

inductive Panic
  | overflow
  | expect (message : String)
  deriving DecidableEq, Repr

inductive Exit
  | err (e : Err)
  | panic (p : Panic)
  deriving DecidableEq, Repr

/-- What the program text leaves open in a call. -/
structure Env where
  /-- Whether arithmetic panics on overflow; otherwise it wraps around. -/
  overflowChecks : Bool
  /-- The order in which the entries of a `HashMap` come, by their keys. -/
  order : List ℕ → List ℕ
  perm : ∀ l, (order l).Perm l

abbrev EconM := Fallible Ledger Exit

def fail {α : Type} (e : Err) : EconM α := throw (.err e)

def add (env : Env) (a b : UInt64) : EconM UInt64 :=
  if env.overflowChecks = true ∧ 2 ^ 64 ≤ a.toNat + b.toNat then throw (.panic .overflow)
  else pure (a + b)

namespace Ledger

def new (openMesh : Bool) : Ledger :=
  { utxos := .empty, pending := .empty, next := 1, nextTx := 1, enabled := openMesh }

def getUtxo (l : Ledger) (id : UInt64) : Option Utxo := l.utxos.get? id.toNat

def remove (l : Ledger) (id : UInt64) : Ledger := { l with utxos := l.utxos.delete id.toNat }

end Ledger

variable (env : Env)

def mint (owner : PeerId) (value : UInt64) : EconM UInt64 := do
  let id := (← get).next
  let next ← add env id 1
  modify fun l => { l with next := next }
  modify fun l => { l with utxos := l.utxos.put id.toNat ⟨owner, value⟩ }
  return id

def balanceLoop (owner : PeerId) : List ℕ → UInt64 → EconM UInt64
  | [], sum => pure sum
  | id :: ids, sum => do
    match (← get).utxos.get? id with
    | none => balanceLoop owner ids sum
    | some u =>
      if u.owner = owner then
        balanceLoop owner ids (← add env sum u.value)
      else
        balanceLoop owner ids sum

def balance (owner : PeerId) : EconM UInt64 := do
  balanceLoop env owner (env.order (← get).utxos.keys) 0

/-- `settle`: move `amt` of an output to another owner. The output is removed before its value is
checked. -/
def settle (input : UInt64) (payee : PeerId) (amt : UInt64) : EconM UInt64 := do
  if !(← get).enabled then fail .economyDisabledSealed
  let some utxo := (← get).getUtxo input | fail .noSuchUtxo
  modify fun l => l.remove input
  if utxo.value < amt then fail .insufficientValue
  if utxo.value > amt then
    let _ ← mint env utxo.owner (utxo.value - amt)
  mint env payee amt

structure OpenArgs where
  input : UInt64
  provider : PeerId
  amt : UInt64
  bondInput : UInt64
  bond : UInt64
  disputeWindowBlocks : UInt64
  binding : SettlementBinding
  deriving DecidableEq

def checkBond (a : OpenArgs) : EconM Unit := do
  let some b := (← get).getUtxo a.bondInput | fail .noSuchBondUtxo
  if b.owner ≠ a.provider then fail .bondNotOwned
  if b.value < a.bond then fail .insufficientValueForBond

/-- The part of `open_optimistic` that moves the bond into escrow. -/
def lockBond (a : OpenArgs) : EconM Unit := do
  let some b := (← get).getUtxo a.bondInput | throw (.panic (.expect "checked above"))
  modify fun l => l.remove a.bondInput
  if b.value > a.bond then
    let _ ← mint env a.provider (b.value - a.bond)
  let _ ← mint env escrow a.bond

/-- `open_optimistic`: lock the payment and the bond, if any, into escrow and open a claim. -/
def openOptimistic (a : OpenArgs) : EconM UInt64 := do
  if !(← get).enabled then fail .economyDisabled
  let some pay := (← get).getUtxo a.input | fail .noSuchPaymentUtxo
  if pay.value < a.amt then fail .insufficientValueForPayment
  if a.bond > 0 then checkBond a
  modify fun l => l.remove a.input
  if pay.value > a.amt then
    let _ ← mint env pay.owner (pay.value - a.amt)
  let _ ← mint env escrow a.amt
  if a.bond > 0 then lockBond env a
  let tx := (← get).nextTx
  let nextTx ← add env tx 1
  modify fun l => { l with nextTx := nextTx }
  let p : PendingSettlement :=
    { tx := tx
      consumer := pay.owner
      provider := a.provider
      payment := a.amt
      bond := a.bond
      openedAt := 0
      disputeWindowBlocks := a.disputeWindowBlocks
      binding := a.binding
      state := .pending }
  modify fun l => { l with pending := l.pending.put tx.toNat p }
  return tx

/-- `open_optimistic_at`: record the opening block height as well. -/
def openOptimisticAt (now : UInt64) (a : OpenArgs) : EconM UInt64 := do
  let tx ← openOptimistic env a
  match (← get).pending.get? tx.toNat with
  | none => return tx
  | some p =>
    modify fun l => { l with pending := l.pending.put tx.toNat { p with openedAt := now } }
    return tx

def settleTask (input : UInt64) (provider : PeerId) (amt : UInt64) (mode : SettleMode) :
    EconM UInt64 := do
  if !(← get).enabled then fail .economyDisabled
  match mode with
  | .optimistic disputeWindowBlocks =>
    openOptimistic env
      { input := input
        provider := provider
        amt := amt
        bondInput := 0
        bond := 0
        disputeWindowBlocks := disputeWindowBlocks
        binding := .default }
  | .zkWasm proof =>
    if proof.scheme.1 ≠ .lit "zkwasm" then fail .invalidProofScheme
    let _ ← settle env input provider amt
    let tx := (← get).nextTx
    let nextTx ← add env tx 1
    modify fun l => { l with nextTx := nextTx }
    return tx

def burnLoop : List ℕ → UInt64 → EconM UInt64
  | [], remaining => pure remaining
  | id :: ids, remaining => do
    if remaining = 0 then
      return 0
    else
      match (← get).utxos.get? id with
      | none => throw (.panic (.expect "present"))
      | some u =>
        if u.value ≤ remaining then
          modify fun l => { l with utxos := l.utxos.delete id }
          burnLoop ids (remaining - u.value)
        else
          modify fun l => { l with utxos := l.utxos.put id ⟨escrow, u.value - remaining⟩ }
          burnLoop ids 0

def escrowIds (l : Ledger) : List ℕ :=
  (l.utxos.entries.filter fun e => e.2.owner = escrow).map Prod.fst

/-- `burn_escrow`: remove `amt` of escrow-owned value. -/
def burnEscrow (amt : UInt64) : EconM Unit := do
  let ids := env.order (escrowIds (← get))
  let remaining ← burnLoop ids amt
  if remaining ≠ 0 then fail .escrowUnderflow

def setState (tx : UInt64) (st : ClaimState) : EconM Unit := do
  match (← get).pending.get? tx.toNat with
  | none => pure ()
  | some p => modify fun l => { l with pending := l.pending.put tx.toNat { p with state := st } }

def finalize (tx now : UInt64) : EconM UInt64 := do
  if !(← get).enabled then fail .economyDisabled
  let some p := (← get).pending.get? tx.toNat | fail .noSuchPending
  if p.state ≠ .pending then fail .notPending
  if !p.windowElapsed now then fail .windowNotElapsed
  let sum ← add env p.payment p.bond
  let _ ← mint env p.provider sum
  let sum ← add env p.payment p.bond
  burnEscrow env sum
  setState tx .finalized
  return p.payment

def challenge (tx : UInt64) (fraud : FraudProof) (now : UInt64) (challenger : PeerId) :
    EconM Slash := do
  if !(← get).enabled then fail .economyDisabled
  let some p := (← get).pending.get? tx.toNat | fail .noSuchPending
  if p.state ≠ .pending then fail .notPending
  if p.windowElapsed now then fail .windowClosed
  if fraud.componentCid ≠ p.binding.componentCid ∨ fraud.inputCid ≠ p.binding.inputCid then
    fail .bindingMismatch
  if fraud.claimedOutputCid ≠ p.binding.outputCid then fail .claimedMismatch
  if fraud.actualOutputCid = fraud.claimedOutputCid then fail .outputsMatch
  let _ ← mint env p.consumer p.payment
  if p.bond > 0 then
    let _ ← mint env challenger p.bond
  let sum ← add env p.payment p.bond
  burnEscrow env sum
  setState tx .slashed
  return { tx := tx, refunded := p.payment, bondAwarded := p.bond }

end Cerberus.Economy
