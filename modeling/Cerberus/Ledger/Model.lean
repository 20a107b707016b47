import Cerberus.Foundation.StoreProgram
import Cerberus.Ledger.Records

/-!
# The durable ledger

The operations of `daemon/ledger` (`ledger.go`, `settlement.go`, `txlog.go`) as procedures over the
ledger's bucket of the daemon's store. The memory of the ledger is its id counter, its block height
and the profile flag; the store holds outputs, claims, recorded compute transactions and the
counters. Every store call of the source is one operation of the procedure and a transaction of its
own, so a process may stop between any two of them; every write is labelled with the function that
performs it. The exported operations hold the ledger's mutex from start to end.

`json.Marshal` cannot fail on the records of the ledger, so its error exits are left out.
-/

namespace Cerberus

open Foundation

inductive StoreErr
  | closed
  | bolt (text : String)
  deriving DecidableEq, Repr

inductive LedgerErr
  | store (e : StoreErr)
  | json (e : Json.Err)
  | economyDisabled
  | noSuchUtxo
  | insufficientValue
  | notOwned
  | escrowUnderflow
  | noSuchPending
  | notPending
  | windowNotElapsed
  | windowClosed
  | bindingMismatch
  | claimedMismatch
  | outputsMatch
  | principalsRequired
  deriving DecidableEq, Repr

/-- The functions of the ledger that write to the store. -/
inductive Site
  | mintLocked
  | persistNext
  | persistBlock
  | persistNextTx
  | settle
  | lockFromInputLocked
  | releaseEscrowLocked
  | putPendingLocked
  | nextComputeTxLocked
  | recordComputeTx
  deriving DecidableEq, Repr

/-- `Ledger`: the memory of a durable eUTXO ledger. -/
structure Ledger where
  next : UInt64
  block : UInt64
  /-- Whether settlement is enabled; it is not in the Sealed profile. -/
  enabled : Bool
  deriving DecidableEq, Repr

abbrev Store := OrdMap GoString Blob

/-- A ledger in memory together with its store. -/
abbrev LedgerWorld := World Ledger GoString Blob

abbrev LedgerM := Proc Ledger LedgerErr Site StoreErr GoString Blob

namespace Ledger

def storeGet (k : GoString) : LedgerM (Option Blob) := .getKey .store k

def storeKeys : LedgerM (List GoString) := .listKeys .store

def storePut (site : Site) (k : GoString) (v : Blob) : LedgerM Unit := .putKey .store site k v

def storeDelete (site : Site) (k : GoString) : LedgerM Unit := .deleteKey .store site k

def decoded {α : Type} (r : Except Json.Err α) : LedgerM α :=
  match r with
  | .ok a => pure a
  | .error e => throw (.json e)

/-- `Open`: load the ledger from the store, with its initial values where the store has none. -/
def openLedger (openMesh : Bool) :
    Proc Unit LedgerErr Site StoreErr GoString Blob Ledger := do
  let b ← .getKey .store metaNext
  let next := (b.bind Blob.uint64?).getD 1
  let b ← .getKey .store metaBlock
  let block := (b.bind Blob.uint64?).getD 0
  return { next := next, block := block, enabled := openMesh }

def persistNext : LedgerM Unit := do
  let l ← get
  storePut .persistNext metaNext (.ofUInt64 l.next)

def persistBlock : LedgerM Unit := do
  let l ← get
  storePut .persistBlock metaBlock (.ofUInt64 l.block)

/-- `Block`: the current block height. -/
def readBlock : LedgerM UInt64 := do
  let l ← get
  return l.block

/-- `AdvanceBlock`: move the block height forward by `n` and persist it; if that fails the height in
memory is rolled back. -/
def advanceBlock (n : UInt64) : LedgerM UInt64 := do
  let prev := (← get).block
  modify fun l => { l with block := l.block + n }
  tryCatch persistBlock fun e => do
    modify fun l => { l with block := prev }
    throw e
  return (← get).block

/-- `mintLocked`: store a new output under the next id, then the advanced counter. -/
def mintLocked (owner : GoString) (value : UInt64) : LedgerM UInt64 := do
  let id := (← get).next
  modify fun l => { l with next := l.next + 1 }
  storePut .mintLocked (key id) (Utxo.marshal ⟨owner, value⟩)
  persistNext
  return id

def mint (owner : GoString) (value : UInt64) : LedgerM UInt64 := mintLocked owner value

/-- The loop over the keys of the store shared by `Balance` and `TotalSupply`: add up the values of
the outputs that are to be counted. -/
def sumLoop (counted : Utxo → Bool) : List GoString → UInt64 → LedgerM UInt64
  | [], sum => pure sum
  | k :: ks, sum => do
    if !k.hasPrefix utxoPfx then
      sumLoop counted ks sum
    else
      match ← storeGet k with
      | none => sumLoop counted ks sum
      | some b =>
        match Utxo.unmarshal b with
        | .ok u => if counted u then sumLoop counted ks (sum + u.value) else sumLoop counted ks sum
        | .error _ => sumLoop counted ks sum

def balance (owner : GoString) : LedgerM UInt64 := do
  let keys ← storeKeys
  sumLoop (fun u => decide (u.owner = owner)) keys 0

/-- `TotalSupply`: the sum of all outputs, escrow included. -/
def totalSupply : LedgerM UInt64 := do
  let keys ← storeKeys
  sumLoop (fun _ => true) keys 0

/-- `Settle`: consume the output `input`, pay `amt` of it to `payee` and return the change to its
owner. -/
def settle (input : UInt64) (payee : GoString) (amt : UInt64) : LedgerM UInt64 := do
  if !(← get).enabled then throw .economyDisabled
  let some b ← storeGet (key input) | throw .noSuchUtxo
  let u ← decoded (Utxo.unmarshal b)
  if u.value < amt then throw .insufficientValue
  storeDelete .settle (key input)
  if u.value > amt then
    let _ ← mintLocked u.owner (u.value - amt)
  mintLocked payee amt

/-! ### Optimistic settlement -/

def persistNextTx (tx : UInt64) : LedgerM Unit := storePut .persistNextTx metaNextTx (.ofUInt64 tx)

/-- `nextTxLocked`: take the next settlement id from the store and persist its successor. -/
def nextTxLocked : LedgerM UInt64 := do
  let b ← storeGet metaNextTx
  let tx := (b.bind Blob.uint64?).getD 1
  persistNextTx (tx + 1)
  return tx

def getUtxoLocked (id : UInt64) : LedgerM (Option Utxo) := do
  match ← storeGet (key id) with
  | none => return none
  | some b =>
    let u ← decoded (Utxo.unmarshal b)
    return some u

/-- `lockFromInputLocked`: consume `input`, which must be owned by `owner` and worth at least `amt`,
return the change to `owner` and move `amt` into escrow. -/
def lockFromInputLocked (input : UInt64) (owner : GoString) (amt : UInt64) : LedgerM Unit := do
  let some u ← getUtxoLocked input | throw .noSuchUtxo
  if u.owner ≠ owner then throw .notOwned
  if u.value < amt then throw .insufficientValue
  storeDelete .lockFromInputLocked (key input)
  if u.value > amt then
    let _ ← mintLocked u.owner (u.value - amt)
  let _ ← mintLocked escrowOwner amt

/-- The loop of `releaseEscrowLocked` over the keys of the store; returns what remains to be
released. -/
def releaseLoop : List GoString → UInt64 → LedgerM UInt64
  | [], remaining => pure remaining
  | k :: ks, remaining => do
    if remaining = 0 then
      return 0
    else if !k.hasPrefix utxoPfx then
      releaseLoop ks remaining
    else
      match ← storeGet k with
      | none => releaseLoop ks remaining
      | some b =>
        match Utxo.unmarshal b with
        | .error _ => releaseLoop ks remaining
        | .ok u =>
          if u.owner ≠ escrowOwner then
            releaseLoop ks remaining
          else if u.value ≤ remaining then
            storeDelete .releaseEscrowLocked k
            releaseLoop ks (remaining - u.value)
          else
            storePut .releaseEscrowLocked k
              (Utxo.marshal { u with value := u.value - remaining })
            releaseLoop ks 0

/-- `releaseEscrowLocked`: remove exactly `amt` of escrow-owned value, splitting an output if
necessary. -/
def releaseEscrowLocked (amt : UInt64) : LedgerM Unit := do
  if amt = 0 then
    return ()
  else
    let keys ← storeKeys
    let remaining ← releaseLoop keys amt
    if remaining ≠ 0 then throw .escrowUnderflow

def putPendingLocked (p : PendingSettlement) : LedgerM Unit :=
  storePut .putPendingLocked (pendingKey p.tx) p.marshal

/-- `Pending`: a claim by its id. -/
def pending (tx : UInt64) : LedgerM (Option PendingSettlement) := do
  match ← storeGet (pendingKey tx) with
  | none => return none
  | some b =>
    let p ← decoded (PendingSettlement.unmarshal b)
    return some p

structure OpenArgs where
  now : UInt64
  paymentInput : UInt64
  consumer : GoString
  payment : UInt64
  bondInput : UInt64
  provider : GoString
  bond : UInt64
  disputeBlocks : UInt64
  binding : SettlementBinding
  deriving DecidableEq, Repr

/-- `OpenOptimistic`: lock the consumer's payment and the provider's bond, if any, into escrow and
open a claim bound to `binding`. -/
def openOptimistic (a : OpenArgs) : LedgerM UInt64 := do
  if !(← get).enabled then throw .economyDisabled
  lockFromInputLocked a.paymentInput a.consumer a.payment
  if a.bond > 0 then
    lockFromInputLocked a.bondInput a.provider a.bond
  let tx ← nextTxLocked
  putPendingLocked
    { tx := tx
      consumer := a.consumer
      provider := a.provider
      payment := a.payment
      bond := a.bond
      openedAt := a.now
      disputeBlock := a.disputeBlocks
      binding := a.binding
      state := .pending }
  return tx

/-- `Finalize`: settle an unchallenged claim once its dispute window has elapsed. Returns the
payment. -/
def finalize (tx now : UInt64) : LedgerM UInt64 := do
  if !(← get).enabled then throw .economyDisabled
  let some b ← storeGet (pendingKey tx) | throw .noSuchPending
  let p ← decoded (PendingSettlement.unmarshal b)
  if p.state ≠ .pending then throw .notPending
  if !p.windowElapsed now then throw .windowNotElapsed
  let _ ← mintLocked p.provider (p.payment + p.bond)
  releaseEscrowLocked (p.payment + p.bond)
  putPendingLocked { p with state := .finalized }
  return p.payment

/-- `Challenge`: dispute a pending claim with a fraud proof. -/
def challenge (tx : UInt64) (fraud : FraudProof) (now : UInt64) (challenger : GoString) :
    LedgerM Slash := do
  if !(← get).enabled then throw .economyDisabled
  let some b ← storeGet (pendingKey tx) | throw .noSuchPending
  let p ← decoded (PendingSettlement.unmarshal b)
  if p.state ≠ .pending then throw .notPending
  if p.windowElapsed now then throw .windowClosed
  if fraud.componentCID ≠ p.binding.componentCID ∨ fraud.inputCID ≠ p.binding.inputCID then
    throw .bindingMismatch
  if fraud.claimedOutputCID ≠ p.binding.outputCID then throw .claimedMismatch
  if fraud.actualOutputCID = fraud.claimedOutputCID then throw .outputsMatch
  let _ ← mintLocked p.consumer p.payment
  if p.bond > 0 then
    let _ ← mintLocked challenger p.bond
  releaseEscrowLocked (p.payment + p.bond)
  putPendingLocked { p with state := .slashed }
  return { tx := tx, refunded := p.payment, bondAwarded := p.bond }

/-! ### Compute transactions -/

def nextComputeTxLocked : LedgerM UInt64 := do
  let b ← storeGet metaNextComputeTx
  let id := (b.bind Blob.uint64?).getD 1
  storePut .nextComputeTxLocked metaNextComputeTx (.ofUInt64 (id + 1))
  return id

/-- `RecordComputeTx`: append a compute transaction. It never touches the outputs. -/
def recordComputeTx (t : ComputeTx) : LedgerM UInt64 := do
  let id ← nextComputeTxLocked
  let t := { t with id := id }
  let t := if t.state.bytes = [] then { t with state := .lit "recorded" } else t
  storePut .recordComputeTx (computeTxKey id) t.marshal
  return id

end Ledger

end Cerberus
