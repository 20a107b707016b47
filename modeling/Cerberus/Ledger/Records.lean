import Cerberus.Foundation.Encoding
import Cerberus.Foundation.OrderedMap

/-!
# The records of the durable ledger

The data of `daemon/ledger`: unspent outputs, optimistic claims with the content they are bound to,
fraud proofs, and recorded compute transactions, together with their stored form. Every record is a
JSON document under a key made of a fixed text and a decimal id; the three counters are eight raw
bytes each. The keys of different records and counters never meet, and a record reads back with its
strings coerced to UTF-8.
-/

namespace Cerberus

open Foundation GoString

/-- `Utxo`: an unspent compute-credit output. -/
structure Utxo where
  owner : GoString
  value : UInt64
  deriving DecidableEq, Repr

/-- `ClaimState`: the lifecycle state of an optimistic settlement. It is a string in the source;
`other` is a string that is none of the three constants. -/
inductive ClaimState
  | pending
  | finalized
  | slashed
  | other (s : GoString)
  deriving DecidableEq, Repr

/-- `SettlementBinding`: the component that ran, the inputs it ran on and the outputs it
produced. -/
structure SettlementBinding where
  taskID : GoString
  componentCID : GoString
  inputCID : GoString
  outputCID : GoString
  deriving DecidableEq, Repr

/-- `PendingSettlement`: a durable optimistic claim awaiting finalize or slash. -/
structure PendingSettlement where
  tx : UInt64
  consumer : GoString
  provider : GoString
  payment : UInt64
  bond : UInt64
  openedAt : UInt64
  disputeBlock : UInt64
  binding : SettlementBinding
  state : ClaimState
  deriving DecidableEq, Repr

/-- `WindowElapsed`: whether the dispute window has closed at block `now`. -/
def PendingSettlement.windowElapsed (p : PendingSettlement) (now : UInt64) : Bool :=
  let sum := p.openedAt + p.disputeBlock
  let windowEnd := if sum < p.openedAt then (0 : UInt64).complement else sum
  decide (windowEnd ≤ now)

/-- `FraudProof`: a challenger's evidence that the provider's claimed output is wrong. -/
structure FraudProof where
  componentCID : GoString
  inputCID : GoString
  claimedOutputCID : GoString
  actualOutputCID : GoString
  deriving DecidableEq, Repr

/-- `Slash`: the result of a valid fraud challenge. -/
structure Slash where
  tx : UInt64
  refunded : UInt64
  bondAwarded : UInt64
  deriving DecidableEq, Repr

/-- `ComputeTx`: a completed workload and its notional price. -/
structure ComputeTx where
  id : UInt64
  taskID : GoString
  model : GoString
  consumer : GoString
  provider : GoString
  amount : UInt64
  outputCID : GoString
  unixTime : Int64
  state : GoString
  deriving DecidableEq, Repr

def metaNext : GoString := .lit "meta:next"

def metaBlock : GoString := .lit "meta:block"

def metaNextTx : GoString := .lit "meta:nexttx"

def metaNextComputeTx : GoString := .lit "meta:nextcomputetx"

/-- What the keys of unspent outputs start with. -/
def utxoPfx : GoString := .lit "utxo:"

def pendingPfx : GoString := .lit "pending:"

def computeTxPfx : GoString := .lit "computetx:"

/-- The owner of locked credits during a dispute window. Not a real principal. -/
def escrowOwner : GoString := .lit "__escrow__"

def key (id : UInt64) : GoString := utxoPfx ++ .formatUint id

def pendingKey (tx : UInt64) : GoString := pendingPfx ++ .formatUint tx

def computeTxKey (id : UInt64) : GoString := computeTxPfx ++ .formatUint id

lemma key_injective : Function.Injective key :=
  (append_right_injective utxoPfx).comp formatUint_injective

lemma pendingKey_injective : Function.Injective pendingKey :=
  (append_right_injective pendingPfx).comp formatUint_injective

@[simp] lemma key_inj {id id' : UInt64} : key id = key id' ↔ id = id' := key_injective.eq_iff

@[simp] lemma pendingKey_inj {tx tx' : UInt64} : pendingKey tx = pendingKey tx' ↔ tx = tx' :=
  pendingKey_injective.eq_iff

/-! ### Keys of different kinds -/

variable (id : UInt64)

@[simp] lemma hasPrefix_utxoPfx_key : (key id).hasPrefix utxoPfx = true :=
  hasPrefix_append _ _

@[simp] lemma hasPrefix_pendingPfx_pendingKey (tx : UInt64) :
    (pendingKey tx).hasPrefix pendingPfx = true :=
  hasPrefix_append _ _

variable {k : GoString}

lemma hasPrefix_utxoPfx_of_pendingPfx (h : k.hasPrefix pendingPfx = true) :
    k.hasPrefix utxoPfx = false :=
  not_hasPrefix_of_hasPrefix 0 (a := 117) (b := 112) rfl rfl (by decide) h

lemma hasPrefix_pendingPfx_of_utxoPfx (h : k.hasPrefix utxoPfx = true) :
    k.hasPrefix pendingPfx = false :=
  not_hasPrefix_of_hasPrefix 0 (a := 112) (b := 117) rfl rfl (by decide) h

@[simp] lemma hasPrefix_utxoPfx_pendingKey (tx : UInt64) :
    (pendingKey tx).hasPrefix utxoPfx = false :=
  hasPrefix_utxoPfx_of_pendingPfx (hasPrefix_pendingPfx_pendingKey tx)

@[simp] lemma hasPrefix_pendingPfx_key : (key id).hasPrefix pendingPfx = false :=
  hasPrefix_pendingPfx_of_utxoPfx (hasPrefix_utxoPfx_key id)

@[simp] lemma hasPrefix_utxoPfx_computeTxKey : (computeTxKey id).hasPrefix utxoPfx = false :=
  not_hasPrefix_of_hasPrefix 0 (a := 117) (b := 99) rfl rfl (by decide)
    (hasPrefix_append computeTxPfx _)

@[simp] lemma hasPrefix_pendingPfx_computeTxKey : (computeTxKey id).hasPrefix pendingPfx = false :=
  not_hasPrefix_of_hasPrefix 0 (a := 112) (b := 99) rfl rfl (by decide)
    (hasPrefix_append computeTxPfx _)

@[simp] lemma hasPrefix_utxoPfx_metaNext : metaNext.hasPrefix utxoPfx = false := by decide
@[simp] lemma hasPrefix_utxoPfx_metaBlock : metaBlock.hasPrefix utxoPfx = false := by decide
@[simp] lemma hasPrefix_utxoPfx_metaNextTx : metaNextTx.hasPrefix utxoPfx = false := by decide
@[simp] lemma hasPrefix_pendingPfx_metaNext : metaNext.hasPrefix pendingPfx = false := by decide
@[simp] lemma hasPrefix_pendingPfx_metaBlock : metaBlock.hasPrefix pendingPfx = false := by decide
@[simp] lemma hasPrefix_pendingPfx_metaNextTx : metaNextTx.hasPrefix pendingPfx = false := by decide
@[simp] lemma hasPrefix_utxoPfx_metaNextComputeTx :
    metaNextComputeTx.hasPrefix utxoPfx = false := by decide
@[simp] lemma hasPrefix_pendingPfx_metaNextComputeTx :
    metaNextComputeTx.hasPrefix pendingPfx = false := by decide

lemma key_ne (hk : k.hasPrefix utxoPfx = false) (id : UInt64) : key id ≠ k := by
  rintro rfl
  simp at hk

lemma pendingKey_ne (hk : k.hasPrefix pendingPfx = false) (tx : UInt64) : pendingKey tx ≠ k := by
  rintro rfl
  simp at hk

lemma computeTxKey_ne (hk : k.hasPrefix computeTxPfx = false) (id : UInt64) :
    computeTxKey id ≠ k := by
  rintro rfl
  simp [computeTxKey, hasPrefix_append] at hk

/-! ### Stored form -/

namespace Utxo

def marshal (u : Utxo) : Blob :=
  .json (.obj [("owner", .ofGoString u.owner), ("value", .ofUInt64 u.value)])

def unmarshal (b : Blob) : Except Json.Err Utxo := do
  let j ← b.document
  let owner ← j.getString "owner"
  let value ← j.getUInt64 "value"
  return ⟨owner, value⟩

/-- The output as it reads back: its owner coerced to UTF-8. -/
def coerced (u : Utxo) : Utxo := { u with owner := u.owner.coerce }

@[simp] lemma unmarshal_marshal (u : Utxo) : unmarshal u.marshal = .ok u.coerced := by
  simp only [unmarshal, marshal, Blob.document, Json.getString, Json.getUInt64, Json.ok_bind,
    Json.field_obj_cons, if_true, String.reduceEq, if_false, Json.toGoString_ofGoString,
    Json.toUInt64_ofUInt64]
  rfl

end Utxo

namespace ClaimState

def text : ClaimState → GoString
  | pending => .lit "pending"
  | finalized => .lit "finalized"
  | slashed => .lit "slashed"
  | other s => s

def ofText (s : GoString) : ClaimState :=
  if s = .lit "pending" then pending
  else if s = .lit "finalized" then finalized
  else if s = .lit "slashed" then slashed
  else other s

@[simp] lemma text_ofText (s : GoString) : (ofText s).text = s := by
  unfold ofText
  split_ifs with h₁ h₂ h₃
  · exact h₁.symm
  · exact h₂.symm
  · exact h₃.symm
  · rfl

lemma ofText_coerce_text {st : ClaimState} (h : st = .pending ∨ st = .finalized ∨ st = .slashed) :
    ofText st.text.coerce = st := by
  rcases h with rfl | rfl | rfl <;> decide +kernel

end ClaimState

namespace SettlementBinding

def toJson (b : SettlementBinding) : Json :=
  .obj [("task_id", .ofGoString b.taskID), ("component_cid", .ofGoString b.componentCID),
    ("input_cid", .ofGoString b.inputCID), ("output_cid", .ofGoString b.outputCID)]

def ofJson (j : Json) : Except Json.Err SettlementBinding := do
  let taskID ← j.getString "task_id"
  let componentCID ← j.getString "component_cid"
  let inputCID ← j.getString "input_cid"
  let outputCID ← j.getString "output_cid"
  return ⟨taskID, componentCID, inputCID, outputCID⟩

def coerced (b : SettlementBinding) : SettlementBinding :=
  ⟨b.taskID.coerce, b.componentCID.coerce, b.inputCID.coerce, b.outputCID.coerce⟩

@[simp] lemma ofJson_toJson (b : SettlementBinding) : ofJson b.toJson = .ok b.coerced := by
  simp only [ofJson, toJson, Json.getString, Json.ok_bind, Json.field_obj_cons, if_true,
    String.reduceEq, if_false, Json.toGoString_ofGoString]
  rfl

end SettlementBinding

namespace PendingSettlement

def marshal (p : PendingSettlement) : Blob :=
  .json (.obj [("tx", .ofUInt64 p.tx), ("consumer", .ofGoString p.consumer),
    ("provider", .ofGoString p.provider), ("payment", .ofUInt64 p.payment),
    ("bond", .ofUInt64 p.bond), ("opened_at", .ofUInt64 p.openedAt),
    ("dispute_blocks", .ofUInt64 p.disputeBlock), ("binding", p.binding.toJson),
    ("state", .ofGoString p.state.text)])

def unmarshal (b : Blob) : Except Json.Err PendingSettlement := do
  let j ← b.document
  let tx ← j.getUInt64 "tx"
  let consumer ← j.getString "consumer"
  let provider ← j.getString "provider"
  let payment ← j.getUInt64 "payment"
  let bond ← j.getUInt64 "bond"
  let openedAt ← j.getUInt64 "opened_at"
  let disputeBlock ← j.getUInt64 "dispute_blocks"
  let binding ← SettlementBinding.ofJson (← j.getStruct "binding")
  let state ← j.getString "state"
  return ⟨tx, consumer, provider, payment, bond, openedAt, disputeBlock, binding,
    ClaimState.ofText state⟩

def coerced (p : PendingSettlement) : PendingSettlement :=
  { p with
    consumer := p.consumer.coerce
    provider := p.provider.coerce
    binding := p.binding.coerced
    state := ClaimState.ofText p.state.text.coerce }

@[simp] lemma unmarshal_marshal (p : PendingSettlement) : unmarshal p.marshal = .ok p.coerced := by
  have hbinding : p.binding.toJson.toStruct "binding" = .ok p.binding.toJson := rfl
  simp only [unmarshal, marshal, Blob.document, Json.getString, Json.getUInt64, Json.getStruct,
    Json.ok_bind, Json.field_obj_cons, if_true, String.reduceEq, if_false,
    Json.toGoString_ofGoString, Json.toUInt64_ofUInt64, hbinding, SettlementBinding.ofJson_toJson]
  rfl

end PendingSettlement

namespace ComputeTx

/-- A field that is left out when it is empty (`omitempty`). -/
def omitEmpty (name : String) (s : GoString) : List (String × Json) :=
  if s.bytes = [] then [] else [(name, .ofGoString s)]

def marshal (t : ComputeTx) : Blob :=
  .json (.obj ([("id", .ofUInt64 t.id), ("task_id", .ofGoString t.taskID)] ++
    omitEmpty "model" t.model ++
    [("consumer", .ofGoString t.consumer), ("provider", .ofGoString t.provider),
      ("amount", .ofUInt64 t.amount)] ++
    omitEmpty "output_cid" t.outputCID ++
    [("unix_time", .num t.unixTime.toInt), ("state", .ofGoString t.state)]))

end ComputeTx

end Cerberus
