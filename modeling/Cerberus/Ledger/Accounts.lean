import Cerberus.Foundation.Drain
import Cerberus.Ledger.Model

/-!
# What a store says about outputs, balances and claims

The outputs and claims that can be read from a store (`coin`, `claim`), what the outputs of an owner
and all outputs are worth (`held`, `supply`) and what the pending claims have locked (`owed`), all
as natural numbers. The primitive changes the operations make to a world (`minted`, `spent`,
`filed`, ...) are named here, together with their effect on each of these.

The outputs of the escrow are the `Drainable` part of the store.
-/

namespace Cerberus.Ledger

open Foundation OrdMap Option

open Json (bind_eq_ok_iff coerce_of_getString)

/-! ### Outputs and claims of a store -/

/-- The output that a blob decodes to. -/
def coinIn (b : Blob) : Option Utxo := (Utxo.unmarshal b).toOption

/-- The claim that a blob decodes to. -/
def claimIn (b : Blob) : Option PendingSettlement := (PendingSettlement.unmarshal b).toOption

/-- The output under an id. -/
def coin (m : Store) (id : UInt64) : Option Utxo := (m.get? (key id)).bind coinIn

/-- The claim under an id. -/
def claim (m : Store) (tx : UInt64) : Option PendingSettlement :=
  (m.get? (pendingKey tx)).bind claimIn

def nextTx (m : Store) : UInt64 := ((m.get? metaNextTx).bind Blob.uint64?).getD 1

@[simp] lemma coinIn_marshal (u : Utxo) : coinIn u.marshal = some u.coerced := by
  rw [coinIn, Utxo.unmarshal_marshal]
  rfl

@[simp] lemma claimIn_marshal (p : PendingSettlement) : claimIn p.marshal = some p.coerced := by
  rw [claimIn, PendingSettlement.unmarshal_marshal]
  rfl

variable {u : Utxo} {p : PendingSettlement} {m : Store} {tx : UInt64} {k : GoString} {a : ℕ}
variable {b : Blob}

lemma unmarshal_eq_ok_iff : Utxo.unmarshal b = .ok u ↔ coinIn b = some u := by
  unfold coinIn
  cases Utxo.unmarshal b <;> simp [Except.toOption]

lemma unmarshal_claim_eq_ok_iff : PendingSettlement.unmarshal b = .ok p ↔ claimIn b = some p := by
  unfold claimIn
  cases PendingSettlement.unmarshal b <;> simp [Except.toOption]

lemma coerce_owner_of_coinIn (h : coinIn b = some u) : u.owner.coerce = u.owner := by
  rw [← unmarshal_eq_ok_iff, Utxo.unmarshal] at h
  obtain ⟨j, -, h⟩ := bind_eq_ok_iff.mp h
  obtain ⟨owner, howner, h⟩ := bind_eq_ok_iff.mp h
  obtain ⟨value, -, h⟩ := bind_eq_ok_iff.mp h
  cases h
  exact coerce_of_getString howner

lemma coerced_of_ofJson {j : Json} {b : SettlementBinding} (h : SettlementBinding.ofJson j = .ok b) :
    b.coerced = b := by
  obtain ⟨taskID, h₁, h⟩ := bind_eq_ok_iff.mp h
  obtain ⟨componentCID, h₂, h⟩ := bind_eq_ok_iff.mp h
  obtain ⟨inputCID, h₃, h⟩ := bind_eq_ok_iff.mp h
  obtain ⟨outputCID, h₄, h⟩ := bind_eq_ok_iff.mp h
  cases h
  simp only [SettlementBinding.coerced, coerce_of_getString h₁, coerce_of_getString h₂,
    coerce_of_getString h₃, coerce_of_getString h₄]

lemma coerced_of_claimIn (h : claimIn b = some p) : p.coerced = p := by
  rw [← unmarshal_claim_eq_ok_iff, PendingSettlement.unmarshal] at h
  obtain ⟨j, -, h⟩ := bind_eq_ok_iff.mp h
  obtain ⟨tx, -, h⟩ := bind_eq_ok_iff.mp h
  obtain ⟨consumer, hconsumer, h⟩ := bind_eq_ok_iff.mp h
  obtain ⟨provider, hprovider, h⟩ := bind_eq_ok_iff.mp h
  obtain ⟨payment, -, h⟩ := bind_eq_ok_iff.mp h
  obtain ⟨bond, -, h⟩ := bind_eq_ok_iff.mp h
  obtain ⟨openedAt, -, h⟩ := bind_eq_ok_iff.mp h
  obtain ⟨disputeBlock, -, h⟩ := bind_eq_ok_iff.mp h
  obtain ⟨j', -, h⟩ := bind_eq_ok_iff.mp h
  obtain ⟨binding, hbinding, h⟩ := bind_eq_ok_iff.mp h
  obtain ⟨state, hstate, h⟩ := bind_eq_ok_iff.mp h
  cases h
  simp only [PendingSettlement.coerced, coerce_of_getString hconsumer,
    coerce_of_getString hprovider, coerced_of_ofJson hbinding, ClaimState.text_ofText,
    coerce_of_getString hstate]

lemma coin_eq_some_iff {id : UInt64} :
    coin m id = some u ↔ ∃ b, m.get? (key id) = some b ∧ coinIn b = some u := by
  simp [coin, bind_eq_some_iff]

lemma claim_eq_some_iff :
    claim m tx = some p ↔ ∃ b, m.get? (pendingKey tx) = some b ∧ claimIn b = some p := by
  simp [claim, bind_eq_some_iff]

lemma coerced_with_state (h : claim m tx = some p) {st : ClaimState}
    (hst : st = .pending ∨ st = .finalized ∨ st = .slashed) :
    PendingSettlement.coerced { p with state := st } = { p with state := st } := by
  obtain ⟨b, -, hp⟩ := claim_eq_some_iff.mp h
  have hcoerced := coerced_of_claimIn hp
  rw [PendingSettlement.coerced, PendingSettlement.mk.injEq] at hcoerced
  simp only [PendingSettlement.coerced, hcoerced, ClaimState.ofText_coerce_text hst]

/-! ### Worth -/

/-- What a binding of the store adds to the worth of the counted outputs. -/
def coinWeight (counted : Utxo → Bool) (k : GoString) (b : Blob) : ℕ :=
  if k.hasPrefix utxoPfx then
    match coinIn b with
    | some u => if counted u then u.value.toNat else 0
    | none => 0
  else 0

/-- The value of the outputs that count. -/
def worth (counted : Utxo → Bool) (m : Store) : ℕ := m.sum (coinWeight counted)

/-- The balance of an owner. -/
def held (m : Store) (owner : GoString) : ℕ := worth (fun u => decide (u.owner = owner)) m

/-- The value of all outputs. -/
def supply (m : Store) : ℕ := worth (fun _ => true) m

/-- What a binding of the store adds to the amount locked by pending claims. -/
def owedWeight (k : GoString) (b : Blob) : ℕ :=
  if k.hasPrefix pendingPfx then
    match claimIn b with
    | some p => if p.state = .pending then p.payment.toNat + p.bond.toNat else 0
    | none => 0
  else 0

/-- The sum of payment and bond over the pending claims. -/
def owed (m : Store) : ℕ := m.sum owedWeight

/-- What one output adds to the worth of the counted ones. -/
def share (counted : Utxo → Bool) (u : Utxo) : ℕ := if counted u then u.value.toNat else 0

/-- What an optional output adds to the worth of the counted ones. -/
def shareOf (counted : Utxo → Bool) (u : Option Utxo) : ℕ := u.elim 0 (share counted)

/-- What a claim has locked. -/
def due (p : PendingSettlement) : ℕ :=
  if p.state = .pending then p.payment.toNat + p.bond.toNat else 0

/-- What an optional claim adds to the amount owed. -/
def dueOf (p : Option PendingSettlement) : ℕ := p.elim 0 due

section Worth

variable (counted : Utxo → Bool) (m : Store)

lemma weightAt_key (id : UInt64) : m.weightAt (coinWeight counted) (key id) =
    shareOf counted (coin m id) := by
  unfold OrdMap.weightAt coin
  cases m.get? (key id) with
  | none => rfl
  | some b =>
    simp only [elim_some, coinWeight, hasPrefix_utxoPfx_key, if_true, bind_some]
    cases coinIn b <;> rfl

lemma weightAt_pendingKey (tx : UInt64) : m.weightAt owedWeight (pendingKey tx) =
    dueOf (claim m tx) := by
  unfold OrdMap.weightAt claim
  cases m.get? (pendingKey tx) with
  | none => rfl
  | some b =>
    simp only [elim_some, owedWeight, hasPrefix_pendingPfx_pendingKey, if_true,
      bind_some]
    cases claimIn b <;> rfl

lemma worth_put_key (id : UInt64) (u : Utxo) :
    worth counted (m.put (key id) u.marshal) + shareOf counted (coin m id) =
      worth counted m + share counted u.coerced := by
  have h := sum_put (coinWeight counted) m (key id) u.marshal
  have hw : coinWeight counted (key id) u.marshal = share counted u.coerced := by
    simp [coinWeight, share]
  rw [weightAt_key, hw] at h
  unfold worth
  exact h

lemma worth_delete_key (id : UInt64) :
    worth counted (m.delete (key id)) + shareOf counted (coin m id) = worth counted m := by
  have h := sum_delete (coinWeight counted) m (key id)
  rw [weightAt_key] at h
  exact h

variable {k : GoString}

lemma weightAt_eq_zero_of_hasPrefix (hk : k.hasPrefix utxoPfx = false) :
    m.weightAt (coinWeight counted) k = 0 :=
  weightAt_eq_zero fun b _ => by simp [coinWeight, hk]

lemma worth_put_of_hasPrefix (hk : k.hasPrefix utxoPfx = false) (b : Blob) :
    worth counted (m.put k b) = worth counted m := by
  have h := sum_put (coinWeight counted) m k b
  have h₁ := weightAt_eq_zero_of_hasPrefix counted m hk
  have h₂ : coinWeight counted k b = 0 := by simp [coinWeight, hk]
  unfold worth
  omega

lemma owed_put_pendingKey (tx : UInt64) (p : PendingSettlement) :
    owed (m.put (pendingKey tx) p.marshal) + dueOf (claim m tx) = owed m + due p.coerced := by
  have h := sum_put owedWeight m (pendingKey tx) p.marshal
  have hw : owedWeight (pendingKey tx) p.marshal = due p.coerced := by
    simp [owedWeight, due]
  rw [weightAt_pendingKey, hw] at h
  unfold owed
  exact h

lemma owed_put_of_hasPrefix (hk : k.hasPrefix pendingPfx = false) (b : Blob) :
    owed (m.put k b) = owed m := by
  have h := sum_put owedWeight m k b
  have h₁ : m.weightAt owedWeight k = 0 :=
    weightAt_eq_zero fun b _ => by simp [owedWeight, hk]
  have h₂ : owedWeight k b = 0 := by simp [owedWeight, hk]
  unfold owed
  omega

lemma owed_delete_of_hasPrefix (hk : k.hasPrefix pendingPfx = false) :
    owed (m.delete k) = owed m := by
  have h := sum_delete owedWeight m k
  have h₁ : m.weightAt owedWeight k = 0 :=
    weightAt_eq_zero fun b _ => by simp [owedWeight, hk]
  unfold owed
  omega

end Worth

lemma held_le_supply (m : Store) (owner : GoString) : held m owner ≤ supply m := by
  refine sum_le_sum m fun k b => ?_
  unfold coinWeight
  split_ifs with hk
  · cases coinIn b with
    | none => simp
    | some u =>
      simp only [if_true]
      split_ifs <;> simp
  · exact le_rfl

/-! ### Changes to a world -/

section Frame

variable {m : Store} {k : GoString}

lemma coin_put_of_hasPrefix (hk : k.hasPrefix utxoPfx = false) (b : Blob) (id : UInt64) :
    coin (m.put k b) id = coin m id := by
  rw [coin, coin, OrdMap.get?_put, if_neg (key_ne hk id)]

lemma claim_put_of_hasPrefix (hk : k.hasPrefix pendingPfx = false) (b : Blob) (tx : UInt64) :
    claim (m.put k b) tx = claim m tx := by
  rw [claim, claim, OrdMap.get?_put, if_neg (pendingKey_ne hk tx)]

@[simp] lemma coin_put_key (id id' : UInt64) (u : Utxo) :
    coin (m.put (key id) u.marshal) id' = if id' = id then some u.coerced else coin m id' := by
  rw [coin, coin, OrdMap.get?_put]
  by_cases h : id' = id
  · rw [if_pos (key_inj.mpr h), if_pos h, bind_some, coinIn_marshal]
  · rw [if_neg (fun h' => h (key_inj.mp h')), if_neg h]

@[simp] lemma coin_delete_key (id id' : UInt64) :
    coin (m.delete (key id)) id' = if id' = id then none else coin m id' := by
  rw [coin, coin, OrdMap.get?_delete]
  by_cases h : id' = id <;> simp [h]

@[simp] lemma claim_put_pendingKey (tx tx' : UInt64) (p : PendingSettlement) :
    claim (m.put (pendingKey tx) p.marshal) tx' =
      if tx' = tx then some p.coerced else claim m tx' := by
  rw [claim, claim, OrdMap.get?_put]
  by_cases h : tx' = tx
  · rw [if_pos (pendingKey_inj.mpr h), if_pos h, bind_some, claimIn_marshal]
  · rw [if_neg (fun h' => h (pendingKey_inj.mp h')), if_neg h]

@[simp] lemma claim_delete_key (id tx : UInt64) : claim (m.delete (key id)) tx = claim m tx := by
  rw [claim, claim, OrdMap.get?_delete, if_neg (pendingKey_ne (hasPrefix_pendingPfx_key id) tx)]

end Frame

/-- A new output, and the counter after it. -/
def minted (w : LedgerWorld) (owner : GoString) (value : UInt64) : LedgerWorld :=
  ⟨{ w.mem with next := w.mem.next + 1 },
    (w.store.put (key w.mem.next) (Utxo.marshal ⟨owner, value⟩)).put metaNext
      (.ofUInt64 (w.mem.next + 1))⟩

/-- The output is removed. -/
def spent (w : LedgerWorld) (id : UInt64) : LedgerWorld := ⟨w.mem, w.store.delete (key id)⟩

/-- The world after the output `u` has been consumed for a payment of `amt` and its owner has got
the change. -/
def changed (w : LedgerWorld) (id : UInt64) (u : Utxo) (amt : UInt64) : LedgerWorld :=
  if u.value > amt then minted (spent w id) u.owner (u.value - amt) else spent w id

/-- An output is spent on a payment and its change. -/
def paid (w : LedgerWorld) (id : UInt64) (u : Utxo) (payee : GoString) (amt : UInt64) :
    LedgerWorld :=
  minted (changed w id u amt) payee amt

/-- A claim is stored. -/
def filed (w : LedgerWorld) (p : PendingSettlement) : LedgerWorld :=
  ⟨w.mem, w.store.put (pendingKey p.tx) p.marshal⟩

/-- A claim id is taken. -/
def reserved (w : LedgerWorld) : LedgerWorld :=
  ⟨w.mem, w.store.put metaNextTx (.ofUInt64 (nextTx w.store + 1))⟩

section Minted

variable (w : LedgerWorld) (owner : GoString) (value : UInt64)

@[simp] lemma mem_minted : (minted w owner value).mem = { w.mem with next := w.mem.next + 1 } := rfl

@[simp] lemma coin_minted (id : UInt64) : coin (minted w owner value).store id =
    if id = w.mem.next then some ⟨owner.coerce, value⟩ else coin w.store id := by
  rw [minted, coin_put_of_hasPrefix hasPrefix_utxoPfx_metaNext, coin_put_key]
  rfl

@[simp] lemma claim_minted (tx : UInt64) :
    claim (minted w owner value).store tx = claim w.store tx := by
  rw [minted, claim_put_of_hasPrefix hasPrefix_pendingPfx_metaNext,
    claim_put_of_hasPrefix (hasPrefix_pendingPfx_key _)]

@[simp] lemma nextTx_minted : nextTx (minted w owner value).store = nextTx w.store := by
  have h₁ : metaNextTx ≠ metaNext := by decide
  have h₂ : metaNextTx ≠ key w.mem.next := (key_ne hasPrefix_utxoPfx_metaNextTx _).symm
  simp [nextTx, minted, h₁, h₂]

@[simp] lemma owed_minted : owed (minted w owner value).store = owed w.store := by
  rw [minted, owed_put_of_hasPrefix _ hasPrefix_pendingPfx_metaNext,
    owed_put_of_hasPrefix _ (hasPrefix_pendingPfx_key _)]

lemma worth_minted (counted : Utxo → Bool) :
    worth counted (minted w owner value).store + shareOf counted (coin w.store w.mem.next) =
      worth counted w.store + share counted ⟨owner.coerce, value⟩ := by
  rw [minted, worth_put_of_hasPrefix counted _ hasPrefix_utxoPfx_metaNext]
  exact worth_put_key counted w.store w.mem.next ⟨owner, value⟩

lemma worth_minted_of_fresh (counted : Utxo → Bool) (h : coin w.store w.mem.next = none) :
    worth counted (minted w owner value).store =
      worth counted w.store + share counted ⟨owner.coerce, value⟩ := by
  have := worth_minted w owner value counted
  rwa [h] at this

end Minted

section Spent

variable (w : LedgerWorld) (id : UInt64)

@[simp] lemma mem_spent : (spent w id).mem = w.mem := rfl

@[simp] lemma coin_spent (id' : UInt64) :
    coin (spent w id).store id' = if id' = id then none else coin w.store id' :=
  coin_delete_key id id'

@[simp] lemma claim_spent (tx : UInt64) : claim (spent w id).store tx = claim w.store tx :=
  claim_delete_key id tx

@[simp] lemma nextTx_spent : nextTx (spent w id).store = nextTx w.store := by
  have h : metaNextTx ≠ key id := (key_ne hasPrefix_utxoPfx_metaNextTx _).symm
  simp [nextTx, spent, h]

@[simp] lemma owed_spent : owed (spent w id).store = owed w.store :=
  owed_delete_of_hasPrefix _ (hasPrefix_pendingPfx_key id)

lemma worth_spent (counted : Utxo → Bool) {u : Utxo} (h : coin w.store id = some u) :
    worth counted (spent w id).store + share counted u = worth counted w.store := by
  have := worth_delete_key counted w.store id
  rwa [h] at this

end Spent

section Paid

variable (w : LedgerWorld) (id : UInt64) (u : Utxo) (payee : GoString) (amt : UInt64)

@[simp] lemma claim_changed (tx : UInt64) :
    claim (changed w id u amt).store tx = claim w.store tx := by
  unfold changed
  split_ifs <;> simp

@[simp] lemma nextTx_changed : nextTx (changed w id u amt).store = nextTx w.store := by
  unfold changed
  split_ifs <;> simp

@[simp] lemma owed_changed : owed (changed w id u amt).store = owed w.store := by
  unfold changed
  split_ifs <;> simp

@[simp] lemma claim_paid (tx : UInt64) :
    claim (paid w id u payee amt).store tx = claim w.store tx := by
  simp [paid]

@[simp] lemma nextTx_paid : nextTx (paid w id u payee amt).store = nextTx w.store := by
  simp [paid]

@[simp] lemma owed_paid : owed (paid w id u payee amt).store = owed w.store := by
  simp [paid]

end Paid

section Filed

variable (w : LedgerWorld) (p : PendingSettlement)

@[simp] lemma mem_filed : (filed w p).mem = w.mem := rfl

@[simp] lemma coin_filed (id : UInt64) : coin (filed w p).store id = coin w.store id :=
  coin_put_of_hasPrefix (hasPrefix_utxoPfx_pendingKey p.tx) _ id

@[simp] lemma claim_filed (tx : UInt64) : claim (filed w p).store tx =
    if tx = p.tx then some p.coerced else claim w.store tx :=
  claim_put_pendingKey p.tx tx p

@[simp] lemma nextTx_filed : nextTx (filed w p).store = nextTx w.store := by
  have h : metaNextTx ≠ pendingKey p.tx := (pendingKey_ne hasPrefix_pendingPfx_metaNextTx _).symm
  simp [nextTx, filed, h]

@[simp] lemma worth_filed (counted : Utxo → Bool) :
    worth counted (filed w p).store = worth counted w.store :=
  worth_put_of_hasPrefix counted _ (hasPrefix_utxoPfx_pendingKey p.tx) _

@[simp] lemma supply_filed : supply (filed w p).store = supply w.store := worth_filed w p _

@[simp] lemma held_filed (owner : GoString) : held (filed w p).store owner = held w.store owner :=
  worth_filed w p _

lemma owed_filed :
    owed (filed w p).store + dueOf (claim w.store p.tx) = owed w.store + due p.coerced :=
  owed_put_pendingKey w.store p.tx p

end Filed

section Reserved

variable (w : LedgerWorld)

@[simp] lemma mem_reserved : (reserved w).mem = w.mem := rfl

@[simp] lemma coin_reserved (id : UInt64) : coin (reserved w).store id = coin w.store id :=
  coin_put_of_hasPrefix hasPrefix_utxoPfx_metaNextTx _ id

@[simp] lemma claim_reserved (tx : UInt64) : claim (reserved w).store tx = claim w.store tx :=
  claim_put_of_hasPrefix hasPrefix_pendingPfx_metaNextTx _ tx

@[simp] lemma nextTx_reserved : nextTx (reserved w).store = nextTx w.store + 1 := by
  conv_lhs => rw [nextTx]
  simp [reserved]

@[simp] lemma worth_reserved (counted : Utxo → Bool) :
    worth counted (reserved w).store = worth counted w.store :=
  worth_put_of_hasPrefix counted _ hasPrefix_utxoPfx_metaNextTx _

@[simp] lemma supply_reserved : supply (reserved w).store = supply w.store := worth_reserved w _

@[simp] lemma held_reserved (owner : GoString) :
    held (reserved w).store owner = held w.store owner :=
  worth_reserved w _

@[simp] lemma owed_reserved : owed (reserved w).store = owed w.store :=
  owed_put_of_hasPrefix _ hasPrefix_pendingPfx_metaNextTx _

end Reserved

/-! ### Draining the escrow -/

@[simp] lemma coerce_escrowOwner : escrowOwner.coerce = escrowOwner := by decide

lemma coerce_eq_escrowOwner_iff {o : GoString} : o.coerce = escrowOwner ↔ o = escrowOwner := by
  refine ⟨fun h => GoString.eq_of_coerce_eq h (by decide +kernel), ?_⟩
  rintro rfl
  exact coerce_escrowOwner

/-- What a binding of the store holds if it is an escrow-owned output. -/
def escrowAmount (k : GoString) (b : Blob) : Option ℕ :=
  if k.hasPrefix utxoPfx then
    match coinIn b with
    | some u => if u.owner = escrowOwner then some u.value.toNat else none
    | none => none
  else none

def reduceCoin (b : Blob) (r : ℕ) : Blob :=
  match coinIn b with
  | some u => Utxo.marshal { u with value := u.value - UInt64.ofNat r }
  | none => b

lemma escrowAmount_eq_some_iff : escrowAmount k b = some a ↔
    k.hasPrefix utxoPfx = true ∧
      ∃ u, coinIn b = some u ∧ u.owner = escrowOwner ∧ u.value.toNat = a := by
  unfold escrowAmount
  cases hk : k.hasPrefix utxoPfx
  · simp
  · cases hb : coinIn b with
    | none => simp
    | some u => by_cases ho : u.owner = escrowOwner <;> simp [ho]

lemma escrowAmount_reduceCoin {r : ℕ} (ha : escrowAmount k b = some a) (hr : r < a) :
    escrowAmount k (reduceCoin b r) = some (a - r) := by
  obtain ⟨hk, u, hu, ho, rfl⟩ := escrowAmount_eq_some_iff.mp ha
  have hlt := u.value.toNat_lt
  have hof : (UInt64.ofNat r).toNat = r := UInt64.toNat_ofNat_of_lt' (hr.trans hlt)
  have hle : UInt64.ofNat r ≤ u.value := UInt64.le_iff_toNat_le.mpr (by omega)
  refine escrowAmount_eq_some_iff.mpr ⟨hk, Utxo.coerced ⟨u.owner, u.value - UInt64.ofNat r⟩, ?_, ?_, ?_⟩
  · simp only [reduceCoin, hu, coinIn_marshal]
  · simp only [Utxo.coerced, ho, coerce_escrowOwner]
  · simp only [Utxo.coerced, UInt64.toNat_sub_of_le _ _ hle, hof]

/-- The escrow-owned outputs of a store, as something value can be drained from. -/
def escrow : Drainable GoString Blob where
  amount := escrowAmount
  reduce := reduceCoin
  amount_reduce := escrowAmount_reduceCoin

lemma total_escrow (m : Store) : escrow.total m = held m escrowOwner := by
  refine sum_congr fun k b _ => ?_
  simp only [Drainable.weight, escrow, escrowAmount, coinWeight]
  split_ifs with hk
  · cases coinIn b with
    | none => rfl
    | some u => by_cases ho : u.owner = escrowOwner <;> simp [ho]
  · rfl

/-- What is left of the store when `amt` has been released from escrow, and what of `amt` the escrow
did not hold. -/
def released (m : Store) (amt : UInt64) : Store × ℕ := escrow.drain m.keys amt.toNat m

section Released

variable (m : Store) (amt : UInt64)

lemma released_snd : (released m amt).2 = amt.toNat - held m escrowOwner := by
  rw [← total_escrow]
  refine escrow.drain_remaining fun k b a hk _ => mem_keys_iff.mpr ?_
  simp [hk]

lemma held_released_escrow :
    held (released m amt).1 escrowOwner + amt.toNat = held m escrowOwner + (released m amt).2 := by
  rw [← total_escrow, ← total_escrow]
  exact escrow.total_drain m.keys amt.toNat m

lemma worth_released {counted : Utxo → Bool}
    (h : ∀ u : Utxo, u.owner = escrowOwner → counted u = false) :
    worth counted (released m amt).1 = worth counted m := by
  refine escrow.sum_drain (fun k b a ha => ?_) m.keys amt.toNat m
  obtain ⟨hk, u, hu, ho, -⟩ := escrowAmount_eq_some_iff.mp ha
  simp [coinWeight, hk, hu, h u ho]

lemma held_released {owner : GoString} (h : owner ≠ escrowOwner) :
    held (released m amt).1 owner = held m owner :=
  worth_released m amt fun u hu => by simp [hu, h.symm]

@[simp] lemma owed_released : owed (released m amt).1 = owed m := by
  refine escrow.sum_drain (fun k b a ha => ?_) m.keys amt.toNat m
  obtain ⟨hk, -⟩ := escrowAmount_eq_some_iff.mp ha
  simp [owedWeight, hasPrefix_pendingPfx_of_utxoPfx hk]

variable {k : GoString} {id : UInt64} {u : Utxo}

lemma get?_released (h : ∀ b, m.get? k = some b → escrowAmount k b = none) :
    (released m amt).1.get? k = m.get? k :=
  escrow.get?_drain h m.keys amt.toNat

lemma get?_released_of_hasPrefix (hk : k.hasPrefix utxoPfx = false) :
    (released m amt).1.get? k = m.get? k :=
  get?_released m amt fun b _ => by simp [escrowAmount, hk]

@[simp] lemma claim_released (tx : UInt64) : claim (released m amt).1 tx = claim m tx := by
  rw [claim, claim, get?_released_of_hasPrefix m amt (hasPrefix_utxoPfx_pendingKey tx)]

@[simp] lemma nextTx_released : nextTx (released m amt).1 = nextTx m := by
  rw [nextTx, nextTx, get?_released_of_hasPrefix m amt hasPrefix_utxoPfx_metaNextTx]

lemma coin_released_of_ne (h : coin m id = some u) (ho : u.owner ≠ escrowOwner) :
    coin (released m amt).1 id = some u := by
  obtain ⟨b, hb, hu⟩ := coin_eq_some_iff.mp h
  have hget : (released m amt).1.get? (key id) = m.get? (key id) := by
    refine get?_released m amt fun b' hb' => ?_
    obtain rfl := Option.some.inj (hb.symm.trans hb')
    simp [escrowAmount, hu, ho]
  rw [coin, hget]
  exact h

lemma coin_of_coin_released (h : coin (released m amt).1 id = some u) (ho : u.owner ≠ escrowOwner) :
    coin m id = some u := by
  obtain ⟨b, hb, hu⟩ := coin_eq_some_iff.mp h
  have hamount : escrow.amount (key id) b = none := by simp [escrow, escrowAmount, hu, ho]
  exact coin_eq_some_iff.mpr
    ⟨b, escrow.get?_of_get?_drain_of_amount hamount m.keys amt.toNat hb, hu⟩

lemma get?_of_get?_released (h : (released m amt).1.get? k ≠ none) : m.get? k ≠ none :=
  escrow.get?_of_get?_drain m.keys amt.toNat h

@[simp] lemma released_zero : released m 0 = (m, 0) := escrow.drain_zero m.keys m

end Released

lemma supply_eq_held_add (m : Store) : supply m =
    held m escrowOwner + worth (fun u => decide (u.owner ≠ escrowOwner)) m := by
  unfold supply held worth
  rw [← sum_add]
  refine sum_congr fun k b _ => ?_
  unfold coinWeight
  split_ifs with hk
  · cases coinIn b with
    | none => rfl
    | some u => by_cases ho : u.owner = escrowOwner <;> simp [ho]
  · rfl

lemma supply_released (m : Store) (amt : UInt64) :
    supply (released m amt).1 + amt.toNat = supply m + (released m amt).2 := by
  have h₁ := held_released_escrow m amt
  have h₂ : worth (fun u => decide (u.owner ≠ escrowOwner)) (released m amt).1 =
      worth (fun u => decide (u.owner ≠ escrowOwner)) m :=
    worth_released m amt fun u hu => by simp [hu]
  have h₃ := supply_eq_held_add m
  have h₄ := supply_eq_held_add (released m amt).1
  omega

end Cerberus.Ledger
