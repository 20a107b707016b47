import Cerberus.Ledger.Accounts

/-!
# What the operations of the ledger do

For every operation, the condition under which it goes through and the world it then leaves, and
that it otherwise reports an error. Two exits come after writes: `OpenOptimistic` locks the payment
before it looks at the bond input (`run_openOptimistic_half`), and `Finalize` and `Challenge` pay
out before they take the amount from escrow (`run_finalize`, `run_challenge`).
-/

namespace Cerberus.Ledger

open Foundation

open Proc (run_bind writes_bind)

variable {w : LedgerWorld}

/-! ### Reading and minting -/

variable {α : Type} {id input amt tx now : UInt64} {u : Utxo} {owner : GoString} {a : OpenArgs}
  {p : PendingSettlement} {fraud : FraudProof}

@[simp] lemma run_decoded_ok (a : α) : (decoded (.ok a)).run w = (.ok a, w) := rfl

@[simp] lemma run_decoded_error (e : Json.Err) :
    (decoded (.error e) : LedgerM α).run w = (.error (.json e), w) := rfl

@[simp] lemma writes_decoded (r : Except Json.Err α) : (decoded r).writes w = [] := by
  cases r <;> rfl

@[simp] lemma run_mintLocked (owner : GoString) (value : UInt64) :
    (mintLocked owner value).run w = (.ok w.mem.next, minted w owner value) := by
  simp [mintLocked, persistNext, storePut, run_bind, minted]

@[simp] lemma run_mint (owner : GoString) (value : UInt64) :
    (mint owner value).run w = (.ok w.mem.next, minted w owner value) :=
  run_mintLocked owner value

lemma run_getUtxoLocked_of_coin (h : coin w.store id = some u) :
    (getUtxoLocked id).run w = (.ok (some u), w) := by
  obtain ⟨b, hb, hu⟩ := coin_eq_some_iff.mp h
  simp [getUtxoLocked, storeGet, run_bind, hb, unmarshal_eq_ok_iff.mpr hu]

@[simp] lemma writes_getUtxoLocked (id : UInt64) : (getUtxoLocked id).writes w = [] := by
  cases hb : w.store.get? (key id) with
  | none => simp [getUtxoLocked, storeGet, writes_bind, hb]
  | some b =>
    cases hu : Utxo.unmarshal b <;> simp [getUtxoLocked, storeGet, writes_bind, hb, hu]

lemma run_getUtxoLocked_of_none (h : coin w.store id = none) :
    (getUtxoLocked id).run w = (.ok none, w) ∨
      ∃ e, e ≠ .escrowUnderflow ∧ (getUtxoLocked id).run w = (.error e, w) := by
  unfold coin at h
  cases hb : w.store.get? (key id) with
  | none => exact Or.inl (by simp [getUtxoLocked, storeGet, run_bind, hb])
  | some b =>
    rw [hb, Option.bind_some, coinIn] at h
    cases hu : Utxo.unmarshal b with
    | error e =>
      exact Or.inr ⟨.json e, by simp, by simp [getUtxoLocked, storeGet, run_bind, hb, hu]⟩
    | ok u => simp [hu, Except.toOption] at h

/-- The procedure ends with an error of its checks, before it has changed anything. -/
def Declines {α : Type} (p : LedgerM α) (w : LedgerWorld) : Prop :=
  ∃ e, e ≠ LedgerErr.escrowUnderflow ∧ p.Refuses w e

section Declines

variable {α β : Type} {e : LedgerErr} {p : LedgerM α} {f : α → LedgerM β} {c : Prop}

lemma declines_throw (he : e ≠ .escrowUnderflow) : Declines (throw e : LedgerM α) w :=
  ⟨e, he, rfl, rfl⟩

lemma Declines.bind (h : Declines p w) (f : α → LedgerM β) : Declines (p >>= f) w := by
  obtain ⟨e, he, hp⟩ := h
  exact ⟨e, he, hp.bind f⟩

lemma Declines.of_read {a : α} (hrun : p.run w = (.ok a, w)) (hwrites : p.writes w = [])
    (h : Declines (f a) w) : Declines (p >>= f) w := by
  obtain ⟨e, he, hf, hf'⟩ := h
  refine ⟨e, he, ?_, ?_⟩
  · rw [run_bind, hrun]
    exact hf
  · rw [writes_bind, hrun, hwrites]
    exact hf'

lemma Declines.ite [Decidable c] {q : LedgerM α} (hp : c → Declines p w) (hq : ¬ c → Declines q w) :
    Declines (if c then p else q) w := by
  split_ifs with h
  · exact hp h
  · exact hq h

lemma Declines.check [Decidable c] (he : e ≠ .escrowUnderflow) {q : LedgerM β}
    (hq : ¬ c → Declines q w) : Declines (if c then (throw e : LedgerM α) >>= f else q) w :=
  .ite (fun _ => (declines_throw he).bind f) hq

lemma Declines.of_enabled (h : w.mem.enabled = true → Declines p w) :
    Declines (do
      if !(← get).enabled then throw .economyDisabled
      p) w := by
  refine .of_read (Proc.run_getMem w) rfl (.check (by simp) fun hen => h ?_)
  simpa using hen

lemma Declines.of_decoded {k : GoString} (he : e ≠ .escrowUnderflow)
    {unmarshal : Blob → Except Json.Err α}
    (h : ∀ b a, w.store.get? k = some b → unmarshal b = .ok a → Declines (f a) w) :
    Declines (do
      let some b ← storeGet k | throw e
      f (← decoded (unmarshal b))) w := by
  refine .of_read (a := w.store.get? k) rfl rfl ?_
  cases hb : w.store.get? k with
  | none => exact declines_throw he
  | some b =>
    dsimp only
    cases ha : unmarshal b with
    | error e => exact (declines_throw (by simp)).bind f
    | ok a => exact .of_read (run_decoded_ok a) (writes_decoded _) (h b a hb ha)

end Declines

/-! ### Settle -/

/-- When `Settle` goes through. -/
def Spendable (w : LedgerWorld) (input amt : UInt64) (u : Utxo) : Prop :=
  w.mem.enabled = true ∧ coin w.store input = some u ∧ amt ≤ u.value

/-- A settlement that goes through consumes the input, returns the change and pays the amount. -/
theorem run_settle (payee : GoString) (h : Spendable w input amt u) :
    (settle input payee amt).run w =
      (.ok (changed w input u amt).mem.next, paid w input u payee amt) := by
  obtain ⟨hen, hcoin, hle⟩ := h
  obtain ⟨b, hb, hu⟩ := coin_eq_some_iff.mp hcoin
  have hlt : ¬ u.value < amt := by rwa [UInt64.not_lt]
  by_cases hgt : amt < u.value <;>
    simp [settle, storeGet, storeDelete, run_bind, hen, hb, unmarshal_eq_ok_iff.mpr hu, hlt,
      hgt, paid, changed, spent]

theorem run_settle_refused (payee : GoString) (h : ∀ u, ¬ Spendable w input amt u) :
    Declines (settle input payee amt) w := by
  refine .of_enabled fun hen => .of_decoded (by simp) fun b u hb hu => ?_
  refine .check (by simp) fun hlt => ?_
  have hcoin : coin w.store input = some u :=
    coin_eq_some_iff.mpr ⟨b, hb, unmarshal_eq_ok_iff.mp hu⟩
  exact absurd ⟨hen, hcoin, UInt64.not_lt.mp hlt⟩ (h u)

/-! ### Locking an input -/

/-- When an input can be locked. -/
def Lockable (m : Store) (input : UInt64) (owner : GoString) (amt : UInt64) (u : Utxo) : Prop :=
  coin m input = some u ∧ u.owner = owner ∧ amt ≤ u.value

/-- A lock that goes through consumes the input, returns the change and moves the amount into
escrow. -/
theorem run_lockFromInputLocked (h : Lockable w.store input owner amt u) :
    (lockFromInputLocked input owner amt).run w = (.ok (), paid w input u escrowOwner amt) := by
  obtain ⟨hcoin, howner, hle⟩ := h
  have hlt : ¬ u.value < amt := by rwa [UInt64.not_lt]
  by_cases hgt : amt < u.value <;>
    simp [lockFromInputLocked, storeDelete, run_bind, run_getUtxoLocked_of_coin hcoin, howner,
      hlt, hgt, paid, changed, spent]

theorem run_lockFromInputLocked_refused (h : ∀ u, ¬ Lockable w.store input owner amt u) :
    Declines (lockFromInputLocked input owner amt) w := by
  cases hcoin : coin w.store input with
  | none =>
    rcases run_getUtxoLocked_of_none hcoin with hget | ⟨e, he, hget⟩
    · exact .of_read hget (writes_getUtxoLocked _) (declines_throw (by simp))
    · exact Declines.bind ⟨e, he, hget, writes_getUtxoLocked _⟩ _
  | some u =>
    refine .of_read (run_getUtxoLocked_of_coin hcoin) (writes_getUtxoLocked _) ?_
    refine .check (by simp) fun howner => .check (by simp) fun hlt => ?_
    exact absurd ⟨hcoin, not_not.mp howner, UInt64.not_lt.mp hlt⟩ (h u)

/-! ### Releasing escrow -/

lemma run_releaseLoop (ks : List GoString) (remaining : UInt64) (w : LedgerWorld) :
    (releaseLoop ks remaining).run w =
      (.ok (UInt64.ofNat (escrow.drain ks remaining.toNat w.store).2),
        ⟨w.mem, (escrow.drain ks remaining.toNat w.store).1⟩) := by
  induction ks generalizing remaining w with
  | nil => simp [releaseLoop, Drainable.drain]
  | cons k ks ih =>
    by_cases hr : remaining = 0
    · subst hr
      simp [releaseLoop]
    have hr' : remaining.toNat ≠ 0 := fun h => hr (UInt64.toNat_inj.mp h)
    have hskip (h : ∀ b, w.store.get? k = some b → escrowAmount k b = none) :
        escrow.drain (k :: ks) remaining.toNat w.store = escrow.drain ks remaining.toNat w.store :=
      escrow.drain_cons_of_skip h
    by_cases hk : k.hasPrefix utxoPfx = true
    swap
    · rw [hskip fun b _ => by simp [escrowAmount, hk], ← ih]
      simp [releaseLoop, hr, hk]
    cases hb : w.store.get? k with
    | none =>
      rw [hskip fun b hb' => by simp [hb] at hb', ← ih]
      simp [releaseLoop, storeGet, run_bind, hr, hk, hb]
    | some b =>
      cases hu : Utxo.unmarshal b with
      | error e =>
        rw [hskip fun b' hb' => by
          obtain rfl := Option.some.inj (hb.symm.trans hb')
          simp [escrowAmount, coinIn, hu, Except.toOption], ← ih]
        simp [releaseLoop, storeGet, run_bind, hr, hk, hb, hu]
      | ok u =>
        have hcoin : coinIn b = some u := unmarshal_eq_ok_iff.mp hu
        by_cases ho : u.owner = escrowOwner
        swap
        · rw [hskip fun b' hb' => by
            obtain rfl := Option.some.inj (hb.symm.trans hb')
            simp [escrowAmount, hcoin, ho], ← ih]
          simp [releaseLoop, storeGet, run_bind, hr, hk, hb, hu, ho]
        have hamount : escrow.amount k b = some u.value.toNat :=
          escrowAmount_eq_some_iff.mpr ⟨hk, u, hcoin, ho, rfl⟩
        by_cases hle : u.value ≤ remaining
        · rw [escrow.drain_cons_of_le hb hamount hr' (UInt64.le_iff_toNat_le.mp hle),
            ← UInt64.toNat_sub_of_le _ _ hle, releaseLoop]
          simp [storeGet, storeDelete, run_bind, hr, hk, hb, hu, ho, hle, ih]
        · have hlt : remaining.toNat < u.value.toNat := by
            rw [UInt64.le_iff_toNat_le] at hle
            omega
          rw [escrow.drain_cons_of_lt hb hamount hr' hlt, releaseLoop]
          simp [storeGet, storePut, run_bind, hr, hk, hb, hu, ho, hle, ih, escrow, reduceCoin,
            hcoin]

/-- A release goes through when the escrow holds the amount; otherwise it takes all there is and
reports the underflow. -/
theorem run_releaseEscrowLocked (amt : UInt64) : (releaseEscrowLocked amt).run w =
    (if amt.toNat ≤ held w.store escrowOwner then .ok () else .error .escrowUnderflow,
      ⟨w.mem, (released w.store amt).1⟩) := by
  by_cases hamt : amt = 0
  · subst hamt
    simp [releaseEscrowLocked]
  · have hlt := amt.toNat_lt
    have hsnd := released_snd w.store amt
    have hiff : UInt64.ofNat (released w.store amt).2 = 0 ↔
        amt.toNat ≤ held w.store escrowOwner := by
      rw [← UInt64.toNat_inj, UInt64.toNat_ofNat_of_lt' (by rw [hsnd]; exact (Nat.sub_le _ _).trans_lt hlt)]
      simp only [UInt64.toNat_zero]
      omega
    have hloop := run_releaseLoop w.store.keys amt w
    by_cases hle : amt.toNat ≤ held w.store escrowOwner
    · have hzero := hiff.mpr hle
      rw [released] at hzero
      simp [releaseEscrowLocked, storeKeys, run_bind, hamt, hloop, hle, hzero, released]
    · have hzero : ¬ UInt64.ofNat (released w.store amt).2 = 0 := fun h => hle (hiff.mp h)
      rw [released] at hzero
      simp [releaseEscrowLocked, storeKeys, run_bind, hamt, hloop, hle, hzero, released]

/-! ### Reading sums -/

variable (counted : Utxo → Bool)

lemma sumLoop_cons (k : GoString) (ks : List GoString) (sum : UInt64) :
    sumLoop counted (k :: ks) sum =
      if k.hasPrefix utxoPfx then do
        let b ← storeGet k
        sumLoop counted ks (sum + UInt64.ofNat (b.elim 0 (coinWeight counted k)))
      else sumLoop counted ks sum := by
  rw [sumLoop]
  by_cases hk : k.hasPrefix utxoPfx = true
  · rw [if_neg (by simp [hk]), if_pos hk]
    congr 1
    funext b
    cases b with
    | none => simp
    | some b =>
      cases hu : Utxo.unmarshal b with
      | error e =>
        have hcoin : coinIn b = none := by simp [coinIn, hu, Except.toOption]
        simp [coinWeight, hk, hu, hcoin]
      | ok u =>
        have hcoin : coinIn b = some u := unmarshal_eq_ok_iff.mp hu
        cases hc : counted u <;> simp [coinWeight, hk, hu, hcoin, hc]
  · rw [if_pos (by simp [hk]), if_neg hk]

lemma run_sumLoop_cons (k : GoString) (ks : List GoString) (sum : UInt64) :
    (sumLoop counted (k :: ks) sum).run w =
      (sumLoop counted ks (sum + UInt64.ofNat (w.store.weightAt (coinWeight counted) k))).run w := by
  rw [sumLoop_cons]
  by_cases hk : k.hasPrefix utxoPfx = true
  · rw [if_pos hk, storeGet, run_bind, Proc.run_getKey]
    rfl
  · rw [if_neg hk, weightAt_eq_zero_of_hasPrefix counted _ (Bool.eq_false_iff.mpr hk)]
    simp

lemma run_sumLoop (ks : List GoString) (sum : UInt64) :
    (sumLoop counted ks sum).run w =
      (.ok (sum + UInt64.ofNat (ks.map (w.store.weightAt (coinWeight counted))).sum), w) := by
  induction ks generalizing sum with
  | nil => simp [sumLoop]
  | cons k ks ih =>
    rw [run_sumLoop_cons, ih, List.map_cons, List.sum_cons, UInt64.ofNat_add, UInt64.add_assoc]

/-- `Balance` returns what the owner's outputs are worth, modulo `2 ^ 64`. -/
@[simp] theorem run_balance (owner : GoString) :
    (balance owner).run w = (.ok (UInt64.ofNat (held w.store owner)), w) := by
  simp [balance, storeKeys, run_bind, run_sumLoop, ← OrdMap.sum_eq_sum_keys, held, worth]

/-- `TotalSupply` returns what all outputs are worth, modulo `2 ^ 64`. -/
@[simp] theorem run_totalSupply :
    totalSupply.run w = (.ok (UInt64.ofNat (supply w.store)), w) := by
  simp [totalSupply, storeKeys, run_bind, run_sumLoop, ← OrdMap.sum_eq_sum_keys, supply, worth]

/-! ### Opening a claim -/

@[simp] lemma run_nextTxLocked : nextTxLocked.run w = (.ok (nextTx w.store), reserved w) := by
  simp [nextTxLocked, persistNextTx, storeGet, storePut, run_bind, nextTx, reserved]

@[simp] lemma run_putPendingLocked (p : PendingSettlement) :
    (putPendingLocked p).run w = (.ok (), filed w p) := rfl

def OpenArgs.pendingClaim (a : OpenArgs) (tx : UInt64) : PendingSettlement :=
  { tx := tx
    consumer := a.consumer
    provider := a.provider
    payment := a.payment
    bond := a.bond
    openedAt := a.now
    disputeBlock := a.disputeBlocks
    binding := a.binding
    state := .pending }

/-- When the payment of a claim can be locked. -/
def PaymentLock (w : LedgerWorld) (a : OpenArgs) (u : Utxo) : Prop :=
  w.mem.enabled = true ∧ Lockable w.store a.paymentInput a.consumer a.payment u

/-- The payment belongs to the escrow. -/
def paymentLocked (w : LedgerWorld) (a : OpenArgs) (u : Utxo) : LedgerWorld :=
  paid w a.paymentInput u escrowOwner a.payment

/-- When the bond can be locked after the payment. -/
def BondLock (w : LedgerWorld) (a : OpenArgs) (u v : Utxo) : Prop :=
  Lockable (paymentLocked w a u).store a.bondInput a.provider a.bond v

/-- Payment and bond belong to the escrow. -/
def bondLocked (w : LedgerWorld) (a : OpenArgs) (u v : Utxo) : LedgerWorld :=
  paid (paymentLocked w a u) a.bondInput v escrowOwner a.bond

/-- The world with a new claim. -/
def opened (w : LedgerWorld) (a : OpenArgs) : LedgerWorld :=
  filed (reserved w) (a.pendingClaim (nextTx w.store))

@[simp] lemma supply_opened (w : LedgerWorld) (a : OpenArgs) :
    supply (opened w a).store = supply w.store := by
  simp [opened]

@[simp] lemma held_opened (w : LedgerWorld) (a : OpenArgs) (owner : GoString) :
    held (opened w a).store owner = held w.store owner := by
  simp [opened]

/-- What the locks of `OpenOptimistic` can leave behind. -/
inductive Locked (w : LedgerWorld) (a : OpenArgs) : LedgerWorld → Prop
  | unbonded {u : Utxo} (hu : PaymentLock w a u) (hb : a.bond = 0) : Locked w a (paymentLocked w a u)
  | bonded {u v : Utxo} (hu : PaymentLock w a u) (hb : 0 < a.bond) (hv : BondLock w a u v) :
      Locked w a (bondLocked w a u v)

theorem run_openOptimistic {w' : LedgerWorld} (h : Locked w a w') :
    (openOptimistic a).run w = (.ok (nextTx w'.store), opened w' a) := by
  cases h with
  | unbonded hu hb =>
    have hb' : ¬ 0 < a.bond := by simp [hb]
    simp [openOptimistic, run_bind, hu.1, run_lockFromInputLocked hu.2, hb', opened,
      paymentLocked, OpenArgs.pendingClaim]
  | bonded hu hb hv =>
    have hv' := run_lockFromInputLocked hv
    rw [paymentLocked] at hv'
    simp [openOptimistic, run_bind, hu.1, run_lockFromInputLocked hu.2, hb, hv', opened,
      paymentLocked, bondLocked, OpenArgs.pendingClaim]

theorem run_openOptimistic_refused (h : ∀ u, ¬ PaymentLock w a u) : Declines (openOptimistic a) w :=
  .of_enabled fun hen => (run_lockFromInputLocked_refused fun u hu => h u ⟨hen, hu⟩).bind _

/-- When the bond cannot be locked the payment stays in escrow, and no claim is opened for it. -/
theorem run_openOptimistic_half (hu : PaymentLock w a u) (hb : 0 < a.bond)
    (hv : ∀ v, ¬ BondLock w a u v) :
    ∃ e, e ≠ .escrowUnderflow ∧ (openOptimistic a).run w = (.error e, paymentLocked w a u) := by
  obtain ⟨e, hne, he, -⟩ := run_lockFromInputLocked_refused hv
  rw [paymentLocked] at he
  exact ⟨e, hne, by
    simp [openOptimistic, run_bind, hu.1, run_lockFromInputLocked hu.2, hb, he,
      paymentLocked]⟩

/-! ### Deciding a claim -/

/-- The claim is open. -/
def IsPending (w : LedgerWorld) (tx : UInt64) (p : PendingSettlement) : Prop :=
  w.mem.enabled = true ∧ claim w.store tx = some p ∧ p.state = .pending

/-- When `Finalize` passes its checks. -/
def Finalizable (w : LedgerWorld) (tx now : UInt64) (p : PendingSettlement) : Prop :=
  IsPending w tx p ∧ p.windowElapsed now = true

/-- The proof quotes the claim and names another output. -/
def FraudProof.Contradicts (fraud : FraudProof) (b : SettlementBinding) : Prop :=
  fraud.componentCID = b.componentCID ∧ fraud.inputCID = b.inputCID ∧
    fraud.claimedOutputCID = b.outputCID ∧ fraud.actualOutputCID ≠ fraud.claimedOutputCID

/-- When `Challenge` passes its checks. -/
def Challengeable (w : LedgerWorld) (tx : UInt64) (fraud : FraudProof) (now : UInt64)
    (p : PendingSettlement) : Prop :=
  IsPending w tx p ∧ p.windowElapsed now = false ∧ FraudProof.Contradicts fraud p.binding

/-- Outputs to be minted: their owners and values. -/
abbrev Payouts := List (GoString × UInt64)

def finalPayouts (p : PendingSettlement) : Payouts := [(p.provider, p.payment + p.bond)]

def slashPayouts (p : PendingSettlement) (challenger : GoString) : Payouts :=
  (p.consumer, p.payment) :: if p.bond > 0 then [(challenger, p.bond)] else []

/-- The world after payouts. -/
def paidOut (w : LedgerWorld) (ps : Payouts) : LedgerWorld :=
  ps.foldl (fun w x => minted w x.1 x.2) w

/-- The world after the payouts of a claim have been made and its value has been taken from escrow,
as far as it is there. -/
def withdrawn (w : LedgerWorld) (p : PendingSettlement) (ps : Payouts) : LedgerWorld :=
  ⟨(paidOut w ps).mem, (released (paidOut w ps).store (p.payment + p.bond)).1⟩

/-- The escrow holds what the claim locked. -/
def Covered (w : LedgerWorld) (p : PendingSettlement) (ps : Payouts) : Prop :=
  (p.payment + p.bond).toNat ≤ held (paidOut w ps).store escrowOwner

/-- The world after a decision. -/
def closed (w : LedgerWorld) (p : PendingSettlement) (ps : Payouts) (st : ClaimState) :
    LedgerWorld :=
  filed (withdrawn w p ps) { p with state := st }

section PaidOut

variable (w : LedgerWorld) (p : PendingSettlement) (ps : Payouts)

@[simp] lemma claim_paidOut (tx : UInt64) :
    claim (paidOut w ps).store tx = claim w.store tx := by
  induction ps generalizing w with
  | nil => rfl
  | cons x ps ih => exact (ih _).trans (claim_minted w x.1 x.2 tx)

@[simp] lemma owed_paidOut : owed (paidOut w ps).store = owed w.store := by
  induction ps generalizing w with
  | nil => rfl
  | cons x ps ih => exact (ih _).trans (owed_minted w x.1 x.2)

@[simp] lemma claim_withdrawn (tx : UInt64) :
    claim (withdrawn w p ps).store tx = claim w.store tx := by
  simp [withdrawn]

@[simp] lemma owed_withdrawn : owed (withdrawn w p ps).store = owed w.store := by
  simp [withdrawn]

end PaidOut

/-- What `Finalize` and `Challenge` end with: take the value of the claim from escrow and file the
decision. -/
def decision {α : Type} (p : PendingSettlement) (st : ClaimState) (a : α) : LedgerM α := do
  releaseEscrowLocked (p.payment + p.bond)
  putPendingLocked { p with state := st }
  return a

section Decision

variable {α : Type} {p : PendingSettlement} {ps : Payouts} {st : ClaimState} {a : α}

lemma run_decision (h : Covered w p ps) :
    (decision p st a).run (paidOut w ps) = (.ok a, closed w p ps st) := by
  have hrel := run_releaseEscrowLocked (p.payment + p.bond) (w := paidOut w ps)
  rw [if_pos (show _ ≤ _ from h)] at hrel
  simp [decision, run_bind, hrel, closed, withdrawn]

lemma run_decision_short (h : ¬ Covered w p ps) :
    (decision p st a).run (paidOut w ps) = (.error .escrowUnderflow, withdrawn w p ps) := by
  have hrel := run_releaseEscrowLocked (p.payment + p.bond) (w := paidOut w ps)
  rw [if_neg (show ¬ _ ≤ _ from h)] at hrel
  simp [decision, run_bind, hrel, withdrawn]

end Decision

/-- A finalization that passes its checks pays the provider before it turns to the escrow. -/
theorem run_finalize (h : Finalizable w tx now p) :
    (finalize tx now).run w = (decision p .finalized p.payment).run (paidOut w (finalPayouts p)) := by
  obtain ⟨⟨hen, hclaim, hst⟩, hwin⟩ := h
  obtain ⟨b, hb, hp⟩ := claim_eq_some_iff.mp hclaim
  simp [finalize, storeGet, run_bind, hen, hb, unmarshal_claim_eq_ok_iff.mpr hp, hst, hwin,
    decision, finalPayouts, paidOut]

lemma Declines.of_pending {f : PendingSettlement → LedgerM α}
    (h : ∀ p, IsPending w tx p → Declines (f p) w) :
    Declines (do
      if !(← get).enabled then throw .economyDisabled
      let some b ← storeGet (pendingKey tx) | throw .noSuchPending
      let p ← decoded (PendingSettlement.unmarshal b)
      if p.state ≠ .pending then throw .notPending
      f p) w := by
  refine .of_enabled fun hen => .of_decoded (by simp) fun b p hb hp => ?_
  refine .check (by simp) fun hst => ?_
  have hclaim : claim w.store tx = some p :=
    claim_eq_some_iff.mpr ⟨b, hb, unmarshal_claim_eq_ok_iff.mp hp⟩
  exact h p ⟨hen, hclaim, not_not.mp hst⟩

theorem run_finalize_refused (h : ∀ p, ¬ Finalizable w tx now p) :
    Declines (finalize tx now) w := by
  refine .of_pending fun p hp => .check (by simp) fun hwin => ?_
  exact absurd ⟨hp, by simpa using hwin⟩ (h p)

lemma contradicts_iff (fraud : FraudProof) (b : SettlementBinding) :
    FraudProof.Contradicts fraud b ↔
      ¬ (fraud.componentCID ≠ b.componentCID ∨ fraud.inputCID ≠ b.inputCID) ∧
        fraud.claimedOutputCID = b.outputCID ∧ ¬ fraud.actualOutputCID = fraud.claimedOutputCID := by
  simp [FraudProof.Contradicts, and_assoc]

/-- A challenge that passes its checks pays the consumer and the challenger before it turns to the
escrow. -/
theorem run_challenge (challenger : GoString) (h : Challengeable w tx fraud now p) :
    (challenge tx fraud now challenger).run w =
      (decision p .slashed (⟨tx, p.payment, p.bond⟩ : Slash)).run
        (paidOut w (slashPayouts p challenger)) := by
  obtain ⟨⟨hen, hclaim, hst⟩, hwin, hfraud⟩ := h
  obtain ⟨h₁, h₂, h₃⟩ := (contradicts_iff fraud p.binding).mp hfraud
  obtain ⟨b, hb, hp⟩ := claim_eq_some_iff.mp hclaim
  rw [h₂] at h₃
  by_cases hbond : 0 < p.bond <;>
    simp [challenge, storeGet, run_bind, hen, hb, unmarshal_claim_eq_ok_iff.mpr hp, hst, hwin,
      h₁, h₂, h₃, hbond, decision, slashPayouts, paidOut]

theorem run_challenge_refused (challenger : GoString) (h : ∀ p, ¬ Challengeable w tx fraud now p) :
    Declines (challenge tx fraud now challenger) w := by
  refine .of_pending fun p hp => .check (by simp) fun hwin => ?_
  refine .check (by simp) fun h₁ => .check (by simp) fun h₂ => .check (by simp) fun h₃ => ?_
  have hfraud := (contradicts_iff _ _).mpr ⟨h₁, not_not.mp h₂, h₃⟩
  exact absurd ⟨hp, by simpa using hwin, hfraud⟩ (h p)

/-! ### Blocks, compute transactions and restarts -/

def advanced (w : LedgerWorld) (n : UInt64) : LedgerWorld :=
  ⟨{ w.mem with block := w.mem.block + n },
    w.store.put metaBlock (.ofUInt64 (w.mem.block + n))⟩

@[simp] lemma worth_advanced (w : LedgerWorld) (n : UInt64) (counted : Utxo → Bool) :
    worth counted (advanced w n).store = worth counted w.store :=
  worth_put_of_hasPrefix counted _ hasPrefix_utxoPfx_metaBlock _

@[simp] lemma run_advanceBlock (n : UInt64) :
    (advanceBlock n).run w = (.ok (w.mem.block + n), advanced w n) := by
  simp [advanceBlock, persistBlock, storePut, run_bind, Proc.run_tryCatch, advanced]

def nextComputeTx (m : Store) : UInt64 := ((m.get? metaNextComputeTx).bind Blob.uint64?).getD 1

def ComputeTx.recordedAs (t : ComputeTx) (id : UInt64) : ComputeTx :=
  if t.state.bytes = [] then { t with id := id, state := .lit "recorded" } else { t with id := id }

def recorded (w : LedgerWorld) (t : ComputeTx) : LedgerWorld :=
  ⟨w.mem, (w.store.put metaNextComputeTx (.ofUInt64 (nextComputeTx w.store + 1))).put
    (computeTxKey (nextComputeTx w.store)) (ComputeTx.recordedAs t (nextComputeTx w.store)).marshal⟩

@[simp] lemma worth_recorded (w : LedgerWorld) (t : ComputeTx) (counted : Utxo → Bool) :
    worth counted (recorded w t).store = worth counted w.store := by
  rw [recorded, worth_put_of_hasPrefix _ _ (hasPrefix_utxoPfx_computeTxKey _),
    worth_put_of_hasPrefix _ _ hasPrefix_utxoPfx_metaNextComputeTx]

@[simp] lemma run_recordComputeTx (t : ComputeTx) :
    (recordComputeTx t).run w = (.ok (nextComputeTx w.store), recorded w t) := by
  by_cases hst : t.state.bytes = [] <;>
    simp [recordComputeTx, nextComputeTxLocked, storeGet, storePut, run_bind, recorded,
      nextComputeTx, ComputeTx.recordedAs, hst]

def loaded (m : Store) (openMesh : Bool) : Ledger :=
  { next := ((m.get? metaNext).bind Blob.uint64?).getD 1
    block := ((m.get? metaBlock).bind Blob.uint64?).getD 0
    enabled := openMesh }

@[simp] lemma run_openLedger (m : Store) (openMesh : Bool) :
    (openLedger openMesh).run ⟨(), m⟩ = (.ok (loaded m openMesh), ⟨(), m⟩) := by
  simp [openLedger, run_bind, loaded]

end Cerberus.Ledger
