import Cerberus.Economy.Model
import Cerberus.Foundation.Drain

/-!
# What the operations of the reference ledger do

For every operation, the condition under which it goes through and the ledger it then leaves, as
long as the counters have room. Three exits come after changes: `settle` has removed its input when
it finds the value insufficient (`exec_settle_lost`), `open_optimistic` has locked the payment when
it panics over a bond input that was the payment input (`exec_fileClaim_panics`), and
`finalize` and `challenge` have paid out when the escrow turns out not to hold the amount
(`exec_finalize`, `exec_challenge`).
-/

namespace Cerberus.Economy

open Foundation Fallible List

variable (env : Env) {l : Ledger}

/-! ### Minting and paying -/

/-- The counter has `k` more ids to give out. -/
def Room (k : ℕ) (l : Ledger) : Prop := l.next.toNat + k < 2 ^ 64

/-- The ledger with a new output. -/
def minted (l : Ledger) (owner : PeerId) (value : UInt64) : Ledger :=
  { l with next := l.next + 1, utxos := l.utxos.put l.next.toNat ⟨owner, value⟩ }

/-- The ledger after an output has been consumed for a payment of `amt` and its owner has got the
change. -/
def changed (l : Ledger) (id : UInt64) (u : Utxo) (amt : UInt64) : Ledger :=
  if u.value > amt then minted (l.remove id) u.owner (u.value - amt) else l.remove id

/-- An output is spent on a payment and its change. -/
def paid (l : Ledger) (id : UInt64) (u : Utxo) (payee : PeerId) (amt : UInt64) : Ledger :=
  minted (changed l id u amt) payee amt

variable {α : Type} {k id : ℕ} {input amt tx now : UInt64} {u v : Utxo} {l' l : Ledger}
  {p : PendingSettlement} {fraud : FraudProof}

@[simp] lemma exec_fail (e : Err) : exec (fail e : EconM α) l = (.error (.err e), l) := rfl

lemma exec_add {a b : UInt64} (h : a.toNat + b.toNat < 2 ^ 64) :
    exec (add env a b) l = (.ok (a + b), l) := by
  rw [add, if_neg fun h' => absurd h'.2 (not_le.mpr h)]
  rfl

lemma exec_mint (h : Room 1 l) (owner : PeerId) (value : UInt64) :
    exec (mint env owner value) l = (.ok l.next, minted l owner value) := by
  have hadd := exec_add env (l := l) (show l.next.toNat + (1 : UInt64).toNat < 2 ^ 64 from h)
  simp [mint, exec_bind, hadd, minted, Except.map]

lemma toNat_next_minted (h : Room 1 l) (owner : PeerId) (value : UInt64) :
    (minted l owner value).next.toNat = l.next.toNat + 1 := by
  have h' : l.next.toNat + 1 < 2 ^ 64 := h
  rw [minted, UInt64.toNat_add]
  exact Nat.mod_eq_of_lt h'

lemma Room.minted (h : Room (k + 1) l) (owner : PeerId) (value : UInt64) :
    Room k (minted l owner value) := by
  unfold Room at h ⊢
  rw [toNat_next_minted (show Room 1 l by unfold Room; omega)]
  omega

lemma Room.mono {j : ℕ} (h : Room k l) (hjk : j ≤ k) : Room j l := by
  unfold Room at h ⊢
  omega

lemma Room.remove (h : Room k l) (id : UInt64) : Room k (l.remove id) := h

lemma Room.changed (h : Room (k + 1) l) (id : UInt64) (u : Utxo) (amt : UInt64) :
    Room k (changed l id u amt) := by
  unfold Economy.changed
  split_ifs
  · exact (h.remove id).minted _ _
  · exact (h.remove id).mono (Nat.le_succ k)

lemma Room.paid (h : Room (k + 2) l) (id : UInt64) (u : Utxo) (payee : PeerId) (amt : UInt64) :
    Room k (paid l id u payee amt) :=
  (h.changed id u amt).minted payee amt

/-- When `settle` goes through. -/
def Spendable (l : Ledger) (input amt : UInt64) (u : Utxo) : Prop :=
  l.enabled = true ∧ l.getUtxo input = some u ∧ amt ≤ u.value

variable (payee : PeerId)

/-- A settlement that goes through consumes the input, returns the change and pays the amount. -/
theorem exec_settle (h : Spendable l input amt u) (hroom : Room 2 l) :
    exec (settle env input payee amt) l =
      (.ok (changed l input u amt).next, paid l input u payee amt) := by
  obtain ⟨hen, hu, hle⟩ := h
  have hlt : ¬ u.value < amt := by rwa [UInt64.not_lt]
  have hpay := exec_mint env (hroom.changed input u amt) payee amt
  by_cases hgt : amt < u.value
  · have hchange := exec_mint env ((hroom.remove input).mono (by decide)) u.owner
      (u.value - amt)
    simp only [changed, gt_iff_lt, if_pos hgt] at hpay ⊢
    simp [settle, exec_bind, hen, hu, hlt, hgt, hchange, hpay, paid, changed]
  · simp only [changed, gt_iff_lt, if_neg hgt] at hpay ⊢
    simp [settle, exec_bind, hen, hu, hlt, hgt, hpay, paid, changed]

/-- A settlement of an output that is worth too little removes the output and fails. -/
theorem exec_settle_lost (hen : l.enabled = true) (hu : l.getUtxo input = some u)
    (hlt : u.value < amt) :
    exec (settle env input payee amt) l = (.error (.err .insufficientValue), l.remove input) := by
  simp [settle, exec_bind, hen, hu, hlt]

/-- The operation ends with an error before it has changed anything. -/
def Refuses {α : Type} (p : EconM α) (l : Ledger) : Prop := ∃ e, exec p l = (.error (.err e), l)

section Refuses

variable {α β : Type}

lemma refuses_fail (e : Err) : Refuses (fail e : EconM α) l := ⟨e, rfl⟩

lemma Refuses.bind {p : EconM α} (h : Refuses p l) (f : α → EconM β) : Refuses (p >>= f) l := by
  obtain ⟨e, he⟩ := h
  exact ⟨e, by rw [exec_bind, he]⟩

lemma Refuses.of_get {f : Ledger → EconM α} (h : Refuses (f l) l) : Refuses (get >>= f) l := h

lemma Refuses.check {c : Prop} [Decidable c] {e : Err} {f : α → EconM β} {q : EconM β}
    (hq : ¬ c → Refuses q l) : Refuses (if c then (fail e : EconM α) >>= f else q) l := by
  split_ifs with h
  · exact (refuses_fail e).bind f
  · exact hq h

lemma Refuses.of_enabled {e : Err} {p : EconM α} (h : l.enabled = true → Refuses p l) :
    Refuses (do
      if !(← get).enabled then fail e
      p) l := by
  refine .of_get (.check fun hen => h ?_)
  simpa using hen

end Refuses

/-- A settlement is refused in the Sealed profile and when there is no such output. -/
theorem settle_refused (h : l.enabled = true → l.getUtxo input = none) :
    Refuses (settle env input payee amt) l := by
  refine .of_enabled fun hen => .of_get ?_
  rw [h hen]
  exact refuses_fail _

/-! ### Opening a claim -/

/-- When the payment of a claim can be locked. -/
def Payable (l : Ledger) (a : OpenArgs) (u : Utxo) : Prop :=
  l.enabled = true ∧ l.getUtxo a.input = some u ∧ a.amt ≤ u.value

/-- When the bond of a claim can be locked. -/
def Bondable (l : Ledger) (a : OpenArgs) (v : Utxo) : Prop :=
  l.getUtxo a.bondInput = some v ∧ v.owner = a.provider ∧ a.bond ≤ v.value

/-- The payment belongs to the escrow. -/
def paymentLocked (l : Ledger) (a : OpenArgs) (u : Utxo) : Ledger := paid l a.input u escrow a.amt

/-- Payment and bond belong to the escrow. -/
def bondLocked (l : Ledger) (a : OpenArgs) (u v : Utxo) : Ledger :=
  paid (paymentLocked l a u) a.bondInput v escrow a.bond

def OpenArgs.claim (a : OpenArgs) (consumer : PeerId) (now tx : UInt64) : PendingSettlement :=
  { tx := tx
    consumer := consumer
    provider := a.provider
    payment := a.amt
    bond := a.bond
    openedAt := now
    disputeWindowBlocks := a.disputeWindowBlocks
    binding := a.binding
    state := .pending }

/-- The ledger with a new claim. -/
def opened (l : Ledger) (a : OpenArgs) (consumer : PeerId) (now : UInt64) : Ledger :=
  { l with
    nextTx := l.nextTx + 1
    pending := l.pending.put l.nextTx.toNat (a.claim consumer now l.nextTx) }

@[simp] lemma nextTx_paid (id : UInt64) (u : Utxo) (payee : PeerId) (amt : UInt64) :
    (paid l id u payee amt).nextTx = l.nextTx := by
  unfold paid changed
  split_ifs <;> rfl

@[simp] lemma pending_paid (id : UInt64) (u : Utxo) (payee : PeerId) (amt : UInt64) :
    (paid l id u payee amt).pending = l.pending := by
  unfold paid changed
  split_ifs <;> rfl

@[simp] lemma enabled_paid (id : UInt64) (u : Utxo) (payee : PeerId) (amt : UInt64) :
    (paid l id u payee amt).enabled = l.enabled := by
  unfold paid changed
  split_ifs <;> rfl

variable {a : OpenArgs}

lemma exec_lockBond (hv : Bondable l a v) (hroom : Room 2 l) :
    exec (lockBond env a) l = (.ok (), paid l a.bondInput v escrow a.bond) := by
  obtain ⟨hget, howner, -⟩ := hv
  have hpay := exec_mint env (hroom.changed a.bondInput v a.bond) escrow a.bond
  by_cases hgt : a.bond < v.value
  · have hchange := exec_mint env ((hroom.remove a.bondInput).mono (by decide)) a.provider
      (v.value - a.bond)
    simp only [changed, gt_iff_lt, if_pos hgt, howner] at hpay
    simp [lockBond, exec_bind, hget, hgt, hchange, hpay, paid, changed, howner, Except.map]
  · simp only [changed, gt_iff_lt, if_neg hgt] at hpay
    simp [lockBond, exec_bind, hget, hgt, hpay, paid, changed, Except.map]

lemma exec_lockBond_panics (h : l.getUtxo a.bondInput = none) :
    exec (lockBond env a) l = (.error (.panic (.expect "checked above")), l) := by
  simp [lockBond, exec_bind, h]

lemma exec_checkBond (hv : Bondable l a v) : exec (checkBond a) l = (.ok (), l) := by
  obtain ⟨hget, howner, hle⟩ := hv
  have hlt : ¬ v.value < a.bond := by rwa [UInt64.not_lt]
  simp [checkBond, exec_bind, hget, howner, hlt]

lemma checkBond_refused (h : ∀ v, ¬ Bondable l a v) : Refuses (checkBond a) l := by
  refine .of_get ?_
  cases hget : l.getUtxo a.bondInput with
  | none => exact refuses_fail _
  | some v =>
    refine .check fun howner => ?_
    by_cases hlt : v.value < a.bond
    · rw [if_pos hlt]
      exact refuses_fail _
    · exact absurd ⟨hget, not_not.mp howner, UInt64.not_lt.mp hlt⟩ (h v)

/-- The checks of `open_optimistic` pass. -/
def Openable (l : Ledger) (a : OpenArgs) (u : Utxo) : Prop :=
  Payable l a u ∧ (0 < a.bond → ∃ v, Bondable l a v)

/-- The part of `open_optimistic` after the payment was locked. -/
def fileClaim (a : OpenArgs) (consumer : PeerId) : EconM UInt64 := do
  if a.bond > 0 then lockBond env a
  let tx := (← get).nextTx
  let nextTx ← add env tx 1
  modify fun l => { l with nextTx := nextTx }
  modify fun l => { l with pending := l.pending.put tx.toNat (a.claim consumer 0 tx) }
  return tx

/-- With its checks passed, `open_optimistic` locks the payment and goes on. -/
theorem exec_openOptimistic (h : Openable l a u) (hroom : Room 2 l) :
    exec (openOptimistic env a) l = exec (fileClaim env a u.owner) (paymentLocked l a u) := by
  obtain ⟨⟨hen, hu, hle⟩, hbond⟩ := h
  have hlt : ¬ u.value < a.amt := by rwa [UInt64.not_lt]
  have hpay := exec_mint env (hroom.changed a.input u a.amt) escrow a.amt
  have hchange := exec_mint env ((hroom.remove a.input).mono (by decide)) u.owner (u.value - a.amt)
  have hcheck : 0 < a.bond → exec (checkBond a) l = (.ok (), l) := fun hb => by
    obtain ⟨v, hv⟩ := hbond hb
    exact exec_checkBond hv
  by_cases hgt : a.amt < u.value
  · simp only [changed, gt_iff_lt, if_pos hgt] at hpay
    by_cases hb : 0 < a.bond <;>
      simp [openOptimistic, exec_bind, hen, hu, hlt, hb, hcheck, hgt, hchange, hpay, paymentLocked,
        paid, changed, fileClaim, OpenArgs.claim]
  · simp only [changed, gt_iff_lt, if_neg hgt] at hpay
    by_cases hb : 0 < a.bond <;>
      simp [openOptimistic, exec_bind, hen, hu, hlt, hb, hcheck, hgt, hpay, paymentLocked, paid,
        changed, fileClaim, OpenArgs.claim]

variable (consumer : PeerId)

lemma exec_fileClaim_unbonded (hb : a.bond = 0) (htx : l.nextTx.toNat + 1 < 2 ^ 64) :
    exec (fileClaim env a consumer) l = (.ok l.nextTx, opened l a consumer 0) := by
  have hb' : ¬ 0 < a.bond := by simp [hb]
  have hadd := exec_add env (l := l) (show l.nextTx.toNat + (1 : UInt64).toNat < 2 ^ 64 from htx)
  simp [fileClaim, exec_bind, hb', hadd, opened, Except.map]

lemma exec_fileClaim_bonded (hb : 0 < a.bond) (hv : Bondable l a v)
    (hroom : Room 2 l) (htx : l.nextTx.toNat + 1 < 2 ^ 64) :
    exec (fileClaim env a consumer) l =
      (.ok l.nextTx, opened (paid l a.bondInput v escrow a.bond) a consumer 0) := by
  have hadd := exec_add env (l := paid l a.bondInput v escrow a.bond)
    (show l.nextTx.toNat + (1 : UInt64).toNat < 2 ^ 64 from htx)
  simp [fileClaim, exec_bind, hb, exec_lockBond env hv hroom, hadd, opened, Except.map]

lemma exec_fileClaim_panics (hb : 0 < a.bond) (hv : l.getUtxo a.bondInput = none) :
    exec (fileClaim env a consumer) l = (.error (.panic (.expect "checked above")), l) := by
  simp [fileClaim, exec_bind, hb, exec_lockBond_panics env hv]

theorem openOptimistic_refused (h : ∀ u, ¬ Openable l a u) : Refuses (openOptimistic env a) l := by
  refine .of_enabled fun hen => .of_get ?_
  cases hu : l.getUtxo a.input with
  | none => exact refuses_fail _
  | some u =>
    refine .check fun hlt => ?_
    have hpay : Payable l a u := ⟨hen, hu, UInt64.not_lt.mp hlt⟩
    have hbond : ¬ (0 < a.bond → ∃ v, Bondable l a v) := fun h' => h u ⟨hpay, h'⟩
    rw [Classical.not_imp] at hbond
    obtain ⟨hb, hv⟩ := hbond
    rw [if_pos hb]
    exact (checkBond_refused (not_exists.mp hv)).bind _

lemma exec_openOptimisticAt {consumer : PeerId} (now : UInt64)
    (h : exec (openOptimistic env a) l = (.ok l'.nextTx, opened l' a consumer 0)) :
    exec (openOptimisticAt env now a) l = (.ok l'.nextTx, opened l' a consumer now) := by
  simp [openOptimisticAt, exec_bind, h, opened, OrdMap.put_put, OpenArgs.claim, Except.map]

lemma exec_openOptimisticAt_error {x : Exit} (now : UInt64)
    (h : exec (openOptimistic env a) l = (.error x, l')) :
    exec (openOptimisticAt env now a) l = (.error x, l') := by
  simp [openOptimisticAt, exec_bind, h]

/-! ### Burning escrow -/

def part (owner owner' : PeerId) (amt : UInt64) : ℕ := if owner' = owner then amt.toNat else 0

def weight (owner : PeerId) (_ : ℕ) (u : Utxo) : ℕ := part owner u.owner u.value

/-- The balance of an owner. -/
def held (l : Ledger) (owner : PeerId) : ℕ := l.utxos.sum (weight owner)

/-- The outputs that a release takes value from. -/
def escrowCoins : Drainable ℕ Utxo where
  amount _ u := if u.owner = escrow then some u.value.toNat else none
  reduce u r := ⟨u.owner, u.value - UInt64.ofNat r⟩
  amount_reduce := by
    intro k u a r ha hr
    split_ifs at ha with ho
    obtain rfl := Option.some.inj ha
    have hlt := u.value.toNat_lt
    have hr' : (UInt64.ofNat r).toNat = r := UInt64.toNat_ofNat_of_lt' (hr.trans hlt)
    have hle : UInt64.ofNat r ≤ u.value := by
      rw [UInt64.le_iff_toNat_le, hr']
      exact hr.le
    rw [if_pos ho, UInt64.toNat_sub_of_le _ _ hle, hr']

lemma total_escrowCoins (l : Ledger) : escrowCoins.total l.utxos = held l escrow := by
  refine OrdMap.sum_congr fun k u _ => ?_
  rw [Drainable.weight, escrowCoins, weight, part]
  dsimp only
  split_ifs <;> rfl

def drained (l : Ledger) (ids : List ℕ) (amt : UInt64) : OrdMap ℕ Utxo × ℕ :=
  escrowCoins.drain ids amt.toNat l.utxos

@[simp] lemma exec_burnLoop_zero (ids : List ℕ) (l : Ledger) :
    exec (burnLoop ids 0) l = (.ok 0, l) := by
  cases ids <;> simp [burnLoop]

lemma exec_burnLoop {ids : List ℕ} (hnodup : ids.Nodup) (l : Ledger)
    (hids : ∀ id ∈ ids, ∃ u, l.utxos.get? id = some u ∧ u.owner = escrow) (remaining : UInt64) :
    exec (burnLoop ids remaining) l =
      (.ok (UInt64.ofNat (drained l ids remaining).2),
        { l with utxos := (drained l ids remaining).1 }) := by
  induction ids generalizing l remaining with
  | nil => simp [burnLoop, drained, Drainable.drain]
  | cons id ids ih =>
    obtain ⟨hnotin, hnodup'⟩ := nodup_cons.mp hnodup
    by_cases hr : remaining = 0
    · subst hr
      simp [drained]
    have hr' : remaining.toNat ≠ 0 := fun h => hr (UInt64.toNat_inj.mp h)
    obtain ⟨u, hu, ho⟩ := hids id mem_cons_self
    have hamount : escrowCoins.amount id u = some u.value.toNat := if_pos ho
    rw [drained]
    by_cases hle : u.value ≤ remaining
    · have hrest : ∀ id' ∈ ids, ∃ u, (l.utxos.delete id).get? id' = some u ∧ u.owner = escrow := by
        intro id' hid'
        obtain ⟨u', hu', ho'⟩ := hids id' (mem_cons_of_mem _ hid')
        have hne : id' ≠ id := fun h => hnotin (h ▸ hid')
        exact ⟨u', by rw [OrdMap.get?_delete, if_neg hne, hu'], ho'⟩
      have hloop := ih hnodup' { l with utxos := l.utxos.delete id } hrest (remaining - u.value)
      rw [escrowCoins.drain_cons_of_le hu hamount hr' (UInt64.le_iff_toNat_le.mp hle),
        ← UInt64.toNat_sub_of_le _ _ hle]
      simp [burnLoop, exec_bind, hr, hu, hle, hloop, drained]
    · have hlt : remaining.toNat < u.value.toNat := by
        rw [UInt64.le_iff_toNat_le] at hle
        omega
      rw [escrowCoins.drain_cons_of_lt hu hamount hr' hlt]
      simp [burnLoop, exec_bind, hr, hu, hle, escrowCoins, ho]

lemma mem_escrowIds : id ∈ escrowIds l ↔ ∃ u, l.utxos.get? id = some u ∧ u.owner = escrow := by
  simp only [escrowIds, mem_map, mem_filter, decide_eq_true_eq, Prod.exists,
    OrdMap.mem_entries_iff]
  constructor
  · rintro ⟨k, u, ⟨hu, ho⟩, rfl⟩
    exact ⟨u, hu, ho⟩
  · rintro ⟨u, hu, ho⟩
    exact ⟨id, u, ⟨hu, ho⟩, rfl⟩

lemma nodup_escrowIds (l : Ledger) : (escrowIds l).Nodup :=
  (filter_sublist.map Prod.fst).nodup l.utxos.keys_nodup

/-- The escrow has given up an amount. -/
def burnt (l : Ledger) (amt : UInt64) : Ledger :=
  { l with utxos := (drained l (env.order (escrowIds l)) amt).1 }

lemma mem_order_escrowIds : id ∈ env.order (escrowIds l) ↔
    ∃ u, l.utxos.get? id = some u ∧ u.owner = escrow :=
  (env.perm _).mem_iff.trans mem_escrowIds

lemma drained_remaining (l : Ledger) (amt : UInt64) :
    (drained l (env.order (escrowIds l)) amt).2 = amt.toNat - held l escrow := by
  rw [← total_escrowCoins]
  refine escrowCoins.drain_remaining fun k u a hu ha => (mem_order_escrowIds env).mpr ⟨u, hu, ?_⟩
  by_contra ho
  simp [escrowCoins, ho] at ha

/-- `burn_escrow` goes through when the escrow holds the amount; otherwise it takes all there is and
reports the underflow. -/
theorem exec_burnEscrow (l : Ledger) (amt : UInt64) : exec (burnEscrow env amt) l =
    (if amt.toNat ≤ held l escrow then .ok () else .error (.err .escrowUnderflow),
      burnt env l amt) := by
  have hnodup := (env.perm (escrowIds l)).nodup_iff.mpr (nodup_escrowIds l)
  have hloop := exec_burnLoop hnodup l (fun id hid => (mem_order_escrowIds env).mp hid) amt
  have hsnd := drained_remaining env l amt
  have hlt := amt.toNat_lt
  have hzero : UInt64.ofNat (drained l (env.order (escrowIds l)) amt).2 = 0 ↔
      amt.toNat ≤ held l escrow := by
    rw [← UInt64.toNat_inj,
      UInt64.toNat_ofNat_of_lt' (by rw [hsnd]; exact (Nat.sub_le _ _).trans_lt hlt), hsnd]
    simp only [UInt64.toNat_zero]
    omega
  by_cases hle : amt.toNat ≤ held l escrow
  · simp [burnEscrow, exec_bind, hloop, hzero.mpr hle, hle, burnt]
  · simp [burnEscrow, exec_bind, hloop, mt hzero.mp hle, hle, burnt]

/-! ### Deciding a claim -/

/-- The claim is open. -/
def IsPending (l : Ledger) (tx : UInt64) (p : PendingSettlement) : Prop :=
  l.enabled = true ∧ l.pending.get? tx.toNat = some p ∧ p.state = .pending

/-- When `finalize` passes its checks. -/
def Finalizable (l : Ledger) (tx now : UInt64) (p : PendingSettlement) : Prop :=
  IsPending l tx p ∧ p.windowElapsed now = true

/-- The fraud proof quotes the binding and names another output than the bound one. -/
def FraudProof.Contradicts (fraud : FraudProof) (b : SettlementBinding) : Prop :=
  fraud.componentCid = b.componentCid ∧ fraud.inputCid = b.inputCid ∧
    fraud.claimedOutputCid = b.outputCid ∧ fraud.actualOutputCid ≠ fraud.claimedOutputCid

/-- When `challenge` passes its checks. -/
def Challengeable (l : Ledger) (tx : UInt64) (fraud : FraudProof) (now : UInt64)
    (p : PendingSettlement) : Prop :=
  IsPending l tx p ∧ p.windowElapsed now = false ∧ fraud.Contradicts p.binding

/-- Outputs to be minted: their owners and values. -/
abbrev Payouts := List (PeerId × UInt64)

def finalPayouts (p : PendingSettlement) : Payouts := [(p.provider, p.payment + p.bond)]

def slashPayouts (p : PendingSettlement) (challenger : PeerId) : Payouts :=
  (p.consumer, p.payment) :: if p.bond > 0 then [(challenger, p.bond)] else []

/-- The ledger after payouts. -/
def paidOut (l : Ledger) (ps : Payouts) : Ledger := ps.foldl (fun l x => minted l x.1 x.2) l

/-- The ledger after the payouts of a claim have been made and its value has been burnt, as far as
it is there. -/
def withdrawn (l : Ledger) (p : PendingSettlement) (ps : Payouts) : Ledger :=
  burnt env (paidOut l ps) (p.payment + p.bond)

/-- The escrow, together with what is paid out to it, holds what the claim locked. -/
def Covered (l : Ledger) (p : PendingSettlement) (ps : Payouts) : Prop :=
  (p.payment + p.bond).toNat ≤ held (paidOut l ps) escrow

/-- The ledger after a decision. -/
def closed (l : Ledger) (tx : UInt64) (p : PendingSettlement) (ps : Payouts) (st : ClaimState) :
    Ledger :=
  { withdrawn env l p ps with
    pending := l.pending.put tx.toNat { p with state := st } }

@[simp] lemma pending_paidOut (l : Ledger) (ps : Payouts) : (paidOut l ps).pending = l.pending := by
  induction ps generalizing l with
  | nil => rfl
  | cons x ps ih => exact ih _

@[simp] lemma pending_withdrawn (l : Ledger) (p : PendingSettlement) (ps : Payouts) :
    (withdrawn env l p ps).pending = l.pending :=
  pending_paidOut l ps

/-- What `finalize` and `challenge` end with: burn the value of the claim and set its state. -/
def decision {α : Type} (tx : UInt64) (p : PendingSettlement) (st : ClaimState) (a : α) :
    EconM α := do
  burnEscrow env (p.payment + p.bond)
  setState tx st
  return a

section Decision

variable {α : Type} {tx : UInt64} {p : PendingSettlement} {ps : Payouts} {st : ClaimState} {a : α}

lemma exec_decision (hp : l.pending.get? tx.toNat = some p) (h : Covered l p ps) :
    exec (decision env tx p st a) (paidOut l ps) = (.ok a, closed env l tx p ps st) := by
  have hburn := exec_burnEscrow env (paidOut l ps) (p.payment + p.bond)
  rw [if_pos (show _ ≤ _ from h)] at hburn
  simp [decision, setState, exec_bind, hburn, hp, closed, withdrawn, Except.map, burnt]

lemma exec_decision_short (h : ¬ Covered l p ps) :
    exec (decision env tx p st a) (paidOut l ps) =
      (.error (.err .escrowUnderflow), withdrawn env l p ps) := by
  have hburn := exec_burnEscrow env (paidOut l ps) (p.payment + p.bond)
  rw [if_neg (show ¬ _ ≤ _ from h)] at hburn
  simp [decision, exec_bind, hburn, withdrawn]

end Decision

/-- A finalization that passes its checks pays the provider before it turns to the escrow. -/
theorem exec_finalize (h : Finalizable l tx now p)
    (hsum : p.payment.toNat + p.bond.toNat < 2 ^ 64) (hroom : Room 1 l) :
    exec (finalize env tx now) l =
      exec (decision env tx p .finalized p.payment) (paidOut l (finalPayouts p)) := by
  obtain ⟨⟨hen, hp, hst⟩, hwin⟩ := h
  simp [finalize, exec_bind, hen, hp, hst, hwin, exec_add env hsum, exec_mint env hroom, decision,
    finalPayouts, paidOut]

lemma Refuses.of_pending {f : PendingSettlement → EconM α}
    (h : ∀ p, IsPending l tx p → Refuses (f p) l) :
    Refuses (do
      if !(← get).enabled then fail .economyDisabled
      let some p := (← get).pending.get? tx.toNat | fail .noSuchPending
      if p.state ≠ .pending then fail .notPending
      f p) l := by
  refine .of_enabled fun hen => .of_get ?_
  cases hp : l.pending.get? tx.toNat with
  | none => exact refuses_fail _
  | some p => exact .check fun hst => h p ⟨hen, hp, not_not.mp hst⟩

theorem finalize_refused (h : ∀ p, ¬ Finalizable l tx now p) : Refuses (finalize env tx now) l := by
  refine .of_pending fun p hp => .check fun hwin => ?_
  exact absurd ⟨hp, by simpa using hwin⟩ (h p)

lemma FraudProof.contradicts_iff (fraud : FraudProof) (b : SettlementBinding) :
    fraud.Contradicts b ↔
      ¬ (fraud.componentCid ≠ b.componentCid ∨ fraud.inputCid ≠ b.inputCid) ∧
        fraud.claimedOutputCid = b.outputCid ∧ ¬ fraud.actualOutputCid = fraud.claimedOutputCid := by
  simp [FraudProof.Contradicts, and_assoc]

/-- A challenge that passes its checks pays the consumer and the challenger before it turns to the
escrow. -/
theorem exec_challenge (challenger : PeerId) (h : Challengeable l tx fraud now p)
    (hsum : p.payment.toNat + p.bond.toNat < 2 ^ 64) (hroom : Room 2 l) :
    exec (challenge env tx fraud now challenger) l =
      exec (decision env tx p .slashed (⟨tx, p.payment, p.bond⟩ : Slash))
        (paidOut l (slashPayouts p challenger)) := by
  obtain ⟨⟨hen, hp, hst⟩, hwin, hfraud⟩ := h
  obtain ⟨h₁, h₂, h₃⟩ := (fraud.contradicts_iff p.binding).mp hfraud
  rw [h₂] at h₃
  have hrefund := exec_mint env (hroom.mono (Nat.le_succ 1)) p.consumer p.payment
  have haward := exec_mint env (hroom.minted p.consumer p.payment) challenger p.bond
  by_cases hbond : 0 < p.bond <;>
    simp [challenge, exec_bind, hen, hp, hst, hwin, h₁, h₂, h₃, hbond, hrefund, haward,
      exec_add env hsum, decision, slashPayouts, paidOut]

theorem challenge_refused (challenger : PeerId) (h : ∀ p, ¬ Challengeable l tx fraud now p) :
    Refuses (challenge env tx fraud now challenger) l := by
  refine .of_pending fun p hp => .check fun hwin => ?_
  refine .check fun h₁ => .check fun h₂ => .check fun h₃ => ?_
  have hfraud := (fraud.contradicts_iff _).mpr ⟨h₁, not_not.mp h₂, h₃⟩
  exact absurd ⟨hp, by simpa using hwin, hfraud⟩ (h p)

end Cerberus.Economy
