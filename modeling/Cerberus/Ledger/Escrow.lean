import Cerberus.Ledger.Claims
import Cerberus.Ledger.Supply

/-!
# Backing of the escrow

The escrow is meant to hold exactly what the pending claims have locked. Two calls break this.
`Settle` does not ask who owns its input, so it can spend an escrow-owned output (`RobsEscrow`).
`OpenOptimistic` locks the payment before it finds out that the bond cannot be locked, and then
fails without a claim for what it has locked (`StrandsPayment`).

`escrowBacked_iff` says that these are the only ways.
-/

namespace Cerberus.Ledger

open Foundation List

/-! ### What calls do to the escrow -/

/-- The owners that a call names. -/
def Call.principals : Call → List GoString
  | mint owner _ => [owner]
  | settle _ payee _ => [payee]
  | openOptimistic a => [a.consumer, a.provider]
  | challenge _ _ _ challenger => [challenger]
  | finalize .. | advanceBlock .. | recordComputeTx .. => []

/-- Nobody is named like the escrow. -/
def Call.Plain (c : Call) : Prop := ∀ o ∈ c.principals, o ≠ escrowOwner

/-- `Settle` spends an output of the escrow. -/
def RobsEscrow (w : LedgerWorld) (c : Call) : Prop :=
  ∃ input payee amt u, c = .settle input payee amt ∧ Spendable w input amt u ∧
    u.owner = escrowOwner ∧ 0 < amt

/-- A payment is locked without a claim for it. -/
def StrandsPayment (w : LedgerWorld) (c : Call) : Prop :=
  ∃ a u, c = .openOptimistic a ∧ 0 < a.payment ∧ PaymentLock w a u ∧ 0 < a.bond ∧
    ∀ v, ¬ BondLock w a u v

/-- Stored claims do not name the escrow as a principal. -/
def PlainClaims (m : Store) : Prop :=
  ∀ tx p, claim m tx = some p → p.consumer ≠ escrowOwner ∧ p.provider ≠ escrowOwner

/-- The escrow holds exactly what the pending claims have locked, `v` has been minted and is still
there, and the ids are in order. -/
structure Backed (n v : ℕ) (w : LedgerWorld) : Prop where
  tidy : Tidy n w
  plain : PlainClaims w.store
  supply_eq : supply w.store = v
  held_eq : held w.store escrowOwner = owed w.store

variable {p : PendingSettlement}

section Held

variable {n : ℕ} {w : LedgerWorld}

lemma share_owner (owner : GoString) (u : Utxo) :
    share (fun u => decide (u.owner = owner)) u = if u.owner = owner then u.value.toNat else 0 := by
  by_cases h : u.owner = owner <;> simp [share, h]

variable {id amt : UInt64} {u : Utxo} {owner : GoString}

lemma held_paid (h : Fresh n w) (hu : coin w.store id = some u) (hle : amt ≤ u.value)
    (payee owner : GoString) (hn : n + (changeCount u amt + 1) < 2 ^ 64) :
    held (paid w id u payee amt).store owner + (if u.owner = owner then amt.toNat else 0) =
      held w.store owner + if payee.coerce = owner then amt.toNat else 0 := by
  have hpaid := worth_paid (fun u => decide (u.owner = owner)) h hu hle payee hn
  have hle' := UInt64.le_iff_toNat_le.mp hle
  simp only [share_owner, UInt64.toNat_sub_of_le _ _ hle] at hpaid
  unfold held
  split_ifs at hpaid ⊢ <;> omega

lemma held_lock (h : Fresh n w) (hu : Lockable w.store id owner amt u) (ho : owner ≠ escrowOwner)
    (hn : n + (changeCount u amt + 1) < 2 ^ 64) :
    held (paid w id u escrowOwner amt).store escrowOwner =
      held w.store escrowOwner + amt.toNat := by
  have := held_paid h hu.1 hu.2.2 escrowOwner escrowOwner hn
  rw [hu.2.1, if_neg ho, coerce_escrowOwner, if_pos rfl] at this
  omega

lemma held_paidOut_of_ne (h : Fresh n w) (ps : Payouts) (hn : n + ps.length < 2 ^ 64)
    (ho : ∀ x ∈ ps, x.1.coerce ≠ owner) : held (paidOut w ps).store owner = held w.store owner := by
  have hout := worth_paidOut (fun u => decide (u.owner = owner)) h ps hn
  have hzero : (ps.map fun x =>
      share (fun u => decide (u.owner = owner)) ⟨x.1.coerce, x.2⟩) = ps.map fun _ => 0 :=
    map_congr_left fun x hx => by rw [share_owner, if_neg (ho x hx)]
  rw [hzero] at hout
  simpa [held] using hout

lemma held_closed_escrow {ps : Payouts} (hcov : Covered w p ps) (st : ClaimState) :
    held (closed w p ps st).store escrowOwner + (p.payment + p.bond).toNat =
      held (paidOut w ps).store escrowOwner := by
  have hrel := held_released_escrow (paidOut w ps).store (p.payment + p.bond)
  rw [released_snd, Nat.sub_eq_zero_of_le hcov, Nat.add_zero] at hrel
  rw [closed, held_filed]
  exact hrel

end Held

section Owed

variable {c : ℕ} {w : LedgerWorld}

lemma owed_opened (h : Filed c w.store) (hc : c + 1 < 2 ^ 64) (a : OpenArgs) :
    owed (opened w a).store = owed w.store + (a.payment.toNat + a.bond.toNat) := by
  have hfree : claim (reserved w).store (nextTx w.store) = none := by
    rw [claim_reserved, claim]
    by_contra hne
    have hget : w.store.get? (pendingKey (nextTx w.store)) ≠ none := fun hnone => by
      simp [hnone] at hne
    have hle := (h.stored _ hget).2
    rw [h.next, toNat_ofNat_succ hc] at hle
    omega
  have hfiled := owed_filed (reserved w) (a.pendingClaim (nextTx w.store))
  rw [show (a.pendingClaim (nextTx w.store)).tx = nextTx w.store from rfl, hfree, owed_reserved]
    at hfiled
  exact hfiled

lemma owed_closed (h : Filed c w.store) {tx : UInt64}
    (hp : claim w.store tx = some p) (hpending : p.state = .pending) (ps : Payouts)
    {st : ClaimState} (hst : st = .finalized ∨ st = .slashed) :
    owed (closed w p ps st).store + (p.payment.toNat + p.bond.toNat) = owed w.store := by
  obtain rfl := h.tx_eq tx p hp
  have hfiled := owed_filed (withdrawn w p ps) { p with state := st }
  have hne : st ≠ .pending := by rcases hst with rfl | rfl <;> simp
  rw [coerced_with_state hp (Or.inr hst), claim_withdrawn, owed_withdrawn, hp] at hfiled
  simpa [closed, dueOf, due, hpending, hne] using hfiled

lemma le_owed {m : Store} {tx : UInt64} (hp : claim m tx = some p)
    (hst : p.state = .pending) : p.payment.toNat + p.bond.toNat ≤ owed m := by
  have hle := OrdMap.weightAt_le_sum owedWeight m (pendingKey tx)
  rw [weightAt_pendingKey, hp] at hle
  simpa [dueOf, due, hst, owed] using hle

end Owed

/-! ### Claims keep plain names -/

section Plain

variable {w w' : LedgerWorld} {c : Call}

lemma coerce_ne_escrowOwner {o : GoString} (h : o ≠ escrowOwner) : o.coerce ≠ escrowOwner :=
  fun hcoerce => h (coerce_eq_escrowOwner_iff.mp hcoerce)

lemma PlainClaims.of_claim_eq (h : PlainClaims w.store)
    (hclaim : ∀ tx, claim w'.store tx = claim w.store tx) : PlainClaims w'.store :=
  fun tx p hp => h tx p (by rwa [hclaim] at hp)

lemma PlainClaims.opened (h : PlainClaims w.store) {a : OpenArgs}
    (ha : (Call.openOptimistic a).Plain) : PlainClaims (opened w a).store := by
  intro tx p hp
  rw [Ledger.opened, claim_filed] at hp
  split_ifs at hp with htx
  · cases hp
    exact ⟨coerce_ne_escrowOwner (ha a.consumer (by simp [Call.principals])),
      coerce_ne_escrowOwner (ha a.provider (by simp [Call.principals]))⟩
  · exact h tx p (by rwa [claim_reserved] at hp)

variable {tx : UInt64} {p : PendingSettlement} {st : ClaimState}

lemma PlainClaims.closed {i : ℕ} (h : PlainClaims w.store) (hfiled : Filed i w.store)
    (hp : claim w.store tx = some p) (ps : Payouts) (hst : st = .finalized ∨ st = .slashed) :
    PlainClaims (closed w p ps st).store := by
  intro tx' q hq
  rw [claim_closed hfiled hp ps hst] at hq
  split_ifs at hq
  · cases hq
    exact h tx p hp
  · exact h tx' q hq

lemma Decides.payouts_ne {ps : Payouts} {r : Reply} (h : Decides w c tx p ps st r)
    (hp : p.consumer ≠ escrowOwner ∧ p.provider ≠ escrowOwner) (hc : c.Plain) :
    ∀ x ∈ ps, x.1.coerce ≠ escrowOwner := by
  intro x hx
  refine coerce_ne_escrowOwner ?_
  cases h with
  | finalize h =>
    obtain rfl := mem_singleton.mp hx
    exact hp.2
  | challenge challenger h =>
    rcases mem_cons.mp hx with rfl | hx
    · exact hp.1
    · split_ifs at hx
      · obtain rfl := mem_singleton.mp hx
        exact hc challenger (by simp [Call.principals])
      · cases hx

end Plain

/-! ### Steps -/

section Steps

variable {n v : ℕ} {w : LedgerWorld} {c : Call}

lemma Backed.covered (h : Backed n v w) (hv : v < 2 ^ 64) (hc : c.Plain) {tx : UInt64}
    {ps : Payouts} {st : ClaimState} {r : Reply} (hd : Decides w c tx p ps st r)
    (hn : n + ps.length < 2 ^ 64) :
    Covered w p ps ∧ (p.payment + p.bond).toNat = p.payment.toNat + p.bond.toNat := by
  have hle := le_owed hd.isPending.2.1 hd.isPending.2.2
  have hheld := held_le_supply w.store escrowOwner
  have hsum : (p.payment + p.bond).toNat = p.payment.toNat + p.bond.toNat := by
    rw [UInt64.toNat_add, Nat.mod_eq_of_lt]
    rw [← h.held_eq] at hle
    rw [h.supply_eq] at hheld
    omega
  refine ⟨?_, hsum⟩
  rw [Covered, hsum, held_paidOut_of_ne h.tidy.fresh ps hn
    (hd.payouts_ne (h.plain tx p hd.isPending.2.1) hc), h.held_eq]
  exact hle

lemma Backed.lockPayment (h : Backed n v w) {a : OpenArgs} {u : Utxo}
    (hc : (Call.openOptimistic a).Plain) (hu : PaymentLock w a u)
    (hn : n + (changeCount u a.payment + 1) < 2 ^ 64) :
    supply (paymentLocked w a u).store = v ∧
      held (paymentLocked w a u).store escrowOwner = owed w.store + a.payment.toNat := by
  have hconsumer : a.consumer ≠ escrowOwner := hc a.consumer (by simp [Call.principals])
  rw [← h.supply_eq, ← h.held_eq]
  exact ⟨supply_paid h.tidy.fresh hu.2.1 hu.2.2.2 escrowOwner hn,
    held_lock h.tidy.fresh hu.2 hconsumer hn⟩

lemma Backed.lockBond (h : Backed n v w) {a : OpenArgs} {u u' : Utxo}
    (hc : (Call.openOptimistic a).Plain) (hu : PaymentLock w a u) (hu' : BondLock w a u u')
    (hn : n + (changeCount u a.payment + 1) + (changeCount u' a.bond + 1) < 2 ^ 64) :
    supply (bondLocked w a u u').store = v ∧
      held (bondLocked w a u u').store escrowOwner =
        owed w.store + (a.payment.toNat + a.bond.toNat) := by
  have hprovider : a.provider ≠ escrowOwner := hc a.provider (by simp [Call.principals])
  obtain ⟨hsupply, hheld⟩ := h.lockPayment hc hu (by omega)
  have hfresh : Fresh _ (paymentLocked w a u) :=
    h.tidy.fresh.paid a.paymentInput u escrowOwner a.payment (by omega)
  rw [← Nat.add_assoc, ← hheld, ← hsupply]
  exact ⟨supply_paid hfresh hu'.1 hu'.2.2 escrowOwner hn, held_lock hfresh hu' hprovider hn⟩

variable (h : Backed n v w) (hc : c.Plain) (hn : n + c.issued w < 2 ^ 64)
include h hc hn

/-- A call that does not rob the escrow and strands no payment keeps it backed, and does not
underflow. -/
theorem Backed.after
    (hv : v + c.mintValue < 2 ^ 64) (hrob : ¬ RobsEscrow w c) (hstrand : ¬ StrandsPayment w c) :
    Backed (n + c.issued w) (v + c.mintValue) (c.after w) ∧
      c.result w ≠ .error .escrowUnderflow := by
  have ho := c.outcome w
  have htidy := h.tidy.outcome ho hn
  have hfresh := h.tidy.fresh
  obtain ⟨i, hi, hfiled⟩ := h.tidy.filed
  generalize c.result w = r, c.issued w = k, c.after w = w' at ho hn htidy ⊢
  cases ho with
  | minted owner value =>
    have howner : owner.coerce ≠ escrowOwner :=
      coerce_ne_escrowOwner (hc owner (by simp [Call.principals]))
    refine ⟨⟨htidy, h.plain.of_claim_eq (claim_minted w owner value), ?_, ?_⟩, by simp⟩
    · have := worth_minted_of_fresh w owner value (fun _ => true) (hfresh.coin_next hn)
      rw [supply, this, ← supply, h.supply_eq]
      rfl
    · rw [held, worth_minted_of_fresh w owner value _ (hfresh.coin_next hn), share_owner,
        if_neg howner, ← held, owed_minted, h.held_eq, Nat.add_zero]
  | @settled input amt u payee hu =>
    have hpayee : payee.coerce ≠ escrowOwner :=
      coerce_ne_escrowOwner (hc payee (by simp [Call.principals]))
    refine ⟨⟨htidy, h.plain.of_claim_eq fun tx => claim_paid .., ?_, ?_⟩, by simp⟩
    · rw [supply_paid hfresh hu.2.1 hu.2.2 payee hn, h.supply_eq]
      rfl
    · have hpaid := held_paid hfresh hu.2.1 hu.2.2 payee escrowOwner hn
      have hamt : (if u.owner = escrowOwner then amt.toNat else 0) = 0 := by
        split_ifs with howner
        · by_contra hne
          refine hrob ⟨input, payee, amt, u, rfl, hu, howner, UInt64.lt_iff_toNat_lt.mpr ?_⟩
          exact Nat.pos_of_ne_zero hne
        · rfl
      rw [hamt, if_neg hpayee] at hpaid
      rw [owed_paid, ← h.held_eq]
      exact hpaid
  | @unbonded a u hu hb =>
    obtain ⟨hsupply, hheld⟩ := h.lockPayment hc hu hn
    have hfiled' : Filed i (paymentLocked w a u).store := hfiled.paid ..
    have hplain : PlainClaims (paymentLocked w a u).store :=
      h.plain.of_claim_eq fun tx => claim_paid ..
    refine ⟨⟨htidy, hplain.opened hc, ?_, ?_⟩, by simp⟩
    · rw [supply_opened, hsupply]
      rfl
    · rw [held_opened, hheld, owed_opened hfiled' (by omega), hb, paymentLocked, owed_paid]
      rfl
  | @bonded a u u' hu hb hu' =>
    obtain ⟨hsupply, hheld⟩ := h.lockBond hc hu hu' (by omega)
    have hfiled' : Filed i (bondLocked w a u u').store := (hfiled.paid ..).paid ..
    have hplain : PlainClaims (bondLocked w a u u').store :=
      h.plain.of_claim_eq fun tx => by simp [bondLocked, paymentLocked]
    refine ⟨⟨htidy, hplain.opened hc, ?_, ?_⟩, by simp⟩
    · rw [supply_opened, hsupply]
      rfl
    · rw [held_opened, hheld, owed_opened hfiled' (by omega), bondLocked, paymentLocked, owed_paid,
        owed_paid]
  | @half a u e he hu hb hu' =>
    obtain ⟨hsupply, hheld⟩ := h.lockPayment hc hu hn
    have hzero : a.payment.toNat = 0 := by
      by_contra hne
      refine hstrand ⟨a, u, rfl, UInt64.lt_iff_toNat_lt.mpr ?_, hu, hb, hu'⟩
      exact Nat.pos_of_ne_zero hne
    refine ⟨⟨htidy, h.plain.of_claim_eq fun tx => claim_paid .., hsupply, ?_⟩, by simpa using he⟩
    rw [hheld, hzero, paymentLocked, owed_paid]
    rfl
  | @decided _ tx p ps st r hd hcov =>
    have hclaim := hd.isPending.2.1
    obtain ⟨-, hsum⟩ := h.covered (by omega) hc hd hn
    have howed := owed_closed hfiled hclaim hd.isPending.2.2 ps hd.state_eq
    have hheld := held_paidOut_of_ne hfresh ps hn (hd.payouts_ne (h.plain tx p hclaim) hc)
    refine ⟨⟨htidy, h.plain.closed hfiled hclaim ps hd.state_eq, ?_, ?_⟩, by simp⟩
    · rw [hd.supply_closed hfresh hn hcov hsum, h.supply_eq, hd.mintValue_eq_zero, Nat.add_zero]
    · have hrel := held_closed_escrow hcov st
      have hheld' := h.held_eq
      omega
  | short hd hcov => exact absurd (h.covered (by omega) hc hd hn).1 hcov
  | advanced j =>
    refine ⟨⟨htidy, h.plain.of_claim_eq fun tx => ?_, ?_, ?_⟩, by simp⟩
    · exact claim_put_of_hasPrefix hasPrefix_pendingPfx_metaBlock _ tx
    · rw [supply, worth_advanced, ← supply, h.supply_eq]
      rfl
    · rw [held, worth_advanced, ← held, h.held_eq, advanced,
        owed_put_of_hasPrefix _ hasPrefix_pendingPfx_metaBlock]
  | recorded t =>
    refine ⟨⟨htidy, h.plain.of_claim_eq fun tx => ?_, ?_, ?_⟩, by simp⟩
    · rw [recorded, claim_put_of_hasPrefix (hasPrefix_pendingPfx_computeTxKey _),
        claim_put_of_hasPrefix hasPrefix_pendingPfx_metaNextComputeTx]
    · rw [supply, worth_recorded, ← supply, h.supply_eq]
      rfl
    · rw [held, worth_recorded, ← held, h.held_eq, recorded,
        owed_put_of_hasPrefix _ (hasPrefix_pendingPfx_computeTxKey _),
        owed_put_of_hasPrefix _ hasPrefix_pendingPfx_metaNextComputeTx]
  | refused hcan he =>
    have hzero : c.mintValue = 0 := by cases c <;> first | rfl | cases hcan
    rw [hzero]
    exact ⟨⟨htidy, h.plain, h.supply_eq, h.held_eq⟩, by simpa using he⟩

lemma Backed.held_lt_of_robsEscrow (hrob : RobsEscrow w c) :
    held (c.after w).store escrowOwner < owed (c.after w).store := by
  obtain ⟨input, payee, amt, u, rfl, hu, howner, hamt⟩ := hrob
  have hpayee : payee.coerce ≠ escrowOwner :=
    coerce_ne_escrowOwner (hc payee (by simp [Call.principals]))
  rw [Call.issued_settle payee hu] at hn
  have hpaid := held_paid h.tidy.fresh hu.2.1 hu.2.2 payee escrowOwner hn
  rw [if_pos howner, if_neg hpayee, h.held_eq] at hpaid
  have hpos := UInt64.lt_iff_toNat_lt.mp hamt
  rw [Call.after_settle payee hu, owed_paid]
  simp only [UInt64.toNat_zero] at hpos
  omega

lemma Backed.owed_lt_of_strandsPayment (hstrand : StrandsPayment w c) :
    owed (c.after w).store < held (c.after w).store escrowOwner ∧
      held (c.after w).store escrowOwner ≤ v := by
  obtain ⟨a, u, rfl, hpos, hu, hb, hu'⟩ := hstrand
  rw [Call.issued_half hu hb hu'] at hn
  obtain ⟨hsupply, hheld⟩ := h.lockPayment hc hu hn
  have hpos' := UInt64.lt_iff_toNat_lt.mp hpos
  simp only [UInt64.toNat_zero] at hpos'
  have hle := held_le_supply (paymentLocked w a u).store escrowOwner
  have howed : owed (paymentLocked w a u).store = owed w.store := owed_paid ..
  rw [Call.after_half hu hb hu']
  omega

end Steps

/-! ### Runs -/

/-- No principal of the action is named like the escrow. -/
def Action.Plain : Action → Prop
  | call c => c.Plain
  | restart _ => True

def KeepsEscrow (w : LedgerWorld) : Action → Prop
  | .call c => ¬ RobsEscrow w c ∧ ¬ StrandsPayment w c
  | .restart _ => True

/-- No release fails for lack of escrow. -/
def NoUnderflow (w : LedgerWorld) : Action → Prop
  | .call c => c.result w ≠ .error .escrowUnderflow
  | .restart _ => True

instance (w : LedgerWorld) : ∀ a, Decidable (NoUnderflow w a)
  | .call c => inferInstanceAs (Decidable (c.result w ≠ .error .escrowUnderflow))
  | .restart _ => inferInstanceAs (Decidable True)

/-- What `Balance` returns. -/
def balanceReading (w : LedgerWorld) (owner : GoString) : Except LedgerErr ℕ :=
  ((balance owner).run w).1.map UInt64.toNat

lemma balanceReading_eq (w : LedgerWorld) (owner : GoString) :
    balanceReading w owner = .ok (held w.store owner % 2 ^ 64) := by
  rw [balanceReading, run_balance]
  exact congrArg Except.ok (UInt64.toNat_ofNat' ..)

/-- The balance of the escrow is the sum of payment and bond over the pending claims. -/
def EscrowBacked (w : LedgerWorld) : Prop := balanceReading w escrowOwner = .ok (owed w.store)

instance (w : LedgerWorld) : Decidable (EscrowBacked w) :=
  inferInstanceAs (Decidable (balanceReading w escrowOwner = .ok (owed w.store)))

section Runs

variable {n v : ℕ} {w : LedgerWorld}

variable (h : Backed n v w)
include h

lemma Backed.escrowBacked (hv : v < 2 ^ 64) : EscrowBacked w := by
  have hle := held_le_supply w.store escrowOwner
  rw [h.supply_eq] at hle
  rw [EscrowBacked, balanceReading_eq, Nat.mod_eq_of_lt (by omega), h.held_eq]

theorem Backed.act {a : Action} (ha : a.Plain) (hn : n + issuedBy w a < 2 ^ 64)
    (hv : v + a.mintValue < 2 ^ 64) (hkeeps : KeepsEscrow w a) :
    Backed (n + issuedBy w a) (v + a.mintValue) (act w a) ∧ NoUnderflow w a := by
  cases a with
  | call c => exact h.after ha hn hv hkeeps.1 hkeeps.2
  | restart openMesh =>
    exact ⟨⟨h.tidy.reopened openMesh, h.plain, h.supply_eq, h.held_eq⟩, trivial⟩

/-- An action after which the escrow is still backed has kept it. -/
theorem Backed.keepsEscrow {a : Action} (ha : a.Plain)
    (hn : n + issuedBy w a < 2 ^ 64) (hv : v < 2 ^ 64) (hbacked : EscrowBacked (Ledger.act w a)) :
    KeepsEscrow w a := by
  cases a with
  | restart openMesh => trivial
  | call c =>
    have hread : held (c.after w).store escrowOwner % 2 ^ 64 = owed (c.after w).store := by
      rwa [EscrowBacked, balanceReading_eq, Except.ok.injEq] at hbacked
    refine ⟨fun hrob => ?_, fun hstrand => ?_⟩
    · have hlt := h.held_lt_of_robsEscrow ha hn hrob
      omega
    · obtain ⟨hlt, hle⟩ := h.owed_lt_of_strandsPayment ha hn hstrand
      omega

/-- From a backed state, the escrow stays backed along a run, without any underflow, iff
every action keeps it. -/
theorem Backed.run_iff {as : List Action} (has : ∀ a ∈ as, a.Plain)
    (hn : n + totalCost Ledger.act issuedBy w as < 2 ^ 64) (hv : v + mintedValue as < 2 ^ 64) :
    (∀ pre, pre <+: as → EscrowBacked (runFrom Ledger.act w pre)) ∧
        Along Ledger.act NoUnderflow w as ↔
      Along Ledger.act KeepsEscrow w as := by
  induction as generalizing n v w with
  | nil =>
    refine ⟨fun _ => trivial, fun _ => ⟨fun pre hpre => ?_, trivial⟩⟩
    rw [prefix_nil.mp hpre]
    exact h.escrowBacked (by omega)
  | cons a as ih =>
    rw [totalCost_cons, ← Nat.add_assoc] at hn
    rw [mintedValue, map_cons, sum_cons, ← mintedValue, ← Nat.add_assoc] at hv
    have ha := has a mem_cons_self
    have hstep := fun hkeeps => h.act ha (by omega) (by omega) hkeeps
    have hrest := fun hkeeps =>
      ih (hstep hkeeps).1 (fun b hb => has b (mem_cons_of_mem a hb)) hn hv
    constructor
    · rintro ⟨hbacked, hflow⟩
      have hkeeps : KeepsEscrow w a :=
        h.keepsEscrow ha (by omega) (by omega) (hbacked [a] (by simp))
      refine ⟨hkeeps, (hrest hkeeps).mp ⟨fun pre hpre => ?_, hflow.2⟩⟩
      exact hbacked (a :: pre) (cons_prefix_cons.mpr ⟨rfl, hpre⟩)
    · rintro ⟨hkeeps, hkeepsRest⟩
      obtain ⟨hbacked, hflow⟩ := (hrest hkeeps).mpr hkeepsRest
      refine ⟨fun pre hpre => ?_, (hstep hkeeps).2, hflow⟩
      cases pre with
      | nil => exact h.escrowBacked (by omega)
      | cons b pre =>
        obtain ⟨rfl, hpre'⟩ := cons_prefix_cons.mp hpre
        exact hbacked pre hpre'

end Runs

lemma backed_initial (openMesh : Bool) : Backed 0 0 (initial openMesh) where
  tidy := tidy_initial openMesh
  plain := fun _ _ hp => by cases hp
  supply_eq := rfl
  held_eq := rfl

/-- In a run whose principals are not named like the escrow, the balance of the escrow is always the
sum over the pending claims, and no release underflows, iff no `Settle` spends an output of
the escrow and no `OpenOptimistic` locks a payment without being able to lock the bond. -/
theorem escrowBacked_iff (openMesh : Bool) (as : List Action) (has : ∀ a ∈ as, a.Plain)
    (hcount : issuedIn openMesh as < 2 ^ 64) (hvalue : mintedValue as < 2 ^ 64) :
    (∀ pre, pre <+: as → EscrowBacked (reached openMesh pre)) ∧
        Along act NoUnderflow (initial openMesh) as ↔
      Along act KeepsEscrow (initial openMesh) as :=
  (backed_initial openMesh).run_iff has (by rwa [Nat.zero_add]) (by rwa [Nat.zero_add])

/-- Opening and finalizing a claim keeps the escrow. -/
theorem paidClaim_keepsEscrow : Along act KeepsEscrow (initial true) paidClaim := by
  have hplain : ∀ a ∈ paidClaim, a.Plain := by
    simp [paidClaim, sampleOpen, Action.Plain, Call.Plain, Call.principals]
    decide
  refine (escrowBacked_iff true paidClaim hplain (by decide +kernel) (by decide)).mp ⟨?_, ?_⟩
  · have hinits : ∀ pre ∈ paidClaim.inits, EscrowBacked (reached true pre) := by decide +kernel
    exact fun pre hpre => hinits pre ((mem_inits pre paidClaim).mpr hpre)
  · decide +kernel

def unbondedOpen : Call :=
  .openOptimistic
    { now := 0
      paymentInput := 1
      consumer := .lit "c"
      payment := 10
      bondInput := 9
      provider := .lit "p"
      bond := 5
      disputeBlocks := 1
      binding := ⟨.lit "task", .lit "component", .lit "input", .lit "output"⟩ }

/-- After a `Settle` of the escrow-owned output the escrow is empty while a claim of ten credits is
pending; after an `OpenOptimistic` that fails on the bond the escrow holds ten credits and there is
no claim. -/
theorem escrow_unbacked :
    (balanceReading (reached true (robbedClaim.take 3)) escrowOwner = .ok 0 ∧
        owed (reached true (robbedClaim.take 3)).store = 10) ∧
      balanceReading (reached true [.call (.mint (.lit "c") 10), .call unbondedOpen]) escrowOwner =
          .ok 10 ∧
        owed (reached true [.call (.mint (.lit "c") 10), .call unbondedOpen]).store = 0 := by
  decide +kernel

end Cerberus.Ledger
