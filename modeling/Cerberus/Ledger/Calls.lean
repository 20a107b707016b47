import Cerberus.Foundation.Run
import Cerberus.Ledger.Spec

/-!
# Calls of the ledger and their outcomes

A `Call` is one call of an exported operation of the ledger; an `Action` is a call or a restart of
the daemon, after which the ledger is opened again on the same store. `Outcome` lists all that a
call can do, with the number of outputs it mints; every invariant of runs is read off from it.
-/

namespace Cerberus.Ledger

open Foundation

open Proc (run_bind siteCount siteCount_bind)

/-- The exported operations of the ledger. -/
inductive Call
  | mint (owner : GoString) (value : UInt64)
  | settle (input : UInt64) (payee : GoString) (amt : UInt64)
  | openOptimistic (a : OpenArgs)
  | finalize (tx now : UInt64)
  | challenge (tx : UInt64) (fraud : FraudProof) (now : UInt64) (challenger : GoString)
  | advanceBlock (n : UInt64)
  | recordComputeTx (t : ComputeTx)
  deriving DecidableEq, Repr

inductive Reply
  /-- An id, an amount or a block height. -/
  | number (n : UInt64)
  | slash (s : Slash)
  deriving DecidableEq, Repr

def Call.exec : Call → LedgerM Reply
  | mint owner value => do return .number (← Ledger.mint owner value)
  | settle input payee amt => do return .number (← Ledger.settle input payee amt)
  | openOptimistic a => do return .number (← Ledger.openOptimistic a)
  | finalize tx now => do return .number (← Ledger.finalize tx now)
  | challenge tx fraud now challenger => do
    return .slash (← Ledger.challenge tx fraud now challenger)
  | advanceBlock n => do return .number (← Ledger.advanceBlock n)
  | recordComputeTx t => do return .number (← Ledger.recordComputeTx t)

def Call.canFail : Call → Bool
  | settle .. | openOptimistic .. | finalize .. | challenge .. => true
  | mint .. | advanceBlock .. | recordComputeTx .. => false

/-- What a call returns. -/
def Call.result (c : Call) (w : LedgerWorld) : Except LedgerErr Reply := (c.exec.run w).1

/-- The world that a call leaves. -/
def Call.after (c : Call) (w : LedgerWorld) : LedgerWorld := (c.exec.run w).2

def Call.Succeeds (c : Call) (w : LedgerWorld) : Prop := ∃ r, c.result w = .ok r

/-- How many outputs a call mints. -/
def Call.issued (c : Call) (w : LedgerWorld) : ℕ := siteCount Site.mintLocked c.exec w

/-! ### Counting minted outputs -/

variable (payee : GoString)

section Count

variable {w : LedgerWorld}

/-- How many outputs the change of a payment takes. -/
def changeCount (u : Utxo) (amt : UInt64) : ℕ := if u.value > amt then 1 else 0

@[simp] lemma siteCount_decoded {α : Type} (site : Site) (r : Except Json.Err α) :
    siteCount site (decoded r) w = 0 := by
  cases r <;> rfl

@[simp] lemma siteCount_getUtxoLocked (site : Site) (id : UInt64) :
    siteCount site (getUtxoLocked id) w = 0 := by
  rw [siteCount, writes_getUtxoLocked, List.countP_nil]

@[simp] lemma siteCount_mintLocked (owner : GoString) (value : UInt64) :
    siteCount Site.mintLocked (mintLocked owner value) w = 1 := by
  simp [mintLocked, persistNext, storePut, run_bind, siteCount_bind]

variable {input amt tx now : UInt64} {u : Utxo} {p : PendingSettlement} {a : OpenArgs}

lemma siteCount_settle (h : Spendable w input amt u) :
    siteCount Site.mintLocked (settle input payee amt) w = changeCount u amt + 1 := by
  obtain ⟨hen, hcoin, hle⟩ := h
  obtain ⟨b, hb, hu⟩ := coin_eq_some_iff.mp hcoin
  have hlt : ¬ u.value < amt := by rwa [UInt64.not_lt]
  by_cases hgt : amt < u.value <;>
    simp [settle, storeGet, storeDelete, siteCount_bind, hen, hb,
      unmarshal_eq_ok_iff.mpr hu, hlt, hgt, changeCount]

lemma siteCount_lockFromInputLocked {owner : GoString} (h : Lockable w.store input owner amt u) :
    siteCount Site.mintLocked (lockFromInputLocked input owner amt) w =
      changeCount u amt + 1 := by
  obtain ⟨hcoin, howner, hle⟩ := h
  have hlt : ¬ u.value < amt := by rwa [UInt64.not_lt]
  by_cases hgt : amt < u.value <;>
    simp [lockFromInputLocked, storeDelete, siteCount_bind,
      run_getUtxoLocked_of_coin hcoin, howner, hlt, hgt, changeCount]

@[simp] lemma siteCount_nextTxLocked :
    siteCount Site.mintLocked nextTxLocked w = 0 := by
  simp [nextTxLocked, persistNextTx, storeGet, storePut, siteCount_bind]

@[simp] lemma siteCount_putPendingLocked (p : PendingSettlement) :
    siteCount Site.mintLocked (putPendingLocked p) w = 0 := by
  simp [putPendingLocked, storePut]

lemma siteCount_releaseLoop (ks : List GoString) (remaining : UInt64) (w : LedgerWorld) :
    siteCount Site.mintLocked (releaseLoop ks remaining) w = 0 := by
  induction ks generalizing remaining w with
  | nil => rfl
  | cons k ks ih =>
    rw [releaseLoop]
    split_ifs
    · rfl
    · exact ih remaining w
    · simp only [storeGet, siteCount_bind, Proc.siteCount_getKey, Proc.run_getKey, Nat.zero_add]
      cases w.store.get? k with
      | none => exact ih remaining w
      | some b =>
        dsimp only
        cases Utxo.unmarshal b with
        | error e => exact ih remaining w
        | ok u =>
          dsimp only
          split_ifs <;> simp [storeDelete, storePut, siteCount_bind, ih]

@[simp] lemma siteCount_releaseEscrowLocked (amt : UInt64) :
    siteCount Site.mintLocked (releaseEscrowLocked amt) w = 0 := by
  rw [releaseEscrowLocked]
  split_ifs
  · rfl
  · simp only [storeKeys, siteCount_bind, Proc.run_listKeys, Proc.siteCount_listKeys,
      siteCount_releaseLoop, run_releaseLoop]
    split_ifs <;> rfl

lemma siteCount_finalize (h : Finalizable w tx now p) :
    siteCount Site.mintLocked (finalize tx now) w = (finalPayouts p).length := by
  obtain ⟨⟨hen, hclaim, hst⟩, hwin⟩ := h
  obtain ⟨b, hb, hp⟩ := claim_eq_some_iff.mp hclaim
  simp [finalize, storeGet, siteCount_bind, hen, hb, unmarshal_claim_eq_ok_iff.mpr hp, hst,
    hwin, finalPayouts]
  split <;> rfl

lemma siteCount_challenge {fraud : FraudProof} (challenger : GoString)
    (h : Challengeable w tx fraud now p) :
    siteCount Site.mintLocked (challenge tx fraud now challenger) w =
      (slashPayouts p challenger).length := by
  obtain ⟨⟨hen, hclaim, hst⟩, hwin, hfraud⟩ := h
  obtain ⟨h₁, h₂, h₃⟩ := (contradicts_iff fraud p.binding).mp hfraud
  obtain ⟨b, hb, hp⟩ := claim_eq_some_iff.mp hclaim
  rw [h₂] at h₃
  by_cases hbond : 0 < p.bond <;>
  · simp [challenge, storeGet, siteCount_bind, hen, hb, unmarshal_claim_eq_ok_iff.mpr hp, hst,
      hwin, h₁, h₂, h₃, hbond, slashPayouts]
    split <;> rfl

variable (hu : PaymentLock w a u)
include hu

lemma siteCount_openOptimistic_unbonded (hb : a.bond = 0) :
    siteCount Site.mintLocked (openOptimistic a) w = changeCount u a.payment + 1 := by
  have hb' : ¬ 0 < a.bond := by simp [hb]
  simp [openOptimistic, siteCount_bind, hu.1, run_lockFromInputLocked hu.2,
    siteCount_lockFromInputLocked hu.2, hb']

lemma siteCount_openOptimistic_bonded {v : Utxo} (hb : 0 < a.bond) (hv : BondLock w a u v) :
    siteCount Site.mintLocked (openOptimistic a) w =
      changeCount u a.payment + 1 + (changeCount v a.bond + 1) := by
  have hrun := run_lockFromInputLocked hv
  have hcount := siteCount_lockFromInputLocked hv
  rw [paymentLocked] at hrun hcount
  simp [openOptimistic, siteCount_bind, hu.1, run_lockFromInputLocked hu.2,
    siteCount_lockFromInputLocked hu.2, hb, hrun, hcount]

lemma siteCount_openOptimistic_half (hb : 0 < a.bond) (hv : ∀ v, ¬ BondLock w a u v) :
    siteCount Site.mintLocked (openOptimistic a) w = changeCount u a.payment + 1 := by
  obtain ⟨e, -, he⟩ := run_lockFromInputLocked_refused hv
  have hcount := he.siteCount_eq_zero Site.mintLocked
  have hrun := he.1
  rw [paymentLocked] at hrun hcount
  simp [openOptimistic, siteCount_bind, hu.1, run_lockFromInputLocked hu.2,
    siteCount_lockFromInputLocked hu.2, hb, hrun, hcount]

end Count

/-! ### Outcomes -/

/-- The call decides the claim `p` stored under `tx`: it passes all checks on it. The payouts, the
state the claim goes to and the reply are determined by the call. -/
inductive Decides (w : LedgerWorld) :
    Call → UInt64 → PendingSettlement → Payouts → ClaimState → Reply → Prop
  | finalize {tx now : UInt64} {p : PendingSettlement} (h : Finalizable w tx now p) :
      Decides w (.finalize tx now) tx p (finalPayouts p) .finalized (.number p.payment)
  | challenge {tx now : UInt64} {fraud : FraudProof} {p : PendingSettlement}
      (challenger : GoString) (h : Challengeable w tx fraud now p) :
      Decides w (.challenge tx fraud now challenger) tx p (slashPayouts p challenger) .slashed
        (.slash ⟨tx, p.payment, p.bond⟩)

variable {w : LedgerWorld} {c : Call} {tx input amt : UInt64} {p : PendingSettlement} {ps : Payouts}
  {st : ClaimState} {r : Reply} {u : Utxo} {a : OpenArgs}

lemma Decides.isPending (h : Decides w c tx p ps st r) : IsPending w tx p := by
  cases h with
  | finalize h => exact h.1
  | challenge _ h => exact h.1

lemma Decides.state_eq (h : Decides w c tx p ps st r) : st = .finalized ∨ st = .slashed := by
  cases h <;> simp

/-- All that a call can do: its result, the number of outputs it mints and the world it leaves. -/
inductive Outcome (w : LedgerWorld) : Call → Except LedgerErr Reply → ℕ → LedgerWorld → Prop
  | minted (owner : GoString) (value : UInt64) :
      Outcome w (.mint owner value) (.ok (.number w.mem.next)) 1 (minted w owner value)
  | settled {input amt : UInt64} {u : Utxo} (payee : GoString) (h : Spendable w input amt u) :
      Outcome w (.settle input payee amt) (.ok (.number (changed w input u amt).mem.next))
        (changeCount u amt + 1) (paid w input u payee amt)
  | unbonded {a : OpenArgs} {u : Utxo} (hu : PaymentLock w a u) (hb : a.bond = 0) :
      Outcome w (.openOptimistic a) (.ok (.number (nextTx w.store)))
        (changeCount u a.payment + 1) (opened (paymentLocked w a u) a)
  | bonded {a : OpenArgs} {u v : Utxo} (hu : PaymentLock w a u) (hb : 0 < a.bond)
      (hv : BondLock w a u v) :
      Outcome w (.openOptimistic a) (.ok (.number (nextTx w.store)))
        (changeCount u a.payment + 1 + (changeCount v a.bond + 1)) (opened (bondLocked w a u v) a)
  | half {a : OpenArgs} {u : Utxo} {e : LedgerErr} (he : e ≠ .escrowUnderflow) (hu : PaymentLock w a u)
      (hb : 0 < a.bond) (hv : ∀ v, ¬ BondLock w a u v) :
      Outcome w (.openOptimistic a) (.error e) (changeCount u a.payment + 1) (paymentLocked w a u)
  | decided {c : Call} {tx : UInt64} {p : PendingSettlement} {ps : Payouts} {st : ClaimState}
      {r : Reply} (h : Decides w c tx p ps st r) (hcov : Covered w p ps) :
      Outcome w c (.ok r) ps.length (closed w p ps st)
  /-- A claim would be decided, but the escrow does not hold its value. -/
  | short {c : Call} {tx : UInt64} {p : PendingSettlement} {ps : Payouts} {st : ClaimState}
      {r : Reply} (h : Decides w c tx p ps st r) (hcov : ¬ Covered w p ps) :
      Outcome w c (.error .escrowUnderflow) ps.length (withdrawn w p ps)
  | advanced (n : UInt64) :
      Outcome w (.advanceBlock n) (.ok (.number (w.mem.block + n))) 0 (advanced w n)
  | recorded (t : ComputeTx) : Outcome w (.recordComputeTx t)
      (.ok (.number (nextComputeTx w.store))) 0 (recorded w t)
  /-- A check fails before anything has been written. -/
  | refused {c : Call} (hc : c.canFail = true) {e : LedgerErr} (he : e ≠ .escrowUnderflow) :
      Outcome w c (.error e) 0 w

section OutcomeOfCall

variable {w w' : LedgerWorld} {c : Call}

lemma Outcome.of_run {r : Except LedgerErr Reply} {n : ℕ} (h : Outcome w c r n w')
    (hrun : c.exec.run w = (r, w')) (hcount : c.issued w = n) :
    Outcome w c (c.result w) (c.issued w) (c.after w) := by
  rw [Call.result, Call.after, hrun, hcount]
  exact h

lemma Outcome.of_declines {α : Type} {p : LedgerM α} {f : α → LedgerM Reply} (h : Declines p w)
    (hc : c.canFail = true) (hexec : c.exec = p >>= f) :
    Outcome w c (c.result w) (c.issued w) (c.after w) := by
  obtain ⟨e, he, hp⟩ := h
  have hcall : c.exec.Refuses w e := by
    rw [hexec]
    exact hp.bind f
  exact (Outcome.refused hc he).of_run hcall.1 (hcall.siteCount_eq_zero _)

lemma run_decision_map {α : Type} (p : PendingSettlement) (st : ClaimState) (a : α)
    (f : α → Reply) :
    (do return f (← decision p st a) : LedgerM Reply).run w = (decision p st (f a)).run w := by
  simp only [decision, run_bind]
  rcases (releaseEscrowLocked (p.payment + p.bond)).run w with ⟨e | x, w'⟩ <;> rfl

section Decides

variable {tx : UInt64} {p : PendingSettlement} {ps : Payouts} {st : ClaimState} {r : Reply}

variable (h : Decides w c tx p ps st r)
include h

lemma Decides.run_exec : c.exec.run w = (decision p st r).run (paidOut w ps) := by
  cases h with
  | finalize h =>
    rw [Call.exec, run_bind, run_finalize h, ← run_decision_map, run_bind]
  | challenge challenger h =>
    rw [Call.exec, run_bind, run_challenge challenger h, ← run_decision_map, run_bind]

lemma Decides.issued_eq : c.issued w = ps.length := by
  cases h with
  | finalize h => simp [Call.issued, Call.exec, siteCount_finalize h]
  | challenge challenger h => simp [Call.issued, Call.exec, siteCount_challenge challenger h]

lemma Decides.run_exec_short (hcov : ¬ Covered w p ps) :
    c.exec.run w = (.error .escrowUnderflow, withdrawn w p ps) :=
  h.run_exec.trans (run_decision_short hcov)

lemma Decides.run_exec_covered (hcov : Covered w p ps) : c.exec.run w = (.ok r, closed w p ps st) :=
  h.run_exec.trans (run_decision hcov)

lemma Decides.outcome : Outcome w c (c.result w) (c.issued w) (c.after w) := by
  by_cases hcov : Covered w p ps
  · exact (Outcome.decided h hcov).of_run (h.run_exec_covered hcov) h.issued_eq
  · exact (Outcome.short h hcov).of_run (h.run_exec_short hcov) h.issued_eq

end Decides

end OutcomeOfCall

theorem Call.outcome (c : Call) (w : LedgerWorld) :
    Outcome w c (c.result w) (c.issued w) (c.after w) := by
  cases c with
  | mint owner value =>
    exact (Outcome.minted owner value).of_run (by simp [exec, run_bind])
      (by simp [issued, exec, siteCount_bind, Ledger.mint])
  | settle input payee amt =>
    by_cases h : ∃ u, Spendable w input amt u
    · obtain ⟨u, hu⟩ := h
      exact (Outcome.settled payee hu).of_run (by simp [exec, run_bind, run_settle payee hu])
        (by simp [issued, exec, siteCount_bind, run_settle payee hu,
          siteCount_settle payee hu])
    · exact Outcome.of_declines (run_settle_refused payee (not_exists.mp h)) rfl rfl
  | openOptimistic a =>
    by_cases h : ∃ u, PaymentLock w a u
    swap
    · exact Outcome.of_declines (run_openOptimistic_refused (not_exists.mp h)) rfl rfl
    obtain ⟨u, hu⟩ := h
    by_cases hb : 0 < a.bond
    swap
    · have hb' : a.bond = 0 := UInt64.toNat_inj.mp (by simpa [UInt64.lt_iff_toNat_lt] using hb)
      have hrun := run_openOptimistic (.unbonded hu hb')
      refine (Outcome.unbonded hu hb').of_run ?_ ?_
      · simp [exec, run_bind, hrun, paymentLocked]
      · simp [issued, exec, siteCount_openOptimistic_unbonded hu hb']
    by_cases hv : ∃ v, BondLock w a u v
    · obtain ⟨v, hv⟩ := hv
      have hrun := run_openOptimistic (.bonded hu hb hv)
      refine (Outcome.bonded hu hb hv).of_run ?_ ?_
      · simp [exec, run_bind, hrun, bondLocked, paymentLocked]
      · simp [issued, exec, siteCount_openOptimistic_bonded hu hb hv]
    · obtain ⟨e, hne, he⟩ := run_openOptimistic_half hu hb (not_exists.mp hv)
      refine (Outcome.half hne hu hb (not_exists.mp hv)).of_run ?_ ?_
      · simp [exec, run_bind, he]
      · simp [issued, exec, siteCount_openOptimistic_half hu hb (not_exists.mp hv)]
  | finalize tx now =>
    by_cases h : ∃ p, Finalizable w tx now p
    · obtain ⟨p, hp⟩ := h
      exact (Decides.finalize hp).outcome
    · exact Outcome.of_declines (run_finalize_refused (not_exists.mp h)) rfl rfl
  | challenge tx fraud now challenger =>
    by_cases h : ∃ p, Challengeable w tx fraud now p
    · obtain ⟨p, hp⟩ := h
      exact (Decides.challenge challenger hp).outcome
    · exact Outcome.of_declines (run_challenge_refused challenger (not_exists.mp h)) rfl rfl
  | advanceBlock n =>
    refine (Outcome.advanced n).of_run (by simp [exec, run_bind]) ?_
    simp [issued, exec, siteCount_bind, Proc.siteCount_tryCatch, run_bind,
      Proc.run_tryCatch, Ledger.advanceBlock, persistBlock, storePut]
  | recordComputeTx t =>
    refine (Outcome.recorded t).of_run (by simp [exec, run_bind]) ?_
    simp [issued, exec, siteCount_bind, run_bind, Ledger.recordComputeTx,
      nextComputeTxLocked, storeGet, storePut]

lemma Call.after_settle (h : Spendable w input amt u) :
    (Call.settle input payee amt).after w = paid w input u payee amt := by
  simp [Call.after, exec, run_bind, run_settle payee h]

lemma Call.issued_settle (h : Spendable w input amt u) :
    (Call.settle input payee amt).issued w = changeCount u amt + 1 := by
  simp [issued, exec, siteCount_settle payee h]

section

variable (hu : PaymentLock w a u) (hb : 0 < a.bond) (hv : ∀ v, ¬ BondLock w a u v)
include hu hb hv

lemma Call.after_half : (Call.openOptimistic a).after w = paymentLocked w a u := by
  obtain ⟨e, -, he⟩ := run_openOptimistic_half hu hb hv
  simp [Call.after, exec, run_bind, he]

lemma Call.issued_half : (Call.openOptimistic a).issued w = changeCount u a.payment + 1 := by
  simp [issued, exec, siteCount_openOptimistic_half hu hb hv]

end

/-! ### Actions -/

/-- A call, or a restart of the daemon. -/
inductive Action
  | call (c : Call)
  | restart (openMesh : Bool)
  deriving DecidableEq, Repr

/-- The ledger as it is opened on a store. -/
def reopened (m : Store) (openMesh : Bool) : LedgerWorld := ⟨loaded m openMesh, m⟩

def initial (openMesh : Bool) : LedgerWorld := reopened OrdMap.empty openMesh

def act (w : LedgerWorld) : Action → LedgerWorld
  | .call c => c.after w
  | .restart openMesh => reopened w.store openMesh

def issuedBy (w : LedgerWorld) : Action → ℕ
  | .call c => c.issued w
  | .restart _ => 0

/-- The world after a run. -/
def reached (openMesh : Bool) (as : List Action) : LedgerWorld := runFrom act (initial openMesh) as

/-- How many outputs are minted in a run from an empty store. -/
def issuedIn (openMesh : Bool) (as : List Action) : ℕ :=
  totalCost act issuedBy (initial openMesh) as

variable (openMesh : Bool)

lemma reached_append (as as' : List Action) :
    reached openMesh (as ++ as') = runFrom act (reached openMesh as) as' :=
  runFrom_append _ as as'

lemma reached_concat (as : List Action) (a : Action) :
    reached openMesh (as ++ [a]) = act (reached openMesh as) a :=
  reached_append openMesh as [a]

lemma issuedIn_append (as as' : List Action) : issuedIn openMesh (as ++ as') =
    issuedIn openMesh as + totalCost act issuedBy (reached openMesh as) as' :=
  totalCost_append _ _ as as'

lemma issuedIn_concat (as : List Action) (a : Action) :
    issuedIn openMesh (as ++ [a]) = issuedIn openMesh as + issuedBy (reached openMesh as) a :=
  issuedIn_append openMesh as [a]

end Cerberus.Ledger
