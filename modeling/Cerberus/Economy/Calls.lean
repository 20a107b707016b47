import Cerberus.Economy.Spec
import Cerberus.Foundation.Run

/-!
# Calls of the reference ledger and their outcomes

`Outcome` lists all that a call of a public method can do to a ledger in order (`Sound`): every
output has an id that has been given out, and every claim locks less than `2 ^ 64`. Every call keeps
the order as long as the counters have room (`sound_reached`).
-/

namespace Cerberus.Economy

open Foundation Fallible

/-! ### Calls -/

/-- A call of a public method that changes the ledger. -/
inductive Call
  | mint (owner : PeerId) (value : UInt64)
  | settle (input : UInt64) (payee : PeerId) (amt : UInt64)
  | settleTask (input : UInt64) (provider : PeerId) (amt : UInt64) (mode : SettleMode)
  | openOptimistic (a : OpenArgs)
  | openOptimisticAt (now : UInt64) (a : OpenArgs)
  | finalize (tx now : UInt64)
  | challenge (tx : UInt64) (fraud : FraudProof) (now : UInt64) (challenger : PeerId)
  deriving DecidableEq

inductive Reply
  | number (n : UInt64)
  | slash (s : Slash)
  deriving DecidableEq, Repr

def Call.proc (env : Env) : Call → EconM Reply
  | mint owner value => do return .number (← Economy.mint env owner value)
  | settle input payee amt => do return .number (← Economy.settle env input payee amt)
  | settleTask input provider amt mode => do
    return .number (← Economy.settleTask env input provider amt mode)
  | openOptimistic a => do return .number (← Economy.openOptimistic env a)
  | openOptimisticAt now a => do return .number (← Economy.openOptimisticAt env now a)
  | finalize tx now => do return .number (← Economy.finalize env tx now)
  | challenge tx fraud now challenger => do
    return .slash (← Economy.challenge env tx fraud now challenger)

/-- What a call returns. -/
def Call.result (env : Env) (c : Call) (l : Ledger) : Except Exit Reply := (exec (c.proc env) l).1

/-- The ledger that a call leaves. -/
def Call.after (env : Env) (c : Call) (l : Ledger) : Ledger := (exec (c.proc env) l).2

def Call.Succeeds (env : Env) (c : Call) (l : Ledger) : Prop := ∃ r, c.result env l = .ok r

/-- The payment that a call makes, if it is one. -/
def Call.payment? : Call → Option (UInt64 × PeerId × UInt64)
  | settle input payee amt => some (input, payee, amt)
  | settleTask input provider amt (.zkWasm proof) =>
    if proof.scheme.1 = .lit "zkwasm" then some (input, provider, amt) else none
  | settleTask _ _ _ (.optimistic _) | mint .. | openOptimistic .. | openOptimisticAt ..
  | finalize .. | challenge .. => none

/-- The claim that a call opens, if it is one. -/
def Call.opening? : Call → Option (OpenArgs × UInt64)
  | settleTask input provider amt (.optimistic disputeWindowBlocks) =>
    some (⟨input, provider, amt, 0, 0, disputeWindowBlocks, .default⟩, 0)
  | openOptimistic a => some (a, 0)
  | openOptimisticAt now a => some (a, now)
  | settleTask _ _ _ (.zkWasm _) | mint .. | settle .. | finalize .. | challenge .. => none

/-! ### Ledgers in order -/

/-- Every output has an id that has been given out, and every claim locks less than `2 ^ 64`. -/
structure Sound (l : Ledger) : Prop where
  fresh : ∀ k, l.utxos.get? k ≠ none → k < l.next.toNat
  bounded : ∀ tx p, l.pending.get? tx = some p → p.payment.toNat + p.bond.toNat < 2 ^ 64

/-- No counter wraps around in the next call. -/
def HasRoom (l : Ledger) : Prop := Room 4 l ∧ l.nextTx.toNat + 1 < 2 ^ 64

/-- The amounts that a call locks together are less than `2 ^ 64`. -/
def Call.SumsBelow (c : Call) : Prop :=
  ∀ a now, c.opening? = some (a, now) → a.amt.toNat + a.bond.toNat < 2 ^ 64

instance (l : Ledger) : Decidable (HasRoom l) :=
  inferInstanceAs (Decidable (_ + _ < _ ∧ _))

instance (c : Call) : Decidable c.SumsBelow :=
  decidable_of_iff (∀ x ∈ c.opening?, x.1.amt.toNat + x.1.bond.toNat < 2 ^ 64) Prod.forall

section Frame

variable {l : Ledger}

lemma get?_minted_of_lt (owner : PeerId) (value : UInt64) {k : ℕ} (hk : k < l.next.toNat) :
    (minted l owner value).utxos.get? k = l.utxos.get? k := by
  rw [minted, OrdMap.get?_put, if_neg hk.ne]

lemma toNat_next_changed_le (hroom : Room 1 l) (id : UInt64) (u : Utxo) (amt : UInt64) :
    l.next.toNat ≤ (changed l id u amt).next.toNat := by
  unfold changed
  split_ifs
  · rw [toNat_next_minted (hroom.remove id)]
    exact Nat.le_succ _
  · exact le_rfl

lemma get?_paid_of_lt (hroom : Room 2 l) (id : UInt64) (u : Utxo) (payee : PeerId) (amt : UInt64)
    {k : ℕ} (hk : k < l.next.toNat) : (paid l id u payee amt).utxos.get? k =
      if k = id.toNat then none else l.utxos.get? k := by
  have hle := toNat_next_changed_le (hroom.mono (Nat.le_succ 1)) id u amt
  have hremoved : (l.remove id).utxos.get? k = if k = id.toNat then none else l.utxos.get? k :=
    OrdMap.get?_delete l.utxos id.toNat k
  rw [paid, get?_minted_of_lt _ _ (hk.trans_le hle), ← hremoved]
  unfold changed
  by_cases hgt : u.value > amt
  · rw [if_pos hgt, get?_minted_of_lt _ _ (show k < (l.remove id).next.toNat from hk)]
  · rw [if_neg hgt]

end Frame

/-! ### Outcomes -/

/-- The call decides the claim `p` stored under `tx`: it passes all checks on it. The payouts, the
state the claim goes to and the reply are determined by the call. -/
inductive Decides (l : Ledger) :
    Call → UInt64 → PendingSettlement → Payouts → ClaimState → Reply → Prop
  | finalize {tx now : UInt64} {p : PendingSettlement} (h : Finalizable l tx now p) :
      Decides l (.finalize tx now) tx p (finalPayouts p) .finalized (.number p.payment)
  | challenge {tx now : UInt64} {fraud : FraudProof} {p : PendingSettlement} (challenger : PeerId)
      (h : Challengeable l tx fraud now p) :
      Decides l (.challenge tx fraud now challenger) tx p (slashPayouts p challenger) .slashed
        (.slash ⟨tx, p.payment, p.bond⟩)

/-- All that a call can do: its result and the ledger it leaves. -/
inductive Outcome (env : Env) (l : Ledger) : Call → Except Exit Reply → Ledger → Prop
  | minted (owner : PeerId) (value : UInt64) :
      Outcome env l (.mint owner value) (.ok (.number l.next)) (minted l owner value)
  | settled {input amt : UInt64} {u : Utxo} (payee : PeerId) (h : Spendable l input amt u) :
      Outcome env l (.settle input payee amt) (.ok (.number (changed l input u amt).next))
        (paid l input u payee amt)
  | proved {input amt : UInt64} {u : Utxo} {proof : ZkWasmProof} (provider : PeerId)
      (hproof : proof.scheme.1 = .lit "zkwasm") (h : Spendable l input amt u) :
      Outcome env l (.settleTask input provider amt (.zkWasm proof)) (.ok (.number l.nextTx))
        { paid l input u provider amt with nextTx := l.nextTx + 1 }
  /-- An output that is worth too little is removed. -/
  | lost {c : Call} {input amt : UInt64} {payee : PeerId} {u : Utxo}
      (hc : c.payment? = some (input, payee, amt)) (hen : l.enabled = true)
      (hu : l.getUtxo input = some u) (hlt : u.value < amt) :
      Outcome env l c (.error (.err .insufficientValue)) (l.remove input)
  | unbonded {c : Call} {a : OpenArgs} {now : UInt64} {u : Utxo} (hc : c.opening? = some (a, now))
      (hu : Payable l a u) (hb : a.bond = 0) :
      Outcome env l c (.ok (.number l.nextTx)) (opened (paymentLocked l a u) a u.owner now)
  | bonded {c : Call} {a : OpenArgs} {now : UInt64} {u v : Utxo} (hc : c.opening? = some (a, now))
      (hu : Payable l a u) (hb : 0 < a.bond) (hv : Bondable l a v) (hne : a.bondInput ≠ a.input) :
      Outcome env l c (.ok (.number l.nextTx)) (opened (bondLocked l a u v) a u.owner now)
  /-- The payment input is also the bond input: it is gone when the bond is to be locked. -/
  | panicked {c : Call} {a : OpenArgs} {now : UInt64} {u v : Utxo} (hc : c.opening? = some (a, now))
      (hu : Payable l a u) (hb : 0 < a.bond) (hv : Bondable l a v) (heq : a.bondInput = a.input) :
      Outcome env l c (.error (.panic (.expect "checked above"))) (paymentLocked l a u)
  | decided {c : Call} {tx : UInt64} {p : PendingSettlement} {ps : Payouts} {st : ClaimState}
      {r : Reply} (h : Decides l c tx p ps st r) (hcov : Covered l p ps) :
      Outcome env l c (.ok r) (closed env l tx p ps st)
  /-- A claim would be decided, but the escrow does not hold its value. -/
  | short {c : Call} {tx : UInt64} {p : PendingSettlement} {ps : Payouts} {st : ClaimState}
      {r : Reply} (h : Decides l c tx p ps st r) (hcov : ¬ Covered l p ps) :
      Outcome env l c (.error (.err .escrowUnderflow)) (withdrawn env l p ps)
  /-- A check fails before anything has been changed. -/
  | refused {c : Call} (hc : ∀ owner value, c ≠ .mint owner value) (e : Err) :
      Outcome env l c (.error (.err e)) l

section OutcomeOfCall

variable {env : Env} {l l' : Ledger} {c : Call}

lemma Outcome.of_exec {r : Except Exit Reply} (h : Outcome env l c r l')
    (hexec : exec (c.proc env) l = (r, l')) : Outcome env l c (c.result env l) (c.after env l) := by
  rw [Call.result, Call.after, hexec]
  exact h

lemma Outcome.of_refuses (hc : ∀ owner value, c ≠ .mint owner value)
    (h : Refuses (c.proc env) l) : Outcome env l c (c.result env l) (c.after env l) := by
  obtain ⟨e, he⟩ := h
  exact (Outcome.refused hc e).of_exec he

lemma exec_settleTask_optimistic (input : UInt64) (provider : PeerId) (amt w : UInt64) :
    exec (settleTask env input provider amt (.optimistic w)) l =
      exec (openOptimistic env ⟨input, provider, amt, 0, 0, w, .default⟩) l := by
  cases hen : l.enabled with
  | false => simp [settleTask, openOptimistic, exec_bind, hen]
  | true => simp [settleTask, exec_bind, hen]

variable {a : OpenArgs} {now : UInt64} {v u : Utxo}

section

variable (hc : c.opening? = some (a, now))
include hc

lemma exec_opening_of {r : Except Exit UInt64 × Ledger}
    (hat : exec (openOptimisticAt env now a) l = r)
    (hzero : now = 0 → exec (openOptimistic env a) l = r) :
    exec (c.proc env) l = (r.1.map .number, r.2) := by
  cases c with
  | settleTask input provider amt mode =>
    cases mode with
    | optimistic w =>
      cases hc
      simp [Call.proc, exec_settleTask_optimistic, hzero rfl]
    | zkWasm proof => cases hc
  | openOptimistic a =>
    cases hc
    simp [Call.proc, hzero rfl]
  | openOptimisticAt now a =>
    cases hc
    simp [Call.proc, hat]
  | mint | settle | finalize | challenge => cases hc

lemma exec_opening {consumer : PeerId}
    (h : exec (openOptimistic env a) l = (.ok l'.nextTx, opened l' a consumer 0)) :
    exec (c.proc env) l = (.ok (.number l'.nextTx), opened l' a consumer now) :=
  exec_opening_of hc (exec_openOptimisticAt env now h) fun hnow => hnow ▸ h

/-- A call that opens claims fails where `open_optimistic` does. -/
lemma exec_opening_error {x : Exit}
    (h : exec (openOptimistic env a) l = (.error x, l')) : exec (c.proc env) l = (.error x, l') :=
  exec_opening_of hc (exec_openOptimisticAt_error env now h) fun _ => h

end

lemma Sound.getUtxo_paymentLocked (hl : Sound l) (hroom : Room 2 l) (u : Utxo)
    (hv : l.getUtxo a.bondInput = some v) :
    (paymentLocked l a u).getUtxo a.bondInput = if a.bondInput = a.input then none else some v := by
  have hlt : a.bondInput.toNat < l.next.toNat := by
    refine hl.fresh _ ?_
    rw [Ledger.getUtxo] at hv
    simp [hv]
  have hget : (paymentLocked l a u).getUtxo a.bondInput =
      if a.bondInput.toNat = a.input.toNat then none else l.getUtxo a.bondInput :=
    get?_paid_of_lt hroom a.input u escrow a.amt hlt
  simpa only [UInt64.toNat_inj, hv] using hget

lemma exec_panicked (hl : Sound l) (hroom : HasRoom l) (hc : c.opening? = some (a, now))
    (hu : Payable l a u) (hb : 0 < a.bond) (hv : Bondable l a v) (heq : a.bondInput = a.input) :
    exec (c.proc env) l = (.error (.panic (.expect "checked above")), paymentLocked l a u) := by
  have hroom₂ : Room 2 l := hroom.1.mono (by decide)
  have hget := hl.getUtxo_paymentLocked hroom₂ u hv.1
  rw [if_pos heq] at hget
  have hopen := exec_openOptimistic env ⟨hu, fun _ => ⟨v, hv⟩⟩ hroom₂
  rw [exec_fileClaim_panics env u.owner hb hget] at hopen
  exact exec_opening_error hc hopen

lemma exec_unbonded (hroom : HasRoom l) (hc : c.opening? = some (a, now)) (hu : Payable l a u)
    (hb : a.bond = 0) :
    exec (c.proc env) l =
      (.ok (.number l.nextTx), opened (paymentLocked l a u) a u.owner now) := by
  have hlocked : (paymentLocked l a u).nextTx = l.nextTx := nextTx_paid _ _ _ _
  have htx : (paymentLocked l a u).nextTx.toNat + 1 < 2 ^ 64 := by
    rw [hlocked]
    exact hroom.2
  have hopen := exec_openOptimistic env ⟨hu, fun hpos => by simp [hb] at hpos⟩
    (hroom.1.mono (by decide))
  have hexec := exec_opening hc (hopen.trans (exec_fileClaim_unbonded env u.owner hb htx))
  rwa [hlocked] at hexec

section

variable (hl : Sound l) (hroom : HasRoom l) (hc : c.opening? = some (a, now))
include hl hroom hc

lemma exec_bonded
    (hu : Payable l a u) (hb : 0 < a.bond) (hv : Bondable l a v) (hne : a.bondInput ≠ a.input) :
    exec (c.proc env) l =
      (.ok (.number l.nextTx), opened (bondLocked l a u v) a u.owner now) := by
  have hroom₂ : Room 2 l := hroom.1.mono (by decide)
  have hlocked : (paymentLocked l a u).nextTx = l.nextTx := nextTx_paid _ _ _ _
  have hlocked' : (bondLocked l a u v).nextTx = (paymentLocked l a u).nextTx := nextTx_paid _ _ _ _
  have htx : (paymentLocked l a u).nextTx.toNat + 1 < 2 ^ 64 := by
    rw [hlocked]
    exact hroom.2
  have hget := hl.getUtxo_paymentLocked hroom₂ u hv.1
  rw [if_neg hne] at hget
  have hroom' : Room 2 (paymentLocked l a u) := hroom.1.paid a.input u escrow a.amt
  have hopen := exec_openOptimistic env ⟨hu, fun _ => ⟨v, hv⟩⟩ hroom₂
  rw [exec_fileClaim_bonded env u.owner hb ⟨hget, hv.2⟩ hroom' htx, ← hlocked'] at hopen
  have hexec := exec_opening hc hopen
  rwa [hlocked', hlocked] at hexec

lemma outcome_of_opening : Outcome env l c (c.result env l) (c.after env l) := by
  by_cases h : ∃ u, Openable l a u
  swap
  · obtain ⟨e, he⟩ := openOptimistic_refused env (not_exists.mp h)
    refine Outcome.of_refuses (fun owner value heq => ?_) ⟨e, exec_opening_error hc he⟩
    subst heq
    cases hc
  obtain ⟨u, hu, hbond⟩ := h
  by_cases hb : 0 < a.bond
  swap
  · have hb' : a.bond = 0 := UInt64.toNat_inj.mp (by simpa [UInt64.lt_iff_toNat_lt] using hb)
    exact (Outcome.unbonded hc hu hb').of_exec (exec_unbonded hroom hc hu hb')
  obtain ⟨v, hv⟩ := hbond hb
  by_cases heq : a.bondInput = a.input
  · exact (Outcome.panicked hc hu hb hv heq).of_exec (exec_panicked hl hroom hc hu hb hv heq)
  · exact (Outcome.bonded hc hu hb hv heq).of_exec (exec_bonded hl hroom hc hu hb hv heq)

end

lemma exec_lost {input amt : UInt64} {payee : PeerId} (hc : c.payment? = some (input, payee, amt))
    (hen : l.enabled = true) (hu : l.getUtxo input = some u) (hlt : u.value < amt) :
    exec (c.proc env) l = (.error (.err .insufficientValue), l.remove input) := by
  cases c with
  | settle input payee amt =>
    cases hc
    simp [Call.proc, exec_settle_lost env _ hen hu hlt, Except.map]
  | settleTask input provider amt mode =>
    cases mode with
    | optimistic w => cases hc
    | zkWasm proof =>
      rw [Call.payment?] at hc
      split_ifs at hc with hproof
      cases hc
      simp [Call.proc, settleTask, exec_bind, hen, hproof, exec_settle_lost env _ hen hu hlt]
  | mint | openOptimistic | openOptimisticAt | finalize | challenge => cases hc

lemma outcome_settle (hroom : HasRoom l) (input : UInt64) (payee : PeerId) (amt : UInt64) :
    Outcome env l (.settle input payee amt) ((Call.settle input payee amt).result env l)
      ((Call.settle input payee amt).after env l) := by
  by_cases h : l.enabled = true → l.getUtxo input = none
  · refine Outcome.of_refuses (fun _ _ => nofun) ?_
    simpa [Call.proc] using (settle_refused env payee h).bind fun n => pure (Reply.number n)
  obtain ⟨hen, hu⟩ := Classical.not_imp.mp h
  obtain ⟨u, hu⟩ := Option.ne_none_iff_exists'.mp hu
  by_cases hlt : u.value < amt
  · exact (Outcome.lost rfl hen hu hlt).of_exec (exec_lost rfl hen hu hlt)
  · have hspend : Spendable l input amt u := ⟨hen, hu, UInt64.not_lt.mp hlt⟩
    refine (Outcome.settled payee hspend).of_exec ?_
    simp [Call.proc, exec_settle env payee hspend (hroom.1.mono (by decide)), Except.map]

lemma outcome_settleTask (hroom : HasRoom l) (input : UInt64) (provider : PeerId) (amt : UInt64)
    (proof : ZkWasmProof) :
    Outcome env l (.settleTask input provider amt (.zkWasm proof))
      ((Call.settleTask input provider amt (.zkWasm proof)).result env l)
      ((Call.settleTask input provider amt (.zkWasm proof)).after env l) := by
  cases hen : l.enabled with
  | false =>
    refine Outcome.of_refuses (fun _ _ => nofun) ⟨.economyDisabled, ?_⟩
    simp [Call.proc, settleTask, exec_bind, hen]
  | true =>
    by_cases hproof : proof.scheme.1 = .lit "zkwasm"
    swap
    · refine Outcome.of_refuses (fun _ _ => nofun) ⟨.invalidProofScheme, ?_⟩
      simp [Call.proc, settleTask, exec_bind, hen, hproof]
    cases hu : l.getUtxo input with
    | none =>
      obtain ⟨e, he⟩ : Refuses (settle env input provider amt) l :=
        settle_refused env provider fun _ => hu
      refine Outcome.of_refuses (fun _ _ => nofun) ⟨e, ?_⟩
      simp [Call.proc, settleTask, exec_bind, hen, hproof, he]
    | some u =>
      by_cases hlt : u.value < amt
      · have hpay : (Call.settleTask input provider amt (.zkWasm proof)).payment? =
            some (input, provider, amt) := if_pos hproof
        exact (Outcome.lost hpay hen hu hlt).of_exec (exec_lost hpay hen hu hlt)
      · have hspend : Spendable l input amt u := ⟨hen, hu, UInt64.not_lt.mp hlt⟩
        have hadd := exec_add env (l := paid l input u provider amt)
          (show l.nextTx.toNat + (1 : UInt64).toNat < 2 ^ 64 from hroom.2)
        refine (Outcome.proved provider hproof hspend).of_exec ?_
        simp [Call.proc, settleTask, exec_bind, hen, hproof,
          exec_settle env provider hspend (hroom.1.mono (by decide)), hadd, Except.map]

lemma exec_decision_map {α : Type} (tx : UInt64) (p : PendingSettlement) (st : ClaimState) (a : α)
    (f : α → Reply) :
    exec (f <$> decision env tx p st a) l = exec (decision env tx p st (f a)) l := by
  simp [decision, exec_bind]

section Decides

variable {tx : UInt64} {p : PendingSettlement} {ps : Payouts} {st : ClaimState} {r : Reply}

variable (h : Decides l c tx p ps st r)
include h

lemma Decides.isPending : IsPending l tx p := by
  cases h with
  | finalize h => exact h.1
  | challenge _ h => exact h.1

lemma Decides.length_le : ps.length ≤ 2 := by
  cases h with
  | finalize h => exact Nat.le_succ 1
  | challenge challenger h =>
    rw [slashPayouts]
    split_ifs <;> simp

variable (hl : Sound l) (hroom : HasRoom l)
include hl hroom

lemma Decides.exec_proc : exec (c.proc env) l = exec (decision env tx p st r) (paidOut l ps) := by
  have hsum := hl.bounded _ p h.isPending.2.1
  cases h with
  | finalize h =>
    rw [← exec_decision_map, exec_map, ← exec_finalize env h hsum (hroom.1.mono (by decide))]
    simp [Call.proc]
  | challenge challenger h =>
    rw [← exec_decision_map, exec_map,
      ← exec_challenge env challenger h hsum (hroom.1.mono (by decide))]
    simp [Call.proc]

lemma Decides.exec_short (hcov : ¬ Covered l p ps) :
    exec (c.proc env) l = (.error (.err .escrowUnderflow), withdrawn env l p ps) :=
  (h.exec_proc hl hroom).trans (exec_decision_short env hcov)

lemma Decides.outcome : Outcome env l c (c.result env l) (c.after env l) := by
  by_cases hcov : Covered l p ps
  · exact (Outcome.decided h hcov).of_exec
      ((h.exec_proc hl hroom).trans (exec_decision env h.isPending.2.1 hcov))
  · exact (Outcome.short h hcov).of_exec (h.exec_short hl hroom hcov)

end Decides

theorem Call.outcome (env : Env) (c : Call) (hl : Sound l) (hroom : HasRoom l) :
    Outcome env l c (c.result env l) (c.after env l) := by
  cases c with
  | mint owner value =>
    refine (Outcome.minted owner value).of_exec ?_
    simp [proc, exec_mint env (hroom.1.mono (by decide)), Except.map]
  | settle input payee amt => exact outcome_settle hroom input payee amt
  | settleTask input provider amt mode =>
    cases mode with
    | optimistic w => exact outcome_of_opening hl hroom rfl
    | zkWasm proof => exact outcome_settleTask hroom input provider amt proof
  | openOptimistic a => exact outcome_of_opening hl hroom rfl
  | openOptimisticAt now a => exact outcome_of_opening hl hroom rfl
  | finalize tx now =>
    by_cases h : ∃ p, Finalizable l tx now p
    · obtain ⟨p, hp⟩ := h
      exact (Decides.finalize hp).outcome hl hroom
    · refine Outcome.of_refuses (fun _ _ => nofun) ?_
      simpa [proc] using (finalize_refused env (not_exists.mp h)).bind fun n => pure (Reply.number n)
  | challenge tx fraud now challenger =>
    by_cases h : ∃ p, Challengeable l tx fraud now p
    · obtain ⟨p, hp⟩ := h
      exact (Decides.challenge challenger hp).outcome hl hroom
    · refine Outcome.of_refuses (fun _ _ => nofun) ?_
      simpa [proc] using
        (challenge_refused env challenger (not_exists.mp h)).bind fun s => pure (Reply.slash s)

end OutcomeOfCall

/-! ### The order is kept -/

section Sound

variable {env : Env} {l l' : Ledger}

variable (h : Sound l)
include h

lemma Sound.of_frame (hnext : l.next = l'.next)
    (hutxos : ∀ k, l'.utxos.get? k ≠ none → l.utxos.get? k ≠ none)
    (hpending : l'.pending = l.pending) : Sound l' where
  fresh k hk := hnext ▸ h.fresh k (hutxos k hk)
  bounded := hpending ▸ h.bounded

lemma Sound.minted (hroom : Room 1 l) (owner : PeerId) (value : UInt64) :
    Sound (minted l owner value) where
  fresh k hk := by
    rw [toNat_next_minted hroom]
    by_cases hlt : k < l.next.toNat
    · omega
    · rw [Economy.minted, OrdMap.get?_put] at hk
      split_ifs at hk with hkey
      · omega
      · exact absurd (h.fresh k hk) hlt
  bounded := h.bounded

lemma Sound.remove (id : UInt64) : Sound (l.remove id) := by
  refine h.of_frame rfl (fun k hk => ?_) rfl
  rw [Ledger.remove, OrdMap.get?_delete] at hk
  split_ifs at hk
  · exact absurd rfl hk
  · exact hk

lemma Sound.paid (hroom : Room 2 l) (id : UInt64) (u : Utxo) (payee : PeerId)
    (amt : UInt64) : Sound (paid l id u payee amt) := by
  refine Sound.minted ?_ (hroom.changed id u amt) payee amt
  unfold changed
  split_ifs
  · exact (h.remove id).minted ((hroom.remove id).mono (by decide)) _ _
  · exact h.remove id

lemma Sound.paidOut {ps : Payouts} (hroom : Room ps.length l) : Sound (paidOut l ps) := by
  induction ps generalizing l with
  | nil => exact h
  | cons x ps ih =>
    have hroom₁ : Room 1 l := hroom.mono (by simp)
    exact ih (h.minted hroom₁ x.1 x.2) (hroom.minted x.1 x.2)

lemma Sound.burnt (amt : UInt64) : Sound (burnt env l amt) :=
  h.of_frame rfl (fun _ hk => escrowCoins.get?_of_get?_drain _ _ hk) rfl

lemma Sound.withdrawn (p : PendingSettlement) {ps : Payouts}
    (hroom : Room ps.length l) : Sound (withdrawn env l p ps) :=
  (h.paidOut hroom).burnt _

lemma Sound.put_pending (tx : UInt64) {p : PendingSettlement} (n : UInt64)
    (hp : p.payment.toNat + p.bond.toNat < 2 ^ 64) :
    Sound { l with nextTx := n, pending := l.pending.put tx.toNat p } where
  fresh := h.fresh
  bounded tx' q hq := by
    rw [OrdMap.get?_put] at hq
    split_ifs at hq
    · cases hq
      exact hp
    · exact h.bounded tx' q hq

theorem Sound.outcome {c : Call} {r : Except Exit Reply} (ho : Outcome env l c r l')
    (hroom : HasRoom l) (hc : c.SumsBelow) : Sound l' := by
  have hroom₂ : Room 2 l := hroom.1.mono (by decide)
  cases ho with
  | minted owner value => exact h.minted (hroom₂.mono (by decide)) owner value
  | settled payee hu => exact h.paid hroom₂ _ _ _ _
  | proved provider hproof hu =>
    exact (h.paid hroom₂ _ _ _ _).of_frame rfl (fun _ hk => hk) rfl
  | lost hpay hen hu hlt => exact h.remove _
  | unbonded hopen hu hb => exact (h.paid hroom₂ _ _ _ _).put_pending _ _ (hc _ _ hopen)
  | @bonded _ a _ u v hopen hu hb hv hne =>
    have hroom' : Room 2 (paymentLocked l a u) := hroom.1.paid _ _ _ _
    exact ((h.paid hroom₂ _ _ _ _).paid hroom' _ _ _ _).put_pending _ _ (hc _ _ hopen)
  | panicked hopen hu hb hv heq => exact h.paid hroom₂ _ _ _ _
  | @decided _ tx p ps st _ hd hcov =>
    have hsum := h.bounded _ _ hd.isPending.2.1
    have hw : Sound (Economy.withdrawn env l p ps) := h.withdrawn p (hroom₂.mono hd.length_le)
    have hclosed := hw.put_pending tx (p := { p with state := st })
      (Economy.withdrawn env l p ps).nextTx hsum
    rwa [pending_withdrawn] at hclosed
  | short hd hcov => exact h.withdrawn _ (hroom₂.mono hd.length_le)
  | refused hc e => exact h

end Sound

def step (l : Ledger) (e : Env × Call) : Ledger := e.2.after e.1 l

/-- The counters have room for the call, and the amounts it locks together are less than `2 ^
64`. -/
def WithinBounds (l : Ledger) (e : Env × Call) : Prop := HasRoom l ∧ e.2.SumsBelow

instance (l : Ledger) (e : Env × Call) : Decidable (WithinBounds l e) :=
  inferInstanceAs (Decidable (_ ∧ _))

/-- The ledger after a run. -/
def reached (openMesh : Bool) (es : List (Env × Call)) : Ledger :=
  runFrom step (Ledger.new openMesh) es

lemma sound_new (openMesh : Bool) : Sound (Ledger.new openMesh) where
  fresh _ hk := absurd rfl hk
  bounded _ _ hp := nomatch hp

lemma Sound.step {l : Ledger} (h : Sound l) (e : Env × Call) (he : WithinBounds l e) :
    Sound (step l e) :=
  h.outcome (e.2.outcome e.1 h he.1) he.1 he.2

theorem sound_reached (openMesh : Bool) (es : List (Env × Call))
    (h : Along step WithinBounds (Ledger.new openMesh) es) : Sound (reached openMesh es) :=
  Along.keeps (fun _ e hl he => hl.step e he) (sound_new openMesh) h

end Cerberus.Economy
