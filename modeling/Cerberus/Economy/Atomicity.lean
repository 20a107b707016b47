import Cerberus.Economy.Accounts

/-!
# Failing calls of the reference ledger

A call is atomic when it does not panic and, if it returns an error, leaves the outputs and the
claims as they were. `atomic_iff` says in which states a call is not.
-/

namespace Cerberus.Economy

open Foundation Fallible

/-- The call does not panic, and if it returns an error the outputs and the claims are unchanged. -/
def Atomic (env : Env) (c : Call) (l : Ledger) : Prop :=
  (∀ p, c.result env l ≠ .error (.panic p)) ∧
    ∀ e, c.result env l = .error (.err e) →
      (c.after env l).utxos = l.utxos ∧ (c.after env l).pending = l.pending

/-- The call settles an output that is worth less than the amount. -/
def LosesInput (l : Ledger) (c : Call) : Prop :=
  ∃ input payee amt u, c.payment? = some (input, payee, amt) ∧ l.enabled = true ∧
    l.getUtxo input = some u ∧ u.value < amt

/-- The call opens a claim with one output as payment input and as bond input, and this output
passes the checks on both. -/
def SharesInput (l : Ledger) (c : Call) : Prop :=
  ∃ a now u v, c.opening? = some (a, now) ∧ Payable l a u ∧ 0 < a.bond ∧ Bondable l a v ∧
    a.bondInput = a.input

/-- The call decides a claim whose value the escrow does not hold. -/
def Shortfall (l : Ledger) (c : Call) : Prop :=
  ∃ tx p ps st r, Decides l c tx p ps st r ∧ ¬ Covered l p ps

section Payouts

variable {l : Ledger} {c : Call} {tx : UInt64} {p : PendingSettlement} {ps : Payouts}
  {st : ClaimState} {r : Reply}

variable (h : Decides l c tx p ps st r)
include h

lemma Decides.sum_payouts (hsum : p.payment.toNat + p.bond.toNat < 2 ^ 64) :
    (ps.map fun x => x.2.toNat).sum = (p.payment + p.bond).toNat := by
  have hadd : (p.payment + p.bond).toNat = p.payment.toNat + p.bond.toNat := by
    rw [UInt64.toNat_add]
    exact Nat.mod_eq_of_lt hsum
  cases h with
  | finalize h => simp [finalPayouts]
  | challenge challenger h =>
    rw [slashPayouts, hadd]
    by_cases hb : 0 < p.bond
    · simp [hb]
    · have hzero : p.bond.toNat = 0 := by simpa [UInt64.lt_iff_toNat_lt] using hb
      simp [hb, hzero]

lemma Decides.exists_payout (hl : Sound l) (hroom : HasRoom l)
    (hcov : ¬ Covered l p ps) : ∃ x ∈ ps, x.1 ≠ escrow := by
  by_contra hall
  push Not at hall
  have hsum := h.sum_payouts (hl.bounded _ p h.isPending.2.1)
  have hroom' : Room ps.length l := hroom.1.mono (h.length_le.trans (by decide))
  have hpaid : payoutTo ps escrow = (ps.map fun x => x.2.toNat).sum :=
    congrArg List.sum (List.map_congr_left fun x hx => if_pos (hall x hx))
  refine hcov ?_
  rw [Covered, hl.held_paidOut escrow hroom', hpaid, hsum]
  exact Nat.le_add_left _ _

lemma Decides.utxos_withdrawn_ne (env : Env) (hl : Sound l)
    (hroom : HasRoom l) (hcov : ¬ Covered l p ps) : (withdrawn env l p ps).utxos ≠ l.utxos := by
  intro heq
  have hroom' : Room ps.length l := hroom.1.mono (h.length_le.trans (by decide))
  obtain ⟨x, hx, howner⟩ := h.exists_payout hl hroom hcov
  obtain ⟨k, hk, hget⟩ := exists_get?_paidOut hroom' hx
  -- The payout is under a new id, and the burn does not touch it.
  have hkept : (withdrawn env l p ps).utxos.get? k = some ⟨x.1, x.2⟩ :=
    (get?_burnt_eq_some_iff env _ howner).mpr hget
  rw [heq] at hkept
  have hlt := hl.fresh k (by simp [hkept])
  omega

end Payouts

section Atomic

variable {l : Ledger} {env : Env} {c : Call}

section

variable (h : Atomic env c l)
include h

lemma Atomic.utxos_eq {e : Err} {l' : Ledger}
    (hexec : exec (c.proc env) l = (.error (.err e), l')) : l'.utxos = l.utxos := by
  rw [Atomic, Call.result, Call.after, hexec] at h
  exact (h.2 e rfl).1

lemma Atomic.not_losesInput : ¬ LosesInput l c := by
  rintro ⟨input, payee, amt, u, hc, hen, hu, hlt⟩
  have hutxos := h.utxos_eq (exec_lost hc hen hu hlt)
  rw [Ledger.getUtxo, ← hutxos, Ledger.remove, OrdMap.get?_delete, if_pos rfl] at hu
  cases hu

lemma Atomic.not_sharesInput (hl : Sound l) (hroom : HasRoom l) : ¬ SharesInput l c := by
  rintro ⟨a, now, u, v, hc, hu, hb, hv, heq⟩
  have hpanic := h.1 (.expect "checked above")
  rw [Call.result, exec_panicked hl hroom hc hu hb hv heq] at hpanic
  exact hpanic rfl

lemma Atomic.not_shortfall (hl : Sound l) (hroom : HasRoom l) : ¬ Shortfall l c := by
  rintro ⟨tx, p, ps, st, r, hd, hcov⟩
  exact hd.utxos_withdrawn_ne env hl hroom hcov (h.utxos_eq (hd.exec_short hl hroom hcov))

end

lemma atomic_of_not (hl : Sound l) (hroom : HasRoom l) (hloses : ¬ LosesInput l c)
    (hshares : ¬ SharesInput l c) (hshort : ¬ Shortfall l c) : Atomic env c l := by
  unfold Atomic
  have ho := c.outcome env hl hroom
  generalize c.result env l = r at ho ⊢
  generalize c.after env l = l' at ho ⊢
  cases ho with
  | minted | settled | proved | unbonded | bonded | decided => exact ⟨nofun, nofun⟩
  | lost hc hen hu hlt => exact absurd ⟨_, _, _, _, hc, hen, hu, hlt⟩ hloses
  | panicked hc hu hb hv heq => exact absurd ⟨_, _, _, _, hc, hu, hb, hv, heq⟩ hshares
  | short hd hcov => exact absurd ⟨_, _, _, _, _, hd, hcov⟩ hshort
  | refused hc e => exact ⟨nofun, fun _ _ => ⟨rfl, rfl⟩⟩

end Atomic

/-- In every ledger reached, a call is atomic unless it settles an output that is worth too little,
opens a claim with one output as both inputs, or decides a claim that the escrow does not cover. -/
theorem atomic_iff (openMesh : Bool) (es : List (Env × Call)) (env : Env) (c : Call)
    (hes : Along step WithinBounds (Ledger.new openMesh) es)
    (hc : WithinBounds (reached openMesh es) (env, c)) :
    Atomic env c (reached openMesh es) ↔
      ¬ LosesInput (reached openMesh es) c ∧ ¬ SharesInput (reached openMesh es) c ∧
        ¬ Shortfall (reached openMesh es) c := by
  have hl := sound_reached openMesh es hes
  constructor
  · intro h
    exact ⟨h.not_losesInput, h.not_sharesInput hl hc.1, h.not_shortfall hl hc.1⟩
  · rintro ⟨hloses, hshares, hshort⟩
    exact atomic_of_not hl hc.1 hloses hshares hshort

/-- An environment with overflow checks that iterates in the order of the keys. -/
def checkedEnv : Env := ⟨true, id, fun l => .refl l⟩

def peer (b : UInt8) : PeerId := Vector.replicate 32 b

def mintTen : List (Env × Call) := [(checkedEnv, .mint (peer 1) 10)]

def lockTen (disputeWindowBlocks : UInt64) : List (Env × Call) :=
  mintTen ++ [(checkedEnv, .openOptimistic ⟨1, peer 2, 10, 0, 0, disputeWindowBlocks, .default⟩)]

/-- A finalization inside the window fails and changes nothing. -/
theorem early_finalize_atomic :
    (Call.finalize 1 3).result checkedEnv (reached true (lockTen 5)) =
      .error (.err .windowNotElapsed) ∧
    Atomic checkedEnv (.finalize 1 3) (reached true (lockTen 5)) := by
  have hwindow : ∀ p ∈ (reached true (lockTen 5)).pending.get? 1, p.windowElapsed 3 = false := by
    decide +kernel
  refine ⟨by decide +kernel, (atomic_iff true (lockTen 5) checkedEnv (.finalize 1 3)
    (by decide +kernel) (by decide +kernel)).mpr ⟨?_, ?_, ?_⟩⟩
  · rintro ⟨_, _, _, _, hc, -⟩
    cases hc
  · rintro ⟨_, _, _, _, hc, -⟩
    cases hc
  · rintro ⟨tx, p, ps, st, r, hd, -⟩
    cases hd with
    | finalize h => exact absurd h.2 (by simp [hwindow p h.1.2.1])

/-- After minting 10 to a peer: settling 11 of it fails and the output is gone; opening a claim with
it as payment and as bond panics and it is gone; and a finalization after the locked output has been
settled away fails with the provider paid. -/
theorem late_failures :
    ((Call.settle 1 (peer 2) 11).result checkedEnv (reached true mintTen) =
        .error (.err .insufficientValue) ∧
      (reached true mintTen).getUtxo 1 = some ⟨peer 1, 10⟩ ∧
      ((Call.settle 1 (peer 2) 11).after checkedEnv (reached true mintTen)).getUtxo 1 = none) ∧
    (Call.openOptimistic ⟨1, peer 1, 4, 1, 5, 0, .default⟩).result checkedEnv
        (reached true mintTen) = .error (.panic (.expect "checked above")) ∧
    ((Call.finalize 1 0).result checkedEnv
        (reached true (lockTen 0 ++ [(checkedEnv, .settle 2 (peer 3) 10)])) =
        .error (.err .escrowUnderflow) ∧
      ((Call.finalize 1 0).after checkedEnv
        (reached true (lockTen 0 ++ [(checkedEnv, .settle 2 (peer 3) 10)]))).getUtxo 4 =
        some ⟨peer 2, 10⟩) := by
  decide +kernel

end Cerberus.Economy
