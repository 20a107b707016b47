import Cerberus.Ledger.Escrow

/-!
# Exact payouts

Deciding a pending claim moves exactly what the claim locked to the principals it belongs to
(`decision_pays_exactly`), as long as fewer than `2 ^ 64` outputs have been minted. After that many
the id counter starts again from the beginning, and the payout overwrites an old output
(`finalize_overwrites_after_wrap`).
-/

namespace Cerberus.Ledger

open Foundation Nat

/-- The call decides the claim `p`, stored under `tx`, and leaves it as `q`: the escrow loses what
the claim locked, every other owner gains what `gain` says, and no other claim changes. -/
structure Call.Pays (c : Call) (w : LedgerWorld) (tx : UInt64) (p q : PendingSettlement)
    (gain : GoString → ℕ) : Prop where
  succeeds : c.Succeeds w
  escrow : ∃ b, balanceReading w escrowOwner = .ok (b + (p.payment.toNat + p.bond.toNat)) ∧
    balanceReading (c.after w) escrowOwner = .ok b
  owners : ∀ owner, owner ≠ escrowOwner → ∃ b, balanceReading w owner = .ok b ∧
    balanceReading (c.after w) owner = .ok (b + gain owner)
  claims : ∀ tx', claim (c.after w).store tx' = if tx' = tx then some q else claim w.store tx'

/-- What an owner gets of the payouts. -/
def payoutTo (ps : Payouts) (owner : GoString) : ℕ :=
  (ps.map fun x => if x.1.coerce = owner then x.2.toNat else 0).sum

section Decisions

variable {n : ℕ} {w : LedgerWorld} {c : Call} {tx : UInt64} {p : PendingSettlement} {ps : Payouts}
  {st : ClaimState} {r : Reply}

lemma held_paidOut (h : Fresh n w) (hn : n + ps.length < 2 ^ 64) (owner : GoString) :
    held (paidOut w ps).store owner = held w.store owner + payoutTo ps owner := by
  have hout := worth_paidOut (fun u => decide (u.owner = owner)) h ps hn
  simp only [share_owner] at hout
  exact hout

/-- Deciding a claim the escrow covers makes exactly the payouts. -/
theorem Decides.pays (h : Tidy n w) (hd : Decides w c tx p ps st r) (hn : n + ps.length < 2 ^ 64)
    (hle : p.payment.toNat + p.bond.toNat ≤ held w.store escrowOwner)
    (hsupply : supply w.store < 2 ^ 64) (hne : ∀ x ∈ ps, x.1.coerce ≠ escrowOwner) :
    c.Pays w tx p { p with state := st } (payoutTo ps) := by
  have hheld := held_le_supply w.store escrowOwner
  have hsum : (p.payment + p.bond).toNat = p.payment.toNat + p.bond.toNat := by
    rw [UInt64.toNat_add, mod_eq_of_lt (by omega)]
  have hkeep := held_paidOut_of_ne h.fresh ps hn hne
  have hcov : Covered w p ps := by
    rw [Covered, hkeep, hsum]
    exact hle
  have hrun := hd.run_exec_covered hcov
  have hafter : c.after w = closed w p ps st := by rw [Call.after, hrun]
  obtain ⟨i, -, hfiled⟩ := h.filed
  have hclosed := held_closed_escrow hcov st
  have hsupply' := hd.supply_closed h.fresh hn hcov hsum
  refine ⟨⟨r, by rw [Call.result, hrun]⟩, ?_, fun owner howner => ?_, fun tx' => ?_⟩
  · refine ⟨held (closed w p ps st).store escrowOwner, ?_, ?_⟩
    · rw [balanceReading_eq, ← hsum, hclosed, hkeep, mod_eq_of_lt (by omega)]
    · rw [hafter, balanceReading_eq, mod_eq_of_lt (by omega)]
  · have hother : held (closed w p ps st).store owner = held w.store owner + payoutTo ps owner := by
      rw [closed, held_filed, ← held_paidOut h.fresh hn]
      exact held_released _ _ howner
    have h₁ := held_le_supply w.store owner
    have h₂ := held_le_supply (closed w p ps st).store owner
    refine ⟨held w.store owner, ?_, ?_⟩
    · rw [balanceReading_eq, mod_eq_of_lt (by omega)]
    · rw [hafter, balanceReading_eq, hother, mod_eq_of_lt (by omega)]
  · rw [hafter]
    exact claim_closed hfiled hd.isPending.2.1 ps hd.state_eq tx'

end Decisions

variable {p : PendingSettlement} {w : LedgerWorld}

lemma payoutTo_finalPayouts (hp : p.provider.coerce = p.provider)
    (hsum : (p.payment + p.bond).toNat = p.payment.toNat + p.bond.toNat) (owner : GoString) :
    payoutTo (finalPayouts p) owner =
      if owner = p.provider then p.payment.toNat + p.bond.toNat else 0 := by
  simp [payoutTo, finalPayouts, hp, hsum, eq_comm]

lemma payoutTo_slashPayouts {challenger : GoString} (hp : p.consumer.coerce = p.consumer)
    (hc : challenger.coerce = challenger) (owner : GoString) :
    payoutTo (slashPayouts p challenger) owner =
      (if owner = p.consumer then p.payment.toNat else 0) +
        if owner = challenger then p.bond.toNat else 0 := by
  by_cases hb : 0 < p.bond
  · simp [payoutTo, slashPayouts, hp, hc, hb, eq_comm]
  · have hb' : p.bond.toNat = 0 := by simpa [UInt64.lt_iff_toNat_lt] using hb
    simp [payoutTo, slashPayouts, hp, hb, hb', eq_comm]

/-- In every state reached with fewer than `2 ^ 64` outputs, whatever the outputs are the escrow
consists of: `Finalize` after the window pays payment and bond to the provider, and a `Challenge`
with a contradicting fraud proof inside the window pays the payment to the consumer and the bond to
the challenger. The escrow loses exactly that, and nothing else changes. -/
theorem decision_pays_exactly (openMesh : Bool) (as : List Action) (tx : UInt64)
    (p : PendingSettlement) (hpending : IsPending (reached openMesh as) tx p)
    (hescrow : p.payment.toNat + p.bond.toNat ≤ held (reached openMesh as).store escrowOwner)
    (hsupply : supply (reached openMesh as).store < 2 ^ 64)
    (hconsumer : p.consumer ≠ escrowOwner) (hprovider : p.provider ≠ escrowOwner) :
    (∀ now, p.windowElapsed now = true →
      issuedIn openMesh (as ++ [.call (.finalize tx now)]) < 2 ^ 64 →
      (Call.finalize tx now).Pays (reached openMesh as) tx p { p with state := .finalized }
        fun owner => if owner = p.provider then p.payment.toNat + p.bond.toNat else 0) ∧
    ∀ now fraud challenger, p.windowElapsed now = false →
      FraudProof.Contradicts fraud p.binding → challenger.valid = true →
      challenger ≠ escrowOwner →
      issuedIn openMesh (as ++ [.call (.challenge tx fraud now challenger)]) < 2 ^ 64 →
      (Call.challenge tx fraud now challenger).Pays (reached openMesh as) tx p
        { p with state := .slashed } fun owner =>
          (if owner = p.consumer then p.payment.toNat else 0) +
            if owner = challenger then p.bond.toNat else 0 := by
  have hcoerced : p.consumer.coerce = p.consumer ∧ p.provider.coerce = p.provider := by
    obtain ⟨b, -, hp⟩ := claim_eq_some_iff.mp hpending.2.1
    have := coerced_of_claimIn hp
    rw [PendingSettlement.coerced, PendingSettlement.mk.injEq] at this
    exact ⟨this.2.1, this.2.2.1⟩
  have hheld := held_le_supply (reached openMesh as).store escrowOwner
  have hsum : (p.payment + p.bond).toNat = p.payment.toNat + p.bond.toNat := by
    rw [UInt64.toNat_add, mod_eq_of_lt (by omega)]
  constructor
  · intro now hwin hcount
    have hd : Decides (reached openMesh as) (.finalize tx now) tx p (finalPayouts p) .finalized
        (.number p.payment) := .finalize ⟨hpending, hwin⟩
    rw [issuedIn_concat, issuedBy, hd.issued_eq] at hcount
    have hpays := hd.pays (tidy_reached openMesh as (by omega)) hcount hescrow hsupply
      (hd.payouts_ne ⟨hconsumer, hprovider⟩ fun _ ho => by cases ho)
    rwa [funext (payoutTo_finalPayouts hcoerced.2 hsum)] at hpays
  · intro now fraud challenger hwin hfraud hvalid hchallenger hcount
    have hd : Decides (reached openMesh as) (.challenge tx fraud now challenger) tx p
        (slashPayouts p challenger) .slashed (.slash ⟨tx, p.payment, p.bond⟩) :=
      .challenge challenger ⟨hpending, hwin, hfraud⟩
    rw [issuedIn_concat, issuedBy, hd.issued_eq] at hcount
    have hplain : (Call.challenge tx fraud now challenger).Plain := by
      simpa [Call.Plain, Call.principals] using hchallenger
    have hpays := hd.pays (tidy_reached openMesh as (by omega)) hcount hescrow hsupply
      (hd.payouts_ne ⟨hconsumer, hprovider⟩ hplain)
    rwa [funext (payoutTo_slashPayouts hcoerced.1 (GoString.coerce_of_valid hvalid))] at hpays

def sampleClaim : PendingSettlement :=
  { tx := 1
    consumer := .lit "c"
    provider := .lit "p"
    payment := 10
    bond := 0
    openedAt := 0
    disputeBlock := 1
    binding := ⟨.lit "task", .lit "component", .lit "input", .lit "output"⟩
    state := .pending }

/-- Finalizing the sample claim pays ten credits to the provider. -/
theorem finalize_sampleClaim_pays :
    (Call.finalize 1 5).Pays (reached true (paidClaim.take 2)) 1 sampleClaim
      { sampleClaim with state := .finalized }
      fun owner => if owner = .lit "p" then 10 else 0 := by
  refine (decision_pays_exactly true (paidClaim.take 2) 1 sampleClaim ⟨?_, ?_, ?_⟩ ?_ ?_ ?_ ?_).1 5
    ?_ ?_ <;> decide +kernel

/-! ### Running out of ids -/

def zeroMint : Action := .call (.mint (.lit "z") 0)

/-- The owner "v" gets seven credits as output 1, the consumer "c" ten as output 2 and locks them,
and then `k` worthless outputs are minted. -/
def paddedClaim (k : ℕ) : List Action :=
  [.call (.mint (.lit "v") 7), .call (.mint (.lit "c") 10),
    .call (.openOptimistic
      { now := 0
        paymentInput := 2
        consumer := .lit "c"
        payment := 10
        bondInput := 0
        provider := .lit "p"
        bond := 0
        disputeBlocks := 1
        binding := ⟨.lit "task", .lit "component", .lit "input", .lit "output"⟩ })] ++
    List.replicate k zeroMint

/-- Everything of `w` is still there in `w'`, and nothing of value has been added. -/
structure Padded (w w' : LedgerWorld) : Prop where
  enabled : w'.mem.enabled = w.mem.enabled
  coin : ∀ id u, coin w.store id = some u → Ledger.coin w'.store id = some u
  claim : ∀ tx, claim w'.store tx = Ledger.claim w.store tx
  worth : ∀ counted, worth counted w'.store = Ledger.worth counted w.store

lemma act_zeroMint (w : LedgerWorld) : act w zeroMint = minted w (.lit "z") 0 := by
  simp [act, zeroMint, Call.after, Call.exec, Proc.run_bind]

lemma padded_zeroMint (h : coin w.store w.mem.next = none) : Padded w (act w zeroMint) := by
  rw [act_zeroMint]
  refine ⟨rfl, fun id u hu => ?_, claim_minted w _ _, fun counted => ?_⟩
  · rw [coin_minted, if_neg, hu]
    rintro rfl
    simp [h] at hu
  · rw [worth_minted_of_fresh _ _ _ _ h, share_zero, add_zero]

lemma padded_replicate {n : ℕ} (h : Tidy n w) (k : ℕ) (hk : n + k < 2 ^ 64) :
    Padded w (runFrom act w (List.replicate k zeroMint)) ∧
      Tidy (n + k) (runFrom act w (List.replicate k zeroMint)) := by
  induction k generalizing n w with
  | zero => exact ⟨⟨rfl, fun _ _ hu => hu, fun _ => rfl, fun _ => rfl⟩, h⟩
  | succ k ih =>
    have hone : issuedBy w zeroMint = 1 := by
      simp [issuedBy, zeroMint, Call.issued, Call.exec, mint]
    have hpad := padded_zeroMint (h.fresh.coin_next (by omega))
    have htidy := h.act zeroMint (by omega)
    rw [hone] at htidy
    obtain ⟨hpad', htidy'⟩ := ih htidy (by omega)
    rw [List.replicate_succ, runFrom_cons]
    refine ⟨⟨hpad'.enabled.trans hpad.enabled, fun id u hu => hpad'.coin id u (hpad.coin id u hu),
      fun tx => (hpad'.claim tx).trans (hpad.claim tx),
      fun counted => (hpad'.worth counted).trans (hpad.worth counted)⟩, ?_⟩
    rwa [add_assoc, add_comm 1] at htidy'

lemma Padded.trans {w' w'' : LedgerWorld} (h : Padded w w') (h' : Padded w' w'') :
    Padded w w'' where
  enabled := h'.enabled.trans h.enabled
  coin id u hu := h'.coin id u (h.coin id u hu)
  claim tx := (h'.claim tx).trans (h.claim tx)
  worth counted := (h'.worth counted).trans (h.worth counted)

lemma padded_paddedClaim : Padded (reached true (paddedClaim 0)) (reached true (paddedClaim
    (2 ^ 64 - 3))) ∧ (reached true (paddedClaim (2 ^ 64 - 3))).mem.next = 1 := by
  have htidy : Tidy 3 (reached true (paddedClaim 0)) := by
    have hissued : issuedIn true (paddedClaim 0) = 3 := by decide +kernel
    have := tidy_reached true (paddedClaim 0)
    rw [hissued] at this
    exact this (by omega)
  obtain ⟨hpad, htidy'⟩ := padded_replicate htidy (2 ^ 64 - 4) (by omega)
  have hsplit : reached true (paddedClaim (2 ^ 64 - 3)) =
      act (runFrom act (reached true (paddedClaim 0)) (List.replicate (2 ^ 64 - 4) zeroMint))
        zeroMint := by
    rw [show 2 ^ 64 - 3 = (2 ^ 64 - 4) + 1 by rfl, paddedClaim, List.replicate_succ',
      ← List.append_assoc, reached_concat, reached_append, paddedClaim, List.replicate_zero,
      List.append_nil]
  generalize runFrom act (reached true (paddedClaim 0)) (List.replicate (2 ^ 64 - 4) zeroMint) = w
    at hpad htidy' hsplit
  have hnext : w.mem.next = 0 := htidy'.fresh.next
  have hfree : coin w.store w.mem.next = none := by
    by_contra hne
    have hget : w.store.get? (key w.mem.next) ≠ none := fun hnone => by simp [coin, hnone] at hne
    have hpos := (htidy'.fresh.live _ hget).1
    simp [hnext] at hpos
  rw [hsplit]
  refine ⟨hpad.trans (padded_zeroMint hfree), ?_⟩
  rw [act_zeroMint, mem_minted, hnext]
  rfl

section

variable (hpad : Padded (reached true (paddedClaim 0)) w)
include hpad

lemma Padded.conditions :
    IsPending w 1 sampleClaim ∧ held w.store escrowOwner = 10 ∧ supply w.store = 17 ∧
      sampleClaim.windowElapsed 5 = true := by
  refine ⟨⟨hpad.enabled.trans (by decide +kernel), ?_, rfl⟩,
    (hpad.worth _).trans (by decide +kernel), (hpad.worth _).trans (by decide +kernel), by decide⟩
  rw [hpad.claim]
  decide +kernel

lemma Padded.balance : balanceReading w (.lit "v") = .ok 7 := by
  have hv : held w.store (.lit "v") = 7 := (hpad.worth _).trans (by decide +kernel)
  rw [balanceReading_eq, hv, mod_eq_of_lt (by omega)]

/-- When the next id is that of output 1, finalizing the padded claim takes the seven credits of its
owner. -/
lemma Padded.finalize_overwrites
    (hnext : w.mem.next = 1) : balanceReading ((Call.finalize 1 5).after w) (.lit "v") = .ok 0 := by
  obtain ⟨hpending, hescrow, -, hwin⟩ := hpad.conditions
  have hcoin : Ledger.coin w.store 1 = some ⟨.lit "v", 7⟩ := hpad.coin _ _ (by decide +kernel)
  have hv : held w.store (.lit "v") = 7 := (hpad.worth _).trans (by decide +kernel)
  have hd : Decides w (.finalize 1 5) 1 sampleClaim (finalPayouts sampleClaim) .finalized
      (.number 10) := .finalize ⟨hpending, hwin⟩
  -- the new output of the provider takes the place of output 1
  have hmint (owner : GoString) := worth_minted w (.lit "p") 10 fun u => decide (u.owner = owner)
  simp only [hnext, hcoin, shareOf, Option.elim_some, share_owner] at hmint
  have hout : paidOut w (finalPayouts sampleClaim) = minted w (.lit "p") 10 := rfl
  have hcov : Covered w sampleClaim (finalPayouts sampleClaim) := by
    have hmint' := hmint escrowOwner
    rw [if_neg (by decide), if_neg (by decide +kernel), ← held, ← held, hescrow, add_zero]
      at hmint'
    rw [Covered, hout, hmint']
    decide
  have hafter : held ((Call.finalize 1 5).after w).store (.lit "v") = 0 := by
    have hmint' := hmint (.lit "v")
    rw [if_pos rfl, if_neg (by decide +kernel), ← held, ← held, hv] at hmint'
    rw [Call.after, hd.run_exec_covered hcov, closed, held_filed, withdrawn,
      held_released _ _ (by decide), hout]
    exact add_right_cancel (hmint'.trans rfl)
  rw [balanceReading_eq, hafter, zero_mod]

end

/-- After `2 ^ 64` outputs the id counter is back at 1. Finalizing a claim that meets all other
conditions then overwrites output 1, and its owner, who is no principal of the claim, loses seven
credits. -/
theorem finalize_overwrites_after_wrap :
    (IsPending (reached true (paddedClaim (2 ^ 64 - 3))) 1 sampleClaim ∧
      held (reached true (paddedClaim (2 ^ 64 - 3))).store escrowOwner = 10 ∧
      supply (reached true (paddedClaim (2 ^ 64 - 3))).store = 17 ∧
      sampleClaim.windowElapsed 5 = true) ∧
    balanceReading (reached true (paddedClaim (2 ^ 64 - 3))) (.lit "v") = .ok 7 ∧
    balanceReading ((Call.finalize 1 5).after (reached true (paddedClaim (2 ^ 64 - 3))))
      (.lit "v") = .ok 0 :=
  ⟨padded_paddedClaim.1.conditions, padded_paddedClaim.1.balance,
    padded_paddedClaim.1.finalize_overwrites padded_paddedClaim.2⟩

end Cerberus.Ledger
