import Cerberus.Ledger.Escrow

/-!
# Failing calls

A call that checks its arguments before it writes has no effect when it fails. `Settle` is such a
call. `OpenOptimistic` checks the bond input after it has locked the payment (`HalfOpens`), and
`Finalize` and `Challenge` find out about a lack of escrow after they have paid (`Shortfall`); in no
other case does a failing call leave writes behind (`unchanged_iff`).
-/

namespace Cerberus.Ledger

open Foundation

/-- The payment of a claim can be locked, and the bond cannot. -/
def HalfOpens (w : LedgerWorld) (c : Call) : Prop :=
  ∃ a u, c = .openOptimistic a ∧ PaymentLock w a u ∧ 0 < a.bond ∧ ∀ v, ¬ BondLock w a u v

/-- The same outputs, balances and claims. -/
def Unchanged (w w' : LedgerWorld) : Prop :=
  (∀ id, coin w'.store id = coin w.store id) ∧
    (∀ owner, balanceReading w' owner = balanceReading w owner) ∧
    ∀ tx, claim w'.store tx = claim w.store tx

section Outputs

variable {n : ℕ} {w : LedgerWorld}

variable (h : Fresh n w)
include h

lemma coin_paid_input {id amt : UInt64} {u : Utxo} (hu : coin w.store id = some u)
    (payee : GoString) (hn : n + (changeCount u amt + 1) < 2 ^ 64) :
    coin (paid w id u payee amt).store id = none := by
  have hle := (h.live id (by obtain ⟨b, hb, -⟩ := coin_eq_some_iff.mp hu; simp [hb])).2
  have hne : ∀ k, n ≤ k → k + 1 < 2 ^ 64 → id ≠ UInt64.ofNat (k + 1) := by
    rintro k hk hk' rfl
    rw [toNat_ofNat_succ hk'] at hle
    omega
  have hchanged := h.changed id u amt (by omega)
  rw [paid, coin_minted, hchanged.next, if_neg (hne _ (by omega) (by omega)), changed]
  split_ifs
  · rw [coin_minted, (h.spent id).next, if_neg (hne n le_rfl (by omega)), coin_spent, if_pos rfl]
  · rw [coin_spent, if_pos rfl]

lemma coin_paidOut (ps : Payouts) (hn : n + ps.length < 2 ^ 64) {id : UInt64}
    {u : Utxo} (hu : coin w.store id = some u) : coin (paidOut w ps).store id = some u := by
  induction ps generalizing n w with
  | nil => exact hu
  | cons x ps ih =>
    rw [List.length_cons] at hn
    refine ih (h.minted (by omega) x.1 x.2) (by omega) ?_
    rw [coin_minted, if_neg (h.ne_next (by omega) hu), hu]

lemma exists_coin_paidOut {ps : Payouts} (hn : n + ps.length < 2 ^ 64)
    {x : GoString × UInt64} (hx : x ∈ ps) :
    ∃ id, coin w.store id = none ∧ coin (paidOut w ps).store id = some ⟨x.1.coerce, x.2⟩ := by
  induction ps generalizing n w with
  | nil => cases hx
  | cons y ps ih =>
    rw [List.length_cons] at hn
    have hfresh := h.minted (by omega) y.1 y.2
    rcases List.mem_cons.mp hx with rfl | hx
    · refine ⟨w.mem.next, h.coin_next (by omega), coin_paidOut hfresh ps (by omega) ?_⟩
      rw [coin_minted, if_pos rfl]
    · obtain ⟨id, hnone, hsome⟩ := ih hfresh (by omega) hx
      refine ⟨id, ?_, hsome⟩
      rw [coin_minted] at hnone
      split_ifs at hnone
      exact hnone

lemma Decides.exists_payout_ne {c : Call} {tx : UInt64} {p : PendingSettlement}
    {ps : Payouts} {st : ClaimState} {r : Reply} (hd : Decides w c tx p ps st r)
    (hn : n + ps.length < 2 ^ 64) (hcov : ¬ Covered w p ps) :
    ∃ x ∈ ps, x.1.coerce ≠ escrowOwner := by
  by_contra hall
  push Not at hall
  have hout := worth_paidOut (fun u => decide (u.owner = escrowOwner)) h ps hn
  have hsum : (ps.map fun x =>
      share (fun u => decide (u.owner = escrowOwner)) ⟨x.1.coerce, x.2⟩) =
        ps.map fun x => x.2.toNat :=
    List.map_congr_left fun x hx => by rw [share_owner, if_pos (hall x hx)]
  rw [hsum] at hout
  refine hcov ?_
  have hadd := UInt64.toNat_add p.payment p.bond
  have hpay := hd.payoutSum_eq
  unfold Covered held
  unfold payoutSum at hpay
  omega

end Outputs

/-- A failing call leaves every output, every balance and every claim as it was iff it is
neither an `OpenOptimistic` that locks the payment and not the bond, nor a `Finalize` or `Challenge`
that passes its checks while the escrow does not hold what the claim locked. -/
theorem unchanged_iff (openMesh : Bool) (as : List Action) (c : Call)
    (hcount : issuedIn openMesh (as ++ [.call c]) < 2 ^ 64)
    (hfail : ∃ e, c.result (reached openMesh as) = .error e) :
    Unchanged (reached openMesh as) (c.after (reached openMesh as)) ↔
      ¬ HalfOpens (reached openMesh as) c ∧ ¬ Shortfall (reached openMesh as) c := by
  rw [issuedIn_concat] at hcount
  change _ + c.issued _ < _ at hcount
  have htidy := tidy_reached openMesh as (by omega)
  generalize reached openMesh as = w, issuedIn openMesh as = n at *
  constructor
  · rintro ⟨hcoin, -, -⟩
    constructor
    · rintro ⟨a, u, rfl, hu, hb, hv⟩
      rw [Call.issued_half hu hb hv] at hcount
      have hnone := coin_paid_input htidy.fresh hu.2.1 escrowOwner hcount
      have hsome := hcoin a.paymentInput
      rw [Call.after_half hu hb hv, paymentLocked, hnone, hu.2.1] at hsome
      cases hsome
    · rintro ⟨tx, p, ps, st, r, hd, hcov⟩
      rw [hd.issued_eq] at hcount
      obtain ⟨x, hx, hne⟩ := hd.exists_payout_ne htidy.fresh hcount hcov
      obtain ⟨id, hnone, hsome⟩ := exists_coin_paidOut htidy.fresh hcount hx
      have hid := hcoin id
      rw [Call.after, hd.run_exec_short hcov, hnone] at hid
      have hsome' : coin (withdrawn w p ps).store id = some ⟨x.1.coerce, x.2⟩ :=
        coin_released_of_ne _ _ hsome hne
      simp [hsome'] at hid
  · rintro ⟨hhalf, hshort⟩
    obtain ⟨e, he⟩ := hfail
    have ho := c.outcome w
    rw [he] at ho
    generalize c.issued w = k, c.after w = w' at ho
    cases ho with
    | half hne hu hb hv => exact absurd ⟨_, _, rfl, hu, hb, hv⟩ hhalf
    | short hd hcov => exact absurd ⟨_, _, _, _, _, hd, hcov⟩ hshort
    | refused hc hne => exact ⟨fun _ => rfl, fun _ => rfl, fun _ => rfl⟩

/-- The consumer "c" owns the output 1, worth ten credits. -/
def funded : List Action := [.call (.mint (.lit "c") 10)]

/-- A settlement of an output that is worth too little fails without an effect. -/
theorem unchanged_of_insufficient_settle :
    Unchanged (reached true funded) ((Call.settle 1 (.lit "p") 11).after (reached true funded)) := by
  refine (unchanged_iff true funded (.settle 1 (.lit "p") 11) (by decide +kernel)
    ⟨.insufficientValue, by decide +kernel⟩).mpr ⟨?_, ?_⟩
  · rintro ⟨a, u, h, -⟩
    cases h
  · rintro ⟨tx, p, ps, st, r, hd, -⟩
    cases hd

/-- An `OpenOptimistic` that fails on the bond has taken ten credits from the consumer, and a
`Finalize` that fails on the escrow has given ten credits to the provider. -/
theorem failing_calls_move_value :
    (unbondedOpen.result (reached true funded) = .error .noSuchUtxo ∧
        balanceReading (reached true funded) (.lit "c") = .ok 10 ∧
        balanceReading (unbondedOpen.after (reached true funded)) (.lit "c") = .ok 0) ∧
      (Call.finalize 1 5).result (reached true (robbedClaim.take 3)) = .error .escrowUnderflow ∧
        balanceReading (reached true (robbedClaim.take 3)) (.lit "p") = .ok 0 ∧
        balanceReading ((Call.finalize 1 5).after (reached true (robbedClaim.take 3))) (.lit "p") =
          .ok 10 := by
  decide +kernel

end Cerberus.Ledger
