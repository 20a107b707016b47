import Cerberus.Foundation.Interleaving
import Cerberus.Ledger.DoubleSpend
import Cerberus.Ledger.Supply

/-!
# Reading the supply while others pay

`TotalSupply` does not take the lock of the ledger. It lists the keys in one transaction of the
store and then reads every output in a transaction of its own, so the writes of other calls can
reach the store before each of these reads. The other calls exclude each other: their writes are
those of a run (`runWrites`), and `others` cuts them at the reads.

A payment removes its input before it stores the change and the amount paid, and a reader may come
in between (`scanReading_eq_mintedValue_iff`).
-/

namespace Cerberus.Ledger

open Foundation

/-- What `TotalSupply` returns when the writes of `others` reach the store before its reads. -/
def scanReading (others : List (List LedgerWrite)) (w : LedgerWorld) : Except LedgerErr ℕ :=
  (totalSupply.runAmid others w).1.map UInt64.toNat

section Scan

variable (counted : Utxo → Bool) {others : List (List LedgerWrite)} {w : LedgerWorld}

lemma coinWeight_lt (k : GoString) (b : Blob) : coinWeight counted k b < 2 ^ 64 := by
  unfold coinWeight
  split_ifs
  · cases coinIn b with
    | none => exact Nat.two_pow_pos 64
    | some u =>
      dsimp only
      split_ifs
      · exact u.value.toNat_lt
      · exact Nat.two_pow_pos 64
  · exact Nat.two_pow_pos 64

/-- The loop over the keys adds up the weights the keys had at the beginning, if the writes that
arrive meanwhile leave the weights alone. -/
lemma runAmid_sumLoop (ks : List GoString) (sum : UInt64)
    (h : Write.Weightless (coinWeight counted) others.flatten w.store) :
    ((sumLoop counted ks sum).runAmid others w).1 =
      .ok (sum + UInt64.ofNat (ks.map (w.store.weightAt (coinWeight counted))).sum) := by
  induction ks generalizing sum others w with
  | nil => simp [sumLoop]
  | cons k ks ih =>
    rw [sumLoop_cons, List.map_cons, List.sum_cons, UInt64.ofNat_add, ← UInt64.add_assoc]
    by_cases hk : k.hasPrefix utxoPfx = true
    · rw [if_pos hk, storeGet, Proc.runAmid_bind, Proc.runAmid_getKey, ← h.weightAt_disturbed]
      exact ih _ h.tail
    · rw [if_neg hk, weightAt_eq_zero_of_hasPrefix _ _ (Bool.eq_false_iff.mpr hk)]
      simpa using ih sum h

lemma scanReading_of_weightless
    (h : Write.Weightless (coinWeight fun _ => true) others.flatten w.store) :
    scanReading others w = supplyReading w := by
  have hloop := runAmid_sumLoop (fun _ => true) (w.disturbed others).store.keys 0 h.tail
  rw [← OrdMap.sum_eq_sum_keys, h.sum_disturbed, UInt64.zero_add] at hloop
  rw [scanReading, totalSupply, storeKeys, Proc.runAmid_bind, Proc.runAmid_listKeys]
  dsimp only
  rw [hloop, supplyReading, run_totalSupply]
  rfl

lemma scanReading_singleton (ws : List LedgerWrite) (w : LedgerWorld) :
    scanReading [ws] w = supplyReading ⟨w.mem, Write.applyAll ws w.store⟩ := by
  rw [scanReading, totalSupply, storeKeys, Proc.runAmid_bind, Proc.runAmid_listKeys]
  dsimp only [List.tail_cons]
  rw [Proc.runAmid_nil]
  rfl

end Scan

/-- Every reading of the supply amid the writes of a list of calls is the value minted before
iff a reading that nobody disturbs is, and no write of the calls changes what the outputs
are worth. -/
theorem scanReading_eq_mintedValue_iff (openMesh : Bool) (as : List Action) (cs : List Call) :
    (∀ others : List (List LedgerWrite),
        others.flatten <+: runWrites (reached openMesh as) (cs.map .call) →
        scanReading others (reached openMesh as) = .ok (mintedValue as)) ↔
      supplyReading (reached openMesh as) = .ok (mintedValue as) ∧
        ∀ pre, pre <+: runWrites (reached openMesh as) (cs.map .call) →
          supply (Write.applyAll pre (reached openMesh as).store) % 2 ^ 64 =
            supply (reached openMesh as).store % 2 ^ 64 := by
  generalize reached openMesh as = w
  constructor
  · intro h
    have hall (pre : List LedgerWrite) (hpre : pre <+: runWrites w (cs.map .call)) :
        supply (Write.applyAll pre w.store) % 2 ^ 64 = mintedValue as := by
      have hread := h [pre] (by simpa using hpre)
      rw [scanReading_singleton, supplyReading_eq] at hread
      exact Except.ok.inj hread
    have hnone := hall [] List.nil_prefix
    exact ⟨by rw [supplyReading_eq]; exact congrArg _ hnone,
      fun pre hpre => (hall pre hpre).trans hnone.symm⟩
  · rintro ⟨halone, hsame⟩ others hothers
    have hquiet := Write.Weightless.of_sum_mod (coinWeight_lt fun _ => true) hsame
    rw [scanReading_of_weightless (hquiet.of_prefix hothers), halone]

variable {w : LedgerWorld} {input amt : UInt64} {u : Utxo}

lemma removal_prefix_writes (payee : GoString) (h : Spendable w input amt u) :
    [⟨.settle, key input, none⟩] <+: (Call.settle input payee amt).exec.writes w := by
  obtain ⟨hen, hcoin, hle⟩ := h
  obtain ⟨b, hb, hu⟩ := coin_eq_some_iff.mp hcoin
  have hlt : ¬ u.value < amt := by rwa [UInt64.not_lt]
  simp [Call.exec, settle, storeGet, storeDelete, Proc.writes_bind, Proc.run_bind, hen, hb,
    unmarshal_eq_ok_iff.mpr hu, hlt]

/-- Every settlement of an output that is worth something can be missed: a reading after its first
write lacks the output. -/
theorem settle_missed (payee : GoString) (h : Spendable w input amt u) (hpos : 0 < u.value) :
    ∃ others : List (List LedgerWrite),
      others.flatten <+: runWrites w [.call (.settle input payee amt)] ∧
        scanReading others w ≠ supplyReading w := by
  refine ⟨[[⟨.settle, key input, none⟩]], ?_, fun heq => ?_⟩
  · exact (removal_prefix_writes payee h).trans (List.prefix_append _ _)
  · rw [scanReading_singleton, supplyReading_eq, supplyReading_eq, Except.ok.injEq] at heq
    have hgone := worth_delete_key (fun _ => true) w.store input
    rw [h.2.1] at hgone
    change supply (w.store.delete (key input)) + u.value.toNat = supply w.store at hgone
    change supply (w.store.delete (key input)) % 2 ^ 64 = _ at heq
    have hlt := u.value.toNat_lt
    have hpos' := UInt64.lt_iff_toNat_lt.mp hpos
    simp only [UInt64.toNat_zero] at hpos'
    omega

def Sample.endowment : List Action := [.call (.mint (.lit "c") 10)]

def Sample.payment : Call := .settle 1 (.lit "m") 10

/-- Ten credits were minted, and `TotalSupply` returns ten before and after a payment that succeeds.
If it lists the keys before the payment and reads the listed output after it, it returns zero. -/
theorem payment_missed :
    let w := reached true Sample.endowment
    let others := [[], runWrites w [.call Sample.payment]]
    mintedValue Sample.endowment = 10 ∧ supplyReading w = .ok 10 ∧
      supplyReading (Sample.payment.after w) = .ok 10 ∧
      Sample.payment.result w = .ok (.number 2) ∧
      others.flatten <+: runWrites w [.call Sample.payment] ∧
      scanReading others w = .ok 0 := by
  refine ⟨by decide, by decide +kernel, by decide +kernel, by decide +kernel, ?_,
    by decide +kernel⟩
  simp

end Cerberus.Ledger
