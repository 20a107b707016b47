import Cerberus.Ledger.Freshness

/-!
# The life of a claim and the block height

A stored claim is never removed or replaced: it keeps its terms, and only its state changes, once,
when the claim is decided (`Follows`). The block height in memory is the saved one, and no call but
`AdvanceBlock` changes it (`SameHeight`).
-/

namespace Cerberus.Ledger

open Foundation

/-! ### Claims -/

/-- Every claim of `w` is still there in `w'` with the same terms; a claim that was not pending has
kept its state. -/
def Follows (w w' : LedgerWorld) : Prop :=
  ∀ tx p, claim w.store tx = some p →
    ∃ st, claim w'.store tx = some { p with state := st } ∧ (p.state ≠ .pending → st = p.state)

section Follows

variable {c : ℕ} {w w' w'' : LedgerWorld}

lemma Follows.of_claim_eq (h : ∀ tx, claim w'.store tx = claim w.store tx) : Follows w w' :=
  fun tx p hp => ⟨p.state, (h tx).trans hp, fun _ => rfl⟩

lemma Follows.refl (w : LedgerWorld) : Follows w w := .of_claim_eq fun _ => rfl

lemma Follows.trans (h : Follows w w') (h' : Follows w' w'') : Follows w w'' := by
  intro tx p hp
  obtain ⟨st, hst, hkept⟩ := h tx p hp
  obtain ⟨st', hst', hkept'⟩ := h' tx _ hst
  refine ⟨st', hst', fun hne => ?_⟩
  have hstate := hkept hne
  rw [← hstate] at hne ⊢
  exact hkept' hne

lemma Follows.opened (h : Filed c w.store) (hc : c + 1 < 2 ^ 64) (a : OpenArgs) :
    Follows w (opened w a) := by
  refine .trans (.of_claim_eq (claim_reserved w)) fun tx p hp => ⟨p.state, ?_, fun _ => rfl⟩
  have hne : tx ≠ (a.pendingClaim (nextTx w.store)).tx := by
    rintro rfl
    change claim _ (nextTx w.store) = _ at hp
    rw [claim_reserved] at hp
    obtain ⟨b, hb, -⟩ := claim_eq_some_iff.mp hp
    have hle := (h.stored (nextTx w.store) (by simp [hb])).2
    rw [h.next, toNat_ofNat_succ hc] at hle
    omega
  rw [Ledger.opened, claim_filed, if_neg hne, hp]

variable {tx : UInt64} {p : PendingSettlement} {st : ClaimState}

variable (h : Filed c w.store)
include h

lemma claim_closed (hp : claim w.store tx = some p) (ps : Payouts)
    (hst : st = .finalized ∨ st = .slashed) (tx' : UInt64) :
    claim (closed w p ps st).store tx' =
      if tx' = tx then some { p with state := st } else claim w.store tx' := by
  rw [closed, claim_filed, coerced_with_state hp (Or.inr hst), claim_withdrawn]
  simp only [h.tx_eq tx p hp]

lemma Follows.closed (hp : claim w.store tx = some p)
    (hpending : p.state = .pending) (ps : Payouts) (hst : st = .finalized ∨ st = .slashed) :
    Follows w (closed w p ps st) := by
  intro tx' q hq
  by_cases htx : tx' = tx
  · subst htx
    obtain rfl := Option.some.inj (hp.symm.trans hq)
    exact ⟨st, by rw [claim_closed h hp ps hst, if_pos rfl], fun hne => absurd hpending hne⟩
  · exact ⟨q.state, by rw [claim_closed h hp ps hst, if_neg htx, hq], fun _ => rfl⟩

theorem Follows.outcome {call : Call} {r : Except LedgerErr Reply} {k : ℕ}
    (ho : Outcome w call r k w') (hc : c + k < 2 ^ 64) : Follows w w' := by
  cases ho with
  | minted owner value => exact .of_claim_eq fun tx => claim_minted w owner value tx
  | settled payee hu => exact .of_claim_eq fun tx => claim_paid w _ _ payee _ tx
  | @unbonded a u hu hb =>
    have hpaid : Filed c (paymentLocked w a u).store := h.paid _ _ _ _
    exact .trans (.of_claim_eq fun tx => claim_paid w _ _ _ _ tx) (.opened hpaid (by omega) a)
  | @bonded a u v hu hb hv =>
    have hpaid : Filed c (bondLocked w a u v).store := (h.paid _ _ _ _).paid _ _ _ _
    refine .trans (.of_claim_eq fun tx => ?_) (.opened hpaid (by omega) a)
    rw [bondLocked, claim_paid, paymentLocked, claim_paid]
  | half he hu hb hv => exact .of_claim_eq fun tx => claim_paid w _ _ _ _ tx
  | decided hd hcov =>
    obtain ⟨-, hp, hpending⟩ := hd.isPending
    exact .closed h hp hpending _ hd.state_eq
  | short hd hcov => exact .of_claim_eq fun tx => claim_withdrawn w _ _ tx
  | advanced n =>
    exact .of_claim_eq fun tx => claim_put_of_hasPrefix hasPrefix_pendingPfx_metaBlock _ tx
  | recorded t =>
    refine .of_claim_eq fun tx => ?_
    rw [recorded, claim_put_of_hasPrefix (hasPrefix_pendingPfx_computeTxKey _),
      claim_put_of_hasPrefix hasPrefix_pendingPfx_metaNextComputeTx]
  | refused hc he => exact .refl w

end Follows

/-- The claim is decided. -/
def Settled (w : LedgerWorld) (tx : UInt64) : Prop :=
  ∃ p, claim w.store tx = some p ∧ p.state ≠ .pending

lemma Settled.follows {w w' : LedgerWorld} {tx : UInt64} (h : Settled w tx) (hw : Follows w w') :
    Settled w' tx := by
  obtain ⟨p, hp, hne⟩ := h
  obtain ⟨st, hst, hkept⟩ := hw tx p hp
  refine ⟨_, hst, ?_⟩
  rwa [hkept hne]

/-- The claim that a call decides. -/
def Call.subject : Call → Option UInt64
  | finalize tx _ => some tx
  | challenge tx .. => some tx
  | mint .. | settle .. | openOptimistic .. | advanceBlock .. | recordComputeTx .. => none

section Settled

variable {n : ℕ} {w : LedgerWorld} {c : Call} {tx : UInt64}

lemma Decides.subject_eq {p : PendingSettlement} {ps : Payouts} {st : ClaimState} {r : Reply}
    (h : Decides w c tx p ps st r) : c.subject = some tx := by
  cases h <;> rfl

lemma Call.exists_decides (htx : c.subject = some tx) (hok : c.Succeeds w) :
    ∃ p ps st r, Decides w c tx p ps st r ∧ Covered w p ps ∧ c.after w = closed w p ps st := by
  obtain ⟨r, hr⟩ := hok
  have ho := c.outcome w
  rw [hr] at ho
  generalize c.issued w = k, c.after w = w' at ho ⊢
  cases ho with
  | minted | settled | unbonded | bonded | advanced | recorded => cases htx
  | decided hd hcov =>
    obtain rfl := Option.some.inj (hd.subject_eq.symm.trans htx)
    exact ⟨_, _, _, _, hd, hcov, rfl⟩

lemma Tidy.settled_after (h : Tidy n w) (htx : c.subject = some tx) (hok : c.Succeeds w) :
    Settled (c.after w) tx := by
  obtain ⟨p, ps, st, r, hd, -, hafter⟩ := Call.exists_decides htx hok
  obtain ⟨i, -, hfiled⟩ := h.filed
  refine ⟨{ p with state := st }, ?_, ?_⟩
  · rw [hafter, claim_closed hfiled hd.isPending.2.1 ps hd.state_eq, if_pos rfl]
  · rcases hd.state_eq with rfl | rfl <;> simp

lemma Settled.not_succeeds (h : Settled w tx) (htx : c.subject = some tx) : ¬ c.Succeeds w := by
  intro hok
  obtain ⟨p, ps, st, r, hd, -, -⟩ := Call.exists_decides htx hok
  obtain ⟨-, hp, hpending⟩ := hd.isPending
  obtain ⟨q, hq, hne⟩ := h
  obtain rfl := Option.some.inj (hp.symm.trans hq)
  exact hne hpending

end Settled

/-! ### The block height -/

def savedBlock (m : Store) : UInt64 := ((m.get? metaBlock).bind Blob.uint64?).getD 0

/-- Neither copy of the block height changes. -/
structure SameHeight (w w' : LedgerWorld) : Prop where
  mem : w'.mem.block = w.mem.block
  store : w'.store.get? metaBlock = w.store.get? metaBlock

section Height

variable {w w' w'' : LedgerWorld}

lemma SameHeight.trans (h : SameHeight w w') (h' : SameHeight w' w'') : SameHeight w w'' :=
  ⟨h'.mem.trans h.mem, h'.store.trans h.store⟩

lemma sameHeight_put {k : GoString} (hk : metaBlock ≠ k) (b : Blob) (w : LedgerWorld) :
    SameHeight w ⟨w.mem, w.store.put k b⟩ :=
  ⟨rfl, by rw [OrdMap.get?_put, if_neg hk]⟩

lemma sameHeight_minted (w : LedgerWorld) (owner : GoString) (value : UInt64) :
    SameHeight w (minted w owner value) := by
  refine ⟨rfl, ?_⟩
  rw [minted, OrdMap.get?_put, if_neg (by decide), OrdMap.get?_put,
    if_neg (key_ne hasPrefix_utxoPfx_metaBlock _).symm]

lemma sameHeight_spent (w : LedgerWorld) (id : UInt64) : SameHeight w (spent w id) :=
  ⟨rfl, by rw [spent, OrdMap.get?_delete, if_neg (key_ne hasPrefix_utxoPfx_metaBlock _).symm]⟩

lemma sameHeight_paid (w : LedgerWorld) (id : UInt64) (u : Utxo) (payee : GoString)
    (amt : UInt64) : SameHeight w (paid w id u payee amt) := by
  refine SameHeight.trans ?_ (sameHeight_minted _ payee amt)
  unfold changed
  split_ifs
  · exact (sameHeight_spent w id).trans (sameHeight_minted _ _ _)
  · exact sameHeight_spent w id

lemma sameHeight_filed (w : LedgerWorld) (p : PendingSettlement) : SameHeight w (filed w p) :=
  sameHeight_put (pendingKey_ne hasPrefix_pendingPfx_metaBlock _).symm _ w

lemma sameHeight_opened (w : LedgerWorld) (a : OpenArgs) : SameHeight w (opened w a) :=
  (sameHeight_put (by decide) _ w).trans (sameHeight_filed _ _)

lemma sameHeight_paidOut (w : LedgerWorld) (ps : Payouts) : SameHeight w (paidOut w ps) := by
  induction ps generalizing w with
  | nil => exact ⟨rfl, rfl⟩
  | cons x ps ih => exact (sameHeight_minted w x.1 x.2).trans (ih _)

lemma sameHeight_withdrawn (w : LedgerWorld) (p : PendingSettlement) (ps : Payouts) :
    SameHeight w (withdrawn w p ps) :=
  (sameHeight_paidOut w ps).trans ⟨rfl, get?_released_of_hasPrefix _ _ hasPrefix_utxoPfx_metaBlock⟩

theorem Outcome.sameHeight {c : Call} {r : Except LedgerErr Reply} {k : ℕ}
    (ho : Outcome w c r k w') (hc : ∀ n, c ≠ .advanceBlock n) : SameHeight w w' := by
  cases ho with
  | minted owner value => exact sameHeight_minted w owner value
  | settled payee hu => exact sameHeight_paid w _ _ payee _
  | unbonded hu hb => exact (sameHeight_paid w _ _ _ _).trans (sameHeight_opened _ _)
  | bonded hu hb hv =>
    exact ((sameHeight_paid w _ _ _ _).trans (sameHeight_paid _ _ _ _ _)).trans
      (sameHeight_opened _ _)
  | half he hu hb hv => exact sameHeight_paid w _ _ _ _
  | decided hd hcov => exact (sameHeight_withdrawn w _ _).trans (sameHeight_filed _ _)
  | short hd hcov => exact sameHeight_withdrawn w _ _
  | advanced n => exact absurd rfl (hc n)
  | recorded t =>
    exact (sameHeight_put (by decide) _ w).trans
      (sameHeight_put (computeTxKey_ne (by decide) _).symm _ _)
  | refused hc he => exact ⟨rfl, rfl⟩

/-- The height in memory is the saved one. -/
def HeightSaved (w : LedgerWorld) : Prop := savedBlock w.store = w.mem.block

lemma HeightSaved.of_sameHeight (h : HeightSaved w) (hw : SameHeight w w') : HeightSaved w' := by
  rw [HeightSaved, savedBlock, hw.store, hw.mem]
  exact h

lemma heightSaved_advanced (w : LedgerWorld) (n : UInt64) : HeightSaved (advanced w n) := by
  rw [HeightSaved, savedBlock, advanced, OrdMap.get?_put, if_pos rfl, Option.bind_some,
    Blob.uint64?_ofUInt64, Option.getD_some]

lemma heightSaved_reopened (m : Store) (openMesh : Bool) : HeightSaved (reopened m openMesh) := rfl

end Height

end Cerberus.Ledger
