import Cerberus.Ledger.Calls

/-!
# Fresh ids

The id counter of the ledger is kept in memory and, after every output, in the store; the counter of
claim ids is kept in the store alone. `Fresh n w` says that `n` outputs have been minted so far,
that both copies of the counter are ready to give out the id `n + 1`, and that no live output has a
later id. `Filed c m` says the same of claims, and that every claim is stored under its own id.

Both are kept by every call and by restarts as long as fewer than `2 ^ 64` outputs are minted
(`tidy_reached`).
-/

namespace Cerberus.Ledger

open Foundation

def savedNext (m : Store) : UInt64 := ((m.get? metaNext).bind Blob.uint64?).getD 1

/-- The ledger has minted `n` outputs: it will give out the id `n + 1` next, also after a restart,
and no live output has a later id. -/
structure Fresh (n : ℕ) (w : LedgerWorld) : Prop where
  next : w.mem.next = UInt64.ofNat (n + 1)
  saved : savedNext w.store = UInt64.ofNat (n + 1)
  live : ∀ id, w.store.get? (key id) ≠ none → 0 < id.toNat ∧ id.toNat ≤ n

/-- `c` claims were filed, each under its own id. -/
structure Filed (c : ℕ) (m : Store) : Prop where
  next : nextTx m = UInt64.ofNat (c + 1)
  stored : ∀ tx, m.get? (pendingKey tx) ≠ none → 0 < tx.toNat ∧ tx.toNat ≤ c
  /-- A claim names the id it is stored under. -/
  tx_eq : ∀ tx p, claim m tx = some p → p.tx = tx

/-- The id counters of the ledger are in order after `n` outputs have been minted. -/
structure Tidy (n : ℕ) (w : LedgerWorld) : Prop where
  fresh : Fresh n w
  /-- Every claim came with an output. -/
  filed : ∃ c ≤ n, Filed c w.store

variable {r : Except LedgerErr Reply}

section Fresh

variable {n : ℕ} {w w' : LedgerWorld}

lemma toNat_ofNat_succ (h : n + 1 < 2 ^ 64) : (UInt64.ofNat (n + 1)).toNat = n + 1 :=
  UInt64.toNat_ofNat_of_lt' h

lemma ofNat_succ_add_one : UInt64.ofNat (n + 1) + 1 = UInt64.ofNat (n + 1 + 1) :=
  (UInt64.ofNat_add (n + 1) 1).symm

variable (h : Fresh n w)
include h

lemma Fresh.get?_next (hn : n + 1 < 2 ^ 64) : w.store.get? (key w.mem.next) = none := by
  by_contra hlive
  have hle := (h.live _ hlive).2
  rw [h.next, toNat_ofNat_succ hn] at hle
  omega

lemma Fresh.coin_next (hn : n + 1 < 2 ^ 64) : coin w.store w.mem.next = none := by
  rw [coin, h.get?_next hn, Option.bind_none]

lemma Fresh.ne_next (hn : n + 1 < 2 ^ 64) {id : UInt64} {u : Utxo}
    (hu : coin w.store id = some u) : id ≠ w.mem.next := by
  rintro rfl
  simp [h.coin_next hn] at hu

lemma Fresh.of_frame (hmem : w'.mem.next = w.mem.next)
    (hsaved : w'.store.get? metaNext = w.store.get? metaNext)
    (hlive : ∀ id, w'.store.get? (key id) ≠ none → w.store.get? (key id) ≠ none) : Fresh n w' where
  next := hmem.trans h.next
  saved := by rw [savedNext, hsaved]; exact h.saved
  live id hid := h.live id (hlive id hid)

lemma Fresh.minted (hn : n + 1 < 2 ^ 64) (owner : GoString) (value : UInt64) :
    Fresh (n + 1) (minted w owner value) where
  next := by rw [mem_minted, h.next, ofNat_succ_add_one]
  saved := by
    rw [savedNext, Ledger.minted, OrdMap.get?_put, if_pos rfl, Option.bind_some,
      Blob.uint64?_ofUInt64, Option.getD_some, h.next, ofNat_succ_add_one]
  live id hid := by
    rw [Ledger.minted, OrdMap.get?_put, if_neg (key_ne hasPrefix_utxoPfx_metaNext id),
      OrdMap.get?_put] at hid
    split_ifs at hid with hkey
    · rw [key_inj.mp hkey, h.next, toNat_ofNat_succ hn]
      omega
    · have := h.live id hid
      omega

lemma Fresh.spent (id : UInt64) : Fresh n (spent w id) := by
  refine h.of_frame rfl ?_ fun id' hid' => ?_
  · rw [Ledger.spent, OrdMap.get?_delete, if_neg (key_ne hasPrefix_utxoPfx_metaNext id).symm]
  · rw [Ledger.spent, OrdMap.get?_delete] at hid'
    split_ifs at hid' with hkey
    · exact absurd rfl hid'
    · exact hid'

lemma Fresh.put {k : GoString} (hk : k.hasPrefix utxoPfx = false)
    (hk' : k ≠ metaNext) (b : Blob) (l : Ledger) (hl : l.next = w.mem.next) :
    Fresh n ⟨l, w.store.put k b⟩ := by
  refine h.of_frame hl ?_ fun id hid => ?_
  · rw [OrdMap.get?_put, if_neg hk'.symm]
  · rwa [OrdMap.get?_put, if_neg (key_ne hk id)] at hid

lemma Fresh.filed (p : PendingSettlement) : Fresh n (filed w p) :=
  h.put (hasPrefix_utxoPfx_pendingKey p.tx) (pendingKey_ne hasPrefix_pendingPfx_metaNext p.tx) _ _
    rfl

lemma Fresh.reserved : Fresh n (reserved w) :=
  h.put hasPrefix_utxoPfx_metaNextTx (by decide) _ _ rfl

lemma Fresh.advanced (k : UInt64) : Fresh n (advanced w k) :=
  h.put hasPrefix_utxoPfx_metaBlock (by decide) _ _ rfl

lemma Fresh.recorded (t : ComputeTx) : Fresh n (recorded w t) := by
  have h₁ := h.put hasPrefix_utxoPfx_metaNextComputeTx (by decide)
    (.ofUInt64 (nextComputeTx w.store + 1)) w.mem rfl
  exact h₁.put (hasPrefix_utxoPfx_computeTxKey _) (computeTxKey_ne (by decide) _) _ _ rfl

lemma Fresh.released (amt : UInt64) : Fresh n ⟨w.mem, (released w.store amt).1⟩ :=
  h.of_frame rfl (get?_released_of_hasPrefix _ _ hasPrefix_utxoPfx_metaNext)
    fun _ hid => get?_of_get?_released _ _ hid

lemma Fresh.changed (id : UInt64) (u : Utxo) (amt : UInt64) (hn : n + changeCount u amt < 2 ^ 64) :
    Fresh (n + changeCount u amt) (changed w id u amt) := by
  unfold changeCount Ledger.changed at *
  split_ifs at hn ⊢
  · exact (h.spent id).minted hn _ _
  · exact h.spent id

lemma Fresh.paid (id : UInt64) (u : Utxo) (payee : GoString) (amt : UInt64)
    (hn : n + (changeCount u amt + 1) < 2 ^ 64) :
    Fresh (n + (changeCount u amt + 1)) (paid w id u payee amt) :=
  (h.changed id u amt (by omega)).minted (by omega) payee amt

lemma Fresh.paidOut (ps : Payouts) (hn : n + ps.length < 2 ^ 64) :
    Fresh (n + ps.length) (paidOut w ps) := by
  induction ps generalizing n w with
  | nil => exact h
  | cons x ps ih =>
    rw [List.length_cons] at hn ⊢
    have := ih (h.minted (by omega) x.1 x.2) (by omega)
    rwa [Nat.add_assoc, Nat.add_comm 1] at this

lemma Fresh.withdrawn (p : PendingSettlement) (ps : Payouts)
    (hn : n + ps.length < 2 ^ 64) : Fresh (n + ps.length) (withdrawn w p ps) :=
  (h.paidOut ps hn).released _

theorem Fresh.outcome {c : Call} {k : ℕ}
    (ho : Outcome w c r k w') (hn : n + k < 2 ^ 64) : Fresh (n + k) w' := by
  cases ho with
  | minted owner value => exact h.minted hn owner value
  | settled payee hu => exact h.paid _ _ _ _ hn
  | unbonded hu hb => exact ((h.paid _ _ _ _ hn).reserved).filed _
  | bonded hu hb hv =>
    rw [← Nat.add_assoc] at hn ⊢
    exact (((h.paid _ _ _ _ (by omega)).paid _ _ _ _ hn).reserved).filed _
  | half he hu hb hv => exact h.paid _ _ _ _ hn
  | decided hd hcov => exact (h.withdrawn _ _ hn).filed _
  | short hd hcov => exact h.withdrawn _ _ hn
  | advanced n => exact h.advanced n
  | recorded t => exact h.recorded t
  | refused hc he => exact h

end Fresh

/-! ### Claims -/

section Filed

variable {c : ℕ} {m m' : Store}

lemma Filed.of_frame (h : Filed c m) (hnext : m'.get? metaNextTx = m.get? metaNextTx)
    (hget : ∀ tx, m'.get? (pendingKey tx) = m.get? (pendingKey tx)) : Filed c m' where
  next := by rw [nextTx, hnext]; exact h.next
  stored tx htx := h.stored tx (by rwa [hget] at htx)
  tx_eq tx p hp := h.tx_eq tx p (by rwa [claim, hget] at hp)

lemma Filed.put (h : Filed c m) {k : GoString} (hk : k.hasPrefix pendingPfx = false)
    (hk' : k ≠ metaNextTx) (b : Blob) : Filed c (m.put k b) := by
  refine h.of_frame ?_ fun tx => ?_
  · rw [OrdMap.get?_put, if_neg hk'.symm]
  · rw [OrdMap.get?_put, if_neg (pendingKey_ne hk tx)]

variable {w : LedgerWorld}

variable (h : Filed c w.store)
include h

lemma Filed.minted (owner : GoString) (value : UInt64) : Filed c (minted w owner value).store :=
  (h.put (hasPrefix_pendingPfx_key _) (key_ne hasPrefix_utxoPfx_metaNextTx _) _).put
    hasPrefix_pendingPfx_metaNext (by decide) _

lemma Filed.spent (id : UInt64) : Filed c (spent w id).store := by
  refine h.of_frame ?_ fun tx => ?_
  · rw [Ledger.spent, OrdMap.get?_delete, if_neg (key_ne hasPrefix_utxoPfx_metaNextTx id).symm]
  · rw [Ledger.spent, OrdMap.get?_delete, if_neg (pendingKey_ne (hasPrefix_pendingPfx_key id) tx)]

lemma Filed.paid (id : UInt64) (u : Utxo) (payee : GoString) (amt : UInt64) :
    Filed c (paid w id u payee amt).store := by
  refine Filed.minted ?_ payee amt
  unfold changed
  split_ifs
  · exact (h.spent id).minted _ _
  · exact h.spent id

lemma Filed.paidOut (ps : Payouts) : Filed c (paidOut w ps).store := by
  induction ps generalizing w with
  | nil => exact h
  | cons x ps ih => exact ih (h.minted x.1 x.2)

lemma Filed.withdrawn (p : PendingSettlement) (ps : Payouts) : Filed c (withdrawn w p ps).store :=
  (h.paidOut ps).of_frame (get?_released_of_hasPrefix _ _ hasPrefix_utxoPfx_metaNextTx)
    fun tx => get?_released_of_hasPrefix _ _ (hasPrefix_utxoPfx_pendingKey tx)

lemma Filed.opened (hc : c + 1 < 2 ^ 64) (a : OpenArgs) :
    Filed (c + 1) (opened w a).store where
  next := by rw [Ledger.opened, nextTx_filed, nextTx_reserved, h.next, ofNat_succ_add_one]
  stored tx htx := by
    rw [Ledger.opened, filed, OrdMap.get?_put] at htx
    split_ifs at htx with hkey
    · rw [pendingKey_inj.mp hkey, OpenArgs.pendingClaim, h.next, toNat_ofNat_succ hc]
      omega
    · rw [reserved, OrdMap.get?_put, if_neg (pendingKey_ne hasPrefix_pendingPfx_metaNextTx tx)]
        at htx
      have := h.stored tx htx
      omega
  tx_eq tx p hp := by
    rw [Ledger.opened, claim_filed] at hp
    split_ifs at hp with htx
    · cases hp
      exact htx.symm
    · rw [claim_reserved] at hp
      exact h.tx_eq tx p hp

lemma Filed.closed {tx : UInt64} {p : PendingSettlement}
    (hp : claim w.store tx = some p) (ps : Payouts) (st : ClaimState) :
    Filed c (closed w p ps st).store := by
  have h' := h.withdrawn p ps
  obtain rfl := h.tx_eq tx p hp
  have hstored : w.store.get? (pendingKey p.tx) ≠ none := by
    obtain ⟨b, hb, -⟩ := claim_eq_some_iff.mp hp
    simp [hb]
  refine ⟨?_, fun tx htx => ?_, fun tx q hq => ?_⟩
  · rw [Ledger.closed, nextTx_filed]
    exact h'.next
  · rw [Ledger.closed, filed, OrdMap.get?_put] at htx
    split_ifs at htx with hkey
    · rw [pendingKey_inj.mp hkey]
      exact h.stored _ hstored
    · exact h'.stored tx htx
  · rw [Ledger.closed, claim_filed] at hq
    split_ifs at hq with htx
    · cases hq
      exact htx.symm
    · exact h'.tx_eq tx q hq

/-- Every call keeps the claims in order and opens no more claims than it mints outputs. -/
theorem Filed.outcome {w' : LedgerWorld} {call : Call} {k : ℕ} (ho : Outcome w call r k w')
    (hc : c + k < 2 ^ 64) : ∃ c' ≤ c + k, Filed c' w'.store := by
  cases ho with
  | minted owner value => exact ⟨c, by omega, h.minted owner value⟩
  | settled payee hu => exact ⟨c, by omega, h.paid _ _ _ _⟩
  | unbonded hu hb => exact ⟨c + 1, by omega, (h.paid _ _ _ _).opened (by omega) _⟩
  | bonded hu hb hv =>
    exact ⟨c + 1, by omega, ((h.paid _ _ _ _).paid _ _ _ _).opened (by omega) _⟩
  | half he hu hb hv => exact ⟨c, by omega, h.paid _ _ _ _⟩
  | decided hd hcov => exact ⟨c, by omega, h.closed hd.isPending.2.1 _ _⟩
  | short hd hcov => exact ⟨c, by omega, h.withdrawn _ _⟩
  | advanced n => exact ⟨c, by omega, h.put hasPrefix_pendingPfx_metaBlock (by decide) _⟩
  | recorded t =>
    exact ⟨c, by omega, (h.put hasPrefix_pendingPfx_metaNextComputeTx (by decide) _).put
      (hasPrefix_pendingPfx_computeTxKey _) (computeTxKey_ne (by decide) _) _⟩
  | refused hc he => exact ⟨_, by omega, h⟩

end Filed

/-! ### Runs -/

section Tidy

variable {n : ℕ} {w w' : LedgerWorld}

theorem Tidy.outcome {c : Call} {k : ℕ} (h : Tidy n w)
    (ho : Outcome w c r k w') (hn : n + k < 2 ^ 64) : Tidy (n + k) w' := by
  obtain ⟨i, hi, hfiled⟩ := h.filed
  obtain ⟨i', hi', hfiled'⟩ := hfiled.outcome ho (by omega)
  exact ⟨h.fresh.outcome ho hn, i', by omega, hfiled'⟩

lemma Tidy.reopened (h : Tidy n w) (openMesh : Bool) : Tidy n (reopened w.store openMesh) where
  fresh := ⟨h.fresh.saved, h.fresh.saved, h.fresh.live⟩
  filed := h.filed

theorem Tidy.act (h : Tidy n w) (a : Action) (hn : n + issuedBy w a < 2 ^ 64) :
    Tidy (n + issuedBy w a) (act w a) := by
  cases a with
  | call c => exact h.outcome (c.outcome w) hn
  | restart openMesh => exact h.reopened openMesh

lemma tidy_initial (openMesh : Bool) : Tidy 0 (initial openMesh) where
  fresh :=
    { next := rfl
      saved := rfl
      live := fun _ hid => absurd rfl hid }
  filed := ⟨0, le_rfl,
    { next := rfl
      stored := fun _ htx => absurd rfl htx
      tx_eq := fun _ _ hp => by cases hp }⟩

theorem Tidy.run (h : Tidy n w) (as : List Action)
    (hn : n + totalCost Ledger.act issuedBy w as < 2 ^ 64) :
    Tidy (n + totalCost Ledger.act issuedBy w as) (runFrom Ledger.act w as) :=
  Along.invariant (P := fun _ _ => True) (fun _ _ a h _ hn => h.act a hn) h
    (along_iff_forall_split.mpr fun _ _ _ _ => trivial) hn

/-- In every run that mints fewer than `2 ^ 64` outputs the counters stay in order. -/
theorem tidy_reached (openMesh : Bool) (as : List Action) (h : issuedIn openMesh as < 2 ^ 64) :
    Tidy (issuedIn openMesh as) (reached openMesh as) := by
  have := (tidy_initial openMesh).run as
  simp only [Nat.zero_add] at this
  exact this h

end Tidy

end Cerberus.Ledger
