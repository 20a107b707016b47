import Cerberus.Ledger.Discipline

/-!
# No double spend

An output that has been consumed is gone for good: its id has been given out, new outputs get later
ids, and no operation writes to the key of an output that is not there.
-/

namespace Cerberus.Ledger

open Foundation Nat

def Action.writes (w : LedgerWorld) : Action → List LedgerWrite
  | call c => c.exec.writes w
  | restart _ => []

/-- The writes of a run, in their order. -/
def runWrites : LedgerWorld → List Action → List LedgerWrite
  | _, [] => []
  | w, a :: as => a.writes w ++ runWrites (act w a) as

/-- The call names the output as an input. -/
def Call.Takes : Call → UInt64 → Prop
  | settle input _ _, id => input = id
  | openOptimistic a, id => a.paymentInput = id ∨ a.bondInput = id ∧ 0 < a.bond
  | mint .., _ | finalize .., _ | challenge .., _ | advanceBlock .., _ | recordComputeTx .., _ =>
    False

/-- The id was given out, and there is no output under it. -/
def Gone (n : ℕ) (w : LedgerWorld) (id : UInt64) : Prop :=
  id.toNat ≤ n ∧ w.store.get? (key id) = none

variable {payee : GoString}

section Ids

variable {n : ℕ} {w : LedgerWorld}

lemma issuedBy_eq_mintsIn (w : LedgerWorld) (a : Action) : issuedBy w a = mintsIn (a.writes w) := by
  cases a <;> rfl

lemma Action.serial (h : Fresh n w) (a : Action) : Serial n w.store (a.writes w) := by
  cases a with
  | call c => exact c.serial h
  | restart openMesh => exact Serial.nil n w.store

lemma Action.applyAll_writes (w : LedgerWorld) (a : Action) :
    Write.applyAll (a.writes w) w.store = (act w a).store := by
  cases a with
  | call c => exact Proc.applyAll_writes c.exec w
  | restart openMesh => rfl

theorem created_runWrites (h : Tidy n w) (as : List Action)
    (hn : n + totalCost act issuedBy w as < 2 ^ 64) :
    created (runWrites w as) =
      (List.range' (n + 1) (totalCost act issuedBy w as)).map fun i => key (UInt64.ofNat i) := by
  induction as generalizing n w with
  | nil => rfl
  | cons a as ih =>
    rw [totalCost_cons, ← add_assoc] at hn
    have hfirst := (a.serial h.fresh).created_eq
    have hrest := ih (h.act a (by omega)) hn
    rw [runWrites, created, List.filterMap_append, ← created, ← created, hfirst, hrest,
      totalCost_cons, issuedBy_eq_mintsIn, ← List.map_append, add_right_comm n,
      List.range'_append_1]

lemma Fresh.toNat_le_of_coin (h : Fresh n w) {id : UInt64} {u : Utxo}
    (hu : coin w.store id = some u) : id.toNat ≤ n := by
  obtain ⟨b, hb, -⟩ := coin_eq_some_iff.mp hu
  exact (h.live id (by simp [hb])).2

lemma get?_key_minted (h : Fresh n w) (hn : n + 1 < 2 ^ 64) {owner : GoString} {value id : UInt64}
    (hid : (minted w owner value).store.get? (key id) ≠ none) :
    w.store.get? (key id) ≠ none ∨ n < id.toNat := by
  rw [minted, OrdMap.get?_put, if_neg (key_ne hasPrefix_utxoPfx_metaNext id), OrdMap.get?_put] at hid
  split_ifs at hid with hkey
  · right
    rw [key_inj.mp hkey, h.next, toNat_ofNat_succ hn]
    omega
  · exact Or.inl hid

lemma get?_key_paid (h : Fresh n w) {input amt : UInt64} {u : Utxo}
    (hn : n + (changeCount u amt + 1) < 2 ^ 64) {id : UInt64}
    (hid : (paid w input u payee amt).store.get? (key id) ≠ none) :
    w.store.get? (key id) ≠ none ∧ id ≠ input ∨ n < id.toNat := by
  have hspent (hget : (spent w input).store.get? (key id) ≠ none) :
      w.store.get? (key id) ≠ none ∧ id ≠ input := by
    rw [spent, OrdMap.get?_delete] at hget
    split_ifs at hget with hkey
    · exact absurd rfl hget
    · exact ⟨hget, fun heq => hkey (by rw [heq])⟩
  have hchanged := h.changed input u amt (by omega)
  rcases get?_key_minted hchanged (by omega) hid with hget | hlt
  swap
  · right
    omega
  unfold changed changeCount at *
  split_ifs at hget hn
  · rcases get?_key_minted (h.spent input) (by omega) hget with hget | hlt
    · exact Or.inl (hspent hget)
    · exact Or.inr hlt
  · exact Or.inl (hspent hget)

lemma get?_key_opened (a : OpenArgs) (id : UInt64) :
    (opened w a).store.get? (key id) = w.store.get? (key id) := by
  rw [opened, filed, OrdMap.get?_put, if_neg (key_ne (hasPrefix_utxoPfx_pendingKey _) id), reserved,
    OrdMap.get?_put, if_neg (key_ne hasPrefix_utxoPfx_metaNextTx id)]

end Ids

/-! ### A consumed output stays consumed -/

section Gone

variable {n : ℕ} {w : LedgerWorld} {id : UInt64}

lemma Gone.act (h : Gone n w id) (hw : Fresh n w) (a : Action) (hn : n + issuedBy w a < 2 ^ 64) :
    Gone (n + issuedBy w a) (act w a) id := by
  refine ⟨h.1.trans (le_add_right _ _), ?_⟩
  by_contra hid
  rw [issuedBy_eq_mintsIn] at hn
  rw [← Action.applyAll_writes] at hid
  rcases (a.serial hw).get?_key hn hid with hget | hlt
  · exact hget h.2
  · exact absurd h.1 (by omega)

/-- An output that is gone does not come back in a run. -/
theorem Gone.run (h : Gone n w id) (hw : Tidy n w) (as : List Action)
    (hn : n + totalCost Ledger.act issuedBy w as < 2 ^ 64) :
    Gone (n + totalCost Ledger.act issuedBy w as) (runFrom Ledger.act w as) id := by
  have hstep : ∀ n w a, Tidy n w ∧ Gone n w id → True → n + issuedBy w a < 2 ^ 64 →
      Tidy (n + issuedBy w a) (Ledger.act w a) ∧ Gone (n + issuedBy w a) (Ledger.act w a) id :=
    fun n w a hw _ hn => ⟨hw.1.act a hn, hw.2.act hw.1.fresh a hn⟩
  exact (Along.invariant (P := fun _ _ => True) hstep ⟨hw, h⟩
    (along_iff_forall_split.mpr fun _ _ _ _ => trivial) hn).2

lemma Fresh.gone_paid (hw : Fresh n w) {u : Utxo} {amt : UInt64}
    (hu : coin w.store id = some u) (hn : n + (changeCount u amt + 1) < 2 ^ 64) :
    Gone (n + (changeCount u amt + 1)) (Ledger.paid w id u payee amt) id := by
  have hle := hw.toNat_le_of_coin hu
  refine ⟨by omega, ?_⟩
  by_contra hid
  rcases get?_key_paid hw hn hid with ⟨-, hne⟩ | hlt
  · exact hne rfl
  · omega

lemma Gone.paid (h : Gone n w id) (hw : Fresh n w) {input amt : UInt64} {u : Utxo}
    (hn : n + (changeCount u amt + 1) < 2 ^ 64) :
    Gone (n + (changeCount u amt + 1)) (Ledger.paid w input u payee amt) id := by
  refine ⟨h.1.trans (le_add_right _ _), ?_⟩
  by_contra hid
  rcases get?_key_paid hw hn hid with ⟨hget, -⟩ | hlt
  · exact hget h.2
  · exact absurd h.1 (by omega)

lemma Gone.opened (h : Gone n w id) (a : OpenArgs) : Gone n (Ledger.opened w a) id :=
  ⟨h.1, by rw [get?_key_opened]; exact h.2⟩

lemma Gone.coin_eq_none (h : Gone n w id) : coin w.store id = none := by
  rw [coin, h.2, Option.bind_none]

theorem Call.gone_of_takes {c : Call} (hw : Fresh n w) (htakes : c.Takes id) (hok : c.Succeeds w)
    (hn : n + c.issued w < 2 ^ 64) : Gone (n + c.issued w) (c.after w) id := by
  obtain ⟨r, hr⟩ := hok
  have ho := c.outcome w
  rw [hr] at ho
  generalize c.issued w = k, c.after w = w' at ho hn ⊢
  cases ho with
  | minted | advanced | recorded => exact htakes.elim
  | settled payee hu =>
    obtain rfl : _ = id := htakes
    exact hw.gone_paid hu.2.1 hn
  | @unbonded a u hu hb =>
    rcases htakes with hid | ⟨-, hpos⟩
    · subst hid
      have hgone : Gone _ (paymentLocked w a u) a.paymentInput := hw.gone_paid hu.2.1 hn
      exact hgone.opened a
    · simp [hb] at hpos
  | @bonded a u v hu hb hv =>
    rw [← add_assoc] at hn ⊢
    have hw₁ : Fresh _ (paymentLocked w a u) :=
      hw.paid a.paymentInput u escrowOwner a.payment (by omega)
    rcases htakes with hid | ⟨hid, -⟩
    · subst hid
      have hgone : Gone (n + (changeCount u a.payment + 1)) (paymentLocked w a u) a.paymentInput :=
        hw.gone_paid hu.2.1 (by omega)
      have hgone' : Gone _ (bondLocked w a u v) a.paymentInput := hgone.paid hw₁ hn
      exact hgone'.opened a
    · subst hid
      have hgone : Gone _ (bondLocked w a u v) a.bondInput := hw₁.gone_paid hv.1 hn
      exact hgone.opened a
  | decided hd hcov => cases hd <;> exact htakes.elim

theorem Call.not_succeeds_of_gone {c : Call} (hw : Fresh n w) (hgone : Gone n w id)
    (htakes : c.Takes id) (hn : n + c.issued w < 2 ^ 64) : ¬ c.Succeeds w := by
  rintro ⟨r, hr⟩
  have ho := c.outcome w
  rw [hr] at ho
  generalize c.issued w = k, c.after w = w' at ho hn
  have hnone := hgone.coin_eq_none
  cases ho with
  | minted | advanced | recorded => exact htakes
  | settled payee hu =>
    obtain rfl : _ = id := htakes
    simp [hu.2.1] at hnone
  | unbonded hu hb =>
    rcases htakes with rfl | ⟨-, hpos⟩
    · simp [hu.2.1] at hnone
    · simp [hb] at hpos
  | @bonded a u v hu hb hv =>
    rcases htakes with rfl | ⟨rfl, -⟩
    · simp [hu.2.1] at hnone
    · have hgone' : Gone _ (paymentLocked w a u) a.bondInput := hgone.paid hw (by omega)
      have hnone' := hgone'.coin_eq_none
      rw [hv.1] at hnone'
      cases hnone'
  | decided hd hcov => cases hd <;> exact htakes

end Gone

/-! ### Runs -/

lemma nodup_keys_range' (n k : ℕ) (h : n + k < 2 ^ 64) :
    ((List.range' (n + 1) k).map fun i => key (UInt64.ofNat i)).Nodup := by
  refine List.Nodup.map_on (fun i hi j hj hij => ?_) List.nodup_range'
  rw [List.mem_range'_1] at hi hj
  have heq := congrArg UInt64.toNat (key_inj.mp hij)
  rwa [UInt64.toNat_ofNat_of_lt' (by rw [UInt64.size]; omega),
    UInt64.toNat_ofNat_of_lt' (by rw [UInt64.size]; omega)] at heq

/-- **No double spend.** In every run with restarts that mints fewer than `2 ^ 64` outputs, no id
is created twice, and after a successful call has taken an output no later call that takes it
succeeds. -/
theorem no_double_spend (openMesh : Bool) (as : List Action)
    (hcount : issuedIn openMesh as < 2 ^ 64) :
    (created (runWrites (initial openMesh) as)).Nodup ∧
      ∀ (pre mid post : List Action) (c c' : Call) (id : UInt64),
        as = pre ++ .call c :: mid ++ .call c' :: post →
        c.Takes id → c.Succeeds (reached openMesh pre) →
        c'.Takes id → ¬ c'.Succeeds (reached openMesh (pre ++ .call c :: mid)) := by
  constructor
  · rw [created_runWrites (tidy_initial openMesh) as (by rwa [zero_add])]
    exact nodup_keys_range' 0 _ (by rwa [zero_add])
  · rintro pre mid post c c' id rfl htakes hok htakes'
    rw [issuedIn_append, issuedIn_append, totalCost_cons, totalCost_cons, ← add_assoc] at hcount
    rw [reached_append] at hcount ⊢
    rw [runFrom_cons] at hcount ⊢
    -- The output is gone after the first call, and it still is when the second one comes.
    have hpre := tidy_reached openMesh pre (by omega)
    have hfirst := hpre.act (.call c) (by omega)
    have hgone : Gone _ (act (reached openMesh pre) (.call c)) id :=
      c.gone_of_takes hpre.fresh htakes hok (show _ + issuedBy _ (.call c) < _ by omega)
    have hsecond := hfirst.run mid (by omega)
    have hgone' := hgone.run hfirst mid (show _ + issuedBy _ (.call c) + _ < _ by omega)
    exact c'.not_succeeds_of_gone hsecond.fresh hgone' htakes'
      (show _ + issuedBy _ (.call c') < _ by omega)

/-- An output is settled, and after a restart somebody tries to settle it again. -/
def settledTwice : List Action :=
  [.call (.mint (.lit "c") 10), .call (.settle 1 (.lit "p") 4), .restart true,
    .call (.settle 1 (.lit "q") 1)]

/-- The first settlement goes through, the second one does not. -/
theorem settledTwice_refused :
    (Call.settle 1 (.lit "p") 4).Succeeds (reached true (settledTwice.take 1)) ∧
      ¬ (Call.settle 1 (.lit "q") 1).Succeeds (reached true (settledTwice.take 3)) := by
  have hok : (Call.settle 1 (.lit "p") 4).Succeeds (reached true (settledTwice.take 1)) :=
    ⟨.number 3, by decide +kernel⟩
  exact ⟨hok, (no_double_spend true settledTwice (by decide +kernel)).2 (settledTwice.take 1)
    [.restart true] [] (.settle 1 (.lit "p") 4) (.settle 1 (.lit "q") 1) 1 rfl rfl hok rfl⟩

end Cerberus.Ledger
