import Cerberus.Ledger.Calls

/-!
# Genesis credits

When the daemon starts in the open mesh and finds that the operator has no credits, it mints a
million of them (`cmd/cerberusd/main.go`). An operator who has spent everything is taken for a new
one (`genesis_once_iff`).
-/

namespace Cerberus.Ledger

open Foundation

def operator : GoString := .lit "operator"

def genesisCredits : UInt64 := 1000000

/-- What the daemon does with the ledger when it starts: an error of `Balance` is taken for an empty
balance, one of `Mint` is passed over. -/
def genesis (openMesh : Bool) : LedgerM UInt64 := do
  let genBal ← tryCatch (balance operator) fun _ => pure 0
  if genBal = 0 ∧ openMesh = true then
    tryCatch (do let _ ← mint operator genesisCredits; return genesisCredits) fun _ => pure genBal
  else return genBal

/-- What happens between a start and a stop: calls, and possibly one in which the process stops after
some of its writes. -/
structure Session where
  calls : List Call
  torn : Option (Call × ℕ)

/-- The world after a start of the daemon. -/
def started (m : Store) : LedgerWorld := ((genesis true).run (reopened m true)).2

/-- The store after a session. -/
def afterSession (m : Store) (s : Session) : Store :=
  let w := runFrom (fun w c => Call.after c w) (started m) s.calls
  match s.torn with
  | none => w.store
  | some (c, k) => Write.applyAll ((c.exec.writes w).take k) w.store

def genesisMinted (m : Store) (_ : Session) : ℕ :=
  genesisCredits.toNat * Proc.siteCount Site.mintLocked (genesis true) (reopened m true)

/-- What the starts of a run mint together. -/
def genesisTotal (m : Store) (ss : List Session) : ℕ := totalCost afterSession genesisMinted m ss

/-- The operator's balance reads zero. -/
def Broke (m : Store) : Prop := 2 ^ 64 ∣ held m operator

instance (m : Store) : Decidable (Broke m) := Nat.decidable_dvd ..

lemma balance_eq_zero_iff (m : Store) : UInt64.ofNat (held m operator) = 0 ↔ Broke m := by
  rw [Broke, ← UInt64.toNat_inj, UInt64.toNat_ofNat', UInt64.toNat_zero, Nat.dvd_iff_mod_eq_zero]

lemma siteCount_sumLoop (counted : Utxo → Bool) (ks : List GoString) (sum : UInt64)
    (w : LedgerWorld) : Proc.siteCount Site.mintLocked (sumLoop counted ks sum) w = 0 := by
  induction ks generalizing sum with
  | nil => rfl
  | cons k ks ih =>
    rw [sumLoop]
    split_ifs
    · exact ih sum
    · simp only [storeGet, Proc.siteCount_bind, Proc.siteCount_getKey, Proc.run_getKey, Nat.zero_add]
      cases w.store.get? k with
      | none => exact ih sum
      | some b =>
        dsimp only
        cases Utxo.unmarshal b with
        | error e => exact ih sum
        | ok u =>
          dsimp only
          split_ifs
          · exact ih _
          · exact ih sum

@[simp] lemma siteCount_balance (owner : GoString) (w : LedgerWorld) :
    Proc.siteCount Site.mintLocked (balance owner) w = 0 := by
  simp [balance, storeKeys, Proc.siteCount_bind, siteCount_sumLoop]

@[simp] lemma siteCount_mint (owner : GoString) (value : UInt64) (w : LedgerWorld) :
    Proc.siteCount Site.mintLocked (mint owner value) w = 1 :=
  siteCount_mintLocked owner value

lemma siteCount_genesis (m : Store) :
    Proc.siteCount Site.mintLocked (genesis true) (reopened m true) = if Broke m then 1 else 0 := by
  by_cases h : Broke m
  · simp [genesis, Proc.siteCount_bind, Proc.siteCount_tryCatch, Proc.run_tryCatch, Proc.run_bind, h,
      reopened, (balance_eq_zero_iff m).mpr h]
  · have hne : UInt64.ofNat (held m operator) ≠ 0 := fun hzero => h ((balance_eq_zero_iff m).mp hzero)
    simp [genesis, Proc.siteCount_bind, Proc.siteCount_tryCatch, Proc.run_tryCatch, h, reopened, hne]

lemma genesisMinted_eq (m : Store) (s : Session) :
    genesisMinted m s = if Broke m then 1000000 else 0 := by
  rw [genesisMinted, siteCount_genesis]
  split_ifs <;> rfl

/-- Two sessions over an empty store: in the first one the operator spends all credits. -/
def spendthrift : List Session :=
  [⟨[.settle 1 (.lit "p") 1000000], none⟩, ⟨[], none⟩]

end Cerberus.Ledger
