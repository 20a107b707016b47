import Cerberus.Ledger.Freshness

/-!
# Conservation of the supply

A payment and a lock conserve the supply, also when the call they belong to fails later. `Finalize`
and `Challenge` mint their payouts first and then take the same amount out of escrow; if the escrow
does not hold that much (`Shortfall`) they fail with the payouts made, and the supply has grown.
`totalSupply_eq_mintedValue_iff` says that this is the only way in which a run loses conservation.
-/

namespace Cerberus.Ledger

open Foundation List

/-! ### What payments and payouts are worth -/

section Worth

variable {n : ℕ} {w : LedgerWorld} (counted : Utxo → Bool)

@[simp] lemma share_zero (owner : GoString) : share counted ⟨owner, 0⟩ = 0 := by
  simp [share]

variable {id amt : UInt64} {u : Utxo}

lemma coerce_owner_of_coin {m : Store} (h : coin m id = some u) : u.owner.coerce = u.owner := by
  obtain ⟨b, -, hu⟩ := coin_eq_some_iff.mp h
  exact coerce_owner_of_coinIn hu

section

variable (h : Fresh n w) (hu : coin w.store id = some u) (hle : amt ≤ u.value)
include h hu hle

lemma worth_changed (hn : n + changeCount u amt < 2 ^ 64) :
    worth counted (changed w id u amt).store + share counted u =
      worth counted w.store + share counted ⟨u.owner, u.value - amt⟩ := by
  have hspent := worth_spent w id counted hu
  unfold changeCount at hn
  unfold changed
  split_ifs at hn ⊢ with hgt
  · rw [worth_minted_of_fresh _ _ _ _ ((h.spent id).coin_next hn), coerce_owner_of_coin hu]
    omega
  · have heq : u.value = amt := UInt64.le_antisymm (UInt64.not_lt.mp hgt) hle
    rw [heq, UInt64.sub_self, share_zero]
    exact hspent

lemma worth_paid (payee : GoString) (hn : n + (changeCount u amt + 1) < 2 ^ 64) :
    worth counted (paid w id u payee amt).store + share counted u =
      worth counted w.store + share counted ⟨u.owner, u.value - amt⟩ +
        share counted ⟨payee.coerce, amt⟩ := by
  have hchanged := worth_changed counted h hu hle (by omega)
  have hfresh := h.changed id u amt (by omega)
  rw [paid, worth_minted_of_fresh _ _ _ _ (hfresh.coin_next (by omega))]
  omega

end

lemma worth_paidOut (h : Fresh n w) (ps : Payouts) (hn : n + ps.length < 2 ^ 64) :
    worth counted (paidOut w ps).store =
      worth counted w.store + (ps.map fun x => share counted ⟨x.1.coerce, x.2⟩).sum := by
  induction ps generalizing n w with
  | nil => rfl
  | cons x ps ih =>
    rw [length_cons] at hn
    have hmint := worth_minted_of_fresh w x.1 x.2 counted (h.coin_next (by omega))
    have hrest := ih (h.minted (by omega) x.1 x.2) (by omega)
    rw [map_cons, sum_cons, ← Nat.add_assoc, ← hmint]
    exact hrest

end Worth

/-! ### The supply -/

section Supply

variable {n : ℕ} {w : LedgerWorld}

@[simp] lemma share_true (u : Utxo) : share (fun _ => true) u = u.value.toNat := rfl

lemma supply_paid (h : Fresh n w) {id amt : UInt64} {u : Utxo} (hu : coin w.store id = some u)
    (hle : amt ≤ u.value) (payee : GoString) (hn : n + (changeCount u amt + 1) < 2 ^ 64) :
    supply (paid w id u payee amt).store = supply w.store := by
  have hpaid := worth_paid (fun _ => true) h hu hle payee hn
  have hle' := UInt64.le_iff_toNat_le.mp hle
  simp only [share_true, UInt64.toNat_sub_of_le _ _ hle] at hpaid
  unfold supply
  omega

def payoutSum (ps : Payouts) : ℕ := (ps.map fun x => x.2.toNat).sum

lemma supply_withdrawn (h : Fresh n w) (p : PendingSettlement) (ps : Payouts)
    (hn : n + ps.length < 2 ^ 64) :
    supply (withdrawn w p ps).store + (p.payment + p.bond).toNat =
      supply w.store + payoutSum ps +
        ((p.payment + p.bond).toNat - held (paidOut w ps).store escrowOwner) := by
  have hrel := supply_released (paidOut w ps).store (p.payment + p.bond)
  rw [released_snd] at hrel
  have hout := worth_paidOut (fun _ => true) h ps hn
  simp only [share_true] at hout
  unfold supply payoutSum at *
  rw [← hout]
  exact hrel

variable {c : Call} {tx : UInt64} {p : PendingSettlement} {ps : Payouts} {st : ClaimState}
  {r : Reply}

/-- The payouts of a decision are worth what the claim locked; `Finalize` adds the two amounts up
modulo `2 ^ 64` first. -/
lemma Decides.payoutSum_eq (h : Decides w c tx p ps st r) :
    payoutSum ps = (p.payment + p.bond).toNat ∨ payoutSum ps = p.payment.toNat + p.bond.toNat := by
  cases h with
  | finalize h => exact Or.inl (by simp [payoutSum, finalPayouts])
  | challenge challenger h =>
    refine Or.inr ?_
    by_cases hb : 0 < p.bond
    · simp [payoutSum, slashPayouts, hb]
    · have hb' : p.bond.toNat = 0 := by simpa [UInt64.lt_iff_toNat_lt] using hb
      simp [payoutSum, slashPayouts, hb, hb']

lemma Decides.payoutSum_mod (h : Decides w c tx p ps st r) :
    payoutSum ps % 2 ^ 64 = (p.payment + p.bond).toNat := by
  have hlt := (p.payment + p.bond).toNat_lt
  have hadd := UInt64.toNat_add p.payment p.bond
  rcases h.payoutSum_eq with heq | heq <;> rw [heq] <;> omega

lemma Decides.supply_closed (h : Fresh n w) (hd : Decides w c tx p ps st r)
    (hn : n + ps.length < 2 ^ 64) (hcov : Covered w p ps)
    (hsum : (p.payment + p.bond).toNat = p.payment.toNat + p.bond.toNat) :
    supply (closed w p ps st).store = supply w.store := by
  have hw := supply_withdrawn h p ps hn
  have hpay := hd.payoutSum_eq
  unfold Covered at hcov
  rw [closed, supply_filed]
  omega

end Supply

/-! ### Calls -/

/-- The call passes all checks on a claim, but the escrow does not hold what the claim locked. -/
def Shortfall (w : LedgerWorld) (c : Call) : Prop :=
  ∃ tx p ps st r, Decides w c tx p ps st r ∧ ¬ Covered w p ps

def Call.mintValue : Call → ℕ
  | mint _ value => value.toNat
  | _ => 0

section Calls

variable {n : ℕ} {w : LedgerWorld} {c : Call}

lemma Decides.mintValue_eq_zero {tx : UInt64} {p : PendingSettlement} {ps : Payouts}
    {st : ClaimState} {r : Reply} (h : Decides w c tx p ps st r) : c.mintValue = 0 := by
  cases h <;> rfl

variable (h : Fresh n w) (hn : n + c.issued w < 2 ^ 64)
include h hn

/-- A call without a shortfall conserves the supply, modulo `2 ^ 64`. -/
theorem supply_after_of_not_shortfall (hs : ¬ Shortfall w c) :
    supply (c.after w).store % 2 ^ 64 = (supply w.store + c.mintValue) % 2 ^ 64 := by
  have ho := c.outcome w
  generalize c.result w = r, c.issued w = k, c.after w = w' at ho hn
  cases ho with
  | minted owner value =>
    have := worth_minted_of_fresh w owner value (fun _ => true) (h.coin_next hn)
    rw [supply, this]
    rfl
  | settled payee hu =>
    rw [supply_paid h hu.2.1 hu.2.2 payee hn]
    rfl
  | unbonded hu hb =>
    rw [supply_opened, paymentLocked, supply_paid h hu.2.1 hu.2.2.2 escrowOwner hn]
    rfl
  | @bonded a u v hu hb hv =>
    have hlocked := h.paid a.paymentInput u escrowOwner a.payment (by omega)
    rw [← Nat.add_assoc] at hn
    rw [supply_opened, bondLocked, paymentLocked,
      supply_paid hlocked hv.1 hv.2.2 escrowOwner hn,
      supply_paid h hu.2.1 hu.2.2.2 escrowOwner (by omega)]
    rfl
  | half he hu hb hv =>
    rw [paymentLocked, supply_paid h hu.2.1 hu.2.2.2 escrowOwner hn]
    rfl
  | @decided _ tx p ps st r hd hcov =>
    have hw := supply_withdrawn h p ps hn
    have hp := hd.payoutSum_mod
    unfold Covered at hcov
    rw [closed, supply_filed, hd.mintValue_eq_zero]
    omega
  | short hd hcov => exact absurd ⟨_, _, _, _, _, hd, hcov⟩ hs
  | advanced n => simp [supply, Call.mintValue]
  | recorded t => simp [supply, Call.mintValue]
  | @refused c hc => cases c <;> first | rfl | cases hc

/-- A call with a shortfall raises the supply. -/
theorem supply_after_of_shortfall (hs : Shortfall w c) :
    supply (c.after w).store % 2 ^ 64 ≠ (supply w.store + c.mintValue) % 2 ^ 64 := by
  obtain ⟨tx, p, ps, st, r, hd, hcov⟩ := hs
  rw [hd.issued_eq] at hn
  have hw := supply_withdrawn h p ps hn
  have hp := hd.payoutSum_mod
  have hlt := (p.payment + p.bond).toNat_lt
  unfold Covered at hcov
  rw [Call.after, hd.run_exec_short hcov, hd.mintValue_eq_zero]
  dsimp only
  omega

end Calls

/-! ### Runs -/

def Action.mintValue : Action → ℕ
  | call c => c.mintValue
  | restart _ => 0

/-- All that a run passes to `Mint`. -/
def mintedValue (as : List Action) : ℕ := (as.map Action.mintValue).sum

def NoShortfall (w : LedgerWorld) : Action → Prop
  | .call c => ¬ Shortfall w c
  | .restart _ => True

/-- What `TotalSupply` returns. -/
def supplyReading (w : LedgerWorld) : Except LedgerErr ℕ := (totalSupply.run w).1.map UInt64.toNat

lemma supplyReading_eq (w : LedgerWorld) : supplyReading w = .ok (supply w.store % 2 ^ 64) := by
  rw [supplyReading, run_totalSupply]
  exact congrArg Except.ok (UInt64.toNat_ofNat' ..)

@[simp] lemma supply_initial (openMesh : Bool) : supply (initial openMesh).store = 0 := rfl

lemma mintedValue_append (as as' : List Action) :
    mintedValue (as ++ as') = mintedValue as + mintedValue as' := by
  simp [mintedValue]

section Runs

variable {n : ℕ} {w : LedgerWorld}

theorem supply_act_iff (h : Fresh n w) (a : Action) (hn : n + issuedBy w a < 2 ^ 64) :
    supply (act w a).store % 2 ^ 64 = (supply w.store + a.mintValue) % 2 ^ 64 ↔
      NoShortfall w a := by
  cases a with
  | call c =>
    refine ⟨fun heq hs => supply_after_of_shortfall h hn hs heq, fun hs => ?_⟩
    exact supply_after_of_not_shortfall h hn hs
  | restart openMesh => exact ⟨fun _ => trivial, fun _ => rfl⟩

theorem supply_run (h : Tidy n w) (as : List Action)
    (hn : n + totalCost act issuedBy w as < 2 ^ 64) (hs : Along act NoShortfall w as) :
    supply (runFrom act w as).store % 2 ^ 64 = (supply w.store + mintedValue as) % 2 ^ 64 := by
  induction as generalizing n w with
  | nil => rfl
  | cons a as ih =>
    rw [totalCost_cons, ← Nat.add_assoc] at hn
    have hfirst := (supply_act_iff h.fresh a (by omega)).mpr hs.1
    have hrest := ih (h.act a (by omega)) hn hs.2
    rw [mintedValue, map_cons, sum_cons, ← mintedValue, runFrom_cons]
    omega

end Runs

/-- `TotalSupply` follows the values passed to `Mint` through a run iff no `Finalize` or
`Challenge` of the run passes its checks in a state whose escrow does not hold what the claim
locked. -/
theorem totalSupply_eq_mintedValue_iff (openMesh : Bool) (as : List Action)
    (hcount : issuedIn openMesh as < 2 ^ 64) (hvalue : mintedValue as < 2 ^ 64) :
    (∀ pre, pre <+: as → supplyReading (reached openMesh pre) = .ok (mintedValue pre)) ↔
      Along act NoShortfall (initial openMesh) as := by
  constructor
  · intro hread
    refine along_iff_forall_split.mpr fun pre a post has => ?_
    have has' : as = (pre ++ [a]) ++ post := by simp [has]
    have h₁ := hread pre ⟨a :: post, has.symm⟩
    have h₂ := hread (pre ++ [a]) ⟨post, has'.symm⟩
    rw [has', issuedIn_append, issuedIn_concat] at hcount
    rw [supplyReading_eq, Except.ok.injEq] at h₁ h₂
    rw [reached_concat, mintedValue_append, show mintedValue [a] = a.mintValue from rfl] at h₂
    have htidy := tidy_reached openMesh pre (by omega)
    refine (supply_act_iff htidy.fresh a (by omega)).mp ?_
    omega
  · rintro hs pre ⟨post, rfl⟩
    rw [issuedIn_append] at hcount
    rw [mintedValue_append] at hvalue
    have hrun := supply_run (tidy_initial openMesh) pre
      (by rw [Nat.zero_add]; exact (Nat.le_add_right ..).trans_lt hcount) (along_append.mp hs).1
    rw [supplyReading_eq, reached, hrun, supply_initial, Nat.zero_add, Nat.mod_eq_of_lt (by omega)]

/-- A claim of ten credits, without a bond, that the consumer "c" opens on its output 1 for the
provider "p". -/
def sampleOpen : Call :=
  .openOptimistic
    { now := 0
      paymentInput := 1
      consumer := .lit "c"
      payment := 10
      bondInput := 0
      provider := .lit "p"
      bond := 0
      disputeBlocks := 1
      binding := ⟨.lit "task", .lit "component", .lit "input", .lit "output"⟩ }

/-- Ten credits are minted, locked by a claim and paid to the provider. -/
def paidClaim : List Action :=
  [.call (.mint (.lit "c") 10), .call sampleOpen, .call (.finalize 1 5)]

/-- The same run, but before the claim is finalized somebody settles the escrow-owned output 2. -/
def robbedClaim : List Action :=
  [.call (.mint (.lit "c") 10), .call sampleOpen, .call (.settle 2 (.lit "m") 10),
    .call (.finalize 1 5)]

/-- In a run that leaves the escrow alone, no payout falls short. -/
theorem paidClaim_noShortfall : Along act NoShortfall (initial true) paidClaim := by
  refine (totalSupply_eq_mintedValue_iff true paidClaim (by decide +kernel) (by decide)).mp ?_
  have hinits : ∀ pre ∈ paidClaim.inits,
      supplyReading (reached true pre) = .ok (mintedValue pre) := by decide +kernel
  exact fun pre hpre => hinits pre ((mem_inits pre paidClaim).mpr hpre)

/-- Once the escrow has been settled away, finalizing the claim doubles the supply: ten credits were
minted, and `TotalSupply` returns twenty. -/
theorem robbedClaim_totalSupply : mintedValue robbedClaim = 10 ∧
    supplyReading (reached true robbedClaim) = .ok 20 := by
  decide +kernel

end Cerberus.Ledger
