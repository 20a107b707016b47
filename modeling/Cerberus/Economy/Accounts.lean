import Cerberus.Economy.Calls

/-!
# Accounts of the reference ledger

What each change of a ledger in order does to the balance of an owner.
-/

namespace Cerberus.Economy

open Foundation Fallible

/-- What an owner gets of the payouts. -/
def payoutTo (ps : Payouts) (owner : PeerId) : ℕ := (ps.map fun x => part owner x.1 x.2).sum

section Held

variable {l : Ledger} (owner : PeerId)

lemma Sound.get?_next (h : Sound l) : l.utxos.get? l.next.toNat = none := by
  by_contra hne
  exact absurd (h.fresh _ hne) (lt_irrefl _)

lemma Sound.held_minted (h : Sound l) (owner' : PeerId) (value : UInt64) :
    held (Economy.minted l owner' value) owner = held l owner + part owner owner' value := by
  have hsum := OrdMap.sum_put (weight owner) l.utxos l.next.toNat (⟨owner', value⟩ : Utxo)
  rw [OrdMap.weightAt, h.get?_next] at hsum
  exact hsum

lemma held_remove {id : UInt64} {u : Utxo} (hu : l.getUtxo id = some u) :
    held (l.remove id) owner + part owner u.owner u.value = held l owner := by
  have hsum := OrdMap.sum_delete (weight owner) l.utxos id.toNat
  rw [Ledger.getUtxo] at hu
  rw [OrdMap.weightAt, hu] at hsum
  exact hsum

/-- Payouts raise the balance of an owner by what goes to this owner. -/
theorem Sound.held_paidOut (h : Sound l) {ps : Payouts} (hroom : Room ps.length l) :
    held (Economy.paidOut l ps) owner = held l owner + payoutTo ps owner := by
  induction ps generalizing l with
  | nil => rfl
  | cons x ps ih =>
    have hroom₁ : Room 1 l := hroom.mono (by simp)
    have hrest := ih (h.minted hroom₁ x.1 x.2) (hroom.minted x.1 x.2)
    rw [h.held_minted owner, Nat.add_assoc] at hrest
    exact hrest

variable (env : Env)

theorem held_burnt_escrow (l : Ledger) (amt : UInt64) :
    held (burnt env l amt) escrow = held l escrow - amt.toNat := by
  have htotal : held (burnt env l amt) escrow + amt.toNat =
      held l escrow + (drained l (env.order (escrowIds l)) amt).2 := by
    rw [← total_escrowCoins, ← total_escrowCoins]
    exact escrowCoins.total_drain _ _ _
  rw [drained_remaining] at htotal
  omega

theorem held_burnt {owner : PeerId} (l : Ledger) (amt : UInt64) (howner : owner ≠ escrow) :
    held (burnt env l amt) owner = held l owner := by
  refine escrowCoins.sum_drain (fun k u a ha => ?_) _ _ _
  rw [escrowCoins] at ha
  dsimp only at ha
  split_ifs at ha with ho
  exact if_neg fun h : u.owner = owner => howner (h.symm.trans ho)

end Held

/-! ### Reading a balance -/

section Balance

variable (env : Env) (l : Ledger) (owner : PeerId)

lemma exec_balanceLoop (ids : List ℕ) (sum : UInt64)
    (h : sum.toNat + (ids.map (l.utxos.weightAt (weight owner))).sum < 2 ^ 64) :
    exec (balanceLoop env owner ids sum) l =
      (.ok (sum + UInt64.ofNat (ids.map (l.utxos.weightAt (weight owner))).sum), l) := by
  induction ids generalizing sum with
  | nil => simp [balanceLoop]
  | cons id ids ih =>
    rw [List.map_cons, List.sum_cons] at h ⊢
    have hskip (hw : l.utxos.weightAt (weight owner) id = 0) :
        exec (balanceLoop env owner ids sum) l =
          (.ok (sum + UInt64.ofNat (l.utxos.weightAt (weight owner) id +
            (ids.map (l.utxos.weightAt (weight owner))).sum)), l) := by
      rw [hw, Nat.zero_add]
      exact ih sum (by omega)
    cases hu : l.utxos.get? id with
    | none =>
      rw [← hskip (by simp [OrdMap.weightAt, hu])]
      simp [balanceLoop, exec_bind, hu]
    | some u =>
      by_cases ho : u.owner = owner
      swap
      · rw [← hskip (by simp [OrdMap.weightAt, hu, weight, part, ho])]
        simp [balanceLoop, exec_bind, hu, ho]
      have hw : l.utxos.weightAt (weight owner) id = u.value.toNat := by
        simp [OrdMap.weightAt, hu, weight, part, ho]
      rw [hw] at h ⊢
      have hadd : sum.toNat + u.value.toNat < 2 ^ 64 := by omega
      have hsum : (sum + u.value).toNat = sum.toNat + u.value.toNat := by
        rw [UInt64.toNat_add]
        exact Nat.mod_eq_of_lt hadd
      have hrest := ih (sum + u.value) (by omega)
      simp [balanceLoop, exec_bind, hu, ho, exec_add env hadd, hrest, UInt64.ofNat_add,
        UInt64.add_assoc]

/-- A balance that fits is read right, in every iteration order. -/
theorem exec_balance (h : held l owner < 2 ^ 64) :
    exec (balance env owner) l = (.ok (UInt64.ofNat (held l owner)), l) := by
  have hsum : ((env.order l.utxos.keys).map (l.utxos.weightAt (weight owner))).sum =
      held l owner := by
    rw [((env.perm l.utxos.keys).map _).sum_eq, ← OrdMap.sum_eq_sum_keys]
    rfl
  have hloop := exec_balanceLoop env l owner (env.order l.utxos.keys) 0 (by
    rw [hsum]
    simpa using h)
  rw [hsum, UInt64.zero_add] at hloop
  simp [balance, exec_bind, hloop]

end Balance

/-! ### Single outputs -/

section Outputs

variable {l : Ledger}

lemma get?_paidOut_of_lt {ps : Payouts} (hroom : Room ps.length l) {k : ℕ}
    (hk : k < l.next.toNat) : (paidOut l ps).utxos.get? k = l.utxos.get? k := by
  induction ps generalizing l with
  | nil => rfl
  | cons x ps ih =>
    have hroom₁ : Room 1 l := hroom.mono (by simp)
    have hk' : k < (minted l x.1 x.2).next.toNat := by
      rw [toNat_next_minted hroom₁]
      omega
    have hrest : (paidOut l (x :: ps)).utxos.get? k = (minted l x.1 x.2).utxos.get? k :=
      ih (hroom.minted x.1 x.2) hk'
    rw [hrest, get?_minted_of_lt _ _ hk]

lemma exists_get?_paidOut {ps : Payouts} (hroom : Room ps.length l) {x : PeerId × UInt64}
    (hx : x ∈ ps) :
    ∃ k, l.next.toNat ≤ k ∧ (paidOut l ps).utxos.get? k = some ⟨x.1, x.2⟩ := by
  induction ps generalizing l with
  | nil => exact absurd hx List.not_mem_nil
  | cons y ps ih =>
    have hroom₁ : Room 1 l := hroom.mono (by simp)
    have hroom' : Room ps.length (minted l y.1 y.2) := hroom.minted y.1 y.2
    have hnext := toNat_next_minted hroom₁ y.1 y.2
    rcases List.mem_cons.mp hx with rfl | hmem
    · refine ⟨l.next.toNat, le_rfl, ?_⟩
      have hrest : (paidOut l (x :: ps)).utxos.get? l.next.toNat =
          (minted l x.1 x.2).utxos.get? l.next.toNat :=
        get?_paidOut_of_lt hroom' (by omega)
      rw [hrest, minted, OrdMap.get?_put, if_pos rfl]
    · obtain ⟨k, hk, hget⟩ := ih hroom' hmem
      exact ⟨k, by omega, hget⟩

lemma get?_burnt_eq_some_iff (env : Env) (amt : UInt64) {k : ℕ} {u : Utxo}
    (ho : u.owner ≠ escrow) : (burnt env l amt).utxos.get? k = some u ↔ l.utxos.get? k = some u := by
  have hamount : escrowCoins.amount k u = none := if_neg ho
  constructor
  · exact escrowCoins.get?_of_get?_drain_of_amount hamount _ _
  · intro hu
    rw [← hu]
    refine escrowCoins.get?_drain (fun u' hu' => ?_) _ _
    rw [hu] at hu'
    cases hu'
    exact hamount

lemma getUtxo_minted (owner : PeerId) (value : UInt64) (id : UInt64) :
    (minted l owner value).getUtxo id = if id = l.next then some ⟨owner, value⟩ else l.getUtxo id := by
  rw [Ledger.getUtxo, minted, OrdMap.get?_put]
  simp only [UInt64.toNat_inj]
  rfl

lemma getUtxo_remove (id id' : UInt64) :
    (l.remove id).getUtxo id' = if id' = id then none else l.getUtxo id' := by
  rw [Ledger.getUtxo, Ledger.remove, OrdMap.get?_delete]
  simp only [UInt64.toNat_inj]
  rfl

end Outputs

end Cerberus.Economy
