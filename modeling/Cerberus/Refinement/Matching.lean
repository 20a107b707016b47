import Cerberus.Economy.Accounts
import Cerberus.Ledger.Freshness

/-!
# Matching the durable ledger with the reference ledger

The durable ledger names owners by strings, the reference ledger by peer ids; a `Naming` relates
them. `Matches ν l w` says that the reference ledger `l` and the durable ledger `w` hold the same
books: the same counters and claims, the same outputs except for those of the escrow, and the same
balances, that of the escrow included. The outputs of the escrow may be cut differently, since the
two ledgers burn them in different orders.
-/

namespace Cerberus.Refinement

open Foundation GoString

open Economy (PeerId Room)

/-- Names for peers: different peers have different names, which are UTF-8, and the escrow of one
ledger is the escrow of the other. -/
structure Naming where
  name : PeerId → GoString
  injective : Function.Injective name
  valid : ∀ o, (name o).valid = true
  name_escrow : name Economy.escrow = escrowOwner

namespace Naming

instance : CoeFun Naming fun _ => PeerId → GoString := ⟨name⟩

variable (ν : Naming)

/-- The output under the names of the durable ledger. -/
def output (u : Economy.Utxo) : Utxo := ⟨ν u.owner, u.value⟩

def payouts (ps : Economy.Payouts) : Ledger.Payouts := ps.map fun x => (ν x.1, x.2)

@[simp] lemma coerce_name (o : PeerId) : (ν o).coerce = ν o := coerce_of_valid (ν.valid o)

lemma name_inj {o o' : PeerId} : ν o = ν o' ↔ o = o' := ν.injective.eq_iff

lemma name_eq_escrowOwner_iff {o : PeerId} : ν o = escrowOwner ↔ o = Economy.escrow := by
  rw [← ν.name_escrow, ν.name_inj]

lemma output_injective : Function.Injective ν.output := by
  rintro ⟨o, v⟩ ⟨o', v'⟩ h
  obtain ⟨ho, hv⟩ := Utxo.mk.inj h
  obtain rfl : o = o' := ν.injective ho
  obtain rfl : v = v' := hv
  rfl

lemma share_name (o owner : PeerId) (value : UInt64) :
    Ledger.share (fun u => decide (u.owner = ν owner)) ⟨(ν o).coerce, value⟩ =
      Economy.part owner o value := by
  simp [Ledger.share, Economy.part, ν.name_inj]

end Naming

def stateOf : Economy.ClaimState → ClaimState
  | .pending => .pending
  | .finalized => .finalized
  | .slashed => .slashed

lemma stateOf_mem (st : Economy.ClaimState) :
    stateOf st = .pending ∨ stateOf st = .finalized ∨ stateOf st = .slashed := by
  cases st <;> simp [stateOf]

lemma stateOf_eq_pending_iff {st : Economy.ClaimState} : stateOf st = .pending ↔ st = .pending := by
  cases st <;> simp [stateOf]

/-- The two bindings name the same content. The task ids are not compared. -/
structure SameContent (b : Economy.SettlementBinding) (b' : SettlementBinding) : Prop where
  component : b'.componentCID = b.componentCid.1
  input : b'.inputCID = b.inputCid.1
  output : b'.outputCID = b.outputCid.1

/-- The claim `p` of the reference ledger and the claim `q` of the durable ledger under the id `tx`
are the same. -/
structure SameClaim (ν : Naming) (tx : UInt64) (p : Economy.PendingSettlement)
    (q : PendingSettlement) : Prop where
  tx : q.tx = tx
  consumer : q.consumer = ν p.consumer
  provider : q.provider = ν p.provider
  payment : q.payment = p.payment
  bond : q.bond = p.bond
  openedAt : q.openedAt = p.openedAt
  window : q.disputeBlock = p.disputeWindowBlocks
  content : SameContent p.binding q.binding
  state : q.state = stateOf p.state

/-- The reference ledger and the durable ledger hold the same books. -/
structure Matches (ν : Naming) (l : Economy.Ledger) (w : LedgerWorld) : Prop where
  sound : Economy.Sound l
  fresh : ∃ n, Ledger.Fresh n w ∧ l.next.toNat = n + 1
  enabled : w.mem.enabled = l.enabled
  nextTx : Ledger.nextTx w.store = l.nextTx
  outputs : ∀ id (u : Economy.Utxo), u.owner ≠ Economy.escrow →
    (Ledger.coin w.store id = some (ν.output u) ↔ l.getUtxo id = some u)
  owners : ∀ id u, Ledger.coin w.store id = some u → ∃ o, u.owner = ν o
  balances : ∀ o, Ledger.held w.store (ν o) = Economy.held l o
  claims : ∀ tx : UInt64,
    Option.Rel (SameClaim ν tx) (l.pending.get? tx.toNat) (Ledger.claim w.store tx)

section Content

variable {ν : Naming} {tx : UInt64} {p : Economy.PendingSettlement} {q : PendingSettlement}

lemma SameContent.coerced {b : Economy.SettlementBinding} {b' : SettlementBinding}
    (h : SameContent b b') : SameContent b b'.coerced where
  component := by rw [← coerce_of_valid b.componentCid.2, ← h.component]; rfl
  input := by rw [← coerce_of_valid b.inputCid.2, ← h.input]; rfl
  output := by rw [← coerce_of_valid b.outputCid.2, ← h.output]; rfl

variable (h : SameClaim ν tx p q)
include h

lemma SameClaim.coerced : SameClaim ν tx p q.coerced where
  tx := h.tx
  consumer := by rw [PendingSettlement.coerced, h.consumer, ν.coerce_name]
  provider := by rw [PendingSettlement.coerced, h.provider, ν.coerce_name]
  payment := h.payment
  bond := h.bond
  openedAt := h.openedAt
  window := h.window
  content := h.content.coerced
  state := by
    rw [PendingSettlement.coerced, h.state]
    exact ClaimState.ofText_coerce_text (stateOf_mem p.state)

lemma SameClaim.with_state (st : Economy.ClaimState) :
    SameClaim ν tx { p with state := st } { q with state := stateOf st } :=
  { h with state := rfl }

lemma SameClaim.windowElapsed (now : UInt64) : q.windowElapsed now = p.windowElapsed now := by
  rw [PendingSettlement.windowElapsed, Economy.PendingSettlement.windowElapsed, h.openedAt, h.window,
    Economy.saturatingAdd]
  have ha := p.openedAt.toNat_lt
  have hb := p.disputeWindowBlocks.toNat_lt
  have hadd : (p.openedAt + p.disputeWindowBlocks).toNat =
      (p.openedAt.toNat + p.disputeWindowBlocks.toNat) % 2 ^ 64 := UInt64.toNat_add _ _
  have hover : p.openedAt + p.disputeWindowBlocks < p.openedAt ↔
      ¬ p.openedAt.toNat + p.disputeWindowBlocks.toNat < 2 ^ 64 := by
    rw [UInt64.lt_iff_toNat_lt, hadd]
    omega
  simp only [hover, ite_not]

end Content

namespace Matches

variable {ν : Naming} {l : Economy.Ledger} {w : LedgerWorld}

lemma next (h : Matches ν l w) : w.mem.next = l.next := by
  obtain ⟨n, hfresh, hn⟩ := h.fresh
  rw [hfresh.next, ← hn, UInt64.ofNat_toNat]

variable {id tx : UInt64} {u : Economy.Utxo} {ps : Economy.Payouts} {p : Economy.PendingSettlement}
  {q : PendingSettlement}

lemma exists_output (h : Matches ν l w) {x : Utxo} (hx : Ledger.coin w.store id = some x)
    (ho : x.owner ≠ escrowOwner) :
    ∃ u, u.owner ≠ Economy.escrow ∧ x = ν.output u ∧ l.getUtxo id = some u := by
  obtain ⟨o, howner⟩ := h.owners id x hx
  have ho' : o ≠ Economy.escrow := by
    rwa [howner, Ne, ν.name_eq_escrowOwner_iff] at ho
  have hxu : x = ν.output ⟨o, x.value⟩ := by
    rw [Naming.output, ← howner]
  exact ⟨⟨o, x.value⟩, ho', hxu, (h.outputs id ⟨o, x.value⟩ ho').mp (hxu ▸ hx)⟩

lemma initial (ν : Naming) (openMesh : Bool) :
    Matches ν (Economy.Ledger.new openMesh) (Ledger.initial openMesh) where
  sound := Economy.sound_new openMesh
  fresh := ⟨0, (Ledger.tidy_initial openMesh).fresh, rfl⟩
  enabled := rfl
  nextTx := rfl
  outputs _ _ _ := iff_of_false nofun nofun
  owners _ _ hu := nomatch hu
  balances _ := rfl
  claims _ := Option.Rel.none

variable (h : Matches ν l w)
include h

theorem minted (hroom : Room 1 l) (o : PeerId) (value : UInt64) :
    Matches ν (Economy.minted l o value) (Ledger.minted w (ν o) value) := by
  obtain ⟨n, hfresh, hn⟩ := h.fresh
  have hn' : n + 1 < 2 ^ 64 := by
    rw [← hn]
    exact l.next.toNat_lt
  refine ⟨h.sound.minted hroom o value, ⟨n + 1, hfresh.minted hn' _ _, ?_⟩, h.enabled, ?_, ?_, ?_, ?_,
    ?_⟩
  · rw [Economy.toNat_next_minted hroom, hn]
  · rw [Ledger.nextTx_minted]
    exact h.nextTx
  · intro id u ho
    rw [Ledger.coin_minted, Economy.getUtxo_minted, h.next, ν.coerce_name]
    split_ifs
    · rw [Option.some.injEq, Option.some.injEq]
      exact ν.output_injective.eq_iff (a := ⟨o, value⟩)
    · exact h.outputs id u ho
  · intro id u hu
    rw [Ledger.coin_minted, ν.coerce_name] at hu
    split_ifs at hu
    · cases hu
      exact ⟨o, rfl⟩
    · exact h.owners id u hu
  · intro owner
    have hcoin := hfresh.coin_next hn'
    rw [h.sound.held_minted, ← h.balances, Ledger.held,
      Ledger.worth_minted_of_fresh _ _ _ _ hcoin, ν.share_name]
    rfl
  · intro tx
    rw [Ledger.claim_minted]
    exact h.claims tx

theorem spent (hu : l.getUtxo id = some u) (ho : u.owner ≠ Economy.escrow) :
    Matches ν (l.remove id) (Ledger.spent w id) := by
  obtain ⟨n, hfresh, hn⟩ := h.fresh
  have hcoin := (h.outputs id u ho).mpr hu
  refine ⟨h.sound.remove id, ⟨n, hfresh.spent id, hn⟩, h.enabled, ?_, ?_, ?_, ?_, ?_⟩
  · rw [Ledger.nextTx_spent]
    exact h.nextTx
  · intro id' u' ho'
    rw [Ledger.coin_spent, Economy.getUtxo_remove]
    split_ifs
    · exact iff_of_false nofun nofun
    · exact h.outputs id' u' ho'
  · intro id' u' hu'
    rw [Ledger.coin_spent] at hu'
    split_ifs at hu'
    exact h.owners id' u' hu'
  · intro owner
    have hgo := Ledger.worth_spent w id (fun x => decide (x.owner = ν owner)) hcoin
    have href := Economy.held_remove owner hu
    have hbal := h.balances owner
    have hshare := ν.share_name u.owner owner u.value
    rw [ν.coerce_name] at hshare
    rw [Naming.output, hshare] at hgo
    unfold Ledger.held at hbal ⊢
    omega
  · intro tx
    rw [Ledger.claim_spent]
    exact h.claims tx

theorem paid (hroom : Room 2 l) (hu : l.getUtxo id = some u)
    (ho : u.owner ≠ Economy.escrow) (payee : PeerId) (amt : UInt64) :
    Matches ν (Economy.paid l id u payee amt) (Ledger.paid w id (ν.output u) (ν payee) amt) := by
  refine Matches.minted ?_ (hroom.changed id u amt) payee amt
  unfold Economy.changed Ledger.changed
  have hspent := h.spent hu ho
  by_cases hgt : u.value > amt
  · rw [if_pos hgt, if_pos (show (ν.output u).value > amt from hgt)]
    exact hspent.minted ((hroom.remove id).mono (by decide)) u.owner (u.value - amt)
  · rw [if_neg hgt, if_neg (show ¬ (ν.output u).value > amt from hgt)]
    exact hspent

theorem paidOut (hroom : Room ps.length l) :
    Matches ν (Economy.paidOut l ps) (Ledger.paidOut w (ν.payouts ps)) := by
  induction ps generalizing l w with
  | nil => exact h
  | cons x ps ih =>
    have hroom₁ : Room 1 l := hroom.mono (by simp)
    exact ih (h.minted hroom₁ x.1 x.2) (hroom.minted x.1 x.2)

/-- Taking the same amount from the escrow keeps the match, whatever the order. -/
theorem released (env : Economy.Env) (amt : UInt64) :
    Matches ν (Economy.burnt env l amt) ⟨w.mem, (Ledger.released w.store amt).1⟩ := by
  obtain ⟨n, hfresh, hn⟩ := h.fresh
  refine ⟨h.sound.burnt amt, ⟨n, hfresh.released amt, hn⟩, h.enabled, ?_, ?_, ?_, ?_, ?_⟩
  · rw [Ledger.nextTx_released]
    exact h.nextTx
  · intro id u ho
    have ho' : (ν.output u).owner ≠ escrowOwner := by rwa [Naming.output, Ne, ν.name_eq_escrowOwner_iff]
    have hburnt : (Economy.burnt env l amt).getUtxo id = some u ↔ l.getUtxo id = some u :=
      Economy.get?_burnt_eq_some_iff env amt ho
    rw [hburnt, ← h.outputs id u ho]
    exact ⟨fun hx => Ledger.coin_of_coin_released _ _ hx ho',
      fun hx => Ledger.coin_released_of_ne _ _ hx ho'⟩
  · intro id u hu
    by_cases ho : u.owner = escrowOwner
    · exact ⟨Economy.escrow, ho.trans ν.name_escrow.symm⟩
    · exact h.owners id u (Ledger.coin_of_coin_released _ _ hu ho)
  · intro owner
    by_cases ho : owner = Economy.escrow
    · have hgo := Ledger.held_released_escrow w.store amt
      have hmissing := Ledger.released_snd w.store amt
      have hbal := h.balances Economy.escrow
      rw [ν.name_escrow] at hbal
      rw [ho, ν.name_escrow, Economy.held_burnt_escrow, ← hbal]
      dsimp only
      omega
    · rw [Economy.held_burnt env l amt ho, ← h.balances]
      exact Ledger.held_released _ _ (mt ν.name_eq_escrowOwner_iff.mp ho)
  · intro tx
    rw [Ledger.claim_released]
    exact h.claims tx

theorem withdrawn (env : Economy.Env) (hq : SameClaim ν tx p q) (hroom : Room ps.length l) :
    Matches ν (Economy.withdrawn env l p ps) (Ledger.withdrawn w q (ν.payouts ps)) := by
  have hsum : q.payment + q.bond = p.payment + p.bond := by rw [hq.payment, hq.bond]
  rw [Ledger.withdrawn, hsum]
  exact (h.paidOut hroom).released env (p.payment + p.bond)

theorem filed (hq : SameClaim ν tx p q) (hsum : p.payment.toNat + p.bond.toNat < 2 ^ 64) :
    Matches ν { l with pending := l.pending.put tx.toNat p } (Ledger.filed w q) := by
  obtain ⟨n, hfresh, hn⟩ := h.fresh
  refine ⟨h.sound.put_pending tx l.nextTx hsum, ⟨n, hfresh.filed q, hn⟩, h.enabled, ?_, ?_, ?_, ?_, ?_⟩
  · rw [Ledger.nextTx_filed]
    exact h.nextTx
  · intro id u ho
    rw [Ledger.coin_filed]
    exact h.outputs id u ho
  · intro id u hu
    rw [Ledger.coin_filed] at hu
    exact h.owners id u hu
  · intro owner
    rw [Ledger.held_filed]
    exact h.balances owner
  · intro tx'
    rw [Ledger.claim_filed, OrdMap.get?_put, hq.tx]
    by_cases htx : tx' = tx
    · rw [if_pos htx, if_pos (congrArg UInt64.toNat htx), htx]
      exact Option.Rel.some hq.coerced
    · rw [if_neg htx, if_neg (mt UInt64.toNat_inj.mp htx)]
      exact h.claims tx'

lemma reserved : Matches ν { l with nextTx := l.nextTx + 1 } (Ledger.reserved w) := by
  obtain ⟨n, hfresh, hn⟩ := h.fresh
  refine ⟨⟨h.sound.fresh, h.sound.bounded⟩, ⟨n, hfresh.reserved, hn⟩, h.enabled, ?_, ?_, ?_, ?_, ?_⟩
  · rw [Ledger.nextTx_reserved, h.nextTx]
  · intro id u ho
    rw [Ledger.coin_reserved]
    exact h.outputs id u ho
  · intro id u hu
    rw [Ledger.coin_reserved] at hu
    exact h.owners id u hu
  · intro owner
    rw [Ledger.held_reserved]
    exact h.balances owner
  · intro tx
    rw [Ledger.claim_reserved]
    exact h.claims tx

theorem closed (env : Economy.Env) (hq : SameClaim ν tx p q)
    (hp : l.pending.get? tx.toNat = some p) (hroom : Room ps.length l) (st : Economy.ClaimState) :
    Matches ν (Economy.closed env l tx p ps st) (Ledger.closed w q (ν.payouts ps) (stateOf st)) := by
  have hsum := h.sound.bounded _ p hp
  have hclosed := (h.withdrawn env hq hroom).filed (hq.with_state st) hsum
  rwa [Economy.pending_withdrawn] at hclosed

lemma exists_claim (hp : l.pending.get? tx.toNat = some p) :
    ∃ q, Ledger.claim w.store tx = some q ∧ SameClaim ν tx p q := by
  have hrel := h.claims tx
  rw [hp] at hrel
  generalize Ledger.claim w.store tx = c at hrel
  cases hrel with
  | some hq => exact ⟨_, rfl, hq⟩

lemma exists_pending (hq : Ledger.claim w.store tx = some q) :
    ∃ p, l.pending.get? tx.toNat = some p ∧ SameClaim ν tx p q := by
  have hrel := h.claims tx
  rw [hq] at hrel
  generalize l.pending.get? tx.toNat = c at hrel
  cases hrel with
  | some hp => exact ⟨_, rfl, hp⟩

end Matches

end Cerberus.Refinement
