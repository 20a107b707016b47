import Cerberus.Economy.Atomicity
import Cerberus.Refinement.Matching

/-!
# Agreement of the two ledgers

The durable ledger and the reference ledger make corresponding calls in lockstep. As long as every
call is `WellFunded` the ledgers agree (`ledgers_agree`). A call is not when it settles an output
that is worth too little, which only the reference ledger then loses; when it opens a claim whose
bond input fails its checks or is the payment input, which the two ledgers notice at different
times; or when it names an output of the escrow, of which the two may have burnt different ones.
-/

namespace Cerberus.Refinement

open Foundation Fallible List

open Economy (PeerId Room HasRoom)

/-! ### Corresponding calls -/

/-- The two ledgers get the same fraud proof. -/
structure SameFraud (fraud : Economy.FraudProof) (fraud' : FraudProof) : Prop where
  component : fraud'.componentCID = fraud.componentCid.1
  input : fraud'.inputCID = fraud.inputCid.1
  claimed : fraud'.claimedOutputCID = fraud.claimedOutputCid.1
  actual : fraud'.actualOutputCID = fraud.actualOutputCid.1

/-- The arguments of the two calls are the same; the consumer named to the durable ledger is the
owner of the payment input. -/
structure SameOpening (ν : Naming) (l : Economy.Ledger) (now : UInt64) (a : Economy.OpenArgs)
    (a' : Ledger.OpenArgs) : Prop where
  now : a'.now = now
  paymentInput : a'.paymentInput = a.input
  consumer : ∀ u, l.getUtxo a.input = some u → a'.consumer = ν u.owner
  payment : a'.payment = a.amt
  bondInput : a'.bondInput = a.bondInput
  provider : a'.provider = ν a.provider
  bond : a'.bond = a.bond
  window : a'.disputeBlocks = a.disputeWindowBlocks
  content : SameContent a.binding a'.binding

/-- A call of the reference ledger in the state `l` and a call of the durable ledger correspond. -/
inductive Corresponds (ν : Naming) (l : Economy.Ledger) : Economy.Call → Ledger.Call → Prop
  | mint (owner : PeerId) (value : UInt64) : Corresponds ν l (.mint owner value) (.mint (ν owner) value)
  | settle (input : UInt64) (payee : PeerId) (amt : UInt64) :
      Corresponds ν l (.settle input payee amt) (.settle input (ν payee) amt)
  /-- `open_optimistic`, `open_optimistic_at` or an optimistic `settle_task`. -/
  | opening {c : Economy.Call} {a : Economy.OpenArgs} {now : UInt64} {a' : Ledger.OpenArgs}
      (hc : c.opening? = some (a, now)) (h : SameOpening ν l now a a') :
      Corresponds ν l c (.openOptimistic a')
  | finalize (tx now : UInt64) : Corresponds ν l (.finalize tx now) (.finalize tx now)
  | challenge {fraud : Economy.FraudProof} {fraud' : FraudProof} (h : SameFraud fraud fraud')
      (tx now : UInt64) (challenger : PeerId) :
      Corresponds ν l (.challenge tx fraud now challenger) (.challenge tx fraud' now (ν challenger))

/-- The outputs that a call names. -/
def inputsOf : Economy.Call → List UInt64
  | .settle input _ _ | .settleTask input _ _ _ => [input]
  | .openOptimistic a | .openOptimisticAt _ a =>
    if 0 < a.bond then [a.input, a.bondInput] else [a.input]
  | .mint .. | .finalize .. | .challenge .. => []

/-- The call opens a claim with a bond that fails its checks, while the payment passes its own. -/
def LacksBond (l : Economy.Ledger) (c : Economy.Call) : Prop :=
  ∃ a now u, c.opening? = some (a, now) ∧ Economy.Payable l a u ∧ 0 < a.bond ∧
    ∀ v, ¬ Economy.Bondable l a v

/-- The call names an output of the escrow. -/
def TouchesEscrow (l : Economy.Ledger) (w : LedgerWorld) (c : Economy.Call) : Prop :=
  ∃ id ∈ inputsOf c, (∃ u, l.getUtxo id = some u ∧ u.owner = Economy.escrow) ∨
    ∃ u, Ledger.coin w.store id = some u ∧ u.owner = escrowOwner

/-- The outputs a call names hold what the call takes from them. -/
structure WellFunded (l : Economy.Ledger) (w : LedgerWorld) (c : Economy.Call) : Prop where
  not_losesInput : ¬ Economy.LosesInput l c
  not_sharesInput : ¬ Economy.SharesInput l c
  not_lacksBond : ¬ LacksBond l c
  not_touchesEscrow : ¬ TouchesEscrow l w c

instance (l : Economy.Ledger) (c : Economy.Call) : Decidable (Economy.LosesInput l c) :=
  decidable_of_iff
    (∃ x ∈ c.payment?, l.enabled = true ∧ ∃ u ∈ l.getUtxo x.1, u.value < x.2.2) (by
      simp only [Economy.LosesInput, Prod.exists, Option.mem_def, exists_and_left])

instance (l : Economy.Ledger) (a : Economy.OpenArgs) (u : Economy.Utxo) :
    Decidable (Economy.Payable l a u) :=
  inferInstanceAs (Decidable (_ ∧ _ ∧ _))

instance (l : Economy.Ledger) (a : Economy.OpenArgs) (v : Economy.Utxo) :
    Decidable (Economy.Bondable l a v) :=
  inferInstanceAs (Decidable (_ ∧ _ ∧ _))

instance (l : Economy.Ledger) (c : Economy.Call) : Decidable (Economy.SharesInput l c) :=
  decidable_of_iff
    (∃ x ∈ c.opening?, (∃ u ∈ l.getUtxo x.1.input, Economy.Payable l x.1 u) ∧ 0 < x.1.bond ∧
      (∃ v ∈ l.getUtxo x.1.bondInput, Economy.Bondable l x.1 v) ∧ x.1.bondInput = x.1.input) (by
    constructor
    · rintro ⟨⟨a, now⟩, hc, ⟨u, -, hu⟩, hb, ⟨v, -, hv⟩, heq⟩
      exact ⟨a, now, u, v, hc, hu, hb, hv, heq⟩
    · rintro ⟨a, now, u, v, hc, hu, hb, hv, heq⟩
      exact ⟨(a, now), hc, ⟨u, hu.2.1, hu⟩, hb, ⟨v, hv.1, hv⟩, heq⟩)

instance (l : Economy.Ledger) (c : Economy.Call) : Decidable (LacksBond l c) :=
  decidable_of_iff
    (∃ x ∈ c.opening?, (∃ u ∈ l.getUtxo x.1.input, Economy.Payable l x.1 u) ∧ 0 < x.1.bond ∧
      ∀ v ∈ l.getUtxo x.1.bondInput, ¬ Economy.Bondable l x.1 v) (by
    constructor
    · rintro ⟨⟨a, now⟩, hc, ⟨u, -, hu⟩, hb, hv⟩
      exact ⟨a, now, u, hc, hu, hb, fun v hbond => hv v hbond.1 hbond⟩
    · rintro ⟨a, now, u, hc, hu, hb, hv⟩
      exact ⟨(a, now), hc, ⟨u, hu.2.1, hu⟩, hb, fun v _ => hv v⟩)

instance (l : Economy.Ledger) (w : LedgerWorld) (c : Economy.Call) :
    Decidable (TouchesEscrow l w c) :=
  decidable_of_iff
    (∃ id ∈ inputsOf c, (∃ u ∈ l.getUtxo id, u.owner = Economy.escrow) ∨
      ∃ u ∈ Ledger.coin w.store id, u.owner = escrowOwner) Iff.rfl

instance (l : Economy.Ledger) (w : LedgerWorld) (c : Economy.Call) : Decidable (WellFunded l w c) :=
  decidable_of_iff
    (¬ Economy.LosesInput l c ∧ ¬ Economy.SharesInput l c ∧ ¬ LacksBond l c ∧
      ¬ TouchesEscrow l w c)
    ⟨fun ⟨h₁, h₂, h₃, h₄⟩ => ⟨h₁, h₂, h₃, h₄⟩, fun ⟨h₁, h₂, h₃, h₄⟩ => ⟨h₁, h₂, h₃, h₄⟩⟩

/-! ### One call -/

/-- Both calls succeed or both fail, and the ledgers match afterwards. -/
inductive Tallies (ν : Naming) : Except Economy.Exit Economy.Reply × Economy.Ledger →
    Except LedgerErr Ledger.Reply × LedgerWorld → Prop
  | succeeded {r : Economy.Reply} {r' : Ledger.Reply} {l : Economy.Ledger} {w : LedgerWorld}
      (h : Matches ν l w) : Tallies ν (.ok r, l) (.ok r', w)
  | failed {e : Economy.Exit} {e' : LedgerErr} {l : Economy.Ledger} {w : LedgerWorld}
      (h : Matches ν l w) : Tallies ν (.error e, l) (.error e', w)

section Call

variable {ν : Naming} {l : Economy.Ledger} {w : LedgerWorld} {c : Economy.Call} {env : Economy.Env}

lemma Tallies.of_refusals {α β : Type} {p : Economy.EconM α} {q : LedgerM β}
    {f : β → LedgerM Ledger.Reply} {g : α → Economy.EconM Economy.Reply}
    (h : Matches ν l w) (hp : Economy.Refuses p l) (hq : Ledger.Declines q w) :
    Tallies ν (exec (p >>= g) l) ((q >>= f).run w) := by
  obtain ⟨e, he⟩ := hp.bind g
  obtain ⟨e', -, he'⟩ := hq
  rw [he, (he'.bind f).1]
  exact .failed h

variable {id now tx : UInt64} {u : Economy.Utxo} {a : Economy.OpenArgs} {a' : Ledger.OpenArgs}

lemma owner_ne_of_mem_inputsOf (hc : ¬ TouchesEscrow l w c) (hid : id ∈ inputsOf c)
    (hu : l.getUtxo id = some u) : u.owner ≠ Economy.escrow :=
  fun ho => hc ⟨id, hid, .inl ⟨u, hu, ho⟩⟩

lemma Matches.exists_input (h : Matches ν l w) (hc : ¬ TouchesEscrow l w c)
    (hid : id ∈ inputsOf c) {x : Utxo} (hx : Ledger.coin w.store id = some x) :
    ∃ u, x = ν.output u ∧ l.getUtxo id = some u := by
  obtain ⟨u, -, hu⟩ := h.exists_output hx fun ho => hc ⟨id, hid, .inr ⟨x, hx, ho⟩⟩
  exact ⟨u, hu⟩

lemma Matches.tallies_settle (h : Matches ν l w) (hroom : HasRoom l) {input amt : UInt64}
    {payee : PeerId} (hc : WellFunded l w (.settle input payee amt)) :
    Tallies ν (exec ((Economy.Call.settle input payee amt).proc env) l)
      ((Ledger.Call.settle input (ν payee) amt).exec.run w) := by
  have hmem : input ∈ inputsOf (.settle input payee amt) := mem_singleton_self input
  by_cases hu : l.enabled = true → l.getUtxo input = none
  · have hrefused : ∀ x, ¬ Ledger.Spendable w input amt x := by
      rintro x ⟨hen, hx, -⟩
      obtain ⟨u, -, hu'⟩ := h.exists_input hc.not_touchesEscrow hmem hx
      rw [h.enabled] at hen
      rw [hu hen] at hu'
      cases hu'
    exact Tallies.of_refusals h (Economy.settle_refused env payee hu)
      (Ledger.run_settle_refused (ν payee) hrefused)
  obtain ⟨hen, hu⟩ := Classical.not_imp.mp hu
  obtain ⟨u, hu⟩ := Option.ne_none_iff_exists'.mp hu
  have hle : amt ≤ u.value := by
    rw [← UInt64.not_lt]
    exact fun hlt => hc.not_losesInput ⟨input, payee, amt, u, rfl, hen, hu, hlt⟩
  have ho := owner_ne_of_mem_inputsOf hc.not_touchesEscrow hmem hu
  have hspend : Ledger.Spendable w input amt (ν.output u) :=
    ⟨h.enabled.trans hen, (h.outputs input u ho).mpr hu, hle⟩
  have hroom₂ : Room 2 l := hroom.1.mono (by decide)
  simp only [Economy.Call.proc, Ledger.Call.exec, exec_bind, Proc.run_bind,
    Economy.exec_settle env payee ⟨hen, hu, hle⟩ hroom₂, Ledger.run_settle (ν payee) hspend]
  exact .succeeded (h.paid hroom₂ hu ho payee amt)

lemma mem_inputsOf_opening (hc : c.opening? = some (a, now)) :
    a.input ∈ inputsOf c ∧ (0 < a.bond → a.bondInput ∈ inputsOf c) := by
  cases c with
  | settleTask input provider amt mode =>
    cases mode with
    | optimistic window =>
      cases hc
      exact ⟨mem_singleton_self _, fun hb => absurd hb (UInt64.lt_irrefl 0)⟩
    | zkWasm proof => cases hc
  | openOptimistic a | openOptimisticAt now a =>
    cases hc
    rw [inputsOf]
    split_ifs with hb
    · exact ⟨mem_cons_self, fun _ => mem_cons_of_mem _ (mem_singleton_self _)⟩
    · exact ⟨mem_singleton_self _, fun hb' => absurd hb' hb⟩
  | mint | settle | finalize | challenge => cases hc

lemma SameOpening.sameClaim (h : SameOpening ν l now a a') (hu : l.getUtxo a.input = some u)
    (tx : UInt64) : SameClaim ν tx (a.claim u.owner now tx) (a'.pendingClaim tx) where
  tx := rfl
  consumer := h.consumer u hu
  provider := h.provider
  payment := h.payment
  bond := h.bond
  openedAt := h.now
  window := h.window
  content := h.content
  state := rfl

lemma Matches.opened (h : Matches ν l w) {consumer : PeerId}
    (hq : ∀ tx, SameClaim ν tx (a.claim consumer now tx) (a'.pendingClaim tx))
    (hsum : a.amt.toNat + a.bond.toNat < 2 ^ 64) :
    Matches ν (Economy.opened l a consumer now) (Ledger.opened w a') := by
  rw [Ledger.opened, h.nextTx]
  exact h.reserved.filed (hq l.nextTx) hsum

lemma Matches.tallies_opening (h : Matches ν l w) (hroom : HasRoom l) (hsum : c.SumsBelow)
    (hfund : WellFunded l w c) (hc : c.opening? = some (a, now)) (ha : SameOpening ν l now a a') :
    Tallies ν (exec (c.proc env) l) ((Ledger.Call.openOptimistic a').exec.run w) := by
  obtain ⟨hmem, hmem'⟩ := mem_inputsOf_opening hc
  by_cases hpay : ∃ u, Economy.Payable l a u
  swap
  · -- Neither ledger can lock the payment.
    obtain ⟨e, he⟩ := Economy.openOptimistic_refused env
      fun u (hu : Economy.Openable l a u) => hpay ⟨u, hu.1⟩
    have hrefused : ∀ x, ¬ Ledger.PaymentLock w a' x := by
      rintro x ⟨hen, hx, -, hle⟩
      rw [ha.paymentInput] at hx
      obtain ⟨u, rfl, hu⟩ := h.exists_input hfund.not_touchesEscrow hmem hx
      rw [h.enabled] at hen
      rw [ha.payment] at hle
      exact hpay ⟨u, hen, hu, hle⟩
    obtain ⟨e', -, he'⟩ := Ledger.run_openOptimistic_refused hrefused
    rw [Economy.exec_opening_error hc he, Ledger.Call.exec, (he'.bind _).1]
    exact .failed h
  obtain ⟨u, hu⟩ := hpay
  have ho := owner_ne_of_mem_inputsOf hfund.not_touchesEscrow hmem hu.2.1
  have hroom₂ : Room 2 l := hroom.1.mono (by decide)
  have hlock : Ledger.PaymentLock w a' (ν.output u) := by
    refine ⟨h.enabled.trans hu.1, ?_, (ha.consumer u hu.2.1).symm, ?_⟩
    · rw [ha.paymentInput]
      exact (h.outputs a.input u ho).mpr hu.2.1
    · rw [ha.payment]
      exact hu.2.2
  have hpaid : Matches ν (Economy.paymentLocked l a u) (Ledger.paymentLocked w a' (ν.output u)) := by
    rw [Ledger.paymentLocked, ha.paymentInput, ha.payment, ← ν.name_escrow]
    exact h.paid hroom₂ hu.2.1 ho Economy.escrow a.amt
  have hclaim := ha.sameClaim hu.2.1
  by_cases hb : 0 < a.bond
  swap
  · have hb' : a.bond = 0 := UInt64.toNat_inj.mp (by simpa [UInt64.lt_iff_toNat_lt] using hb)
    have hrun := Ledger.run_openOptimistic (.unbonded hlock (ha.bond.trans hb'))
    rw [Economy.exec_unbonded hroom hc hu hb', Ledger.Call.exec, Proc.run_bind, hrun]
    exact .succeeded (hpaid.opened hclaim (hsum a now hc))
  -- The reference ledger accepts the bond, and it is still there once the payment has been locked.
  obtain ⟨v, hv⟩ : ∃ v, Economy.Bondable l a v := by
    by_contra hnone
    exact hfund.not_lacksBond ⟨a, now, u, hc, hu, hb, not_exists.mp hnone⟩
  have hne : a.bondInput ≠ a.input := fun heq =>
    hfund.not_sharesInput ⟨a, now, u, v, hc, hu, hb, hv, heq⟩
  have ho' := owner_ne_of_mem_inputsOf hfund.not_touchesEscrow (hmem' hb) hv.1
  have hget := h.sound.getUtxo_paymentLocked hroom₂ u hv.1
  rw [if_neg hne] at hget
  have hbondLock : Ledger.BondLock w a' (ν.output u) (ν.output v) := by
    refine ⟨?_, ?_, ?_⟩
    · rw [ha.bondInput]
      exact (hpaid.outputs a.bondInput v ho').mpr hget
    · rw [ha.provider, Naming.output, hv.2.1]
    · rw [ha.bond]
      exact hv.2.2
  have hbonded : Matches ν (Economy.bondLocked l a u v)
      (Ledger.bondLocked w a' (ν.output u) (ν.output v)) := by
    rw [Ledger.bondLocked, ha.bondInput, ha.bond, ← ν.name_escrow]
    exact hpaid.paid (hroom.1.paid _ _ _ _) hget ho' Economy.escrow a.bond
  have hrun := Ledger.run_openOptimistic (.bonded hlock (by rwa [ha.bond]) hbondLock)
  rw [Economy.exec_bonded h.sound hroom hc hu hb hv hne, Ledger.Call.exec, Proc.run_bind, hrun]
  exact .succeeded (hbonded.opened hclaim (hsum a now hc))

variable {p : Economy.PendingSettlement} {q : PendingSettlement}

lemma Matches.isPending_iff (h : Matches ν l w) (hq : SameClaim ν tx p q)
    (hp : l.pending.get? tx.toNat = some p) (hclaim : Ledger.claim w.store tx = some q) :
    Ledger.IsPending w tx q ↔ Economy.IsPending l tx p := by
  rw [Ledger.IsPending, Economy.IsPending, h.enabled, hq.state, stateOf_eq_pending_iff]
  simp [hp, hclaim]

lemma SameClaim.contradicts_iff (hq : SameClaim ν tx p q) {fraud : Economy.FraudProof}
    {fraud' : FraudProof} (hf : SameFraud fraud fraud') :
    Ledger.FraudProof.Contradicts fraud' q.binding ↔ fraud.Contradicts p.binding := by
  rw [Ledger.FraudProof.Contradicts, Economy.FraudProof.Contradicts, hf.component, hf.input,
    hf.claimed, hf.actual, hq.content.component, hq.content.input, hq.content.output]
  simp only [ne_eq, Subtype.val_inj]

section Decision

variable {tx : UInt64} {p : Economy.PendingSettlement} {q : PendingSettlement}

lemma Matches.tallies_decision (h : Matches ν l w) (hroom : HasRoom l) {c' : Ledger.Call}
    {ps : Economy.Payouts} {st : Economy.ClaimState} {r : Economy.Reply} {r' : Ledger.Reply}
    (hq : SameClaim ν tx p q) (hd : Economy.Decides l c tx p ps st r)
    (hd' : Ledger.Decides w c' tx q (ν.payouts ps) (stateOf st) r') :
    Tallies ν (exec (c.proc env) l) (c'.exec.run w) := by
  have hroom' : Room ps.length l := hroom.1.mono (hd.length_le.trans (by decide))
  have hcov : Ledger.Covered w q (ν.payouts ps) ↔ Economy.Covered l p ps := by
    rw [Ledger.Covered, Economy.Covered, ← (h.paidOut hroom').balances, ν.name_escrow, hq.payment,
      hq.bond]
  by_cases hc : Economy.Covered l p ps
  · rw [hd.exec_proc h.sound hroom, Economy.exec_decision env hd.isPending.2.1 hc,
      hd'.run_exec_covered (hcov.mpr hc)]
    exact .succeeded (h.closed env hq hd.isPending.2.1 hroom' st)
  · rw [hd.exec_short h.sound hroom hc, hd'.run_exec_short (mt hcov.mp hc)]
    exact .failed (h.withdrawn env hq hroom')

lemma SameClaim.finalPayouts (hq : SameClaim ν tx p q) :
    Ledger.finalPayouts q = ν.payouts (Economy.finalPayouts p) := by
  rw [Ledger.finalPayouts, hq.provider, hq.payment, hq.bond]
  rfl

lemma SameClaim.slashPayouts (hq : SameClaim ν tx p q) (challenger : PeerId) :
    Ledger.slashPayouts q (ν challenger) = ν.payouts (Economy.slashPayouts p challenger) := by
  rw [Ledger.slashPayouts, Economy.slashPayouts, hq.consumer, hq.payment, hq.bond]
  split_ifs <;> rfl

lemma Matches.tallies_finalize (h : Matches ν l w) (hroom : HasRoom l) (tx now : UInt64) :
    Tallies ν (exec ((Economy.Call.finalize tx now).proc env) l)
      ((Ledger.Call.finalize tx now).exec.run w) := by
  by_cases hp : ∃ p, Economy.Finalizable l tx now p
  · obtain ⟨p, hpend, hwin⟩ := hp
    obtain ⟨q, hclaim, hq⟩ := h.exists_claim hpend.2.1
    have hd' : Ledger.Decides w (.finalize tx now) tx q (Ledger.finalPayouts q) .finalized _ :=
      .finalize ⟨(h.isPending_iff hq hpend.2.1 hclaim).mpr hpend, (hq.windowElapsed now).trans hwin⟩
    rw [hq.finalPayouts] at hd'
    exact h.tallies_decision hroom hq (.finalize ⟨hpend, hwin⟩) hd'
  · have hrefused : ∀ q, ¬ Ledger.Finalizable w tx now q := by
      rintro q ⟨hpend, hwin⟩
      obtain ⟨p, hget, hq⟩ := h.exists_pending hpend.2.1
      rw [hq.windowElapsed] at hwin
      exact hp ⟨p, (h.isPending_iff hq hget hpend.2.1).mp hpend, hwin⟩
    exact Tallies.of_refusals h (Economy.finalize_refused env (not_exists.mp hp))
      (Ledger.run_finalize_refused hrefused)

lemma Matches.tallies_challenge (h : Matches ν l w) (hroom : HasRoom l) {fraud : Economy.FraudProof}
    {fraud' : FraudProof} (hf : SameFraud fraud fraud') (tx now : UInt64) (challenger : PeerId) :
    Tallies ν (exec ((Economy.Call.challenge tx fraud now challenger).proc env) l)
      ((Ledger.Call.challenge tx fraud' now (ν challenger)).exec.run w) := by
  by_cases hp : ∃ p, Economy.Challengeable l tx fraud now p
  · obtain ⟨p, hpend, hwin, hcon⟩ := hp
    obtain ⟨q, hclaim, hq⟩ := h.exists_claim hpend.2.1
    have hd' : Ledger.Decides w (.challenge tx fraud' now (ν challenger)) tx q
        (Ledger.slashPayouts q (ν challenger)) .slashed _ :=
      .challenge (ν challenger) ⟨(h.isPending_iff hq hpend.2.1 hclaim).mpr hpend,
        (hq.windowElapsed now).trans hwin, (hq.contradicts_iff hf).mpr hcon⟩
    rw [hq.slashPayouts] at hd'
    exact h.tallies_decision hroom hq (.challenge challenger ⟨hpend, hwin, hcon⟩) hd'
  · have hrefused : ∀ q, ¬ Ledger.Challengeable w tx fraud' now q := by
      rintro q ⟨hpend, hwin, hcon⟩
      obtain ⟨p, hget, hq⟩ := h.exists_pending hpend.2.1
      rw [hq.windowElapsed] at hwin
      exact hp ⟨p, (h.isPending_iff hq hget hpend.2.1).mp hpend, hwin, (hq.contradicts_iff hf).mp hcon⟩
    exact Tallies.of_refusals h (Economy.challenge_refused env challenger (not_exists.mp hp))
      (Ledger.run_challenge_refused (ν challenger) hrefused)

end Decision

theorem Matches.tallies (h : Matches ν l w) (hroom : HasRoom l) (hsum : c.SumsBelow)
    (hfund : WellFunded l w c) {c' : Ledger.Call} (hc : Corresponds ν l c c') :
    Tallies ν (exec (c.proc env) l) (c'.exec.run w) := by
  cases hc with
  | mint owner value =>
    have hroom₁ : Room 1 l := hroom.1.mono (by decide)
    simp only [Economy.Call.proc, Ledger.Call.exec, exec_bind, Proc.run_bind,
      Economy.exec_mint env hroom₁, Ledger.run_mint]
    exact .succeeded (h.minted hroom₁ owner value)
  | settle input payee amt => exact h.tallies_settle hroom hfund
  | opening hopen ha => exact h.tallies_opening hroom hsum hfund hopen ha
  | finalize tx now => exact h.tallies_finalize hroom tx now
  | challenge hf tx now challenger => exact h.tallies_challenge hroom hf tx now challenger

end Call

/-! ### Runs -/

abbrev Pair := Economy.Ledger × LedgerWorld

structure Event where
  env : Economy.Env
  reference : Economy.Call
  durable : Ledger.Call

def step (s : Pair) (e : Event) : Pair := (e.reference.after e.env s.1, e.durable.after s.2)

def start (openMesh : Bool) : Pair := (Economy.Ledger.new openMesh, Ledger.initial openMesh)

/-- The calls correspond, the counters have room for them, and the amounts they lock together are
less than `2 ^ 64`. -/
def Paired (ν : Naming) (s : Pair) (e : Event) : Prop :=
  Corresponds ν s.1 e.reference e.durable ∧ Economy.WithinBounds s.1 (e.env, e.reference)

/-- Every owner has the same balance on both sides, if it is less than `2 ^ 64`, and every claim the
same state. -/
def SameBooks (ν : Naming) (s : Pair) : Prop :=
  (∀ env o, Economy.held s.1 o < 2 ^ 64 → ∃ b : UInt64,
    (exec (Economy.balance env o) s.1).1 = .ok b ∧ ((Ledger.balance (ν o)).run s.2).1 = .ok b) ∧
  ∀ tx : UInt64, (s.1.pending.get? tx.toNat).map (fun p => stateOf p.state) =
    (Ledger.claim s.2.store tx).map fun q => q.state

/-- Each call succeeds on one side iff it does on the other, and the books are the same
afterwards. -/
def Agree (ν : Naming) (s : Pair) (e : Event) : Prop :=
  (e.durable.Succeeds s.2 ↔ e.reference.Succeeds e.env s.1) ∧ SameBooks ν (step s e)

section Run

variable {ν : Naming}

lemma Matches.sameBooks {s : Pair} (h : Matches ν s.1 s.2) : SameBooks ν s := by
  refine ⟨fun env o hlt => ⟨UInt64.ofNat (Economy.held s.1 o), ?_, ?_⟩, fun tx => ?_⟩
  · rw [Economy.exec_balance env s.1 o hlt]
  · rw [Ledger.run_balance, h.balances]
  · have hrel := h.claims tx
    generalize s.1.pending.get? tx.toNat = p at hrel ⊢
    generalize Ledger.claim s.2.store tx = q at hrel ⊢
    cases hrel with
    | some hq => exact congrArg some hq.state.symm
    | none => rfl

lemma Matches.step {s : Pair} (h : Matches ν s.1 s.2) {e : Event} (he : Paired ν s e)
    (hfund : WellFunded s.1 s.2 e.reference) :
    (e.durable.Succeeds s.2 ↔ e.reference.Succeeds e.env s.1) ∧
      Matches ν (step s e).1 (step s e).2 := by
  have htally : Tallies ν (exec (e.reference.proc e.env) s.1) (e.durable.exec.run s.2) :=
    h.tallies he.2.1 he.2.2 hfund he.1
  unfold Ledger.Call.Succeeds Economy.Call.Succeeds Refinement.step Ledger.Call.result
    Economy.Call.result Ledger.Call.after Economy.Call.after
  generalize exec (e.reference.proc e.env) s.1 = x at htally ⊢
  generalize e.durable.exec.run s.2 = y at htally ⊢
  cases htally with
  | succeeded hm => exact ⟨iff_of_true ⟨_, rfl⟩ ⟨_, rfl⟩, hm⟩
  | failed hm => exact ⟨iff_of_false nofun nofun, hm⟩

/-- In every run of corresponding calls that are all well funded, each call succeeds in the durable
ledger iff it succeeds in the reference ledger, and after each call the books are the
same. -/
theorem ledgers_agree (ν : Naming) (openMesh : Bool) (es : List Event)
    (h : Along step (fun s e => Paired ν s e ∧ WellFunded s.1 s.2 e.reference) (start openMesh) es) :
    Along step (Agree ν) (start openMesh) es := by
  refine Along.imp_of_keeps (I := fun s => Matches ν s.1 s.2)
    (fun s e hm he => (hm.step he.1 he.2).2) (fun s e hm he => ?_) (Matches.initial ν openMesh) h
  obtain ⟨hiff, hafter⟩ := hm.step he.1 he.2
  exact ⟨hiff, hafter.sameBooks⟩

end Run

/-- Peers named by the hexadecimal form of their ids. -/
def hexNaming : Naming where
  name o := if o = Economy.escrow then escrowOwner else hexEncode o.toList
  injective := by
    have hne (o : PeerId) : hexEncode o.toList ≠ escrowOwner := by
      intro h
      have hmem : (0x5F : UInt8) ∈ (hexEncode o.toList).bytes := by
        rw [h]
        decide
      obtain ⟨n, hn, hdigit⟩ := exists_hexDigit_of_mem hmem
      exact (hexDigit_ascii n hn).2 hdigit.symm
    intro o o' h
    dsimp only at h
    split_ifs at h with ho ho' ho'
    · rw [ho, ho']
    · exact absurd h.symm (hne o')
    · exact absurd h (hne o)
    · exact Vector.toList_inj.mp (hexEncode_injective h)
  valid o := by
    split_ifs
    · decide
    · exact valid_hexEncode _
  name_escrow := if_pos rfl

def event (reference : Economy.Call) (durable : Ledger.Call) : Event :=
  ⟨Economy.checkedEnv, reference, durable⟩

def nameOf (b : UInt8) : GoString := hexNaming (Economy.peer b)

def bondedClaim : List Event :=
  [event (.mint (Economy.peer 1) 10) (.mint (nameOf 1) 10),
    event (.mint (Economy.peer 2) 9) (.mint (nameOf 2) 9),
    event (.openOptimisticAt 4 ⟨1, Economy.peer 2, 7, 2, 5, 3, .default⟩)
      (.openOptimistic ⟨4, 1, nameOf 1, 7, 2, nameOf 2, 5, 3, ⟨⟨[]⟩, ⟨[]⟩, ⟨[]⟩, ⟨[]⟩⟩⟩),
    event (.finalize 1 7) (.finalize 1 7)]

/-- The ledgers agree on the claim. -/
theorem bondedClaim_agrees : Along step (Agree hexNaming) (start true) bondedClaim := by
  refine ledgers_agree hexNaming true bondedClaim ⟨⟨⟨.mint _ _, ?_⟩, ?_⟩, ⟨⟨.mint _ _, ?_⟩, ?_⟩,
    ⟨⟨.opening rfl ⟨rfl, rfl, ?_, rfl, rfl, rfl, rfl, rfl, ⟨rfl, rfl, rfl⟩⟩, ?_⟩, ?_⟩,
    ⟨⟨.finalize _ _, ?_⟩, ?_⟩, trivial⟩ <;>
  decide +kernel

def overdrawn : List Event :=
  [event (.mint (Economy.peer 1) 10) (.mint (nameOf 1) 10),
    event (.settle 1 (Economy.peer 2) 11) (.settle 1 (nameOf 2) 11)]

/-- A claim is to be opened with a bond input that does not exist. -/
def unbacked : List Event :=
  [event (.mint (Economy.peer 1) 10) (.mint (nameOf 1) 10),
    event (.openOptimistic ⟨1, Economy.peer 2, 10, 9, 5, 3, .default⟩)
      (.openOptimistic ⟨0, 1, nameOf 1, 10, 9, nameOf 2, 5, 3, ⟨⟨[]⟩, ⟨[]⟩, ⟨[]⟩, ⟨[]⟩⟩⟩)]

def balancesOf (b : UInt8) (s : Pair) : Except Economy.Exit UInt64 × Except LedgerErr UInt64 :=
  ((exec (Economy.balance Economy.checkedEnv (Economy.peer b)) s.1).1,
    ((Ledger.balance (nameOf b)).run s.2).1)

lemma not_agree_of_balances {s : Pair} {e : Event} {b : UInt8} {x y : UInt64}
    (hlt : Economy.held (step s e).1 (Economy.peer b) < 2 ^ 64)
    (h : balancesOf b (step s e) = (.ok x, .ok y)) (hne : x ≠ y) : ¬ Agree hexNaming s e := by
  intro hagree
  obtain ⟨z, hz, hz'⟩ := hagree.2.1 Economy.checkedEnv (Economy.peer b) hlt
  obtain ⟨hx, hy⟩ := Prod.mk.inj h
  have hxz : x = z := Except.ok.inj (hx.symm.trans hz)
  have hyz : y = z := Except.ok.inj (hy.symm.trans hz')
  exact hne (hxz.trans hyz.symm)

/-- After a settlement that asks for too much, which fails on both sides, the reference ledger has
lost the output and the durable one has kept it; after an opening without a bond, which fails on
both sides, the durable ledger has locked the payment and the reference one has not. -/
theorem failing_calls_disagree :
    (Along step (Paired hexNaming) (start true) overdrawn ∧
      ¬ Along step (Agree hexNaming) (start true) overdrawn ∧
      balancesOf 1 (runFrom step (start true) overdrawn) = (.ok 0, .ok 10)) ∧
    (Along step (Paired hexNaming) (start true) unbacked ∧
      ¬ Along step (Agree hexNaming) (start true) unbacked ∧
      balancesOf 1 (runFrom step (start true) unbacked) = (.ok 10, .ok 0)) := by
  refine ⟨⟨⟨⟨.mint _ _, by decide +kernel⟩, ⟨.settle _ _ _, by decide +kernel⟩, trivial⟩,
    fun h => ?_, by decide +kernel⟩, ⟨⟨.mint _ _, by decide +kernel⟩,
    ⟨.opening rfl ⟨rfl, rfl, by decide +kernel, rfl, rfl, rfl, rfl, rfl, ⟨rfl, rfl, rfl⟩⟩,
      by decide +kernel⟩, trivial⟩, fun h => ?_, by decide +kernel⟩
  · exact not_agree_of_balances (b := 1) (x := 0) (y := 10) (by decide +kernel) (by decide +kernel)
      (by decide) h.2.1
  · exact not_agree_of_balances (b := 1) (x := 10) (y := 0) (by decide +kernel) (by decide +kernel)
      (by decide) h.2.1

end Cerberus.Refinement
