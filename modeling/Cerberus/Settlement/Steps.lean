import Cerberus.Settlement.Model

/-!
# Interleavings of the settlement layer

A request to the settler has two atomic parts: it reads the block height, and later it performs one
call of the ledger with the height it has read. `step` interleaves the parts of any number of
requests with `Advance`, the other users of the ledger and restarts, which forget the requests in
flight. Run without interruption, the two parts are the methods of the settler (`Request.run_exec`)
and the RPC (`run_economyChallenge`).
-/

namespace Cerberus.Settler

open Foundation

open Ledger

/-! ### Requests -/

/-- A request to the settler. -/
inductive Request
  | settleCompletedTask (task : ComputeTask) (inputCID : GoString) (claim : Claim)
  | finalize (tx : UInt64)
  | challenge (tx : UInt64) (fraud : FraudProof) (challenger : GoString)
  deriving DecidableEq, Repr

def Request.exec : Request → LedgerM Reply
  | settleCompletedTask task inputCID claim => do
    return .number (← Settler.settleCompletedTask task inputCID claim)
  | finalize tx => do return .number (← Settler.finalize tx)
  | challenge tx fraud challenger => do return .slash (← Settler.challenge tx fraud challenger)

def Claim.openArgs (claim : Claim) (task : ComputeTask) (inputCID : GoString) (now : UInt64) :
    OpenArgs :=
  { now := now
    paymentInput := claim.paymentInput
    consumer := claim.consumer
    payment := claim.payment
    bondInput := claim.bondInput
    provider := claim.provider
    bond := claim.bond
    disputeBlocks := if claim.disputeBlocks = 0 then defaultDisputeBlocks else claim.disputeBlocks
    binding := ⟨hexEncode task.taskID, hexEncode task.component, inputCID, claim.outputCID⟩ }

/-- The call of the ledger that a request makes after it has read the height `now`, unless it is
turned down before. -/
def Request.prepare (now : UInt64) : Request → Option Call
  | settleCompletedTask task inputCID claim =>
    if claim.consumer.bytes = [] ∨ claim.provider.bytes = [] then none
    else some (.openOptimistic (claim.openArgs task inputCID now))
  | finalize tx => some (.finalize tx now)
  | challenge tx fraud challenger => some (.challenge tx fraud now challenger)

@[simp] lemma run_block (w : LedgerWorld) : block.run w = (.ok w.mem.block, w) := rfl

/-- A method of the settler that is not interrupted is its two parts one after the other. -/
theorem Request.run_exec (r : Request) (w : LedgerWorld) : r.exec.run w =
    match r.prepare w.mem.block with
    | none => (.error .principalsRequired, w)
    | some c => c.exec.run w := by
  cases r with
  | settleCompletedTask task inputCID claim =>
    by_cases h : claim.consumer.bytes = [] ∨ claim.provider.bytes = []
    · simp [exec, prepare, Settler.settleCompletedTask, Proc.run_bind, h]
    · simp [exec, prepare, Settler.settleCompletedTask, Proc.run_bind, h, Call.exec,
        Claim.openArgs]
  | finalize tx => simp [exec, prepare, Settler.finalize, Proc.run_bind, Call.exec]
  | challenge tx fraud challenger =>
    simp [exec, prepare, Settler.challenge, Proc.run_bind, Call.exec]

/-- Who challenges, if the caller is authorized. -/
def challengerFor (d : Rpc.DaemonRPC) (req : Rpc.EconomyChallengeRequest) :
    Except Rpc.Err GoString :=
  match d.authorize req.token (.lit "spend") (.lit "") with
  | .error e => .error (.unauthorized e)
  | .ok claims =>
    if !d.settler then .error .unavailable
    else if req.challenger.trimSpace.bytes = [] then .ok claims.subject
    else .ok req.challenger.trimSpace

def answer (r : Except LedgerErr Slash) : Except Rpc.Err Rpc.EconomyChallengeResponse :=
  (r.mapError Rpc.Err.challenge).map fun s => ⟨s.tx, true, s.refunded, s.bondAwarded⟩

lemma run_answer {p : LedgerM Slash} (w : LedgerWorld) :
    (tryCatch
      (do
        let slash ← p
        return .ok ⟨slash.tx, true, slash.refunded, slash.bondAwarded⟩)
      fun e => return .error (.challenge e) :
        LedgerM (Except Rpc.Err Rpc.EconomyChallengeResponse)).run w =
      (.ok (answer (p.run w).1), (p.run w).2) := by
  rw [Proc.run_tryCatch, Proc.run_bind]
  rcases p.run w with ⟨e | s, w'⟩ <;> rfl

/-- `EconomyChallenge` turns the caller down without touching the ledger, or it is the settler's
challenge with the fraud proof of the request. -/
theorem run_economyChallenge (d : Rpc.DaemonRPC) (req : Rpc.EconomyChallengeRequest)
    (w : LedgerWorld) : (Rpc.economyChallenge d req).run w =
    match challengerFor d req with
    | .error e => (.ok (.error e), w)
    | .ok challenger =>
      (.ok (answer ((Settler.challenge req.tx req.fraud challenger).run w).1),
        ((Settler.challenge req.tx req.fraud challenger).run w).2) := by
  unfold Rpc.economyChallenge challengerFor
  cases d.authorize req.token (.lit "spend") (.lit "") with
  | error e => rfl
  | ok claims =>
    cases d.settler with
    | false => rfl
    | true =>
      simp only [Bool.not_true, Bool.false_eq_true, if_false, run_answer]
      by_cases h : req.challenger.trimSpace.bytes = [] <;> simp only [h, if_true, if_false]

/-! ### Steps -/

/-- A call of the ledger by another part of the daemon. -/
inductive Outside
  | mint (owner : GoString) (value : UInt64)
  | settle (input : UInt64) (payee : GoString) (amt : UInt64)
  | recordComputeTx (t : ComputeTx)
  deriving DecidableEq, Repr

def Outside.call : Outside → Call
  | mint owner value => .mint owner value
  | settle input payee amt => .settle input payee amt
  | recordComputeTx t => .recordComputeTx t

structure State where
  ledger : LedgerWorld
  /-- How many requests there have been; they are numbered in the order in which they read the
  height. -/
  requests : ℕ
  inFlight : List (ℕ × Call)

def start (openMesh : Bool) : State := ⟨initial openMesh, 0, []⟩

inductive Step
  /-- A request comes in and reads the block height. -/
  | request (r : Request)
  /-- A request comes in over the RPC and, if it is authorized, reads the block height. -/
  | rpc (d : Rpc.DaemonRPC) (req : Rpc.EconomyChallengeRequest)
  | finish (number : ℕ)
  | advance (n : UInt64)
  /-- Another part of the daemon calls the ledger. -/
  | outside (c : Outside)
  | restart (openMesh : Bool)

def State.block (s : State) : UInt64 := s.ledger.mem.block

def State.called (s : State) (c : Call) : State := { s with ledger := c.after s.ledger }

/-- A request reads the height. -/
def State.enter (s : State) (r : Request) : State :=
  match r.prepare s.block with
  | none => s
  | some c => ⟨s.ledger, s.requests + 1, (s.requests, c) :: s.inFlight⟩

def State.call? (s : State) (number : ℕ) : Option Call := s.inFlight.lookup number

def step (s : State) : Step → State
  | .request r => s.enter r
  | .rpc d req =>
    match challengerFor d req with
    | .error _ => s
    | .ok challenger => s.enter (.challenge req.tx req.fraud challenger)
  | .finish number =>
    match s.call? number with
    | none => s
    | some c => ⟨c.after s.ledger, s.requests, s.inFlight.filter fun x => x.1 ≠ number⟩
  | .advance n => s.called (.advanceBlock n)
  | .outside c => s.called c.call
  | .restart openMesh => ⟨reopened s.ledger.store openMesh, s.requests, []⟩

/-- What a step does to the ledger. -/
def State.action? (s : State) : Step → Option Action
  | .request _ | .rpc .. => none
  | .finish number => (s.call? number).map .call
  | .advance n => some (.call (.advanceBlock n))
  | .outside c => some (.call c.call)
  | .restart openMesh => some (.restart openMesh)

def issuedBy (s : State) (e : Step) : ℕ := (s.action? e).elim 0 (Ledger.issuedBy s.ledger)

def reached (openMesh : Bool) (es : List Step) : State := runFrom step (start openMesh) es

/-- How many outputs are minted in a run from an empty store. -/
def issuedIn (openMesh : Bool) (es : List Step) : ℕ :=
  totalCost step issuedBy (start openMesh) es

/-! ### Invariants -/

section Steps

variable {n : ℕ} {s : State}

lemma ledger_enter (r : Request) : (s.enter r).ledger = s.ledger := by
  unfold State.enter
  cases r.prepare s.block <;> rfl

lemma ledger_step (e : Step) :
    (step s e).ledger = (s.action? e).elim s.ledger (act s.ledger) := by
  cases e with
  | request r => exact ledger_enter r
  | rpc d req =>
    rw [step]
    cases challengerFor d req with
    | error e => rfl
    | ok challenger => exact ledger_enter _
  | finish number =>
    rw [step, State.action?]
    cases s.call? number <;> rfl
  | advance n => rfl
  | outside c => rfl
  | restart openMesh => rfl

lemma mem_inFlight_step {e : Step} {x : ℕ × Call} (hx : x ∈ (step s e).inFlight) :
    x ∈ s.inFlight ∨
      x.1 = s.requests ∧ (step s e).requests = s.requests + 1 ∧
        ∃ r : Request, r.prepare s.block = some x.2 := by
  have henter (r : Request) (hr : x ∈ (s.enter r).inFlight) : x ∈ s.inFlight ∨
      x.1 = s.requests ∧ (s.enter r).requests = s.requests + 1 ∧
        ∃ r : Request, r.prepare s.block = some x.2 := by
    unfold State.enter at hr ⊢
    cases hc : r.prepare s.block with
    | none => exact Or.inl (by simpa [hc] using hr)
    | some c =>
      simp only [hc, List.mem_cons] at hr
      rcases hr with rfl | hr
      · exact Or.inr ⟨rfl, rfl, r, hc⟩
      · exact Or.inl hr
  cases e with
  | request r => exact henter r hx
  | rpc d req =>
    rw [step] at hx ⊢
    cases hch : challengerFor d req with
    | error e => exact Or.inl (by simpa [hch] using hx)
    | ok challenger =>
      simp only [hch] at hx
      exact henter _ hx
  | finish number =>
    rw [step] at hx
    cases hc : s.call? number with
    | none => exact Or.inl (by simpa [hc] using hx)
    | some c =>
      simp only [hc, List.mem_filter] at hx
      exact Or.inl hx.1
  | advance n => exact Or.inl hx
  | outside c => exact Or.inl hx
  | restart openMesh => cases hx

lemma requests_le_step (e : Step) : s.requests ≤ (step s e).requests := by
  have henter (r : Request) : s.requests ≤ (s.enter r).requests := by
    unfold State.enter
    cases r.prepare s.block with
    | none => exact le_rfl
    | some c => exact Nat.le_succ _
  cases e with
  | request r => exact henter r
  | rpc d req =>
    rw [step]
    cases challengerFor d req with
    | error e => exact le_rfl
    | ok challenger => exact henter _
  | finish number =>
    rw [step]
    cases s.call? number <;> exact le_rfl
  | advance n => exact le_rfl
  | outside c => exact le_rfl
  | restart openMesh => exact le_rfl

end Steps

/-- The settlement layer is in order after `n` outputs have been minted. -/
structure Orderly (n : ℕ) (s : State) : Prop where
  tidy : Tidy n s.ledger
  height : HeightSaved s.ledger
  numbered : ∀ x ∈ s.inFlight, x.1 < s.requests
  prepared : ∀ x ∈ s.inFlight, ∃ (r : Request) (now : UInt64), r.prepare now = some x.2

section Orderly

variable {n : ℕ} {s : State}

lemma orderly_start (openMesh : Bool) : Orderly 0 (start openMesh) where
  tidy := tidy_initial openMesh
  height := heightSaved_reopened _ openMesh
  numbered := fun _ hx => nomatch hx
  prepared := fun _ hx => nomatch hx

lemma Request.prepare_ne {r : Request} {now : UInt64} {c : Call} (h : r.prepare now = some c)
    (k : UInt64) : c ≠ .advanceBlock k := by
  rintro rfl
  cases r with
  | settleCompletedTask task inputCID claim =>
    rw [prepare] at h
    split_ifs at h
    cases h
  | finalize tx => cases h
  | challenge tx fraud challenger => cases h

lemma Orderly.exists_prepare (h : Orderly n s) {number : ℕ} {c : Call}
    (hc : s.call? number = some c) :
    (number, c) ∈ s.inFlight ∧ ∃ (r : Request) (now : UInt64), r.prepare now = some c := by
  obtain ⟨l₁, l₂, hl, -⟩ := List.lookup_eq_some_iff.mp hc
  have hmem : (number, c) ∈ s.inFlight := by simp [hl]
  exact ⟨hmem, h.prepared _ hmem⟩

lemma Orderly.sameHeight_step (h : Orderly n s) {e : Step} (he : ∀ k, e ≠ .advance k) :
    (step s e).block = s.block ∧ HeightSaved (step s e).ledger := by
  have hcall (c : Call) (hc : ∀ k, c ≠ .advanceBlock k) :
      (c.after s.ledger).mem.block = s.block ∧ HeightSaved (c.after s.ledger) := by
    have hsame := (c.outcome s.ledger).sameHeight hc
    exact ⟨hsame.mem, h.height.of_sameHeight hsame⟩
  rw [State.block, ledger_step]
  cases e with
  | request r => exact ⟨rfl, h.height⟩
  | rpc d req => exact ⟨rfl, h.height⟩
  | finish number =>
    rw [State.action?]
    cases hc : s.call? number with
    | none => exact ⟨rfl, h.height⟩
    | some c =>
      obtain ⟨-, r, now, hr⟩ := h.exists_prepare hc
      exact hcall c (Request.prepare_ne hr)
  | advance k => exact absurd rfl (he k)
  | outside c => exact hcall c.call (by cases c <;> simp [Outside.call])
  | restart openMesh => exact ⟨h.height, heightSaved_reopened _ openMesh⟩

lemma ledger_advance (k : UInt64) : (step s (.advance k)).ledger = advanced s.ledger k := by
  simp [step, State.called, Call.after, Call.exec, Proc.run_bind]

section

variable (h : Orderly n s) (e : Step) (hn : n + issuedBy s e < 2 ^ 64)
include h hn

theorem Orderly.step : Orderly (n + issuedBy s e) (step s e) where
  tidy := by
    rw [issuedBy] at hn ⊢
    rw [ledger_step]
    cases ha : s.action? e with
    | none => exact h.tidy
    | some a =>
      rw [ha] at hn
      exact h.tidy.act a hn
  height := by
    by_cases he : ∃ k, e = .advance k
    · obtain ⟨k, rfl⟩ := he
      rw [ledger_advance]
      exact heightSaved_advanced s.ledger k
    · exact (h.sameHeight_step (not_exists.mp he)).2
  numbered x hx := by
    rcases mem_inFlight_step hx with hx | ⟨hx, hreq, -⟩
    · exact (h.numbered x hx).trans_le (requests_le_step e)
    · omega
  prepared x hx := by
    rcases mem_inFlight_step hx with hx | ⟨-, -, r, hr⟩
    · exact h.prepared x hx
    · exact ⟨r, s.block, hr⟩

lemma Orderly.follows_step : Follows s.ledger (Settler.step s e).ledger := by
  rw [issuedBy] at hn
  rw [ledger_step]
  cases ha : s.action? e with
  | none => exact .refl _
  | some a =>
    rw [ha] at hn
    cases a with
    | restart openMesh => exact .refl _
    | call c =>
      obtain ⟨i, hi, hfiled⟩ := h.tidy.filed
      exact Follows.outcome hfiled (c.outcome s.ledger)
        (lt_of_le_of_lt (Nat.add_le_add_right hi _) hn)

end

/-- In every run that mints fewer than `2 ^ 64` outputs the settlement layer stays in order. -/
theorem orderly_reached (openMesh : Bool) (es : List Step) (h : issuedIn openMesh es < 2 ^ 64) :
    Orderly (issuedIn openMesh es) (reached openMesh es) := by
  have hrun := Along.invariant (I := Orderly) (P := fun _ _ => True)
    (fun _ _ e h _ hn => h.step e hn) (orderly_start openMesh)
    (along_iff_forall_split.mpr fun _ _ _ _ => trivial)
    (show 0 + issuedIn openMesh es < 2 ^ 64 by rwa [Nat.zero_add])
  rwa [Nat.zero_add] at hrun

end Orderly

end Cerberus.Settler
