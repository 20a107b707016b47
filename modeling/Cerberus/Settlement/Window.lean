import Cerberus.Settlement.Steps

/-!
# Decisions and dispute windows

Every claim is decided at most once, whatever the interleaving. That a dispute window closes for
good rests on the block height: `WindowElapsed` saturates, but `AdvanceBlock` adds modulo `2 ^ 64`,
so an `Advance` beyond the end of the range takes the height back and opens windows again
(`windows_close_iff`).
-/

namespace Cerberus.Settler

open Foundation

open Ledger

/-- The step decides the claim. -/
def DecidesTx (s : State) (e : Step) (tx : UInt64) : Prop :=
  ∃ number c, e = .finish number ∧ s.call? number = some c ∧ c.subject = some tx ∧
    c.Succeeds s.ledger

/-- The request with this number calls the ledger with a challenge of the claim `tx` that
succeeds. -/
def Slashes (s : State) (number : ℕ) (tx : UInt64) : Prop :=
  ∃ fraud now challenger, s.call? number = some (.challenge tx fraud now challenger) ∧
    (Call.challenge tx fraud now challenger).Succeeds s.ledger

/-- An `Advance` takes the height beyond the end of its range. -/
def Wraps (s : State) : Step → Prop
  | .advance n => 2 ^ 64 ≤ s.block.toNat + n.toNat
  | .request _ | .rpc .. | .finish _ | .outside _ | .restart _ => False

/-- No claim is decided twice. -/
def DecidedOnce (openMesh : Bool) (es : List Step) : Prop :=
  ∀ (pre mid post : List Step) (e e' : Step) (tx : UInt64),
    es = pre ++ e :: mid ++ e' :: post → DecidesTx (reached openMesh pre) e tx →
      ¬ DecidesTx (reached openMesh (pre ++ e :: mid)) e' tx

/-- The block height never goes back. -/
def HeightGrows (openMesh : Bool) (es : List Step) : Prop :=
  Along step (fun s e => s.block ≤ (step s e).block) (start openMesh) es

/-- Once the block height has reached the end of a claim's window, no challenge that comes in later
succeeds on the claim. -/
def WindowsClose (openMesh : Bool) (es : List Step) : Prop :=
  ∀ (pre mid post : List Step) (number : ℕ) (tx : UInt64) (p : PendingSettlement),
    es = pre ++ mid ++ .finish number :: post →
      claim (reached openMesh pre).ledger.store tx = some p →
      p.windowElapsed (reached openMesh pre).block = true →
      (reached openMesh pre).requests ≤ number →
      ¬ Slashes (reached openMesh (pre ++ mid)) number tx

section Height

variable {n : ℕ} {s : State}

lemma le_add_iff_not_wraps (a b : UInt64) : a ≤ a + b ↔ ¬ 2 ^ 64 ≤ a.toNat + b.toNat := by
  have ha := a.toNat_lt
  have hb := b.toNat_lt
  rw [UInt64.le_iff_toNat_le, UInt64.toNat_add]
  omega

lemma Orderly.block_le_iff (h : Orderly n s) (e : Step) :
    s.block ≤ (Settler.step s e).block ↔ ¬ Wraps s e := by
  by_cases he : ∃ k, e = .advance k
  · obtain ⟨k, rfl⟩ := he
    rw [State.block, State.block, ledger_advance]
    exact le_add_iff_not_wraps s.block k
  · have hwraps : ¬ Wraps s e := by
      cases e with
      | advance k => exact absurd ⟨k, rfl⟩ he
      | request | rpc | finish | outside | restart => exact id
    rw [(h.sameHeight_step (not_exists.mp he)).1]
    exact iff_of_true (UInt64.le_refl _) hwraps

end Height

section Decisions

variable {n : ℕ} {s : State} {tx : UInt64}

lemma Orderly.settled_of_decidesTx (h : Orderly n s) {e : Step} (he : DecidesTx s e tx) :
    Settled (Settler.step s e).ledger tx := by
  obtain ⟨number, c, rfl, hc, htx, hok⟩ := he
  rw [ledger_step, State.action?, hc]
  exact h.tidy.settled_after htx hok

lemma not_decidesTx_of_settled (h : Settled s.ledger tx) (e : Step) : ¬ DecidesTx s e tx := by
  rintro ⟨number, c, -, -, htx, hok⟩
  exact h.not_succeeds htx hok

end Decisions

/-! ### Windows -/

/-- A challenge has read a height from `b` on. -/
def ReadAtLeast (b : UInt64) (c : Call) : Prop :=
  ∀ tx fraud now challenger, c = .challenge tx fraud now challenger → b ≤ now

/-- Requests numbered from `k` on have read heights from `b` on. -/
structure Since (k : ℕ) (b : UInt64) (s : State) : Prop where
  height : b ≤ s.block
  requests : k ≤ s.requests
  read : ∀ x ∈ s.inFlight, k ≤ x.1 → ReadAtLeast b x.2

section Windows

variable {n k : ℕ} {s : State} {b : UInt64}

lemma windowElapsed_mono {p : PendingSettlement} {a b : UInt64} (hab : a ≤ b)
    (h : p.windowElapsed a = true) : p.windowElapsed b = true := by
  simp only [PendingSettlement.windowElapsed, decide_eq_true_eq] at h ⊢
  exact UInt64.le_trans h hab

lemma Orderly.since (h : Orderly n s) : Since s.requests s.block s where
  height := UInt64.le_refl _
  requests := le_rfl
  read x hx hle := absurd (h.numbered x hx) (not_lt.mpr hle)

lemma Request.readAtLeast {r : Request} {now : UInt64} {c : Call} (h : r.prepare now = some c)
    (hb : b ≤ now) : ReadAtLeast b c := by
  rintro tx fraud now' challenger rfl
  cases r with
  | settleCompletedTask task inputCID claim =>
    rw [prepare] at h
    split_ifs at h
    cases h
  | finalize tx => cases h
  | challenge tx fraud challenger =>
    cases h
    exact hb

lemma Since.step (h : Since k b s) (hs : Orderly n s) {e : Step} (he : ¬ Wraps s e) :
    Since k b (Settler.step s e) where
  height := UInt64.le_trans h.height ((hs.block_le_iff e).mpr he)
  requests := h.requests.trans (requests_le_step e)
  read x hx hle := by
    rcases mem_inFlight_step hx with hx | ⟨-, -, r, hr⟩
    · exact h.read x hx hle
    · exact r.readAtLeast hr h.height

lemma Since.not_slashes (h : Since k b s) {w : LedgerWorld} (hw : Follows w s.ledger)
    (hs : Orderly n s) {tx : UInt64} {p : PendingSettlement} (hp : claim w.store tx = some p)
    (helapsed : p.windowElapsed b = true) {number : ℕ} (hnumber : k ≤ number) :
    ¬ Slashes s number tx := by
  rintro ⟨fraud, now, challenger, hc, hok⟩
  obtain ⟨q, ps, st, r, hd, -, -⟩ := Call.exists_decides rfl hok
  obtain ⟨st', hclaim, -⟩ := hw tx p hp
  cases hd with
  | challenge _ hch =>
    obtain ⟨⟨-, hq, -⟩, hopen, -⟩ := hch
    obtain rfl := Option.some.inj (hclaim.symm.trans hq)
    have hread := h.read _ (hs.exists_prepare hc).1 hnumber tx fraud now challenger rfl
    have helapsed' : p.windowElapsed now = true := windowElapsed_mono hread helapsed
    exact absurd (helapsed'.symm.trans hopen) (by decide)

end Windows

/-! ### Runs -/

section Runs

variable {n : ℕ} {s : State}

/-- Along a run the settlement layer stays in order and claims live on. -/
theorem Orderly.run (h : Orderly n s) (es : List Step)
    (hn : n + totalCost Settler.step issuedBy s es < 2 ^ 64) :
    Orderly (n + totalCost Settler.step issuedBy s es) (runFrom Settler.step s es) ∧
      Follows s.ledger (runFrom Settler.step s es).ledger := by
  have hstep : ∀ n t e, Orderly n t ∧ Follows s.ledger t.ledger → True →
      n + issuedBy t e < 2 ^ 64 →
      Orderly (n + issuedBy t e) (Settler.step t e) ∧
        Follows s.ledger (Settler.step t e).ledger :=
    fun n t e ht _ hn => ⟨ht.1.step e hn, ht.2.trans (ht.1.follows_step e hn)⟩
  exact Along.invariant (I := fun n t => Orderly n t ∧ Follows s.ledger t.ledger)
    (P := fun _ _ => True) hstep ⟨h, .refl _⟩ (along_iff_forall_split.mpr fun _ _ _ _ => trivial) hn

/-- Along a run in which the height does not wrap around, requests read greater heights. -/
theorem Since.run {k : ℕ} {b : UInt64} (h : Since k b s) (hs : Orderly n s) {es : List Step}
    (hes : Along Settler.step (fun s e => ¬ Wraps s e) s es)
    (hn : n + totalCost Settler.step issuedBy s es < 2 ^ 64) :
    Since k b (runFrom Settler.step s es) := by
  have hstep : ∀ n t e, Orderly n t ∧ Since k b t → ¬ Wraps t e → n + issuedBy t e < 2 ^ 64 →
      Orderly (n + issuedBy t e) (Settler.step t e) ∧ Since k b (Settler.step t e) :=
    fun n t e ht he hn => ⟨ht.1.step e hn, ht.2.step ht.1 he⟩
  exact (Along.invariant (I := fun n t => Orderly n t ∧ Since k b t) hstep ⟨hs, h⟩ hes hn).2

end Runs

section Reached

variable {openMesh : Bool} {es : List Step}

lemma issuedIn_append (pre post : List Step) : issuedIn openMesh (pre ++ post) =
    issuedIn openMesh pre + totalCost step issuedBy (reached openMesh pre) post :=
  totalCost_append _ _ pre post

lemma reached_append (pre post : List Step) :
    reached openMesh (pre ++ post) = runFrom step (reached openMesh pre) post :=
  runFrom_append _ pre post

variable (hcount : issuedIn openMesh es < 2 ^ 64)
include hcount

/-- No claim is decided twice, whether or not the height wraps around. -/
theorem decidedOnce : DecidedOnce openMesh es := by
  rintro pre mid post e e' tx rfl he
  rw [issuedIn_append, issuedIn_append, totalCost_cons, ← Nat.add_assoc] at hcount
  have hpre := orderly_reached openMesh pre (by omega)
  have hdecided := hpre.step e (by omega)
  have hsettled := hpre.settled_of_decidesTx he
  have hlater := (hdecided.run mid (by omega)).2
  rw [reached_append]
  exact not_decidesTx_of_settled (hsettled.follows hlater) e'

/-- The height never decreases iff no `Advance` wraps around. -/
theorem heightGrows_iff :
    HeightGrows openMesh es ↔ Along step (fun s e => ¬ Wraps s e) (start openMesh) es := by
  rw [HeightGrows, along_iff_forall_split, along_iff_forall_split]
  refine forall_congr' fun pre => forall_congr' fun e => forall_congr' fun post =>
    forall_congr' fun hes => ?_
  rw [hes, issuedIn_append] at hcount
  exact (orderly_reached openMesh pre (by omega)).block_le_iff e

/-- If no `Advance` wraps around, windows close for good. -/
theorem windowsClose
    (hes : Along step (fun s e => ¬ Wraps s e) (start openMesh) es) : WindowsClose openMesh es := by
  rintro pre mid post number tx p rfl hp helapsed hnumber
  rw [issuedIn_append, issuedIn_append] at hcount
  have hpre := orderly_reached openMesh pre (by omega)
  have hmid := (along_append.mp (along_append.mp hes).1).2
  obtain ⟨horderly, hfollows⟩ := hpre.run mid (by omega)
  have hsince := hpre.since.run hpre hmid (by omega)
  rw [reached_append]
  exact hsince.not_slashes hfollows horderly hp helapsed hnumber

end Reached

/-- **Decisions and dispute windows.** In every interleaving that mints fewer than `2 ^ 64`
outputs, each claim is decided at most once, the block height never decreases and windows close for
good iff no `Advance` takes the height beyond the end of its range. -/
theorem windows_close_iff (openMesh : Bool) (es : List Step)
    (hcount : issuedIn openMesh es < 2 ^ 64) :
    DecidedOnce openMesh es ∧ HeightGrows openMesh es ∧ WindowsClose openMesh es ↔
      Along step (fun s e => ¬ Wraps s e) (start openMesh) es := by
  constructor
  · rintro ⟨-, hgrows, -⟩
    exact (heightGrows_iff hcount).mp hgrows
  · intro hes
    exact ⟨decidedOnce hcount, (heightGrows_iff hcount).mpr hes, windowsClose hcount hes⟩

instance decidableWraps (s : State) : ∀ e, Decidable (Wraps s e)
  | .advance n => inferInstanceAs (Decidable (2 ^ 64 ≤ s.block.toNat + n.toNat))
  | .request _ | .rpc .. | .finish _ | .outside _ | .restart _ => inferInstanceAs (Decidable False)

def shortClaim : Request :=
  .settleCompletedTask ⟨[1], [0xde, 0xad]⟩ (.lit "in")
    { consumer := .lit "c"
      provider := .lit "p"
      paymentInput := 1
      payment := 10
      bondInput := 0
      bond := 0
      outputCID := .lit "out"
      disputeBlocks := 1 }

def shortClaimFraud : FraudProof := ⟨.lit "dead", .lit "in", .lit "out", .lit "other"⟩

/-- The claim is opened, its window elapses, a challenge comes too late, and after a restart the
claim is finalized. -/
def lateChallenge : List Step :=
  [.outside (.mint (.lit "c") 10), .request shortClaim, .finish 0, .advance 1,
    .request (.challenge 1 shortClaimFraud (.lit "w")), .finish 1, .restart true,
    .request (.finalize 1), .finish 2]

/-- Where the height stays in its range, the window stays closed. -/
theorem lateChallenge_windowsClose : DecidedOnce true lateChallenge ∧
    HeightGrows true lateChallenge ∧ WindowsClose true lateChallenge :=
  (windows_close_iff true lateChallenge (by decide +kernel)).mpr (by decide +kernel)

/-- The claim is opened and its window elapses; an `Advance` by `2 ^ 64 - 1` takes the height back,
and then a challenge comes. -/
def reopenedWindow : List Step :=
  [.outside (.mint (.lit "c") 10), .request shortClaim, .finish 0, .advance 1,
    .advance 18446744073709551615, .request (.challenge 1 shortClaimFraud (.lit "w")), .finish 1]

/-- The height goes from one back to zero, and the challenge of the claim succeeds although its
window had elapsed. -/
theorem reopenedWindow_slashes :
    (reached true (reopenedWindow.take 4)).block = 1 ∧
      (reached true (reopenedWindow.take 5)).block = 0 ∧ ¬ WindowsClose true reopenedWindow := by
  refine ⟨by decide +kernel, by decide +kernel, fun hclose => ?_⟩
  have helapsed : (claim (reached true (reopenedWindow.take 4)).ledger.store 1).map
      (fun p => p.windowElapsed (reached true (reopenedWindow.take 4)).block) = some true := by
    decide +kernel
  obtain ⟨p, hp, hp'⟩ := Option.map_eq_some_iff.mp helapsed
  have hslashes : Slashes (reached true (reopenedWindow.take 4 ++ (reopenedWindow.drop 4).take 2))
      1 1 :=
    ⟨shortClaimFraud, 0, .lit "w", by decide +kernel, .slash ⟨1, 10, 0⟩, by decide +kernel⟩
  exact hclose (reopenedWindow.take 4) ((reopenedWindow.drop 4).take 2) [] 1 1 p rfl hp hp'
    (by decide +kernel) hslashes

end Cerberus.Settler
