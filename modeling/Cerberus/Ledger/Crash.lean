import Cerberus.Ledger.DoubleSpend
import Cerberus.Ledger.Escrow

/-!
# Crashes

The process may stop between any two writes of a call; the writes made so far are in the store, and
the next start opens the ledger on them. An output and the counter that says its id is taken are two
writes. A crash between them leaves an output under the id that will be given out next
(`no_overwrite_iff`).
-/

namespace Cerberus.Ledger

open Foundation

inductive Event
  | action (a : Action)
  /-- The process stops in the call `c` after `k` of its writes and is started again. -/
  | crash (c : Call) (k : ℕ) (openMesh : Bool)
  deriving DecidableEq, Repr

/-- The writes that reach the store. -/
def Event.writes (w : LedgerWorld) : Event → List LedgerWrite
  | action a => a.writes w
  | crash c k _ => (c.exec.writes w).take k

def happen (w : LedgerWorld) : Event → LedgerWorld
  | .action a => act w a
  | .crash c k openMesh =>
    reopened (Write.applyAll ((c.exec.writes w).take k) w.store) openMesh

/-- How many outputs an event stores. -/
def mintsOf (w : LedgerWorld) (e : Event) : ℕ := mintsIn (e.writes w)

def reachedBy (openMesh : Bool) (es : List Event) : LedgerWorld :=
  runFrom happen (initial openMesh) es

/-- How many outputs are stored in a run from an empty store. -/
def mintsBy (openMesh : Bool) (es : List Event) : ℕ :=
  totalCost happen mintsOf (initial openMesh) es

/-- The process does not stop between the write of an output and that of the counter. -/
def SafeStop (w : LedgerWorld) : Event → Prop
  | .action _ => True
  | .crash c k _ => ∀ x, (c.exec.writes w)[k]? = some x → x.site ≠ .persistNext

/-- A new output is written to a key that is in use. -/
def Overwrites (w : LedgerWorld) (e : Event) : Prop := ¬ Clean w.store (e.writes w)

section Crash

variable {n : ℕ} {w : LedgerWorld}

variable {e : Event} {es : List Event}

section

variable (h : Fresh n w) (he : SafeStop w e)
include h he

lemma Event.serial : Serial n w.store (e.writes w) := by
  cases e with
  | action a => exact a.serial h
  | crash c k openMesh => exact (c.serial h).take he

lemma Fresh.not_overwrites (hn : n + mintsOf w e < 2 ^ 64) : ¬ Overwrites w e :=
  not_not.mpr ((e.serial h he).fresh_clean (h.reopened true) hn).2

lemma Fresh.happen (hn : n + mintsOf w e < 2 ^ 64) : Fresh (n + mintsOf w e) (happen w e) := by
  cases e with
  | action a =>
    cases a with
    | call c => exact h.outcome (c.outcome w) hn
    | restart openMesh => exact h.reopened openMesh
  | crash c k openMesh =>
    exact ((Event.serial h he).fresh_clean (h.reopened openMesh) hn).1

end

lemma Fresh.live_next_of_unsafe (h : Fresh n w) (he : ¬ SafeStop w e)
    (hn : n + mintsOf w e < 2 ^ 64) :
    (Ledger.happen w e).store.get? (key (Ledger.happen w e).mem.next) ≠ none := by
  cases e with
  | action a => exact absurd trivial he
  | crash c k openMesh =>
    simp only [SafeStop, not_forall, not_not] at he
    obtain ⟨x, hx, hsite⟩ := he
    obtain ⟨T, u, hT, hserial⟩ := (c.serial h).take_of_persistNext hx hsite
    rw [mintsOf, Event.writes, hT, mintsIn_append] at hn
    have hfresh := (hserial.fresh_clean (h.reopened openMesh) (by omega)).1
    -- The output that was written last is under the id that the saved counter shows.
    have hstore : (Ledger.happen w (.crash c k openMesh)).store =
        (Write.applyAll T w.store).put (key (UInt64.ofNat (n + mintsIn T + 1))) (Utxo.marshal u) := by
      rw [Ledger.happen, hT, Write.applyAll_append]
      rfl
    have hnext : (Ledger.happen w (.crash c k openMesh)).mem.next =
        savedNext (Ledger.happen w (.crash c k openMesh)).store := rfl
    have hsaved : savedNext (Ledger.happen w (.crash c k openMesh)).store =
        UInt64.ofNat (n + mintsIn T + 1) := by
      rw [hstore, savedNext, OrdMap.get?_put, if_neg (key_ne hasPrefix_utxoPfx_metaNext _).symm]
      exact hfresh.saved
    rw [hnext, hsaved, hstore, OrdMap.get?_put, if_pos rfl]
    exact Option.some_ne_none _

lemma overwrites_mint (owner : GoString) (value : UInt64)
    (h : w.store.get? (key w.mem.next) ≠ none) :
    Overwrites w (.action (.call (.mint owner value))) := by
  intro hclean
  have hwrites : (Event.action (.call (.mint owner value))).writes w =
      [⟨.mintLocked, key w.mem.next, some (Utxo.marshal ⟨owner, value⟩)⟩,
        ⟨.persistNext, metaNext, some (.ofUInt64 (w.mem.next + 1))⟩] := by
    simp [Event.writes, Action.writes, Call.exec, mint, mintLocked, persistNext, storePut,
      Proc.writes_bind, Proc.run_bind]
  rw [hwrites] at hclean
  exact h (hclean.1 rfl)

lemma mintsOf_mint (owner : GoString) (value : UInt64) :
    mintsOf w (.action (.call (.mint owner value))) = 1 := by
  have hissued : (Call.mint owner value).issued w = 1 := by
    simp [Call.issued, Call.exec, mint]
  exact hissued

variable (h : Fresh n w) (hes : Along Ledger.happen SafeStop w es)
  (hn : n + totalCost Ledger.happen mintsOf w es < 2 ^ 64)
include h hes hn

/-- Along a run with crashes at safe points the ids stay in order. -/
theorem Fresh.happen_run :
    Fresh (n + totalCost Ledger.happen mintsOf w es) (runFrom Ledger.happen w es) :=
  Along.invariant (fun _ _ _ h he hn => h.happen he hn) h hes hn

theorem Fresh.not_overwrites_run : Along Ledger.happen (fun w e => ¬ Overwrites w e) w es :=
  Along.imp_of_invariant (fun _ _ _ h he hn => h.happen he hn)
    (fun _ _ _ h he hn => h.not_overwrites he hn) h hes hn

end Crash

/-- **Crashes.** After a run whose crashes were all at safe points, let one more event happen. In
all further runs with crashes at safe points, as long as fewer than `2 ^ 64` outputs are stored, no
new output overwrites a live one iff the event is not a crash between the write of an
output and that of the counter. -/
theorem no_overwrite_iff (openMesh : Bool) (pre : List Event) (e : Event)
    (hpre : Along happen SafeStop (initial openMesh) pre)
    (hroom : mintsBy openMesh (pre ++ [e]) + 1 < 2 ^ 64) :
    (∀ post, Along happen SafeStop (reachedBy openMesh (pre ++ [e])) post →
      mintsBy openMesh (pre ++ [e] ++ post) < 2 ^ 64 →
      Along happen (fun w e => ¬ Overwrites w e) (initial openMesh) (pre ++ [e] ++ post)) ↔
    SafeStop (reachedBy openMesh pre) e := by
  have hfresh₀ : Fresh 0 (initial openMesh) := (tidy_initial openMesh).fresh
  constructor
  · intro hall
    by_contra hunsafe
    have hbound : mintsBy openMesh pre + mintsOf (reachedBy openMesh pre) e + 1 < 2 ^ 64 := by
      rw [mintsBy, totalCost_append] at hroom
      exact hroom
    have hfresh := hfresh₀.happen_run hpre
      (show 0 + mintsBy openMesh pre < 2 ^ 64 by omega)
    have hlive := hfresh.live_next_of_unsafe hunsafe
      (show 0 + mintsBy openMesh pre + mintsOf (reachedBy openMesh pre) e < 2 ^ 64 by omega)
    -- The run that follows is a single `Mint`.
    have hover : Overwrites (runFrom happen (initial openMesh) (pre ++ [e]))
        (.action (.call (.mint ⟨[]⟩ 0))) := by
      rw [runFrom_append]
      exact overwrites_mint ⟨[]⟩ 0 hlive
    have hclean := hall [.action (.call (.mint ⟨[]⟩ 0))] ⟨trivial, trivial⟩ (by
      rw [mintsBy, totalCost_append, totalCost_cons, totalCost_nil, mintsOf_mint]
      exact hroom)
    exact (along_append.mp hclean).2.1 hover
  · intro hsafe post hpost hbound
    have hsafeRun : Along happen SafeStop (initial openMesh) (pre ++ [e] ++ post) :=
      along_append.mpr ⟨along_append.mpr ⟨hpre, hsafe, trivial⟩, hpost⟩
    exact hfresh₀.not_overwrites_run hsafeRun
      (show 0 + mintsBy openMesh (pre ++ [e] ++ post) < 2 ^ 64 by omega)

/-- `Settle` stops after it has stored the change and the counter; after the restart somebody
mints. -/
def stoppedSettle : List Event :=
  [.action (.call (.mint (.lit "c") 10)), .crash (.settle 1 (.lit "p") 4) 3 true,
    .action (.call (.mint (.lit "b") 7))]

/-- Nothing is overwritten after a crash between two outputs. -/
theorem stoppedSettle_overwrites_nothing :
    Along happen (fun w e => ¬ Overwrites w e) (initial true) stoppedSettle := by
  have hsafe : SafeStop (reachedBy true (stoppedSettle.take 1))
      (.crash (.settle 1 (.lit "p") 4) 3 true) := by
    have hnext : ((Call.settle 1 (.lit "p") 4).exec.writes
        (reachedBy true (stoppedSettle.take 1)))[3]?.map Write.site = some .mintLocked := by
      decide +kernel
    intro x hx
    rw [hx] at hnext
    simp [Option.some.inj hnext]
  exact (no_overwrite_iff true (stoppedSettle.take 1) (.crash (.settle 1 (.lit "p") 4) 3 true)
    ⟨trivial, trivial⟩ (by decide +kernel)).mpr hsafe [.action (.call (.mint (.lit "b") 7))]
    ⟨trivial, trivial⟩ (by decide +kernel)

/-- `Mint` stops after it has stored its output; after the restart somebody else mints. -/
def tornMint : List Event :=
  [.crash (.mint (.lit "a") 5) 1 true, .action (.call (.mint (.lit "b") 7))]

/-- The output of "a", which was live after the restart, is overwritten by that of "b". -/
theorem tornMint_overwrites :
    coin (reachedBy true (tornMint.take 1)).store 1 = some ⟨.lit "a", 5⟩ ∧
      Overwrites (reachedBy true (tornMint.take 1)) (.action (.call (.mint (.lit "b") 7))) ∧
      coin (reachedBy true tornMint).store 1 = some ⟨.lit "b", 7⟩ ∧
      balanceReading (reachedBy true tornMint) (.lit "a") = .ok 0 := by
  refine ⟨by decide +kernel, overwrites_mint _ _ (by decide +kernel), by decide +kernel,
    by decide +kernel⟩

end Cerberus.Ledger
