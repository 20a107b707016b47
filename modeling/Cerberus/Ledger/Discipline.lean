import Cerberus.Ledger.Freshness

/-!
# The order of writes

Every operation of the ledger keeps to one discipline in its writes (`Serial`): a new output is
written under the next id and the advanced counter right after it, no other write touches the
counter, and nothing else writes to the key of an output unless there is one already.

It fixes which ids a trace of writes creates (`Serial.created_eq`).
-/

namespace Cerberus.Ledger

open Foundation List

abbrev LedgerWrite := Write Site GoString Blob

/-- How many outputs a trace of writes mints. -/
def mintsIn (T : List LedgerWrite) : ℕ := T.countP fun x => x.site = .mintLocked

/-- The writes of a new output with the id `n + 1`: the output and then the counter. -/
def mintWrites (n : ℕ) (u : Utxo) : List LedgerWrite :=
  [⟨.mintLocked, key (UInt64.ofNat (n + 1)), some u.marshal⟩,
    ⟨.persistNext, metaNext, some (.ofUInt64 (UInt64.ofNat (n + 1 + 1)))⟩]

/-- A write that is not part of minting: it does not touch the counter, and it does not write to the
key of an output that does not exist. -/
structure Ordinary (m : Store) (x : LedgerWrite) : Prop where
  site : x.site ≠ .mintLocked ∧ x.site ≠ .persistNext
  key_ne : x.key ≠ metaNext
  existing : ∀ id, x.key = key id → x.val ≠ none → m.get? (key id) ≠ none

/-- A trace of writes that starts on the store `m` after `n` outputs have been minted and keeps to
the discipline. -/
inductive Serial : ℕ → Store → List LedgerWrite → Prop
  | nil (n : ℕ) (m : Store) : Serial n m []
  | mint {n : ℕ} {m : Store} (u : Utxo) {T : List LedgerWrite}
      (h : Serial (n + 1) (Write.applyAll (mintWrites n u) m) T) :
      Serial n m (mintWrites n u ++ T)
  | ordinary {n : ℕ} {m : Store} {x : LedgerWrite} {T : List LedgerWrite} (hx : Ordinary m x)
      (h : Serial n (x.apply m) T) : Serial n m (x :: T)

section Serial

variable {n : ℕ} {m : Store} {T T' : List LedgerWrite}

@[simp] lemma mintsIn_nil : mintsIn [] = 0 := rfl

@[simp] lemma mintsIn_append : mintsIn (T ++ T') = mintsIn T + mintsIn T' := countP_append

@[simp] lemma mintsIn_mintWrites (u : Utxo) : mintsIn (mintWrites n u) = 1 := rfl

lemma mintsIn_cons_of_ordinary {x : LedgerWrite} (hx : Ordinary m x) :
    mintsIn (x :: T) = mintsIn T := by
  simp [mintsIn, hx.site.1]

lemma Serial.append (h : Serial n m T)
    (h' : Serial (n + mintsIn T) (Write.applyAll T m) T') : Serial n m (T ++ T') := by
  induction h with
  | nil n m => exact h'
  | @mint n m u T h ih =>
    rw [append_assoc]
    refine Serial.mint u (ih ?_)
    rwa [mintsIn_append, mintsIn_mintWrites, ← Nat.add_assoc, Write.applyAll_append] at h'
  | ordinary hx h ih =>
    rw [mintsIn_cons_of_ordinary hx] at h'
    exact Serial.ordinary hx (ih h')

end Serial

/-! ### What the discipline gives -/

/-- The keys under which a trace of writes creates outputs. -/
def created (T : List LedgerWrite) : List GoString :=
  T.filterMap fun x => if x.site = .mintLocked then some x.key else none

/-- No new output is written to a key that is in use. -/
def Clean : Store → List LedgerWrite → Prop
  | _, [] => True
  | m, x :: T => (x.site = .mintLocked → m.get? x.key = none) ∧ Clean (x.apply m) T

section Consequences

variable {n : ℕ} {m : Store} {T : List LedgerWrite}

theorem Serial.created_eq (h : Serial n m T) :
    created T = (List.range' (n + 1) (mintsIn T)).map fun i => key (UInt64.ofNat i) := by
  induction h with
  | nil n m => rfl
  | @mint n m u T h ih =>
    rw [created, filterMap_append, ← created, ← created, ih, mintsIn_append,
      mintsIn_mintWrites, Nat.add_comm 1, List.range'_succ]
    rfl
  | @ordinary n m x T hx h ih =>
    rw [mintsIn_cons_of_ordinary hx, created, filterMap_cons, if_neg hx.site.1, ← created, ih]

variable {w : LedgerWorld} {openMesh : Bool} {x : LedgerWrite} {k : ℕ}

lemma applyAll_mintWrites (h : Fresh n w) (u : Utxo) :
    Write.applyAll (mintWrites n u) w.store = (minted w u.owner u.value).store := by
  rw [minted, h.next, ofNat_succ_add_one]
  rfl

lemma Fresh.reopened (h : Fresh n w) (openMesh : Bool) : Fresh n (reopened w.store openMesh) :=
  ⟨h.saved, h.saved, h.live⟩

lemma Fresh.ordinary (h : Fresh n (Ledger.reopened m openMesh)) (hx : Ordinary m x) :
    Fresh n (Ledger.reopened (x.apply m) openMesh) := by
  have hsaved : (x.apply m).get? metaNext = m.get? metaNext := by
    rw [Write.get?_apply, if_neg hx.key_ne.symm]
  refine h.of_frame ?_ hsaved fun id hid => ?_
  · change savedNext (x.apply m) = savedNext m
    rw [savedNext, hsaved, savedNext]
  · change (x.apply m).get? (key id) ≠ none at hid
    rw [Write.get?_apply] at hid
    split_ifs at hid with hkey
    · exact hx.existing id hkey.symm hid
    · exact hid

variable (h : Serial n m T)
include h

/-- On a store in order, a trace that keeps to the discipline leaves a store in order, and no new
output overwrites anything. -/
theorem Serial.fresh_clean (hm : Fresh n (reopened m openMesh)) (hn : n + mintsIn T < 2 ^ 64) :
    Fresh (n + mintsIn T) (reopened (Write.applyAll T m) openMesh) ∧ Clean m T := by
  induction h with
  | nil n m => exact ⟨hm, trivial⟩
  | @mint n m u T h ih =>
    rw [mintsIn_append, mintsIn_mintWrites, ← Nat.add_assoc] at hn ⊢
    have hmint : Write.applyAll (mintWrites n u) m =
        (minted (reopened m openMesh) u.owner u.value).store := applyAll_mintWrites hm u
    have hfree : m.get? (key (UInt64.ofNat (n + 1))) = none := by
      have := hm.get?_next (by omega)
      rwa [hm.next] at this
    have hm' := (hm.minted (by omega) u.owner u.value).reopened openMesh
    rw [← hmint] at hm'
    obtain ⟨hfresh, hclean⟩ := ih hm' hn
    rw [Write.applyAll_append]
    exact ⟨hfresh, fun _ => hfree, fun hsite => (nomatch hsite), hclean⟩
  | @ordinary n m x T hx h ih =>
    rw [mintsIn_cons_of_ordinary hx] at hn ⊢
    obtain ⟨hfresh, hclean⟩ := ih (hm.ordinary hx) hn
    exact ⟨hfresh, fun hsite => absurd hsite hx.site.1, hclean⟩

theorem Serial.get?_key (hn : n + mintsIn T < 2 ^ 64) {id : UInt64}
    (hid : (Write.applyAll T m).get? (key id) ≠ none) :
    m.get? (key id) ≠ none ∨ n < id.toNat := by
  induction h with
  | nil n m => exact Or.inl hid
  | @mint n m u T h ih =>
    rw [mintsIn_append, mintsIn_mintWrites, ← Nat.add_assoc] at hn
    rw [Write.applyAll_append] at hid
    rcases ih hn hid with hget | hlt
    · rw [mintWrites, Write.applyAll, Write.applyAll, Write.applyAll, Write.get?_apply,
        if_neg (key_ne hasPrefix_utxoPfx_metaNext id), Write.get?_apply] at hget
      split_ifs at hget with hkey
      · right
        rw [key_inj.mp hkey, toNat_ofNat_succ (by omega)]
        omega
      · exact Or.inl hget
    · right
      omega
  | @ordinary n m x T hx h ih =>
    rw [mintsIn_cons_of_ordinary hx] at hn
    rcases ih hn hid with hget | hlt
    · rw [Write.get?_apply] at hget
      split_ifs at hget with hkey
      · exact Or.inl (hx.existing id hkey.symm hget)
      · exact Or.inl hget
    · exact Or.inr hlt

/-- A trace that is cut off anywhere but between the two writes of a new output keeps to the
discipline. -/
theorem Serial.take (hk : ∀ x, T[k]? = some x → x.site ≠ .persistNext) : Serial n m (T.take k) := by
  induction h generalizing k with
  | nil n m => simpa using Serial.nil n m
  | @mint n m u T h ih =>
    match k with
    | 0 => exact Serial.nil n m
    | 1 => exact absurd rfl (hk _ rfl)
    | k + 2 => exact Serial.mint u (ih fun x hx => hk x hx)
  | @ordinary n m x T hx h ih =>
    match k with
    | 0 => exact Serial.nil n m
    | k + 1 => exact Serial.ordinary hx (ih fun y hy => hk y hy)

/-- A trace that is cut off between the two writes of a new output ends with the first of them. -/
theorem Serial.take_of_persistNext (hx : T[k]? = some x) (hsite : x.site = .persistNext) :
    ∃ T' u, T.take k = T' ++ [⟨.mintLocked, key (UInt64.ofNat (n + mintsIn T' + 1)),
      some (Utxo.marshal u)⟩] ∧ Serial n m T' := by
  induction h generalizing k with
  | nil n m => simp at hx
  | @mint n m u T h ih =>
    match k with
    | 0 =>
      cases hx
      cases hsite
    | 1 => exact ⟨[], u, rfl, Serial.nil n m⟩
    | k + 2 =>
      obtain ⟨T', v, hT', hserial⟩ := ih (k := k) hx
      refine ⟨mintWrites n u ++ T', v, ?_, Serial.mint u hserial⟩
      rw [mintsIn_append, mintsIn_mintWrites, ← Nat.add_assoc, append_assoc, ← hT']
      rfl
  | @ordinary n m y T hy h ih =>
    match k with
    | 0 =>
      cases hx
      exact absurd hsite hy.site.2
    | k + 1 =>
      obtain ⟨T', v, hT', hserial⟩ := ih (k := k) hx
      refine ⟨y :: T', v, ?_, Serial.ordinary hy hserial⟩
      rw [mintsIn_cons_of_ordinary hy, cons_append, ← hT']
      rfl

end Consequences

/-! ### The operations keep to the discipline -/

/-- Keeping to the discipline, with the counter in memory in step. -/
def serially : TraceRel Ledger Site GoString Blob where
  rel w T w' := w'.store = Write.applyAll T w.store ∧ ∀ n, w.mem.next = UInt64.ofNat (n + 1) →
    Serial n w.store T ∧ w'.mem.next = UInt64.ofNat (n + mintsIn T + 1)
  nil w := ⟨rfl, fun n hn => ⟨Serial.nil n w.store, hn⟩⟩
  append := by
    rintro w w' w'' T T' ⟨hstore, hserial⟩ ⟨hstore', hserial'⟩
    refine ⟨by rw [hstore', hstore, Write.applyAll_append], fun n hn => ?_⟩
    obtain ⟨hT, hnext⟩ := hserial n hn
    obtain ⟨hT', hnext'⟩ := hserial' _ hnext
    rw [hstore] at hT'
    refine ⟨hT.append hT', ?_⟩
    rw [hnext', mintsIn_append, Nat.add_assoc n]

/-- The operation keeps to the discipline in every world. -/
def Disciplined {α : Type} (p : LedgerM α) : Prop := ∀ w, p.Obeys serially w

section Operations

variable {α β : Type}

variable {p : LedgerM α} {f : α → LedgerM β} {c : Prop} {e : LedgerErr} {k : GoString}
  {w : LedgerWorld} {site : Site}

lemma Disciplined.bind (hp : Disciplined p) (hf : ∀ a, Disciplined (f a)) : Disciplined (p >>= f) :=
  fun w => (hp w).bind fun a w' _ => hf a w'

lemma Disciplined.ite [Decidable c] {q : LedgerM α} (hp : Disciplined p) (hq : Disciplined q) :
    Disciplined (if c then p else q) := by
  split_ifs
  · exact hp
  · exact hq

lemma disciplined_pure (a : α) : Disciplined (pure a) := fun _ => Proc.obeys_pure a

lemma disciplined_throw (e : LedgerErr) : Disciplined (throw e : LedgerM α) :=
  fun _ => Proc.obeys_throw e

lemma Disciplined.check [Decidable c] {q : LedgerM β} (hq : Disciplined q) :
    Disciplined (if c then (throw e : LedgerM α) >>= f else q) :=
  .ite (fun _ => (Proc.obeys_throw e).bind fun _ _ h => nomatch h) hq

lemma Disciplined.of_enabled (hp : Disciplined p) :
    Disciplined (do
      if !(← get).enabled then throw .economyDisabled
      p) :=
  Disciplined.bind (fun _ => Proc.obeys_getMem) fun _ => hp.check

lemma disciplined_storeGet (k : GoString) : Disciplined (storeGet k) :=
  fun _ => Proc.obeys_getKey _ k

lemma disciplined_storeKeys : Disciplined storeKeys := fun _ => Proc.obeys_listKeys _

lemma disciplined_decoded (r : Except Json.Err α) : Disciplined (decoded r) := by
  cases r with
  | ok a => exact disciplined_pure a
  | error e => exact disciplined_throw _

lemma Disciplined.of_decoded {unmarshal : Blob → Except Json.Err α} (hf : ∀ a, Disciplined (f a)) :
    Disciplined (do
      let some b ← storeGet k | throw e
      f (← decoded (unmarshal b))) := by
  refine (disciplined_storeGet k).bind fun b => ?_
  cases b with
  | none => exact disciplined_throw _
  | some b => exact (disciplined_decoded _).bind hf

lemma serially_ordinary {x : LedgerWrite} (hx : Ordinary w.store x) (l : Ledger)
    (hl : l.next = w.mem.next) : serially.rel w [x] ⟨l, x.apply w.store⟩ := by
  refine ⟨rfl, fun n hn => ⟨Serial.ordinary hx (Serial.nil _ _), ?_⟩⟩
  rw [mintsIn_cons_of_ordinary hx, hl]
  exact hn

lemma disciplined_storePut (v : Blob) (hsite : site ≠ .mintLocked ∧ site ≠ .persistNext)
    (hk : k.hasPrefix utxoPfx = false) (hne : k ≠ metaNext) : Disciplined (storePut site k v) := by
  intro w
  refine serially_ordinary ⟨hsite, hne, fun id hid _ => ?_⟩ w.mem rfl
  exact absurd hid.symm (key_ne hk id)

lemma disciplined_storeDelete (hsite : site ≠ .mintLocked ∧ site ≠ .persistNext)
    (hne : k ≠ metaNext) : Disciplined (storeDelete site k) := by
  intro w
  exact serially_ordinary ⟨hsite, hne, fun _ _ hval => absurd rfl hval⟩ w.mem rfl

lemma disciplined_mintLocked (owner : GoString) (value : UInt64) :
    Disciplined (mintLocked owner value) := by
  intro w
  refine ⟨(Proc.applyAll_writes _ w).symm, fun n hn => ?_⟩
  have hwrites : (mintLocked owner value).writes w = mintWrites n ⟨owner, value⟩ := by
    simp [mintLocked, persistNext, storePut, Proc.writes_bind, Proc.run_bind, mintWrites, hn]
  rw [hwrites, run_mintLocked]
  refine ⟨?_, ?_⟩
  · simpa using Serial.mint ⟨owner, value⟩ (Serial.nil (n + 1) _)
  · rw [mem_minted, hn, mintsIn_mintWrites, ofNat_succ_add_one]

lemma disciplined_consume (hsite : site ≠ .mintLocked ∧ site ≠ .persistNext) (id : UInt64)
    (u : Utxo) (amt : UInt64) (hp : Disciplined p) :
    Disciplined (do
      storeDelete site (key id)
      if u.value > amt then
        let _ ← mintLocked u.owner (u.value - amt)
        p
      else
        p) := by
  refine (disciplined_storeDelete hsite (key_ne hasPrefix_utxoPfx_metaNext _)).bind fun _ => ?_
  exact Disciplined.ite ((disciplined_mintLocked _ _).bind fun _ => hp) hp

lemma disciplined_settle (input : UInt64) (payee : GoString) (amt : UInt64) :
    Disciplined (settle input payee amt) :=
  .of_enabled <| .of_decoded fun u => .check <|
    disciplined_consume (by decide) input u amt (disciplined_mintLocked payee amt)

lemma disciplined_getUtxoLocked (id : UInt64) : Disciplined (getUtxoLocked id) := by
  unfold getUtxoLocked
  refine (disciplined_storeGet _).bind fun b => ?_
  cases b with
  | none => exact disciplined_pure _
  | some b => exact (disciplined_decoded _).bind fun _ => disciplined_pure _

lemma disciplined_lockFromInputLocked (input : UInt64) (owner : GoString) (amt : UInt64) :
    Disciplined (lockFromInputLocked input owner amt) := by
  unfold lockFromInputLocked
  refine (disciplined_getUtxoLocked _).bind fun u => ?_
  cases u with
  | none => exact disciplined_throw _
  | some u =>
    refine .check (.check ?_)
    exact disciplined_consume (by decide) input u amt
      ((disciplined_mintLocked escrowOwner amt).bind fun _ => disciplined_pure ())

lemma disciplined_releaseLoop (ks : List GoString) (remaining : UInt64) :
    Disciplined (releaseLoop ks remaining) := by
  induction ks generalizing remaining with
  | nil => exact disciplined_pure _
  | cons k ks ih =>
    rw [releaseLoop]
    split_ifs with hr hk
    · exact disciplined_pure _
    · exact ih remaining
    have hne : k ≠ metaNext := by
      rintro rfl
      exact hk (by decide)
    intro w
    refine (Proc.obeys_getKey _ k).bind fun b w' hget => ?_
    obtain ⟨rfl, rfl⟩ : w.store.get? k = b ∧ w = w' := by
      simpa [storeGet] using hget
    cases hb : w.store.get? k with
    | none => exact ih remaining w
    | some b =>
      dsimp only
      cases Utxo.unmarshal b with
      | error e => exact ih remaining w
      | ok u =>
        dsimp only
        split_ifs
        · exact ih remaining w
        · exact (disciplined_storeDelete (by simp) hne).bind (fun _ => ih _) w
        · refine Proc.Obeys.bind (serially_ordinary ⟨by simp, hne, fun id hid _ => ?_⟩ w.mem rfl)
            fun _ w' _ => ih 0 w'
          simp [← hid, hb]

lemma disciplined_releaseEscrowLocked (amt : UInt64) : Disciplined (releaseEscrowLocked amt) := by
  unfold releaseEscrowLocked
  split_ifs
  · exact disciplined_pure _
  refine disciplined_storeKeys.bind fun keys => ?_
  refine (disciplined_releaseLoop keys amt).bind fun remaining => ?_
  split_ifs
  · exact disciplined_throw _
  · exact disciplined_pure _

lemma disciplined_putPendingLocked (p : PendingSettlement) : Disciplined (putPendingLocked p) :=
  disciplined_storePut _ (by simp) (hasPrefix_utxoPfx_pendingKey _)
    (pendingKey_ne hasPrefix_pendingPfx_metaNext _)

lemma disciplined_nextTxLocked : Disciplined nextTxLocked := by
  unfold nextTxLocked persistNextTx
  refine (disciplined_storeGet _).bind fun b => ?_
  refine Disciplined.bind ?_ fun _ => disciplined_pure _
  exact disciplined_storePut _ (by simp) hasPrefix_utxoPfx_metaNextTx (by decide)

lemma disciplined_openOptimistic (a : OpenArgs) : Disciplined (openOptimistic a) := by
  refine .of_enabled ((disciplined_lockFromInputLocked _ _ _).bind fun _ => ?_)
  have hfile : Disciplined (do
      let tx ← nextTxLocked
      putPendingLocked (a.pendingClaim tx)
      return tx) :=
    disciplined_nextTxLocked.bind fun tx =>
      (disciplined_putPendingLocked _).bind fun _ => disciplined_pure tx
  exact Disciplined.ite ((disciplined_lockFromInputLocked _ _ _).bind fun _ => hfile) hfile

lemma disciplined_decision (p : PendingSettlement) (st : ClaimState) (a : α) :
    Disciplined (decision p st a) :=
  (disciplined_releaseEscrowLocked _).bind fun _ =>
    (disciplined_putPendingLocked _).bind fun _ => disciplined_pure a

lemma disciplined_finalize (tx now : UInt64) : Disciplined (finalize tx now) := by
  refine .of_enabled <| .of_decoded fun p => .check <| .check ?_
  exact (disciplined_mintLocked _ _).bind fun _ => disciplined_decision p .finalized p.payment

lemma disciplined_challenge (tx : UInt64) (fraud : FraudProof) (now : UInt64)
    (challenger : GoString) : Disciplined (challenge tx fraud now challenger) := by
  refine .of_enabled <| .of_decoded fun p => .check <| .check <| .check <| .check <| .check ?_
  refine (disciplined_mintLocked _ _).bind fun _ => ?_
  have hdecision := disciplined_decision p .slashed (⟨tx, p.payment, p.bond⟩ : Slash)
  exact .ite ((disciplined_mintLocked _ _).bind fun _ => hdecision) hdecision

lemma disciplined_advanceBlock (n : UInt64) : Disciplined (advanceBlock n) := by
  intro w
  have hwrites : (advanceBlock n).writes w =
      [⟨.persistBlock, metaBlock, some (.ofUInt64 (w.mem.block + n))⟩] := by
    simp [advanceBlock, persistBlock, storePut, Proc.writes_bind, Proc.writes_tryCatch,
      Proc.run_bind, Proc.run_tryCatch]
  rw [Proc.Obeys, hwrites, run_advanceBlock]
  refine serially_ordinary ⟨by simp, show metaBlock ≠ metaNext by decide, fun id hid _ => ?_⟩ _ rfl
  exact absurd hid.symm (key_ne hasPrefix_utxoPfx_metaBlock id)

lemma disciplined_recordComputeTx (t : ComputeTx) : Disciplined (recordComputeTx t) := by
  unfold recordComputeTx nextComputeTxLocked
  refine Disciplined.bind ?_ fun id => ?_
  · refine (disciplined_storeGet _).bind fun b => ?_
    refine Disciplined.bind ?_ fun _ => disciplined_pure _
    exact disciplined_storePut _ (by simp) hasPrefix_utxoPfx_metaNextComputeTx (by decide)
  · refine Disciplined.bind ?_ fun _ => disciplined_pure _
    exact disciplined_storePut _ (by simp) (hasPrefix_utxoPfx_computeTxKey _)
      (computeTxKey_ne (by decide) _)

theorem Call.disciplined (c : Call) : Disciplined c.exec := by
  cases c with
  | mint owner value => exact (disciplined_mintLocked _ _).bind fun _ => disciplined_pure _
  | settle input payee amt => exact (disciplined_settle _ _ _).bind fun _ => disciplined_pure _
  | openOptimistic a => exact (disciplined_openOptimistic _).bind fun _ => disciplined_pure _
  | finalize tx now => exact (disciplined_finalize _ _).bind fun _ => disciplined_pure _
  | challenge tx fraud now challenger =>
    exact (disciplined_challenge _ _ _ _).bind fun _ => disciplined_pure _
  | advanceBlock n => exact (disciplined_advanceBlock _).bind fun _ => disciplined_pure _
  | recordComputeTx t => exact (disciplined_recordComputeTx _).bind fun _ => disciplined_pure _

theorem Call.serial (c : Call) {n : ℕ} (h : Fresh n w) : Serial n w.store (c.exec.writes w) :=
  ((c.disciplined w).2 n h.next).1

end Operations

end Cerberus.Ledger
