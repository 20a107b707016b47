import Cerberus.State.Registers

/-!
# What a write does

An engine is observed through the writes it holds for each key (`dots`), the counters of each
document (`clock`) and the conflict listed for each subject (`listed`). `Effect` says what an op or
a resolution changes of this: it raises the clock of one document, its registers take in one write
for some keys, and the index is brought up to date for these keys if the document is about beliefs.
`apply_performs` and `resolve_performs` say that the engine does just that.
-/

namespace Cerberus.State

open Foundation Option List

open Contract (PeerID)

lemma docKey_inj {i j : List UInt8} : docKey i = docKey j ↔ i = j := hexEncode_injective.eq_iff

lemma get?_put_docKey {V : Type*} (m : OrdMap GoString V) (i j : List UInt8) (v : V) :
    (m.put (docKey i) v).get? (docKey j) = if j = i then some v else m.get? (docKey j) := by
  simp only [OrdMap.get?_put, docKey_inj]

/-- The conflict that a register is in. -/
def conflictOf (docId : List UInt8) (subject : GoString) (ent : MvEntry) : Option BeliefConflict :=
  if ent.conflicted then some (conflictFor docId subject ent) else none

lemma conflictOf_isSome_iff {docId : List UInt8} {subject : GoString} {ent : MvEntry} :
    (conflictOf docId subject ent).isSome = true ↔
      ∃ d ∈ ent.dots, ∃ d' ∈ ent.dots, d.value ≠ d'.value := by
  rw [← MvEntry.conflicted_iff, conflictOf]
  split_ifs with h
  · exact iff_of_true rfl h
  · exact iff_of_false Bool.false_ne_true h

lemma Document.entry_put (d : Document) (k k' : GoString) (ent : MvEntry) (c : VClock) :
    (⟨c, d.keys.put k ent⟩ : Document).entry k' = if k' = k then ent else d.entry k' := by
  rw [entry, OrdMap.get?_put]
  split_ifs
  · rfl
  · rfl

namespace Engine

/-! ### Observables -/

def entry (e : Engine) (docId : List UInt8) (k : GoString) : MvEntry :=
  (e.docAt (docKey docId)).entry k

def clock (e : Engine) (docId : List UInt8) : VClock := (e.docAt (docKey docId)).clock

/-- The conflict that is listed for a subject. -/
def listed (e : Engine) (docId : List UInt8) (subject : GoString) : Option BeliefConflict :=
  Table.lookup BeliefConflict.subject subject (e.conflictsOf docId)

/-- No subject of a document is listed twice. -/
def Keyed (e : Engine) : Prop :=
  ∀ docId, Table.Keyed BeliefConflict.subject (e.conflictsOf docId)

variable {e : Engine} {i j : List UInt8} {k s t : GoString}

lemma get_eq (e : Engine) (docId : List UInt8) (k : GoString) :
    e.get docId k = (e.entry docId k).lwwValue := by
  rw [get, entry, docAt]
  cases e.docs.get? (docKey docId) with
  | none => rfl
  | some d =>
    rw [getD_some, Document.entry]
    cases hk : d.keys.get? k with
    | none => simp [hk, MvEntry.lwwValue]
    | some ent => simp [hk]

lemma listed_isSome_iff :
    (e.listed i s).isSome = true ↔ s ∈ (e.conflictsOf i).map BeliefConflict.subject :=
  Table.lookup_isSome_iff

@[simp] lemma entry_new : new.entry i k = ⟨[]⟩ := rfl

@[simp] lemma clock_new : new.clock i = .empty := rfl

@[simp] lemma listed_new : new.listed i s = none := rfl

lemma keyed_new : new.Keyed := fun _ => nodup_nil

lemma docAt_setDoc (e : Engine) (i j : List UInt8) (d : Document) :
    (e.setDoc (docKey i) d).docAt (docKey j) = if j = i then d else e.docAt (docKey j) := by
  rw [docAt, setDoc, get?_put_docKey]
  split_ifs
  · rfl
  · rfl

/-- Bring the index up to date for a subject, as `apply` and `Resolve` do after a write. -/
def reindex (e : Engine) (docId : List UInt8) (subject : GoString) (ent : MvEntry) : Engine :=
  if ent.conflicted then e.upsertConflict (docKey docId) (conflictFor docId subject ent)
  else e.clearConflict (docKey docId) subject

@[simp] lemma docs_reindex (ent : MvEntry) : (e.reindex i s ent).docs = e.docs := by
  rw [reindex]
  split_ifs
  · rfl
  · rfl

lemma conflictsOf_reindex (e : Engine) (i j : List UInt8) (s : GoString) (ent : MvEntry) :
    (e.reindex i s ent).conflictsOf j = if j = i then
      (if ent.conflicted then
        Table.upsert BeliefConflict.subject (conflictFor i s ent) (e.conflictsOf i)
      else Table.drop BeliefConflict.subject s (e.conflictsOf i)) else e.conflictsOf j := by
  rw [reindex]
  split_ifs with hc hj hj
  · rw [conflictsOf, listAt, upsertConflict, get?_put_docKey, if_pos hj]
    rfl
  · rw [conflictsOf, listAt, upsertConflict, get?_put_docKey, if_neg hj]
    rfl
  · rw [conflictsOf, listAt, clearConflict, get?_put_docKey, if_pos hj]
    rfl
  · rw [conflictsOf, listAt, clearConflict, get?_put_docKey, if_neg hj]
    rfl

lemma listed_reindex (e : Engine) (i j : List UInt8) (s t : GoString) (ent : MvEntry) :
    (e.reindex i s ent).listed j t =
      if j = i ∧ t = s then conflictOf i s ent else e.listed j t := by
  rw [listed, conflictsOf_reindex, conflictOf]
  by_cases hj : j = i
  · subst hj
    have hs : (conflictFor j s ent).subject = s := rfl
    by_cases hc : ent.conflicted = true
    · rw [if_pos rfl, if_pos hc, if_pos hc, Table.lookup_upsert, hs]
      simp only [true_and, eq_comm (a := t)]
      rfl
    · rw [if_pos rfl, if_neg hc, if_neg hc, Table.lookup_drop]
      simp only [true_and, eq_comm (a := t)]
      rfl
  · rw [if_neg hj, if_neg fun h => hj h.1]
    rfl

lemma Keyed.reindex (h : e.Keyed) (i : List UInt8) (s : GoString) (ent : MvEntry) :
    (e.reindex i s ent).Keyed := by
  intro j
  rw [conflictsOf_reindex]
  split_ifs
  · exact (h i).upsert
  · exact (h i).drop
  · exact h j

/-- The index lists the conflicts of the documents in question, and nothing else. -/
structure Indexed (D : List UInt8 → Prop) [DecidablePred D] (e : Engine) : Prop where
  keyed : e.Keyed
  listed : ∀ docId s, e.listed docId s =
    if D docId then conflictOf docId s (e.entry docId s) else none

lemma indexed_new (D : List UInt8 → Prop) [DecidablePred D] : new.Indexed D where
  keyed := keyed_new
  listed _ _ := (ite_self none).symm

/-! Persisting changes nothing that is observed. -/

@[simp] lemma docs_persist (env : Env) (dk : GoString) : (e.persist env dk).1.docs = e.docs := by
  rw [persist]
  split
  · rfl
  · rw [persistConflicts]
    split_ifs
    · rfl
    · rfl

@[simp] lemma conflictsOf_persist (env : Env) (dk : GoString) (j : List UInt8) :
    (e.persist env dk).1.conflictsOf j = e.conflictsOf j := by
  rw [persist]
  split
  · rfl
  · rw [persistConflicts]
    split_ifs with h
    · rw [conflictsOf, conflictsOf, listAt, listAt, OrdMap.get?_delete]
      split_ifs with hj
      · rw [hj]
        exact h.symm
      · rfl
    · rfl

end Engine

/-! ### Effects -/

/-- What a write changes. -/
structure Effect where
  docId : List UInt8
  clock : VClock
  /-- Whether the index is brought up to date. -/
  indexed : Bool
  /-- The write that the register of a key takes in. -/
  writes : GoString → Option Dot

/-- The second engine is the first after the effect. -/
structure Performs (host : Host) (f : Effect) (e e' : Engine) : Prop where
  entry : ∀ j k, e'.entry j k = if j = f.docId then
    (f.writes k).elim (e.entry j k) ((e.entry j k).absorb host) else e.entry j k
  count : ∀ j a, (e'.clock j).count a = if j = f.docId then
    max ((e.clock j).count a) (f.clock.count a) else (e.clock j).count a
  positive : ∀ j, (e.clock j).Positive → (e'.clock j).Positive
  listed : ∀ j s, e'.listed j s = if j = f.docId ∧ f.indexed = true ∧ (f.writes s).isSome = true
    then conflictOf j s (e'.entry j s) else e.listed j s
  keyed : e.Keyed → e'.Keyed

namespace Performs

variable {host : Host} {f : Effect} {e e' : Engine} {k : GoString} {d : Dot}

variable (h : Performs host f e e')
include h

lemma entry_of_writes (hk : f.writes k = some d) :
    e'.entry f.docId k = (e.entry f.docId k).absorb host d := by
  rw [h.entry, if_pos rfl, hk]
  rfl

lemma entry_of_not_writes {j : List UInt8}
    (hk : j = f.docId → f.writes k = none) : e'.entry j k = e.entry j k := by
  rw [h.entry]
  split_ifs with hj
  · rw [hk hj]
    rfl
  · rfl

lemma mem_entry {j : List UInt8} (hd : d ∈ (e'.entry j k).dots) :
    d ∈ (e.entry j k).dots ∨ (j = f.docId ∧ f.writes k = some d) := by
  by_cases hj : j = f.docId
  · subst hj
    cases hw : f.writes k with
    | none =>
      rw [h.entry_of_not_writes fun _ => hw] at hd
      exact .inl hd
    | some d' =>
      rw [h.entry_of_writes hw] at hd
      exact (MvEntry.mem_of_mem_absorb hd).imp_right fun hdd => ⟨rfl, congrArg some hdd.symm⟩
  · rw [h.entry_of_not_writes fun hj' => absurd hj' hj] at hd
    exact .inl hd

lemma count_le (j : List UInt8) (a : GoString) : (e.clock j).count a ≤ (e'.clock j).count a := by
  rw [h.count]
  split_ifs
  · exact le_max_left _ _
  · exact le_rfl

lemma count_clock_le (a : GoString) : f.clock.count a ≤ (e'.clock f.docId).count a := by
  rw [h.count, if_pos rfl]
  exact le_max_right _ _

lemma indexed {D : List UInt8 → Prop} [DecidablePred D]
    (hD : f.indexed = true ↔ D f.docId) (hindexed : e.Indexed D) : e'.Indexed D where
  keyed := h.keyed hindexed.keyed
  listed j s := by
    rw [h.listed]
    split_ifs with hw hj hj
    · rfl
    · exact absurd (hw.1 ▸ hD.mp hw.2.1) hj
    · -- the register of the subject is as it was
      rw [hindexed.listed, if_pos hj, h.entry_of_not_writes]
      rintro rfl
      exact not_isSome_iff_eq_none.mp fun hsome => hw ⟨rfl, hD.mpr hj, hsome⟩
    · rw [hindexed.listed, if_neg hj]

lemma trans {g : Effect} {e'' : Engine} (h' : Performs host g e' e'')
    (hdoc : g.docId = f.docId) (hindexed : g.indexed = f.indexed) (hclock : g.clock = .empty)
    (hkeys : ∀ k, f.writes k = none ∨ g.writes k = none) :
    Performs host { f with writes := fun k => (f.writes k).or (g.writes k) } e e'' where
  entry j k := by
    rw [h'.entry, h.entry, hdoc]
    by_cases hj : j = f.docId
    · simp only [if_pos hj]
      rcases hkeys k with hk | hk
      · simp [hk]
      · simp [hk]
    · simp only [if_neg hj]
  count j a := by
    rw [h'.count, h.count, hdoc, hclock, Clock.count_empty]
    by_cases hj : j = f.docId
    · simp only [if_pos hj]
      exact max_eq_left (Nat.zero_le _)
    · simp only [if_neg hj]
  positive j hj := h'.positive j (h.positive j hj)
  listed j s := by
    rw [h'.listed, h.listed, hdoc, hindexed]
    by_cases hj : j = f.docId ∧ f.indexed = true
    · obtain ⟨rfl, hi⟩ := hj
      rcases hkeys s with hs | hs
      · simp [hi, hs]
      · -- the second effect leaves the register as the first one made it
        rw [h'.entry_of_not_writes fun _ => hs]
        simp [hi, hs]
    · rw [if_neg fun hj' => hj ⟨hj'.1, hj'.2.1⟩, if_neg fun hj' => hj ⟨hj'.1, hj'.2.1⟩,
        if_neg fun hj' => hj ⟨hj'.1, hj'.2.1⟩]
  keyed hk := h'.keyed (h.keyed hk)

lemma persist (env : Env) (dk : GoString) : Performs host f e (e'.persist env dk).1 := by
  have hentry : ∀ j k, (e'.persist env dk).1.entry j k = e'.entry j k := by
    intro j k
    rw [Engine.entry, Engine.docAt, Engine.docs_persist]
    rfl
  have hclock : ∀ j, (e'.persist env dk).1.clock j = e'.clock j := by
    intro j
    rw [Engine.clock, Engine.docAt, Engine.docs_persist]
    rfl
  refine ⟨fun j k => ?_, fun j a => ?_, fun j hj => ?_, fun j s => ?_, fun hk j => ?_⟩
  · rw [hentry, h.entry]
  · rw [hclock, h.count]
  · rw [hclock]
    exact h.positive j hj
  · rw [hentry, Engine.listed, Engine.conflictsOf_persist]
    exact h.listed j s
  · rw [Engine.conflictsOf_persist]
    exact h.keyed hk j

end Performs

/-! ### Ops -/

namespace Engine

variable (host : Host) {e : Engine}

lemma setDoc_performs (e : Engine) (i : List UInt8) (c : VClock) (k : GoString) (d : Dot)
    (indexed : Bool) :
    let ent := (e.entry i k).absorb host d
    let e₁ := e.setDoc (docKey i) ⟨(e.clock i).mergeMax c, (e.docAt (docKey i)).keys.put k ent⟩
    Performs host ⟨i, c, indexed, fun k' => if k' = k then some d else none⟩ e
      (if indexed then e₁.reindex i k ent else e₁) := by
  intro ent e₁
  have hentry₁ : ∀ j k', e₁.entry j k' = if j = i ∧ k' = k then ent else e.entry j k' := by
    intro j k'
    rw [entry, docAt_setDoc]
    by_cases hj : j = i
    · subst hj
      rw [if_pos rfl, Document.entry_put]
      simp only [true_and]
      rfl
    · rw [if_neg hj, if_neg fun h => hj h.1]
      rfl
  have hclock₁ : ∀ j, e₁.clock j = if j = i then (e.clock i).mergeMax c else e.clock j := by
    intro j
    rw [clock, docAt_setDoc]
    split_ifs
    · rfl
    · rfl
  -- the index does not matter for registers and clocks
  have hdocs : (if indexed then e₁.reindex i k ent else e₁).docs = e₁.docs := by
    split_ifs
    · exact docs_reindex _
    · rfl
  have hentry : ∀ j k', (if indexed then e₁.reindex i k ent else e₁).entry j k' =
      if j = i ∧ k' = k then ent else e.entry j k' := by
    intro j k'
    rw [← hentry₁, entry, docAt, hdocs]
    rfl
  have hclock : ∀ j, (if indexed then e₁.reindex i k ent else e₁).clock j =
      if j = i then (e.clock i).mergeMax c else e.clock j := by
    intro j
    rw [← hclock₁, clock, docAt, hdocs]
    rfl
  refine ⟨fun j k' => ?_, fun j a => ?_, fun j hj => ?_, fun j s => ?_, fun hk => ?_⟩
  · rw [hentry]
    by_cases hj : j = i
    · subst hj
      by_cases hk : k' = k
      · simp [hk, ent]
      · simp [hk]
    · simp [hj]
  · rw [hclock]
    by_cases hj : j = i
    · simp [hj]
    · simp [hj]
  · rw [hclock]
    split_ifs with hji
    · exact VClock.positive_mergeMax (hji ▸ hj) c
    · exact hj
  · rw [hentry]
    cases indexed with
    | false => simp; rfl
    | true =>
      simp only [if_true, listed_reindex]
      by_cases hj : j = i ∧ s = k
      · obtain ⟨rfl, rfl⟩ := hj
        simp
      · rw [if_neg hj, if_neg]
        · rfl
        · rintro ⟨rfl, -, hs⟩
          refine hj ⟨rfl, ?_⟩
          by_contra hne
          rw [if_neg hne] at hs
          cases hs
  · split_ifs
    · exact Keyed.reindex (e := e₁) hk i k ent
    · exact hk

lemma raise_performs (e : Engine) (i : List UInt8) (c : VClock) (indexed : Bool) :
    Performs host ⟨i, c, indexed, fun _ => none⟩ e
      (e.setDoc (docKey i) { e.docAt (docKey i) with clock := (e.clock i).mergeMax c }) := by
  have hdoc := fun j => docAt_setDoc e i j
    { e.docAt (docKey i) with clock := (e.clock i).mergeMax c }
  refine ⟨fun j k => ?_, fun j a => ?_, fun j hj => ?_, fun j s => ?_, fun hk => hk⟩
  · rw [entry, hdoc]
    by_cases hj : j = i
    · subst hj
      simp only [if_true]
      rfl
    · simp only [if_neg hj]
      rfl
  · rw [clock, hdoc]
    by_cases hj : j = i
    · subst hj
      simp only [if_true]
      exact VClock.count_mergeMax _ _ _
    · simp only [if_neg hj]
      rfl
  · rw [clock, hdoc]
    split_ifs with hji
    · exact VClock.positive_mergeMax (hji ▸ hj) c
    · exact hj
  · simp only [isSome_none, Bool.false_eq_true, and_false, if_false]
    rfl

lemma applyKey_fst (op : CrdtOp) (c : VClock) (w : Engine × List BeliefConflict)
    (kv : GoString × GoString) :
    let ent := (w.1.entry op.docId kv.1).absorb host ⟨actorHex op.actor, kv.2, c⟩
    let e₁ := w.1.setDoc (docKey op.docId)
      ⟨(w.1.clock op.docId).mergeMax .empty, (w.1.docAt (docKey op.docId)).keys.put kv.1 ent⟩
    (applyKey host op c w kv).1 =
      if op.domain = domainBelief then e₁.reindex op.docId kv.1 ent else e₁ := by
  simp only [applyKey, reindex, apply_ite Prod.fst]
  rfl

variable (op : CrdtOp)

lemma applyKey_performs (c : VClock) (w : Engine × List BeliefConflict) (kv : GoString × GoString) :
    Performs host ⟨op.docId, .empty, op.domain = domainBelief,
      fun k => if k = kv.1 then some ⟨actorHex op.actor, kv.2, c⟩ else none⟩
      w.1 (applyKey host op c w kv).1 := by
  have h := setDoc_performs host w.1 op.docId .empty kv.1 ⟨actorHex op.actor, kv.2, c⟩
    (op.domain = domainBelief)
  simp only [decide_eq_true_eq] at h
  rw [applyKey_fst host]
  exact h

lemma foldl_applyKey_performs (c : VClock) {l : List (GoString × GoString)}
    (hl : l.Nodup) {p : GoString → Option GoString} (hp : ∀ k v, (k, v) ∈ l ↔ p k = some v)
    (w : Engine × List BeliefConflict) :
    Performs host ⟨op.docId, .empty, op.domain = domainBelief,
      fun k => (p k).map fun v => ⟨actorHex op.actor, v, c⟩⟩
      w.1 (l.foldl (applyKey host op c) w).1 := by
  induction l generalizing w p with
  | nil =>
    have hnone : ∀ k, p k = none := by
      intro k
      refine eq_none_iff_forall_not_mem.mpr fun v hv => ?_
      exact absurd ((hp k v).mpr hv) not_mem_nil
    refine ⟨fun j k => ?_, fun j a => ?_, fun j hj => hj, fun j s => ?_, fun hk => hk⟩
    · simp [hnone]
    · simp
    · simp [hnone]
  | cons kv l ih =>
    rw [nodup_cons] at hl
    obtain ⟨k₀, v₀⟩ := kv
    have hk₀ : p k₀ = some v₀ := (hp k₀ v₀).mp mem_cons_self
    -- no other pair of the patch has the same key
    have hrest : ∀ k v, (k, v) ∈ l ↔ (if k = k₀ then none else p k) = some v := by
      intro k v
      constructor
      · intro hkv
        have hkp := (hp k v).mp (mem_cons_of_mem _ hkv)
        rw [if_neg, hkp]
        rintro rfl
        rw [hk₀] at hkp
        exact hl.1 (Option.some.inj hkp ▸ hkv)
      · intro hkv
        split_ifs at hkv with hk
        refine (mem_cons.mp ((hp k v).mpr hkv)).resolve_left fun h => hk ?_
        exact congrArg Prod.fst h
    have h₁ := applyKey_performs host op c w (k₀, v₀)
    have h := h₁.trans (ih hl.2 hrest (applyKey host op c w (k₀, v₀))) rfl rfl rfl ?_
    · rw [foldl_cons]
      convert h using 2
      funext k
      by_cases hk : k = k₀
      · simp [hk, hk₀]
      · simp [hk]
    · intro k
      by_cases hk : k = k₀
      · exact .inr (by simp [hk])
      · exact .inl (by simp [hk])

/-- The effect of an op. -/
def opEffect (e : Engine) (op : CrdtOp) (patch : Patch) : Effect where
  docId := op.docId
  clock := e.opClock op
  indexed := op.domain = domainBelief
  writes k := (patch.get? k).map fun v => ⟨actorHex op.actor, v, e.opClock op⟩

@[simp] lemma docId_opEffect (patch : Patch) : (e.opEffect op patch).docId = op.docId := rfl

@[simp] lemma clock_opEffect (patch : Patch) : (e.opEffect op patch).clock = e.opClock op := rfl

lemma writes_opEffect (patch : Patch) (k : GoString) :
    (e.opEffect op patch).writes k =
      (patch.get? k).map fun v => ⟨actorHex op.actor, v, e.opClock op⟩ := rfl

variable {host} in
theorem apply_performs (e : Engine) (env : Env) {op : CrdtOp} {patch : Patch}
    (hpatch : op.patch host = some patch) :
    Performs host (e.opEffect op patch) e (e.apply host env op).engine := by
  have hnodup : (env.order patch).Nodup :=
    (env.order_perm patch).nodup_iff.mpr (.of_map Prod.fst patch.keys_nodup)
  have hmem : ∀ k v, (k, v) ∈ env.order patch ↔ patch.get? k = some v := fun k v =>
    (env.order_perm patch).mem_iff.trans OrdMap.mem_entries_iff
  have hraise := raise_performs host e op.docId (e.opClock op) (op.domain = domainBelief)
  have h := (hraise.trans (foldl_applyKey_performs host op (e.opClock op) hnodup hmem (_, []))
    rfl rfl rfl fun k => .inl rfl).persist env (docKey op.docId)
  simp only [apply, hpatch]
  exact h

variable {host} in
lemma apply_of_patch_eq_none (env : Env) {op : CrdtOp} (hpatch : op.patch host = none) :
    (e.apply host env op).engine = e := by
  rw [apply, hpatch]

/-! ### Resolutions -/

def resolution (e : Engine) (docId : List UInt8) (resolver : PeerID) (subject : GoString) :
    VClock :=
  resClock (e.docAt (docKey docId)) (e.entry docId subject) resolver

/-- The effect of a resolution. -/
def resolveEffect (e : Engine) (docId : List UInt8) (resolver : PeerID)
    (subject winning : GoString) : Effect where
  docId := docId
  clock := e.resolution docId resolver subject
  indexed := true
  writes k :=
    if k = subject then some ⟨actorHex resolver, winning, e.resolution docId resolver subject⟩
    else none

variable {docId : List UInt8} {resolver : PeerID} {subject winning : GoString}

@[simp] lemma docId_resolveEffect :
    (e.resolveEffect docId resolver subject winning).docId = docId := rfl

@[simp] lemma clock_resolveEffect : (e.resolveEffect docId resolver subject winning).clock =
    e.resolution docId resolver subject := rfl

lemma writes_resolveEffect_self (e : Engine) (docId : List UInt8) (resolver : PeerID)
    (subject winning : GoString) : (e.resolveEffect docId resolver subject winning).writes subject =
    some ⟨actorHex resolver, winning, e.resolution docId resolver subject⟩ := if_pos rfl

lemma exists_of_conflicted (h : (e.entry docId subject).conflicted = true) :
    ∃ d, e.docs.get? (docKey docId) = some d ∧
      d.keys.get? subject = some (e.entry docId subject) := by
  rw [entry, docAt] at h ⊢
  cases hd : e.docs.get? (docKey docId) with
  | none =>
    rw [hd] at h
    cases h
  | some d =>
    refine ⟨d, rfl, ?_⟩
    rw [hd, getD_some, Document.entry] at h
    rw [getD_some, Document.entry]
    cases hk : d.keys.get? subject with
    | none =>
      rw [hk] at h
      cases h
    | some ent => rfl

variable {host} in
lemma resolve_of_not_conflicted (env : Env) (h : ¬ (e.entry docId subject).conflicted = true) :
    e.resolve host env docId resolver subject winning = (e, false, none) := by
  rw [entry, docAt] at h
  rw [resolve]
  cases hd : e.docs.get? (docKey docId) with
  | none => rfl
  | some d =>
    rw [hd, getD_some, Document.entry] at h
    cases hk : d.keys.get? subject with
    | none => simp only [hk]
    | some ent =>
      rw [hk, getD_some] at h
      simp only [hk, if_neg h]

theorem resolve_performs (env : Env) (resolver : PeerID) (winning : GoString)
    (h : (e.entry docId subject).conflicted = true) :
    Performs host (e.resolveEffect docId resolver subject winning) e
      (e.resolve host env docId resolver subject winning).1 := by
  obtain ⟨d, hd, hk⟩ := exists_of_conflicted h
  have hdoc : e.docAt (docKey docId) = d := by rw [docAt, hd, getD_some]
  have hset := (setDoc_performs host e docId (e.resolution docId resolver subject) subject
    ⟨actorHex resolver, winning, e.resolution docId resolver subject⟩ true).persist env
    (docKey docId)
  simp only [if_true, resolution, clock, hdoc] at hset
  rw [resolve, hd]
  simp only [hk, h, if_true]
  rw [resolveEffect, resolution, hdoc]
  exact hset

end Engine

end Cerberus.State
