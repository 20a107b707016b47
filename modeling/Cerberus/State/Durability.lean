import Cerberus.State.Index

/-!
# Conflicts on disk

A call that changes the engine stores the document and then, in a second write, the list of its open
conflicts. Here the store is modelled beside the engine: it may refuse either write, and the process
may stop after any number of the store writes of a call and start again with what `Open` finds.
`conflicts_survive_iff` says when the two come apart.

What is stored goes through JSON, so a stored value is known by what it is when it is read back:
strings are coerced to UTF-8, and of map keys that become equal the last one counts.
-/

namespace Cerberus.State

open Foundation List

/-! ### What is read back -/

/-- A map as it is read back from JSON. -/
def coercedMap {V : Type*} (f : V → V) (m : OrdMap GoString V) : OrdMap GoString V :=
  m.entries.foldl (fun n e => n.put e.1.coerce (f e.2)) .empty

def VClock.coerced (c : VClock) : VClock := coercedMap id c

def Dot.coerced (d : Dot) : Dot := ⟨d.actor.coerce, d.value.coerce, d.clock.coerced⟩

def Document.coerced (d : Document) : Document where
  clock := d.clock.coerced
  keys := coercedMap (fun ent => ⟨ent.dots.map Dot.coerced⟩) d.keys

/-- A conflict after it went through JSON; ids and values are byte arrays. -/
def BeliefConflict.coerced (c : BeliefConflict) : BeliefConflict where
  docId := c.docId
  subject := c.subject.coerce
  candidates := c.candidates.map fun x => { x with clock := x.clock.coerced }

inductive StoreWrite
  | doc (dk : GoString) (d : Document)
  | conflicts (dk : GoString) (cs : List BeliefConflict)

/-- What is stored of an engine. -/
structure Disk where
  docs : OrdMap GoString Document
  conflicts : OrdMap GoString (List BeliefConflict)

namespace Disk

def empty : Disk := ⟨.empty, .empty⟩

def put (k : Disk) : StoreWrite → Disk
  | .doc dk d => { k with docs := k.docs.put dk d.coerced }
  | .conflicts dk cs =>
    { k with conflicts :=
        if cs = [] then k.conflicts.delete dk
        else k.conflicts.put dk (cs.map BeliefConflict.coerced) }

/-- What `Open` finds. -/
def load (k : Disk) : Engine := ⟨k.docs, k.conflicts⟩

end Disk

def Write.env : Write → Env
  | .apply _ env => env
  | .resolve _ _ _ _ env => env

/-- The store writes of a call that is not cut off: the document, then its conflicts, up to the
first one that the store refuses. -/
def Engine.storeWrites (host : Host) (e : Engine) (w : Write) : List StoreWrite :=
  match w.effect host e with
  | none => []
  | some f =>
    let dk := docKey f.docId
    let e' := e.write host w
    if w.env.putDoc.isSome then []
    else if w.env.putConflicts.isSome then [.doc dk (e'.docAt dk)]
    else [.doc dk (e'.docAt dk), .conflicts dk (e'.listAt dk)]

structure Node where
  engine : Engine
  disk : Disk

/-- A call that returns, or one in which the process stops after some of its store writes and is
started again. -/
inductive Event
  | call (w : Write)
  | stop (w : Write) (done : ℕ)

namespace Event

def write : Event → Write
  | call w => w
  | stop w _ => w

/-- The store writes that an event makes. -/
def stored (host : Host) (n : Node) : Event → List StoreWrite
  | call w => n.engine.storeWrites host w
  | stop w done => (n.engine.storeWrites host w).take done

end Event

namespace Node

def new : Node := ⟨.new, .empty⟩

def step (host : Host) (n : Node) (ev : Event) : Node :=
  let disk := runFrom Disk.put n.disk (ev.stored host n)
  match ev with
  | .call w => ⟨n.engine.write host w, disk⟩
  | .stop _ _ => ⟨disk.load, disk⟩

end Node

/-- The subjects that are listed are those whose registers hold two values. -/
def Engine.Surfaced (e : Engine) : Prop :=
  ∀ docId s, s ∈ (e.conflictsOf docId).map BeliefConflict.subject ↔
    ∃ d ∈ (e.entry docId s).dots, ∃ d' ∈ (e.entry docId s).dots, d.value ≠ d'.value

def Write.Belief : Write → Prop
  | .apply op _ => op.domain = domainBelief
  | .resolve _ _ _ _ _ => True

/-- If only the document is stored, then the same subjects are in conflict as in the document that
was stored before; if the conflicts are stored as well, then JSON keeps the values apart that the
registers of the document tell apart. -/
def Event.Quiet (host : Host) (n : Node) (ev : Event) : Prop :=
  match ev.stored host n with
  | [.doc dk d] => ∀ s, (d.coerced.entry s).conflicted = ((n.disk.load.docAt dk).entry s).conflicted
  | [.doc _ d, .conflicts _ _] => ∀ s, (d.coerced.entry s).conflicted = (d.entry s).conflicted
  | _ => True

variable {host : Host} {e : Engine} {k : Disk} {n : Node} {i : List UInt8}

lemma Engine.surfaced_iff : e.Surfaced ↔
    ∀ docId s, s ∈ (e.conflictsOf docId).map BeliefConflict.subject ↔
      (e.entry docId s).conflicted = true := by
  unfold Engine.Surfaced
  simp only [MvEntry.conflicted_iff]

/-! ### The keys of documents are UTF-8 -/

/-- JSON leaves the keys alone. -/
def Document.Legible (d : Document) : Prop := ∀ s, d.keys.get? s ≠ none → s.coerce = s

def Engine.Legible (e : Engine) : Prop := ∀ docId, (e.docAt (docKey docId)).Legible

lemma Document.legible_coerced (d : Document) : d.coerced.Legible := by
  intro s hs
  obtain ⟨ent, hent⟩ := Option.ne_none_iff_exists'.mp hs
  rcases OrdMap.get?_foldl_put_cases hent with habs | ⟨e, -, rfl, -⟩
  · cases habs
  · exact GoString.coerce_coerce _

lemma CrdtOp.coerce_of_patch {op : CrdtOp} {patch : Patch} (h : op.patch host = some patch)
    {kv : GoString × GoString} (hkv : kv ∈ patch.entries) : kv.1.coerce = kv.1 := by
  unfold CrdtOp.patch at h
  split_ifs at h
  · cases h
    exact absurd hkv not_mem_nil
  · rw [← host.json.normal_of_unmarshal _ _ h] at hkv
    exact (Patch.coerce_of_mem_coerced hkv).1

namespace Engine.Legible

lemma new : Engine.new.Legible := by
  intro docId s hs
  exact absurd rfl hs

lemma setDoc (h : e.Legible) (i : List UInt8) (c : VClock) {s : GoString} (hs : s.coerce = s)
    (ent : MvEntry) :
    (e.setDoc (docKey i) ⟨c, (e.docAt (docKey i)).keys.put s ent⟩).Legible := by
  intro j t ht
  rw [docAt_setDoc] at ht
  split_ifs at ht with hj
  · rw [OrdMap.get?_put] at ht
    split_ifs at ht with hts
    · rw [hts, hs]
    · exact h i t ht
  · exact h j t ht

lemma congr {e' : Engine} (h : e.Legible) (hdocs : e'.docs = e.docs) : e'.Legible := by
  intro docId
  rw [docAt, hdocs]
  exact h docId

lemma foldl_applyKey {op : CrdtOp} {c : VClock} {l : List (GoString × GoString)}
    (hl : ∀ kv ∈ l, kv.1.coerce = kv.1) {w : Engine × List BeliefConflict} (h : w.1.Legible) :
    (l.foldl (applyKey host op c) w).1.Legible := by
  induction l generalizing w with
  | nil => exact h
  | cons kv l ih =>
    refine ih (fun kv' hkv' => hl kv' (mem_cons_of_mem _ hkv')) ?_
    rw [applyKey_fst]
    have hset := h.setDoc op.docId ((w.1.clock op.docId).mergeMax .empty)
      (hl kv mem_cons_self)
      ((w.1.entry op.docId kv.1).absorb host ⟨actorHex op.actor, kv.2, c⟩)
    split_ifs
    · exact hset.congr (docs_reindex _)
    · exact hset

lemma write (h : e.Legible) (host : Host) (w : Write) : (e.write host w).Legible := by
  cases w with
  | apply op env =>
    cases hpatch : op.patch host with
    | none =>
      rw [Engine.write, apply_of_patch_eq_none env hpatch]
      exact h
    | some patch =>
      simp only [Engine.write, apply, hpatch]
      refine congr (foldl_applyKey (fun kv hkv => ?_) ?_) (docs_persist _ _)
      · exact CrdtOp.coerce_of_patch hpatch ((env.order_perm patch).mem_iff.mp hkv)
      · intro j s hs
        rw [docAt_setDoc] at hs
        split_ifs at hs
        · exact h op.docId s hs
        · exact h j s hs
  | resolve docId resolver subject winning env =>
    by_cases hconf : (e.entry docId subject).conflicted = true
    · obtain ⟨d, hd, hk⟩ := exists_of_conflicted hconf
      have hdoc : e.docAt (docKey docId) = d := by rw [docAt, hd, Option.getD_some]
      have hs : subject.coerce = subject := by
        refine h docId subject ?_
        rw [hdoc, hk]
        exact Option.some_ne_none _
      rw [Engine.write, resolve, hd]
      simp only [hk, hconf, if_true]
      refine congr ?_ (docs_persist _ _)
      have hset := h.setDoc docId (d.clock.mergeMax (resClock d (e.entry docId subject) resolver))
        hs ((e.entry docId subject).absorb host
          ⟨actorHex resolver, winning, resClock d (e.entry docId subject) resolver⟩)
      rw [hdoc] at hset
      split_ifs
      · exact hset.congr rfl
      · exact hset.congr rfl
    · rw [Engine.write, resolve_of_not_conflicted env hconf]
      exact h

end Engine.Legible

/-! ### The listed subjects -/

lemma Engine.Surfaced.write (h : e.Surfaced) {w : Write} (hw : w.Belief) :
    (e.write host w).Surfaced := by
  rcases write_cases host e w with ⟨-, heq⟩ | ⟨f, hf, hperf⟩
  · rw [heq]
    exact h
  · have hindexed : f.indexed = true := by
      cases w with
      | apply op env =>
        obtain ⟨patch, -, rfl⟩ := Option.map_eq_some_iff.mp hf
        exact decide_eq_true hw
      | resolve docId resolver subject winning env =>
        rw [Write.effect] at hf
        split_ifs at hf
        cases hf
        rfl
    intro j s
    rw [← listed_isSome_iff, hperf.listed]
    split_ifs with hwritten
    · exact conflictOf_isSome_iff
    · -- the register has not been written to
      rw [listed_isSome_iff, hperf.entry_of_not_writes fun hj =>
        Option.not_isSome_iff_eq_none.mp fun hs => hwritten ⟨hj, hindexed, hs⟩]
      exact h j s

lemma Engine.Surfaced.map_subject_coerced (h : e.Surfaced) (hlegible : e.Legible)
    (i : List UInt8) :
    ((e.conflictsOf i).map BeliefConflict.coerced).map BeliefConflict.subject =
      (e.conflictsOf i).map BeliefConflict.subject := by
  rw [map_map]
  refine map_congr_left fun c hc => ?_
  obtain ⟨d, hd, -⟩ := (h i c.subject).mp (mem_map_of_mem hc)
  refine hlegible i c.subject fun hnone => ?_
  rw [entry, Document.entry, hnone] at hd
  exact not_mem_nil hd

lemma Engine.Surfaced.iff_at (h : e.Surfaced) {e' : Engine} (i : List UInt8)
    (hframe : ∀ j, j ≠ i → e'.conflictsOf j = e.conflictsOf j ∧ ∀ s, e'.entry j s = e.entry j s) :
    e'.Surfaced ↔ ∀ s, s ∈ (e'.conflictsOf i).map BeliefConflict.subject ↔
      (e'.entry i s).conflicted = true := by
  rw [surfaced_iff] at h ⊢
  constructor
  · intro h' s
    exact h' i s
  · intro hi j s
    by_cases hj : j = i
    · rw [hj]
      exact hi s
    · rw [(hframe j hj).1, (hframe j hj).2]
      exact h j s

/-! ### The store -/

namespace Disk

lemma docAt_put_doc (k : Disk) (i j : List UInt8) (d : Document) :
    (k.put (.doc (docKey i) d)).load.docAt (docKey j) =
      if j = i then d.coerced else k.load.docAt (docKey j) := by
  rw [Engine.docAt, load, put, get?_put_docKey]
  split_ifs
  · rfl
  · rfl

lemma entry_put_doc (k : Disk) (i j : List UInt8) (d : Document) (s : GoString) :
    (k.put (.doc (docKey i) d)).load.entry j s =
      if j = i then d.coerced.entry s else k.load.entry j s := by
  rw [Engine.entry, docAt_put_doc, apply_ite (Document.entry · s)]
  rfl

lemma conflictsOf_put_conflicts (k : Disk) (i j : List UInt8) (cs : List BeliefConflict) :
    (k.put (.conflicts (docKey i) cs)).load.conflictsOf j =
      if j = i then cs.map BeliefConflict.coerced else k.load.conflictsOf j := by
  rw [Engine.conflictsOf, Engine.listAt, load, put]
  by_cases hcs : cs = []
  · rw [if_pos hcs, hcs, OrdMap.get?_delete]
    simp only [docKey_inj]
    split_ifs
    · rfl
    · rfl
  · rw [if_neg hcs, get?_put_docKey]
    split_ifs
    · rfl
    · rfl

lemma legible_put_doc (h : k.load.Legible) (i : List UInt8) (d : Document) :
    (k.put (.doc (docKey i) d)).load.Legible := by
  intro j
  rw [docAt_put_doc]
  split_ifs
  · exact d.legible_coerced
  · exact h j

lemma surfaced_put_doc_iff (h : k.load.Surfaced) (i : List UInt8) (d : Document) :
    (k.put (.doc (docKey i) d)).load.Surfaced ↔
      ∀ s, (d.coerced.entry s).conflicted = (k.load.entry i s).conflicted := by
  rw [h.iff_at i]
  · refine forall_congr' fun s => ?_
    have hlisted : s ∈ ((k.put (.doc (docKey i) d)).load.conflictsOf i).map BeliefConflict.subject ↔
        (k.load.entry i s).conflicted = true := Engine.surfaced_iff.mp h i s
    rw [hlisted, entry_put_doc, if_pos rfl]
    exact Iff.comm.trans Bool.eq_iff_iff.symm
  · intro j hj
    refine ⟨rfl, fun s => ?_⟩
    rw [entry_put_doc, if_neg hj]

lemma surfaced_put_both_iff (h : k.load.Surfaced) (he : e.Surfaced) (hlegible : e.Legible)
    (i : List UInt8) :
    ((k.put (.doc (docKey i) (e.docAt (docKey i)))).put
        (.conflicts (docKey i) (e.listAt (docKey i)))).load.Surfaced ↔
      ∀ s, ((e.docAt (docKey i)).coerced.entry s).conflicted = (e.entry i s).conflicted := by
  set k' := k.put (.doc (docKey i) (e.docAt (docKey i)))
  -- the second write does not touch the documents
  have hentry : ∀ j s, (k'.put (.conflicts (docKey i) (e.listAt (docKey i)))).load.entry j s =
      if j = i then (e.docAt (docKey i)).coerced.entry s else k.load.entry j s := fun j s =>
    entry_put_doc k i j _ s
  rw [h.iff_at i]
  · refine forall_congr' fun s => ?_
    have hlisted : s ∈ ((e.listAt (docKey i)).map BeliefConflict.coerced).map
        BeliefConflict.subject ↔ (e.entry i s).conflicted = true := by
      rw [← Engine.conflictsOf, he.map_subject_coerced hlegible i]
      exact Engine.surfaced_iff.mp he i s
    rw [conflictsOf_put_conflicts, if_pos rfl, hlisted, hentry, if_pos rfl]
    exact Iff.comm.trans Bool.eq_iff_iff.symm
  · intro j hj
    rw [conflictsOf_put_conflicts, if_neg hj]
    refine ⟨rfl, fun s => ?_⟩
    rw [hentry, if_neg hj]

end Disk

/-! ### Runs with stops -/

lemma Event.stored_cases (host : Host) (n : Node) (ev : Event) :
    ev.stored host n = [] ∨ ∃ i,
      ev.stored host n = [.doc (docKey i) ((n.engine.write host ev.write).docAt (docKey i))] ∨
      ev.stored host n = [.doc (docKey i) ((n.engine.write host ev.write).docAt (docKey i)),
        .conflicts (docKey i) ((n.engine.write host ev.write).listAt (docKey i))] := by
  -- a stop cuts the list off
  have hcut : ∃ done, ev.stored host n = (n.engine.storeWrites host ev.write).take done := by
    cases ev with
    | call w => exact ⟨_, (take_length).symm⟩
    | stop w done => exact ⟨done, rfl⟩
  obtain ⟨done, hdone⟩ := hcut
  rw [hdone]
  unfold Engine.storeWrites
  cases ev.write.effect host n.engine with
  | none => exact .inl take_nil
  | some f =>
    simp only
    split_ifs
    · exact .inl take_nil
    · cases done with
      | zero => exact .inl rfl
      | succ done => exact .inr ⟨f.docId, .inl (by rw [take_succ_cons, take_nil])⟩
    · match done with
      | 0 => exact .inl rfl
      | 1 => exact .inr ⟨f.docId, .inl rfl⟩
      | done + 2 =>
        refine .inr ⟨f.docId, .inr ?_⟩
        rw [take_succ_cons, take_succ_cons, take_nil]

/-- What holds of a process whose store is in order. -/
structure Tidy (n : Node) : Prop where
  surfaced : n.engine.Surfaced
  legible : n.engine.Legible
  disk : n.disk.load.Legible

lemma Node.disk_step (host : Host) (n : Node) (ev : Event) :
    (n.step host ev).disk = runFrom Disk.put n.disk (ev.stored host n) := by
  cases ev with
  | call w => rfl
  | stop w done => rfl

namespace Tidy

lemma new : Tidy .new where
  surfaced _ _ := by
    refine iff_of_false not_mem_nil ?_
    rintro ⟨d, hd, -⟩
    exact not_mem_nil hd
  legible := .new
  disk := .new

lemma legible_disk_step (h : Tidy n) (host : Host) (ev : Event) :
    (n.step host ev).disk.load.Legible := by
  rw [Node.disk_step]
  rcases ev.stored_cases host n with hnil | ⟨i, hdoc | hboth⟩
  · rw [hnil]
    exact h.disk
  · rw [hdoc]
    exact Disk.legible_put_doc h.disk i _
  · rw [hboth]
    exact (Disk.legible_put_doc h.disk i _).congr rfl

lemma step (h : Tidy n) {ev : Event} (hbelief : ev.write.Belief)
    (hnext : (n.step host ev).disk.load.Surfaced) : Tidy (n.step host ev) := by
  have hdisk := h.legible_disk_step host ev
  cases ev with
  | call w => exact ⟨h.surfaced.write hbelief, h.legible.write host w, hdisk⟩
  | stop w done => exact ⟨hnext, hdisk, hdisk⟩

/-- One event keeps the store in order iff it is quiet. -/
theorem surfaced_step_iff (h : Tidy n) {ev : Event} (hbelief : ev.write.Belief)
    (hdisk : n.disk.load.Surfaced) :
    (n.step host ev).disk.load.Surfaced ↔ ev.Quiet host n := by
  have he : (n.engine.write host ev.write).Surfaced := h.surfaced.write hbelief
  have hlegible := h.legible.write host ev.write
  rw [Node.disk_step]
  unfold Event.Quiet
  rcases ev.stored_cases host n with hnil | ⟨i, hdoc | hboth⟩
  · rw [hnil]
    exact iff_of_true hdisk trivial
  · rw [hdoc]
    exact Disk.surfaced_put_doc_iff hdisk i _
  · rw [hboth]
    exact Disk.surfaced_put_both_iff hdisk he hlegible i

end Tidy

/-- In a run of calls about beliefs, with stops, what is stored lists the subjects in conflict at
every time iff no call is cut off, by a stop or by an error of the store, after it has stored
a document with other conflicts than the one stored before, and JSON keeps the values of the stored
documents apart. -/
theorem conflicts_survive_iff (host : Host) (es : List Event)
    (hbelief : ∀ ev ∈ es, ev.write.Belief) :
    (∀ pre, pre <+: es → (runFrom (Node.step host) .new pre).disk.load.Surfaced) ↔
      Along (Node.step host) (fun n ev => ev.Quiet host n) .new es := by
  have hN : Along (Node.step host) (fun _ ev => ev.write.Belief) .new es :=
    along_of_forall_mem fun ev hev _ => hbelief ev hev
  refine hN.forall_prefix_iff (I := Tidy) (J := fun n => n.disk.load.Surfaced) ?_ ?_ .new
    Tidy.new.surfaced
  · intro n ev h hb hnext
    exact h.step hb hnext
  · intro n ev h hb hdisk
    exact h.surfaced_step_iff hb hdisk

section

open Sample (skyOp alice bob sky blue grey doc)

namespace Sample

/-- Two agents contradict each other about the sky, and the process stops after some of the store
writes of the second call. -/
def interrupted (done : ℕ) : List Event :=
  [.call (.apply (skyOp domainBelief alice blue) env),
    .stop (.apply (skyOp domainBelief bob grey) env) done]

end Sample

/-- The process stops after the document has been stored and before its conflicts: when it is back,
the register of the sky holds both values, and no conflict is listed. -/
theorem conflict_lost :
    ((runFrom (Node.step Sample.host) .new (Sample.interrupted 1)).engine.entry doc sky).dots.map
        Dot.value = [blue, grey] ∧
      (runFrom (Node.step Sample.host) .new (Sample.interrupted 1)).engine.conflictsOf doc =
        [] := by
  decide +kernel

/-- So this stop is not quiet. -/
theorem conflicts_survive_iff_sample :
    (∀ ev ∈ Sample.interrupted 1, ev.write.Belief) ∧
      ¬ Along (Node.step Sample.host) (fun n ev => ev.Quiet Sample.host n) .new
        (Sample.interrupted 1) := by
  have hbelief : ∀ ev ∈ Sample.interrupted 1, ev.write.Belief := by
    intro ev hev
    rcases List.mem_pair.mp hev with rfl | rfl
    · rfl
    · rfl
  refine ⟨hbelief, fun hquiet => ?_⟩
  have h := (conflicts_survive_iff Sample.host _ hbelief).mpr hquiet _ List.prefix_rfl doc sky
  exact absurd (h.mpr (by decide +kernel)) (by decide +kernel)

end

end Cerberus.State
