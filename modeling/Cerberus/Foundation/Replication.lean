import Cerberus.Foundation.Run

/-!
# Data types replicated by shipping states

A replicated data type (`Replicated`) has states, local operations and a merge of a received state
into the own one. A `Cluster` is any number of replicas. A replica performs an operation, publishes
a snapshot of its state, or merges a snapshot that was published at any time before; so snapshots
may be stale, arrive in any order and more than once.

Beside its state a copy carries the operations that have reached it, by their positions in the log.
What an operation had observed is what had reached the copy it was made on, so causality is defined
by the run alone.

Every set of operations that reaches a copy is causally closed (`Closed`). When every author works
at one site, the operations of an author that reach two copies are nested, hence the amounts that an
author contributes to two copies determine which copy knows more (`tally_le_iff_subset`).
-/

namespace Foundation

open List Function
open Finset hiding mem_singleton

/-- A data type that is replicated by shipping states. -/
structure Replicated (σ Op : Type*) where
  init : σ
  update : σ → Op → σ
  /-- Merge a received state, the second one. -/
  merge : σ → σ → σ

/-- A state with the numbers of the operations that have reached it. -/
structure Copy (σ : Type*) where
  state : σ
  received : Finset ℕ

structure Entry (ι σ Op : Type*) where
  site : ι
  op : Op
  before : Copy σ

/-- Replicas, the snapshots published so far, and the log of all operations. -/
structure Cluster (ι σ Op : Type*) where
  copies : ι → Copy σ
  snapshots : List (Copy σ)
  log : List (Entry ι σ Op)

inductive ReplicaEvent (ι Op : Type*)
  | update (r : ι) (op : Op)
  | publish (r : ι)
  /-- A replica merges a snapshot, given by its number. -/
  | deliver (r : ι) (i : ℕ)

variable {ι σ Op : Type*}

namespace Copy

def update (T : Replicated σ Op) (c : Copy σ) (n : ℕ) (op : Op) : Copy σ :=
  ⟨T.update c.state op, insert n c.received⟩

def merge (T : Replicated σ Op) (c c' : Copy σ) : Copy σ :=
  ⟨T.merge c.state c'.state, c.received ∪ c'.received⟩

end Copy

namespace Replicated

variable (T : Replicated σ Op)

def cluster : Cluster ι σ Op := ⟨fun _ => ⟨T.init, ∅⟩, [], []⟩

variable [DecidableEq ι]

/-- The cluster after an event; a snapshot that does not exist changes nothing. -/
def step (w : Cluster ι σ Op) : ReplicaEvent ι Op → Cluster ι σ Op
  | .update r op =>
    { w with
      copies := Function.update w.copies r ((w.copies r).update T w.log.length op)
      log := w.log ++ [⟨r, op, w.copies r⟩] }
  | .publish r => { w with snapshots := w.snapshots ++ [w.copies r] }
  | .deliver r i =>
    match w.snapshots[i]? with
    | none => w
    | some c => { w with copies := Function.update w.copies r ((w.copies r).merge T c) }

def run (es : List (ReplicaEvent ι Op)) : Cluster ι σ Op := runFrom T.step T.cluster es

end Replicated

def Cluster.Holds (w : Cluster ι σ Op) (c : Copy σ) : Prop :=
  (∃ r, w.copies r = c) ∨ c ∈ w.snapshots ∨ ∃ e ∈ w.log, e.before = c

/-- With an operation, everything it had observed. -/
def Closed (log : List (Entry ι σ Op)) (S : Finset ℕ) : Prop :=
  ∀ i ∈ S, ∃ e, log[i]? = some e ∧ e.before.received ⊆ S

namespace Closed

variable {log : List (Entry ι σ Op)} {S S' : Finset ℕ}

section

variable (h : Closed log S)
include h

lemma lt_length {i : ℕ} (hi : i ∈ S) : i < log.length := by
  obtain ⟨e, he, -⟩ := h i hi
  exact (List.getElem?_eq_some_iff.mp he).1

lemma observed_subset {i : ℕ} {e : Entry ι σ Op} (hi : i ∈ S)
    (he : log[i]? = some e) : e.before.received ⊆ S := by
  obtain ⟨e', he', hsub⟩ := h i hi
  rw [he] at he'
  cases he'
  exact hsub

lemma append (e : Entry ι σ Op) : Closed (log ++ [e]) S := by
  intro i hi
  obtain ⟨e', he', hsub⟩ := h i hi
  refine ⟨e', ?_, hsub⟩
  rw [List.getElem?_append_left (h.lt_length hi), he']

lemma union (h' : Closed log S') : Closed log (S ∪ S') := by
  intro i hi
  rcases mem_union.mp hi with hi | hi
  · obtain ⟨e, he, hsub⟩ := h i hi
    exact ⟨e, he, hsub.trans subset_union_left⟩
  · obtain ⟨e, he, hsub⟩ := h' i hi
    exact ⟨e, he, hsub.trans subset_union_right⟩

end

lemma insert {e : Entry ι σ Op} {i : ℕ} (h : Closed log e.before.received)
    (he : log[i]? = some e) : Closed log (insert i e.before.received) := by
  intro j hj
  rcases mem_insert.mp hj with rfl | hj
  · exact ⟨e, he, subset_insert _ _⟩
  · obtain ⟨e', he', hsub⟩ := h j hj
    exact ⟨e', he', hsub.trans (subset_insert _ _)⟩

end Closed

structure Causal (w : Cluster ι σ Op) : Prop where
  /-- The operations that have reached a copy are causally closed. -/
  closed : ∀ c, w.Holds c → Closed w.log c.received
  own : ∀ (i : ℕ) (e : Entry ι σ Op), w.log[i]? = some e → i ∈ (w.copies e.site).received
  /-- An operation observes only earlier ones. -/
  earlier : ∀ (i : ℕ) (e : Entry ι σ Op), w.log[i]? = some e → ∀ j ∈ e.before.received, j < i
  /-- An operation has observed all earlier ones of its site. -/
  ordered : ∀ (i : ℕ) (e : Entry ι σ Op) (j : ℕ) (e' : Entry ι σ Op), w.log[i]? = some e →
    w.log[j]? = some e' → e.site = e'.site → i < j → i ∈ e'.before.received

namespace Replicated

variable {T : Replicated σ Op} {w : Cluster ι σ Op}

lemma causal_cluster : Causal (T.cluster : Cluster ι σ Op) where
  closed c hc := by
    rcases hc with ⟨r, rfl⟩ | hc | ⟨e, he, -⟩
    · intro i hi
      exact absurd hi (notMem_empty i)
    · exact absurd hc not_mem_nil
    · exact absurd he not_mem_nil
  own i e he := by cases he
  earlier i e he := by cases he
  ordered i e j e' he := by cases he

variable [DecidableEq ι]

variable {r : ι} {c : Copy σ} {i : ℕ} {es : List (ReplicaEvent ι Op)}
  {K : List (Entry ι σ Op) → Copy σ → Prop}

lemma holds_step_update {op : Op} (h : (T.step w (.update r op)).Holds c) :
    c = (w.copies r).update T w.log.length op ∨ w.Holds c := by
  rcases h with ⟨r', rfl⟩ | hc | ⟨e, he, rfl⟩
  · by_cases hr : r' = r
    · subst hr
      exact .inl (update_self ..)
    · exact .inr (.inl ⟨r', (update_of_ne hr _ _).symm⟩)
  · exact .inr (.inr (.inl hc))
  · rcases mem_append.mp he with he | he
    · exact .inr (.inr (.inr ⟨e, he, rfl⟩))
    · rw [mem_singleton] at he
      exact .inr (.inl ⟨r, by rw [he]⟩)

lemma holds_step_publish (h : (T.step w (.publish r)).Holds c) : w.Holds c := by
  rcases h with hc | hc | hc
  · exact .inl hc
  · rcases mem_append.mp hc with hc | hc
    · exact .inr (.inl hc)
    · rw [mem_singleton] at hc
      exact .inl ⟨r, hc.symm⟩
  · exact .inr (.inr hc)

lemma step_deliver (h : w.snapshots[i]? = some c) :
    T.step w (.deliver r i) =
      { w with copies := Function.update w.copies r ((w.copies r).merge T c) } := by
  simp only [step, h]

lemma step_deliver_none (h : w.snapshots[i]? = none) : T.step w (.deliver r i) = w := by
  simp only [step, h]

lemma holds_step_deliver (h : (T.step w (.deliver r i)).Holds c) :
    w.Holds c ∨ ∃ c', w.snapshots[i]? = some c' ∧ c = (w.copies r).merge T c' := by
  cases hi : w.snapshots[i]? with
  | none =>
    rw [step_deliver_none hi] at h
    exact .inl h
  | some c' =>
    rw [step_deliver hi] at h
    rcases h with ⟨r', rfl⟩ | hc | hc
    · by_cases hr : r' = r
      · subst hr
        exact .inr ⟨c', rfl, update_self ..⟩
      · exact .inl (.inl ⟨r', (update_of_ne hr _ _).symm⟩)
    · exact .inl (.inr (.inl hc))
    · exact .inl (.inr (.inr hc))

lemma copies_step_update (r : ι) (op : Op) :
    (T.step w (.update r op)).copies r = (w.copies r).update T w.log.length op :=
  update_self ..

lemma copies_step_deliver (h : w.snapshots[i]? = some c) :
    (T.step w (.deliver r i)).copies r = (w.copies r).merge T c := by
  rw [step_deliver h]
  exact update_self ..

omit [DecidableEq ι] in
lemma holds_of_getElem? (h : w.snapshots[i]? = some c) : w.Holds c :=
  .inr (.inl (mem_of_getElem? h))

lemma received_subset_step (e : ReplicaEvent ι Op) (r : ι) :
    (w.copies r).received ⊆ ((T.step w e).copies r).received := by
  cases e with
  | update r' op =>
    by_cases hr : r = r'
    · subst hr
      simp [step, Copy.update]
    · simp [step, hr]
  | publish r' => exact Finset.Subset.refl _
  | deliver r' i =>
    cases hi : w.snapshots[i]? with
    | none => rw [step_deliver_none hi]
    | some c =>
      rw [step_deliver hi]
      by_cases hr : r = r'
      · subst hr
        simp [Copy.merge]
      · simp [hr]

lemma causal_step_update (h : Causal w) (r : ι) (op : Op) :
    Causal (T.step w (.update r op)) where
  closed c hc := by
    have hnew : (w.log ++ [⟨r, op, w.copies r⟩])[w.log.length]? = some ⟨r, op, w.copies r⟩ := by
      simp
    rcases holds_step_update hc with rfl | hc
    · exact ((h.closed _ (.inl ⟨r, rfl⟩)).append _).insert hnew
    · exact (h.closed c hc).append _
  own i e he := by
    rcases getElem?_append_singleton_iff.mp he with he | ⟨rfl, rfl⟩
    · exact received_subset_step (T := T) _ _ (h.own i e he)
    · simp [step, Copy.update]
  earlier i e he := by
    rcases getElem?_append_singleton_iff.mp he with he | ⟨rfl, rfl⟩
    · exact h.earlier i e he
    · exact fun j hj => (h.closed _ (.inl ⟨r, rfl⟩)).lt_length hj
  ordered i e j e' he he' hsite hij := by
    rcases getElem?_append_singleton_iff.mp he' with he' | ⟨rfl, rfl⟩
    · have hj : j < w.log.length := (List.getElem?_eq_some_iff.mp he').1
      rcases getElem?_append_singleton_iff.mp he with he | ⟨rfl, -⟩
      · exact h.ordered i e j e' he he' hsite hij
      · omega
    · rcases getElem?_append_singleton_iff.mp he with he | ⟨rfl, -⟩
      · have hown := h.own i e he
        rwa [hsite] at hown
      · omega

lemma causal_step_publish (h : Causal w) (r : ι) : Causal (T.step w (.publish r)) where
  closed c hc := h.closed c (holds_step_publish hc)
  own := h.own
  earlier := h.earlier
  ordered := h.ordered

lemma log_step_deliver (r : ι) (i : ℕ) : (T.step w (.deliver r i)).log = w.log := by
  cases hi : w.snapshots[i]? with
  | none => rw [step_deliver_none hi]
  | some c => rw [step_deliver hi]

lemma causal_step_deliver (h : Causal w) (r : ι) (i : ℕ) : Causal (T.step w (.deliver r i)) := by
  have hlog := log_step_deliver (T := T) (w := w) r i
  refine ⟨fun c hc => ?_, fun j e he => ?_, ?_, ?_⟩
  · rw [hlog]
    rcases holds_step_deliver hc with hc | ⟨c', hc', rfl⟩
    · exact h.closed c hc
    · exact (h.closed _ (.inl ⟨r, rfl⟩)).union (h.closed c' (holds_of_getElem? hc'))
  · rw [hlog] at he
    exact received_subset_step _ _ (h.own j e he)
  · rw [hlog]
    exact h.earlier
  · rw [hlog]
    exact h.ordered

theorem causal_step (h : Causal w) (e : ReplicaEvent ι Op) : Causal (T.step w e) := by
  cases e with
  | update r op => exact causal_step_update h r op
  | publish r => exact causal_step_publish h r
  | deliver r i => exact causal_step_deliver h r i

theorem causal_run (es : List (ReplicaEvent ι Op)) : Causal (T.run es) :=
  runFrom_keeps (I := Causal) (fun _ e hw => causal_step hw e) causal_cluster es

/-! ### Invariants of copies -/

structure Keeps (I : List (Entry ι σ Op) → Copy σ → Prop) (Q : Entry ι σ Op → Prop)
    (w : Cluster ι σ Op) : Prop where
  causal : Causal w
  copies : ∀ c, w.Holds c → I w.log c
  entries : ∀ e ∈ w.log, Q e

variable {I : List (Entry ι σ Op) → Copy σ → Prop} {Q : Entry ι σ Op → Prop}
  {P : Cluster ι σ Op → ReplicaEvent ι Op → Prop}

/-- The invariant rule: a property of copies that operations and merges keep, and that does not
depend on later entries of the log, holds of all copies in every cluster that is reached. -/
theorem keeps_run (hinit : I [] ⟨T.init, ∅⟩)
    (hgrow : ∀ log e c, Closed log c.received → I log c → I (log ++ [e]) c)
    (hentry : ∀ w r op, P w (.update r op) → Q ⟨r, op, w.copies r⟩)
    (hupdate : ∀ w r op, Keeps I Q w → P w (.update r op) →
      I (w.log ++ [⟨r, op, w.copies r⟩]) ((w.copies r).update T w.log.length op))
    (hmerge : ∀ w c c', Keeps I Q w → w.Holds c → w.Holds c' → I w.log (c.merge T c'))
    (hP : Along T.step P T.cluster es) : Keeps I Q (T.run es) := by
  refine Along.keeps (I := Keeps I Q) (fun w e hw he => ?_) ?_ hP
  · refine ⟨causal_step hw.causal e, fun c hc => ?_, fun e' he' => ?_⟩
    · cases e with
      | update r op =>
        rcases holds_step_update hc with rfl | hc
        · exact hupdate w r op hw he
        · exact hgrow _ _ _ (hw.causal.closed c hc) (hw.copies c hc)
      | publish r => exact hw.copies c (holds_step_publish hc)
      | deliver r i =>
        rw [log_step_deliver]
        rcases holds_step_deliver hc with hc | ⟨c', hc', rfl⟩
        · exact hw.copies c hc
        · exact hmerge w _ c' hw (.inl ⟨r, rfl⟩) (holds_of_getElem? hc')
    · cases e with
      | update r op =>
        rcases mem_append.mp he' with he' | he'
        · exact hw.entries e' he'
        · rw [mem_singleton] at he'
          rw [he']
          exact hentry w r op he
      | publish r => exact hw.entries e' he'
      | deliver r i =>
        rw [log_step_deliver] at he'
        exact hw.entries e' he'
  · refine ⟨causal_cluster, fun c hc => ?_, fun e he => absurd he not_mem_nil⟩
    rcases hc with ⟨r, rfl⟩ | hc | ⟨e, he, -⟩
    · exact hinit
    · exact absurd hc not_mem_nil
    · exact absurd he not_mem_nil

lemma holds_of_forall_copies
    (hgrow : ∀ log e c, Closed log c.received → K log c → K (log ++ [e]) c)
    (h : ∀ pre, pre <+: es → ∀ r, K (T.run pre).log ((T.run pre).copies r))
    (hc : (T.run es).Holds c) : K (T.run es).log c := by
  induction es using List.reverseRecOn generalizing c with
  | nil =>
    rcases hc with ⟨r, rfl⟩ | hc | ⟨e, he, -⟩
    · exact h [] prefix_rfl r
    · exact absurd hc not_mem_nil
    · exact absurd he not_mem_nil
  | append_singleton es e ih =>
    have hold : ∀ c, (T.run es).Holds c → K (T.run es).log c := fun c hc =>
      ih (fun pre hpre => h pre (hpre.trans (prefix_append _ _))) hc
    have hcausal : Causal (T.run es) := causal_run es
    have hrun : T.run (es ++ [e]) = T.step (T.run es) e := runFrom_append _ _ _
    have hnow := h _ prefix_rfl
    rw [hrun] at hc hnow ⊢
    cases e with
    | update r op =>
      rcases holds_step_update hc with rfl | hc
      · have hr := hnow r
        rwa [copies_step_update] at hr
      · exact hgrow _ _ c (hcausal.closed c hc) (hold c hc)
    | publish r => exact hold c (holds_step_publish hc)
    | deliver r i =>
      rcases holds_step_deliver hc with hc | ⟨c', hc', rfl⟩
      · rw [log_step_deliver]
        exact hold c hc
      · have hr := hnow r
        rwa [copies_step_deliver hc'] at hr

/-- The rule for properties that not every event keeps: a property of copies holds on all replicas
all along a run iff every event meets the condition under which it keeps the property. -/
theorem forall_copies_iff_along (hinit : K [] ⟨T.init, ∅⟩)
    (hgrow : ∀ log e c, Closed log c.received → K log c → K (log ++ [e]) c)
    (hupdate : ∀ w r op, Causal w → (∀ c, w.Holds c → K w.log c) →
      (K (w.log ++ [⟨r, op, w.copies r⟩]) ((w.copies r).update T w.log.length op) ↔
        P w (.update r op))) (hpublish : ∀ w r, P w (.publish r))
    (hdeliver : ∀ w r i, Causal w → (∀ c, w.Holds c → K w.log c) →
      ((∀ c, w.snapshots[i]? = some c → K w.log ((w.copies r).merge T c)) ↔ P w (.deliver r i))) :
    (∀ pre, pre <+: es → ∀ r, K (T.run pre).log ((T.run pre).copies r)) ↔
      Along T.step P T.cluster es := by
  have hcopies : (∀ pre, pre <+: es → ∀ r, K (T.run pre).log ((T.run pre).copies r)) ↔
      ∀ pre, pre <+: es → ∀ c, (T.run pre).Holds c → K (T.run pre).log c := by
    refine ⟨fun h pre hpre c hc => ?_, fun h pre hpre r => h pre hpre _ (.inl ⟨r, rfl⟩)⟩
    exact holds_of_forall_copies hgrow (fun pre' hpre' => h pre' (hpre'.trans hpre)) hc
  rw [hcopies]
  refine forall_prefix_iff_along (I := Causal) (J := fun w => ∀ c, w.Holds c → K w.log c)
    (fun w e hw => causal_step hw e) (fun w e hw hK => ?_) causal_cluster fun c hc => ?_
  · cases e with
    | update r op =>
      rw [← hupdate w r op hw hK]
      refine ⟨fun h => h _ (.inl ⟨r, copies_step_update r op⟩), fun h c hc => ?_⟩
      rcases holds_step_update hc with rfl | hc
      · exact h
      · exact hgrow _ _ c (hw.closed c hc) (hK c hc)
    | publish r => exact iff_of_true (fun c hc => hK c (holds_step_publish hc)) (hpublish w r)
    | deliver r i =>
      rw [← hdeliver w r i hw hK, log_step_deliver]
      refine ⟨fun h c hc => ?_, fun h c hc => ?_⟩
      · exact h _ (.inl ⟨r, copies_step_deliver hc⟩)
      · rcases holds_step_deliver hc with hc | ⟨c', hc', rfl⟩
        · exact hK c hc
        · exact h c' hc'
  · rcases hc with ⟨r, rfl⟩ | hc | ⟨e, he, -⟩
    · exact hinit
    · exact absurd hc not_mem_nil
    · exact absurd he not_mem_nil

end Replicated

/-! ### What operations leave behind -/

section Topic

variable {κ D : Type*} (topic : Op → κ) (dot : Entry ι σ Op → D)

/-- What the operations on a topic leave behind, among those with the given numbers. -/
def made (log : List (Entry ι σ Op)) (S : Finset ℕ) (k : κ) : Set D :=
  {d | ∃ i ∈ S, ∃ e ∈ log[i]?, topic e.op = k ∧ dot e = d}

/-- The operations on a topic that no other one on the topic had observed. -/
def unobserved [DecidableEq κ] (log : List (Entry ι σ Op)) (S : Finset ℕ) (k : κ) : Finset ℕ :=
  S.filter fun i => (∃ e ∈ log[i]?, topic e.op = k) ∧
    ∀ j ∈ S, ∀ f ∈ log[j]?, topic f.op = k → i ∉ f.before.received

/-- The operations on a topic that have reached a replica and that no other one had observed. -/
def Cluster.heads [DecidableEq κ] (w : Cluster ι σ Op) (r : ι) (k : κ) : Finset ℕ :=
  unobserved topic w.log (w.copies r).received k

variable {topic dot} {log : List (Entry ι σ Op)} {S S' : Finset ℕ} {k : κ}

@[simp] lemma made_empty : made topic dot log ∅ k = ∅ := by
  ext d
  simp [made]

lemma made_append (h : Closed log S) (e : Entry ι σ Op) :
    made topic dot (log ++ [e]) S k = made topic dot log S k := by
  ext d
  refine exists_congr fun i => and_congr_right fun hi => ?_
  rw [List.getElem?_append_left (h.lt_length hi)]

lemma made_insert [DecidableEq κ] (h : Closed log S) (e : Entry ι σ Op) :
    made topic dot (log ++ [e]) (insert log.length S) k =
      if k = topic e.op then insert (dot e) (made topic dot log S k)
      else made topic dot log S k := by
  rw [← made_append h e]
  have hnew : (log ++ [e])[log.length]? = some e := by simp
  ext d
  simp only [made, mem_insert, exists_eq_or_imp, hnew, Option.mem_def, Option.some.injEq,
    exists_eq_left', Set.mem_ofPred_eq]
  split_ifs with hk
  · simp [hk, eq_comm]
  · simp [Ne.symm hk]

lemma made_union :
    made topic dot log (S ∪ S') k = made topic dot log S k ∪ made topic dot log S' k := by
  ext d
  simp only [made, mem_union, or_and_right, exists_or, Set.mem_union, Set.mem_ofPred_eq]

end Topic

/-! ### What an author contributes -/

def total {M : Type*} [AddCommMonoid M] (amount : Op → M) (log : List (Entry ι σ Op))
    (S : Finset ℕ) : M :=
  ∑ i ∈ S, (log[i]?).elim 0 fun e => amount e.op

/-- The sum of the amounts of the operations that have reached a replica. -/
def Cluster.gathered {M : Type*} [AddCommMonoid M] (amount : Op → M) (w : Cluster ι σ Op) (r : ι) :
    M :=
  total amount w.log (w.copies r).received

lemma total_append {M : Type*} [AddCommMonoid M] {amount : Op → M} {log : List (Entry ι σ Op)}
    {S : Finset ℕ} (h : Closed log S) (e : Entry ι σ Op) :
    total amount (log ++ [e]) S = total amount log S := by
  refine sum_congr rfl fun i hi => ?_
  rw [List.getElem?_append_left (h.lt_length hi)]

section Author

variable {α : Type*} [DecidableEq α] (author : Op → α)

def authorAt (log : List (Entry ι σ Op)) (i : ℕ) : Option α := (log[i]?).map fun e => author e.op

/-- The operations of an author among those with the given numbers. -/
def authored (log : List (Entry ι σ Op)) (a : α) (S : Finset ℕ) : Finset ℕ :=
  S.filter fun i => authorAt author log i = some a

def tally (amount : Op → ℕ) (log : List (Entry ι σ Op)) (a : α) (S : Finset ℕ) : ℕ :=
  total amount log (authored author log a S)

def SingleHomed (es : List (ReplicaEvent ι Op)) : Prop :=
  ∀ r op r' op', ReplicaEvent.update r op ∈ es → ReplicaEvent.update r' op' ∈ es →
    author op = author op' → r = r'

def ReplicaEvent.compatible [DecidableEq ι] : ReplicaEvent ι Op → ReplicaEvent ι Op → Bool
  | .update r op, .update r' op' => author op ≠ author op' || r = r'
  | _, _ => true

variable {es : List (ReplicaEvent ι Op)}

lemma singleHomed_iff [DecidableEq ι] :
    SingleHomed author es ↔ ∀ ev ∈ es, ∀ ev' ∈ es, ev.compatible author ev' = true := by
  constructor
  · intro h ev hev ev' hev'
    cases ev with
    | update r op =>
      cases ev' with
      | update r' op' =>
        have hsite := h r op r' op' hev hev'
        simpa [ReplicaEvent.compatible, or_iff_not_imp_left] using hsite
      | publish r' => rfl
      | deliver r' i => rfl
    | publish r => rfl
    | deliver r i => rfl
  · intro h r op r' op' hmem hmem' hauthor
    simpa [ReplicaEvent.compatible, hauthor] using h _ hmem _ hmem'

instance decidableSingleHomed [DecidableEq ι] (es : List (ReplicaEvent ι Op)) :
    Decidable (SingleHomed author es) :=
  decidable_of_iff' _ (singleHomed_iff author)

variable {author} {amount : Op → ℕ} {log : List (Entry ι σ Op)} {a : α} {S S' : Finset ℕ}

lemma mem_authored {i : ℕ} : i ∈ authored author log a S ↔
    i ∈ S ∧ ∃ e, log[i]? = some e ∧ author e.op = a := by
  simp [authored, authorAt]

@[simp] lemma tally_empty : tally author amount log a ∅ = 0 := rfl

lemma tally_append (h : ∀ i ∈ S, i < log.length) (e : Entry ι σ Op) :
    tally author amount (log ++ [e]) a S = tally author amount log a S := by
  have hget : ∀ i ∈ S, (log ++ [e])[i]? = log[i]? := fun i hi =>
    List.getElem?_append_left (h i hi)
  have hfilter : authored author (log ++ [e]) a S = authored author log a S := by
    refine filter_congr fun i hi => ?_
    rw [authorAt, authorAt, hget i hi]
  rw [tally, tally, hfilter]
  refine sum_congr rfl fun i hi => ?_
  rw [hget i (mem_of_mem_filter i hi)]

lemma tally_insert (h : Closed log S) (e : Entry ι σ Op) :
    tally author amount (log ++ [e]) a (insert log.length S) =
      tally author amount log a S + if a = author e.op then amount e.op else 0 := by
  have hnew : (log ++ [e])[log.length]? = some e := by simp
  have hnot : log.length ∉ authored author (log ++ [e]) a S := fun hmem =>
    lt_irrefl _ (h.lt_length (mem_of_mem_filter _ hmem))
  have hauthored : authored author (log ++ [e]) a (insert log.length S) =
      if a = author e.op then insert log.length (authored author (log ++ [e]) a S)
      else authored author (log ++ [e]) a S := by
    rw [authored, filter_insert, authorAt, hnew]
    exact if_congr (by simp [eq_comm]) rfl rfl
  rw [← tally_append (fun _ => h.lt_length) e, tally, tally, hauthored]
  split_ifs with ha
  · rw [total, sum_insert hnot, hnew]
    exact Nat.add_comm _ _
  · rfl

lemma total_mono (h : S ⊆ S') : total amount log S ≤ total amount log S' :=
  sum_le_sum_of_subset h

lemma tally_mono (h : S ⊆ S') : tally author amount log a S ≤ tally author amount log a S' :=
  total_mono (filter_subset_filter _ h)

/-- What the authors in a set have contributed is all there is, if the others have contributed
nothing. -/
theorem total_eq_sum_tally (h : Closed log S) {A : Finset α}
    (hA : ∀ a ∉ A, tally author amount log a S = 0) :
    total amount log S = ∑ a ∈ A, tally author amount log a S := by
  simp only [tally, total, authored, sum_filter]
  rw [sum_comm]
  refine sum_congr rfl fun i hi => ?_
  obtain ⟨e, he, -⟩ := h i hi
  have hat : authorAt author log i = some (author e.op) := by rw [authorAt, he, Option.map_some]
  simp only [hat, he, Option.some.injEq, Option.elim_some, sum_ite_eq]
  split_ifs with hmem
  · rfl
  · -- the amount is part of a tally that is zero
    have hzero := sum_eq_zero_iff.mp (hA _ hmem) i (mem_authored.mpr ⟨hi, e, he, rfl⟩)
    simpa [he] using hzero

lemma tally_le_total : tally author amount log a S ≤ total amount log S :=
  total_mono (filter_subset _ _)

omit [DecidableEq α] in
lemma SingleHomed.exists_home [Nonempty ι] (h : SingleHomed author es) :
    ∃ home : α → ι, ∀ r op, ReplicaEvent.update r op ∈ es → r = home (author op) := by
  have hsite : ∀ a, ∃ r', ∀ r op, ReplicaEvent.update r op ∈ es → author op = a → r = r' := by
    intro a
    by_cases ha : ∃ r' op', ReplicaEvent.update r' op' ∈ es ∧ author op' = a
    · obtain ⟨r', op', hmem', hop'⟩ := ha
      exact ⟨r', fun r op hmem hop => h r op r' op' hmem hmem' (hop.trans hop'.symm)⟩
    · exact ⟨Classical.arbitrary ι, fun r op hmem hop => absurd ⟨r, op, hmem, hop⟩ ha⟩
  choose home hhome using hsite
  exact ⟨home, fun r op hmem => hhome (author op) r op hmem rfl⟩

omit [DecidableEq α] in
theorem Replicated.keeps_run_of_singleHomed [DecidableEq ι] [Nonempty ι] {T : Replicated σ Op}
    {I : List (Entry ι σ Op) → Copy σ → Prop} {P : Cluster ι σ Op → ReplicaEvent ι Op → Prop}
    (h : SingleHomed author es) (hinit : I [] ⟨T.init, ∅⟩)
    (hgrow : ∀ log e c, Closed log c.received → I log c → I (log ++ [e]) c)
    (hupdate : ∀ w r op, Causal w → I w.log (w.copies r) → P w (.update r op) →
      I (w.log ++ [⟨r, op, w.copies r⟩]) ((w.copies r).update T w.log.length op))
    (hmerge : ∀ (home : α → ι) w c c', Causal w → (∀ e ∈ w.log, e.site = home (author e.op)) →
      w.Holds c → w.Holds c' → I w.log c → I w.log c' → I w.log (c.merge T c'))
    (hP : Along T.step P T.cluster es) :
    ∃ home : α → ι, Replicated.Keeps I (fun e => e.site = home (author e.op)) (T.run es) := by
  obtain ⟨home, hhome⟩ := h.exists_home
  have hboth : Along T.step (fun w ev => ev ∈ es ∧ P w ev) T.cluster es := by
    rw [along_iff_forall_split] at hP ⊢
    rintro pre ev post rfl
    exact ⟨mem_append_right _ mem_cons_self, hP pre ev post rfl⟩
  refine ⟨home, keeps_run hinit hgrow (fun w r op hmem => hhome r op hmem.1)
    (fun w r op hw hmem => ?_) (fun w c c' hw hc hc' => ?_) hboth⟩
  · exact hupdate w r op hw.causal (hw.copies _ (.inl ⟨r, rfl⟩)) hmem.2
  · exact hmerge home w c c' hw.causal hw.entries hc hc' (hw.copies c hc) (hw.copies c' hc')

variable {w : Cluster ι σ Op} {home : α → ι}

variable (hw : Causal w) (hhome : ∀ e ∈ w.log, e.site = home (author e.op))
include hw hhome

/-- Of two causally closed sets, one contains all that the other has of an author who works at one
site. -/
lemma Causal.nested (h : Closed w.log S) (h' : Closed w.log S') (a : α) :
    authored author w.log a S ⊆ authored author w.log a S' ∨
      authored author w.log a S' ⊆ authored author w.log a S := by
  by_contra hcon
  rw [not_or, not_subset, not_subset] at hcon
  obtain ⟨⟨i, hi, hi'⟩, j, hj, hj'⟩ := hcon
  obtain ⟨hiS, e, he, hea⟩ := mem_authored.mp hi
  obtain ⟨hjS, f, hf, hfa⟩ := mem_authored.mp hj
  have hsite : e.site = f.site := by
    rw [hhome e (mem_of_getElem? he), hhome f (mem_of_getElem? hf), hea, hfa]
  -- the later of the two had observed the earlier one
  rcases Nat.lt_trichotomy i j with hij | rfl | hij
  · have hobs := hw.ordered i e j f he hf hsite hij
    exact hi' (mem_authored.mpr ⟨h'.observed_subset hjS hf hobs, e, he, hea⟩)
  · exact hi' hj
  · have hobs := hw.ordered j f i e hf he hsite.symm hij
    exact hj' (mem_authored.mpr ⟨h.observed_subset hiS he hobs, f, hf, hfa⟩)

/-- What an author has contributed to one of two copies is the larger of the two amounts. -/
theorem Causal.tally_union (h : Closed w.log S) (h' : Closed w.log S') :
    tally author amount w.log a (S ∪ S') =
      max (tally author amount w.log a S) (tally author amount w.log a S') := by
  have hunion : authored author w.log a (S ∪ S') =
      authored author w.log a S ∪ authored author w.log a S' := filter_union ..
  rw [tally, hunion]
  rcases hw.nested hhome h h' a with hsub | hsub
  · rw [union_eq_right.mpr hsub]
    exact (max_eq_right (total_mono hsub)).symm
  · rw [union_eq_left.mpr hsub]
    exact (max_eq_left (total_mono hsub)).symm

/-- When every operation counts, tallies are ordered as the sets. -/
theorem Causal.tally_le_iff_subset (hpos : ∀ op, 0 < amount op)
    (h : Closed w.log S) (h' : Closed w.log S') :
    (∀ a, tally author amount w.log a S ≤ tally author amount w.log a S') ↔ S ⊆ S' := by
  refine ⟨fun hle i hi => ?_, fun hsub a => tally_mono hsub⟩
  obtain ⟨e, he, -⟩ := h i hi
  have hmem : i ∈ authored author w.log (author e.op) S := mem_authored.mpr ⟨hi, e, he, rfl⟩
  rcases hw.nested hhome h h' (author e.op) with hsub | hsub
  · exact (mem_authored.mp (hsub hmem)).1
  · by_contra hnot
    -- otherwise the other set lacks an operation that counts
    refine absurd (hle (author e.op)) (not_le.mpr ?_)
    refine sum_lt_sum_of_subset hsub hmem (fun hi' => hnot (mem_authored.mp hi').1) ?_
      fun j _ _ => Nat.zero_le _
    rw [he]
    exact hpos e.op

end Author

end Foundation
