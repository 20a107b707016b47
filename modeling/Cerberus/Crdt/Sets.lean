import Cerberus.Crdt.Model
import Cerberus.Foundation.Replication

/-!
# Elements of a replicated set

An element ought to be in a replicated set when some add of it has reached the replica that no
remove that has reached the replica had observed (`Live`). A remove forgets the tags of the element
and leaves nothing behind, so a merge cannot tell an add that the replica has never seen from one
that it has removed. It goes wrong exactly where every add of an element that still stands on one of
the two sides was observed by a remove of which only the other side has heard (`Revives`).
-/

namespace Cerberus.Crdt

open Foundation Finset Option

open Kernel (Text)

inductive OrSetOp
  | add (element : Text) (tag : UInt64)
  | remove (element : Text)
  deriving DecidableEq

/-- The operation adds the element. -/
def OrSetOp.adds (x : Text) : OrSetOp → Bool
  | .add element _ => element = x
  | .remove _ => false

namespace OrSet

def perform (s : OrSet) : OrSetOp → OrSet
  | .add element tag => s.add element tag
  | .remove element => s.remove element

def replicated : Replicated OrSet OrSetOp := ⟨.new, perform, merge⟩

@[simp] lemma contains_add (s : OrSet) (x y : Text) (t : UInt64) :
    (s.add x t).contains y = true ↔ y = x ∨ s.contains y = true := by
  rw [contains, add, OrdMap.get?_put]
  by_cases h : y = x
  · simp [h]
  · simp [h, contains]

@[simp] lemma contains_remove (s : OrSet) (x y : Text) :
    (s.remove x).contains y = true ↔ y ≠ x ∧ s.contains y = true := by
  rw [contains, remove, OrdMap.get?_delete]
  by_cases h : y = x
  · simp [h]
  · simp [h, contains]

lemma contains_perform (s : OrSet) (op : OrSetOp) (x : Text) :
    (s.perform op).contains x = true ↔
      op.adds x = true ∨ op ≠ .remove x ∧ s.contains x = true := by
  cases op with
  | add y t => simp [perform, OrSetOp.adds, eq_comm (a := x)]
  | remove y => simp [perform, OrSetOp.adds, eq_comm (a := x)]

@[simp] lemma contains_merge (s s' : OrSet) (x : Text) :
    (s.merge s').contains x = true ↔ s.contains x = true ∨ s'.contains x = true := by
  rw [contains, merge, OrdMap.get?_foldl (g := fun tags new => tags.getD ∅ ∪ new) fun _ _ _ => rfl]
  cases hs : s.adds.get? x with
  | none => cases hs' : s'.adds.get? x <;> simp [contains, hs, hs']
  | some tags =>
    cases hs' : s'.adds.get? x with
    | none => simp [contains, hs, hs']
    | some tags' =>
      simp only [elim_some, any_some, getD_some, contains, hs, hs',
        decide_eq_true_eq, ne_eq, union_eq_empty]
      tauto

/-! ### Live elements -/

section Run

variable {ι : Type*}

/-- An add of the element is among the operations, and no remove among them had observed it. -/
def Standing (log : List (Entry ι OrSet OrSetOp)) (S : Finset ℕ) (x : Text) (i : ℕ) : Prop :=
  i ∈ S ∧ (∃ e ∈ log[i]?, e.op.adds x = true) ∧
    ∀ j ∈ S, ∀ f ∈ log[j]?, f.op = .remove x → i ∉ f.before.received

/-- Some add of the element is among the operations that no remove among them had observed. -/
def Live (log : List (Entry ι OrSet OrSetOp)) (S : Finset ℕ) (x : Text) : Prop :=
  ∃ i, Standing log S x i

instance decidableLive (log : List (Entry ι OrSet OrSetOp)) (S : Finset ℕ) (x : Text) :
    Decidable (Live log S x) :=
  inferInstanceAs (Decidable (∃ i ∈ S, (∃ e ∈ log[i]?, e.op.adds x = true) ∧
    ∀ j ∈ S, ∀ f ∈ log[j]?, f.op = .remove x → i ∉ f.before.received))

variable {log : List (Entry ι OrSet OrSetOp)} {S S' : Finset ℕ} {x : Text}

lemma live_append (h : Closed log S) (e : Entry ι OrSet OrSetOp) :
    Live (log ++ [e]) S x ↔ Live log S x := by
  have hget : ∀ i ∈ S, (log ++ [e])[i]? = log[i]? := fun i hi =>
    List.getElem?_append_left (h.lt_length hi)
  refine exists_congr fun i => and_congr_right fun hi => and_congr (by rw [hget i hi]) ?_
  exact forall₂_congr fun j hj => by rw [hget j hj]

lemma live_insert (h : Closed log S) {e : Entry ι OrSet OrSetOp} (he : e.before.received = S) :
    Live (log ++ [e]) (insert log.length S) x ↔
      e.op.adds x = true ∨ e.op ≠ .remove x ∧ Live log S x := by
  have hget : ∀ i ∈ S, (log ++ [e])[i]? = log[i]? := fun i hi =>
    List.getElem?_append_left (h.lt_length hi)
  have hnew : (log ++ [e])[log.length]? = some e := by simp
  have hnot : log.length ∉ S := fun hmem => lt_irrefl _ (h.lt_length hmem)
  constructor
  · rintro ⟨i, hi, ⟨d, hd, hadds⟩, hno⟩
    rcases mem_insert.mp hi with rfl | hi
    · rw [hnew] at hd
      exact .inl (mem_some.mp hd ▸ hadds)
    · refine .inr ⟨fun hop => ?_, i, hi, ⟨d, hget i hi ▸ hd, hadds⟩, fun j hj f hf => ?_⟩
      · exact hno log.length (mem_insert_self ..) e hnew hop (he ▸ hi)
      · exact hno j (mem_insert_of_mem hj) f (hget j hj ▸ hf)
  · rintro (hadds | ⟨hop, i, hi, ⟨d, hd, hadds⟩, hno⟩)
    · refine ⟨log.length, mem_insert_self .., ⟨e, hnew, hadds⟩, fun j hj f hf hop hobs => ?_⟩
      rcases mem_insert.mp hj with rfl | hj
      · rw [hnew] at hf
        rw [← mem_some.mp hf, he] at hobs
        exact hnot hobs
      · rw [hget j hj] at hf
        exact hnot (h.observed_subset hj hf hobs)
    · refine ⟨i, mem_insert_of_mem hi, ⟨d, (hget i hi).symm ▸ hd, hadds⟩,
        fun j hj f hf => ?_⟩
      rcases mem_insert.mp hj with rfl | hj
      · rw [hnew] at hf
        exact fun hrem => absurd (mem_some.mp hf ▸ hrem) hop
      · rw [hget j hj] at hf
        exact hno j hj f hf

/-- A copy contains the elements that are live among what has reached it. -/
def Keeps (log : List (Entry ι OrSet OrSetOp)) (c : Copy OrSet) : Prop :=
  ∀ x, c.state.contains x = true ↔ Live log c.received x

/-- A remove of the element that had observed the add has reached `S'` and not `S`. -/
def Unheard (log : List (Entry ι OrSet OrSetOp)) (S S' : Finset ℕ) (x : Text) (i : ℕ) : Prop :=
  ∃ j ∈ S', j ∉ S ∧ ∃ f ∈ log[j]?, f.op = .remove x ∧ i ∈ f.before.received

/-- An add of the element stands on one of two sides, and every add of it that does was observed by
a remove of which only the other side has heard. -/
def Revives (log : List (Entry ι OrSet OrSetOp)) (S S' : Finset ℕ) (x : Text) : Prop :=
  (∃ i, Standing log S x i ∨ Standing log S' x i) ∧
    (∀ i, Standing log S x i → Unheard log S S' x i) ∧
    ∀ i, Standing log S' x i → Unheard log S' S x i

/-- A merge brings no element back. -/
def Heeds (w : Cluster ι OrSet OrSetOp) : ReplicaEvent ι OrSetOp → Prop
  | .update _ _ => True
  | .publish _ => True
  | .deliver r i => ∀ c ∈ w.snapshots[i]?, ∀ x,
      ¬ Revives w.log (w.copies r).received c.received x

/-- At a merge every remove has reached both sides, as far as it had observed an add that stands on
one of them. -/
def Informed (w : Cluster ι OrSet OrSetOp) : ReplicaEvent ι OrSetOp → Prop
  | .update _ _ => True
  | .publish _ => True
  | .deliver r i => ∀ c ∈ w.snapshots[i]?, ∀ x n,
      (Standing w.log (w.copies r).received x n →
        ¬ Unheard w.log (w.copies r).received c.received x n) ∧
      (Standing w.log c.received x n → ¬ Unheard w.log c.received (w.copies r).received x n)

/-- An add that stands on one side stands on both together, unless a remove of which only the other
side has heard had observed it. -/
lemma Standing.union_iff {i : ℕ} (h : Standing log S x i) :
    Standing log (S ∪ S') x i ↔ ¬ Unheard log S S' x i := by
  obtain ⟨hi, hadds, hno⟩ := h
  constructor
  · rintro ⟨-, -, hall⟩ ⟨j, hj, -, f, hf, hop, hobs⟩
    exact hall j (mem_union_right _ hj) f hf hop hobs
  · intro hheard
    refine ⟨mem_union_left _ hi, hadds, fun j hj f hf hop hobs => ?_⟩
    by_cases hj' : j ∈ S
    · exact hno j hj' f hf hop hobs
    · have hother : j ∈ S' := (mem_union.mp hj).resolve_left hj'
      exact hheard ⟨j, hother, hj', f, hf, hop, hobs⟩

/-- An add that stands on both sides together stands on one of them. -/
lemma Standing.of_union {i : ℕ} (h : Standing log (S ∪ S') x i) :
    Standing log S x i ∨ Standing log S' x i := by
  obtain ⟨hi, hadds, hno⟩ := h
  rcases mem_union.mp hi with hi | hi
  · exact .inl ⟨hi, hadds, fun j hj => hno j (mem_union_left _ hj)⟩
  · exact .inr ⟨hi, hadds, fun j hj => hno j (mem_union_right _ hj)⟩

/-- What is live on one of two sides is live on both together, unless they revive it. -/
lemma live_union_iff :
    Live log (S ∪ S') x ↔ (Live log S x ∨ Live log S' x) ∧ ¬ Revives log S S' x := by
  constructor
  · rintro ⟨i, hstands⟩
    refine ⟨hstands.of_union.imp (fun h => ⟨i, h⟩) fun h => ⟨i, h⟩, ?_⟩
    rintro ⟨-, hleft, hright⟩
    rcases hstands.of_union with h | h
    · exact h.union_iff.mp hstands (hleft i h)
    · rw [union_comm] at hstands
      exact h.union_iff.mp hstands (hright i h)
  · rintro ⟨hlive, hno⟩
    by_contra hnot
    refine hno ⟨?_, fun i h => ?_, fun i h => ?_⟩
    · rcases hlive with ⟨i, h⟩ | ⟨i, h⟩
      · exact ⟨i, .inl h⟩
      · exact ⟨i, .inr h⟩
    · by_contra hheard
      exact hnot ⟨i, h.union_iff.mpr hheard⟩
    · by_contra hheard
      have hstands := h.union_iff.mpr hheard
      rw [union_comm] at hstands
      exact hnot ⟨i, hstands⟩

/-- Removes that have reached both sides bring nothing back. -/
lemma Informed.heeds {w : Cluster ι OrSet OrSetOp} {e : ReplicaEvent ι OrSetOp}
    (h : Informed w e) : Heeds w e := by
  rcases e with _ | _ | ⟨r, i⟩
  · trivial
  · trivial
  · rintro c hc x ⟨⟨n, hn | hn⟩, hleft, hright⟩
    · exact (h c hc x n).1 hn (hleft n hn)
    · exact (h c hc x n).2 hn (hright n hn)

lemma keeps_update {c : Copy OrSet} (hclosed : Closed log c.received) (h : Keeps log c) (r : ι)
    (op : OrSetOp) : Keeps (log ++ [⟨r, op, c⟩]) (c.update replicated log.length op) := by
  intro x
  rw [Copy.update, live_insert hclosed rfl, ← h x]
  exact contains_perform c.state op x

lemma keeps_merge_iff {c c' : Copy OrSet} (h : Keeps log c) (h' : Keeps log c') :
    Keeps log (c.merge replicated c') ↔ ∀ x, ¬ Revives log c.received c'.received x := by
  refine forall_congr' fun x => ?_
  have hmerge : (c.merge replicated c').state.contains x = true ↔
      Live log c.received x ∨ Live log c'.received x := by
    rw [← h x, ← h' x]
    exact contains_merge ..
  have hlive : Live log (c.merge replicated c').received x ↔
      (Live log c.received x ∨ Live log c'.received x) ∧
        ¬ Revives log c.received c'.received x := live_union_iff
  rw [hmerge, hlive]
  refine ⟨fun hx hrev => ?_, fun hno => ⟨fun hx => ⟨hx, hno⟩, And.left⟩⟩
  obtain ⟨i, hi | hi⟩ := hrev.1
  · exact (hx.mp (.inl ⟨i, hi⟩)).2 hrev
  · exact (hx.mp (.inr ⟨i, hi⟩)).2 hrev

variable [DecidableEq ι]

/-- All along a run every replica contains the elements with an add that no remove had observed,
iff no merge of the run brings an element back. So it is when at every merge the removes have
reached both sides, as far as they had observed an add that stands there. -/
theorem contains_iff_live_iff_heeds (es : List (ReplicaEvent ι OrSetOp)) :
    ((∀ pre, pre <+: es → ∀ r x, ((replicated.run pre).copies r).state.contains x = true ↔
        Live (replicated.run pre).log ((replicated.run pre).copies r).received x) ↔
      Along replicated.step Heeds replicated.cluster es) ∧
    (Along replicated.step Informed replicated.cluster es →
      Along replicated.step Heeds replicated.cluster es) := by
  refine ⟨?_, fun h => h.mono fun _ _ => Informed.heeds⟩
  refine Replicated.forall_copies_iff_along (K := Keeps) (fun x => ?_) (fun log e c hc h x => ?_)
    (fun w r op hw hK => ?_) (fun _ _ => trivial) fun w r i hw hK => ?_
  · refine iff_of_false Bool.false_ne_true ?_
    rintro ⟨i, hi, -⟩
    exact absurd hi (notMem_empty i)
  · rw [live_append hc]
    exact h x
  · have hr : w.Holds (w.copies r) := .inl ⟨r, rfl⟩
    exact iff_of_true (keeps_update (hw.closed _ hr) (hK _ hr) r op) trivial
  · refine forall₂_congr fun c hc => keeps_merge_iff (hK _ (.inl ⟨r, rfl⟩)) ?_
    exact hK c (Replicated.holds_of_getElem? hc)

/-- A stale replica brings a removed element back: the second replica merges the element of the
first one, which then removes it and merges the second one. -/
def staleRun : List (ReplicaEvent Sample.Site OrSetOp) :=
  [.update .here (.add Sample.alice 1), .publish .here, .deliver .there 0, .publish .there,
    .update .here (.remove Sample.alice), .deliver .here 1]

theorem contains_stale :
    ((replicated.run staleRun).copies .here).state.contains Sample.alice = true ∧
      ¬ Live (replicated.run staleRun).log ((replicated.run staleRun).copies .here).received
        Sample.alice := by
  decide +kernel

end Run

end OrSet

end Cerberus.Crdt
