import Cerberus.Foundation.Clock
import Cerberus.Foundation.Replication

/-!
# Vector clocks and causality

Documents on many replicas that carry a vector clock and stamp each operation with a clock. When an
operation counts the same number `n` of events of its author, and a merge takes the larger counters,
the clock of a document counts what has reached it, and the clock stamped on an operation counts the
operation together with what it had observed (`Counts`).

If every author works at one site, the order of the stamps is the order in which operations had
observed each other (`precedes_stamp_iff`).
-/

namespace Foundation

open Finset

variable {ι σ Op α : Type*} [LinearOrder α] (author : Op → α) (n : ℕ)
  (stamp : Entry ι σ Op → Clock α)

/-- The stamp of an operation counts the operation and everything that it had observed. -/
structure Stamped (log : List (Entry ι σ Op)) (i : ℕ) (e : Entry ι σ Op) : Prop where
  count : ∀ a, (stamp e).count a = tally author (fun _ => n) log a (insert i e.before.received)
  positive : (stamp e).Positive

structure Counts (clock : σ → Clock α) (log : List (Entry ι σ Op)) (c : Copy σ) : Prop where
  count : ∀ a, (clock c.state).count a = tally author (fun _ => n) log a c.received
  positive : (clock c.state).Positive
  stamped : ∀ i ∈ c.received, ∀ e ∈ log[i]?, Stamped author n stamp log i e

variable {author n stamp} {clock : σ → Clock α} {log : List (Entry ι σ Op)} {c c' d : Copy σ}

namespace Counts

lemma init {s : σ} (h : clock s = .empty) : Counts author n stamp clock [] ⟨s, ∅⟩ where
  count a := by
    rw [h]
    rfl
  positive := by
    rw [h]
    exact Clock.positive_empty
  stamped i hi := absurd hi (notMem_empty i)

section

variable (hclosed : Closed log c.received) (h : Counts author n stamp clock log c)
include hclosed h

lemma stamp_le {i : ℕ} (hi : i ∈ c.received) {e : Entry ι σ Op} (he : log[i]? = some e) (a : α) :
    (stamp e).count a ≤ (clock c.state).count a := by
  rw [(h.stamped i hi e he).count, h.count]
  exact tally_mono (insert_subset hi (hclosed.observed_subset hi he))

lemma append (e : Entry ι σ Op) : Counts author n stamp clock (log ++ [e]) c where
  count a := by
    rw [tally_append fun _ => hclosed.lt_length]
    exact h.count a
  positive := h.positive
  stamped i hi e' he' := by
    rw [List.getElem?_append_left (hclosed.lt_length hi)] at he'
    refine ⟨fun a => ?_, (h.stamped i hi e' he').positive⟩
    rw [tally_append fun j hj => hclosed.lt_length
      (insert_subset hi (hclosed.observed_subset hi he') hj)]
    exact (h.stamped i hi e' he').count a

lemma update {e : Entry ι σ Op} (he : e.before = c) [∀ a, Decidable (a = author e.op)]
    (hstamp : ∀ a, (stamp e).count a = (clock c.state).count a + if a = author e.op then n else 0)
    (hpos : (stamp e).Positive) (hreceived : d.received = insert log.length c.received)
    (hclock : ∀ a, (clock d.state).count a = (stamp e).count a)
    (hpos' : (clock d.state).Positive) : Counts author n stamp clock (log ++ [e]) d := by
  have hcount : ∀ a, (stamp e).count a =
      tally author (fun _ => n) (log ++ [e]) a (insert log.length c.received) := fun a => by
    rw [hstamp, tally_insert hclosed, h.count]
    congr
  refine ⟨fun a => ?_, hpos', fun i hi e' he' => ?_⟩
  · rw [hclock, hcount, hreceived]
  · rw [hreceived] at hi
    rcases mem_insert.mp hi with rfl | hi
    · have hnew : (log ++ [e])[log.length]? = some e := by simp
      rw [hnew] at he'
      cases Option.mem_some.mp he'
      exact ⟨by rwa [he], hpos⟩
    · exact (h.append hclosed e).stamped i hi e' he'

end

lemma merge {w : Cluster ι σ Op} {home : α → ι} (hw : Causal w)
    (hhome : ∀ e ∈ w.log, e.site = home (author e.op)) (hc : w.Holds c) (hc' : w.Holds c')
    (h : Counts author n stamp clock w.log c) (h' : Counts author n stamp clock w.log c')
    (hreceived : d.received = c.received ∪ c'.received)
    (hclock : ∀ a, (clock d.state).count a =
      max ((clock c.state).count a) ((clock c'.state).count a))
    (hpos : (clock d.state).Positive) : Counts author n stamp clock w.log d where
  count a := by
    rw [hclock, hreceived, hw.tally_union hhome (hw.closed c hc) (hw.closed c' hc'), h.count,
      h'.count]
  positive := hpos
  stamped i hi := by
    rw [hreceived] at hi
    rcases mem_union.mp hi with hi | hi
    · exact h.stamped i hi
    · exact h'.stamped i hi

end Counts

/-! ### The order of stamps and the order of observation -/

section Order

variable {w : Cluster ι σ Op} {home : α → ι} {i j : ℕ} {e f : Entry ι σ Op}

lemma stamp_count_le_iff (hw : Causal w) (hhome : ∀ e ∈ w.log, e.site = home (author e.op))
    (hn : 0 < n) (he : w.log[i]? = some e) (hf : w.log[j]? = some f)
    (hse : Stamped author n stamp w.log i e) (hsf : Stamped author n stamp w.log j f) :
    (∀ a, (stamp e).count a ≤ (stamp f).count a) ↔
      insert i e.before.received ⊆ insert j f.before.received := by
  have hpos : ∀ op : Op, 0 < (fun _ => n : Op → ℕ) op := fun _ => hn
  have hclosed : ∀ {i : ℕ} {e : Entry ι σ Op}, w.log[i]? = some e →
      Closed w.log (insert i e.before.received) := fun {i e} he =>
    (hw.closed _ (.inr (.inr ⟨e, List.mem_of_getElem? he, rfl⟩))).insert he
  rw [← hw.tally_le_iff_subset hhome hpos (hclosed he) (hclosed hf)]
  exact forall_congr' fun a => by rw [hse.count, hsf.count]

lemma eq_or_mem_of_insert_subset {S T : Finset ℕ} (h : insert i S ⊆ insert j T) :
    i = j ∨ i ∈ T := mem_insert.mp (h (mem_insert_self ..))

section

variable (hw : Causal w) (hhome : ∀ e ∈ w.log, e.site = home (author e.op)) (hn : 0 < n)
  (he : w.log[i]? = some e) (hf : w.log[j]? = some f) (hse : Stamped author n stamp w.log i e)
  (hsf : Stamped author n stamp w.log j f)
include hw hhome hn he hf hse hsf

/-- The stamp of an operation precedes that of another one iff the other one had observed
it. -/
theorem precedes_stamp_iff : (stamp e).Precedes (stamp f) ↔ i ∈ f.before.received := by
  rw [Clock.Precedes, stamp_count_le_iff hw hhome hn he hf hse hsf,
    stamp_count_le_iff hw hhome hn hf he hsf hse]
  constructor
  · rintro ⟨hsub, hnot⟩
    rcases eq_or_mem_of_insert_subset hsub with rfl | hmem
    · rw [he] at hf
      cases hf
      exact absurd hsub hnot
    · exact hmem
  · intro hmem
    have hclosed := hw.closed _ (.inr (.inr ⟨f, List.mem_of_getElem? hf, rfl⟩))
    have hij := hw.earlier j f hf i hmem
    refine ⟨(insert_subset hmem (hclosed.observed_subset hmem he)).trans
      (subset_insert _ _), fun hsub => ?_⟩
    -- otherwise the two had observed each other
    rcases eq_or_mem_of_insert_subset hsub with rfl | hmem'
    · exact lt_irrefl _ hij
    · exact lt_asymm hij (hw.earlier i e he j hmem')

lemma eq_of_stamp_eq (h : stamp e = stamp f) : i = j := by
  have hsub := (stamp_count_le_iff hw hhome hn he hf hse hsf).mp fun a => by rw [h]
  have hsub' := (stamp_count_le_iff hw hhome hn hf he hsf hse).mp fun a => by rw [h]
  rcases eq_or_mem_of_insert_subset hsub with hij | hij
  · exact hij
  · rcases eq_or_mem_of_insert_subset hsub' with hji | hji
    · exact hji.symm
    · exact absurd (hw.earlier j f hf i hij) (lt_asymm (hw.earlier i e he j hji))

end

omit [LinearOrder α] in
lemma observed_of_author_eq (hw : Causal w) (hhome : ∀ e ∈ w.log, e.site = home (author e.op))
    (he : w.log[i]? = some e) (hf : w.log[j]? = some f) (hauthor : author e.op = author f.op) :
    i = j ∨ i ∈ f.before.received ∨ j ∈ e.before.received := by
  have hsite : e.site = f.site := by
    rw [hhome e (List.mem_of_getElem? he), hhome f (List.mem_of_getElem? hf), hauthor]
  rcases Nat.lt_trichotomy i j with hij | hij | hij
  · exact .inr (.inl (hw.ordered i e j f he hf hsite hij))
  · exact .inl hij
  · exact .inr (.inr (hw.ordered j f i e hf he hsite.symm hij))

end Order

end Foundation
