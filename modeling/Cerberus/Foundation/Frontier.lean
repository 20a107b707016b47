import Mathlib

/-!
# Frontiers of a strict order

A register that keeps only the writes nothing known follows holds the frontier of the writes it has
seen. `Frontier.absorb` takes in one write: a write that is known already, or that a kept one
follows, changes nothing; otherwise it is kept and the writes before it are dropped.

`IsFrontier` says that a list is the frontier of a set. It is kept by `absorb` as long as the order
is transitive on the writes seen (`IsFrontier.absorb`), so the list depends only on which writes
were seen (`IsFrontier.perm`).
-/

namespace Foundation

open List

namespace Frontier

variable {D : Type*} [DecidableEq D] (before : D → D → Bool)

def absorb (dots : List D) (d : D) : List D :=
  if ∃ e ∈ dots, before d e = true ∨ d = e then dots
  else dots.filter (fun e => !before e d) ++ [d]

omit [DecidableEq D] in
lemma mem_iff_of_perm {dots dots' : List D} {p : D → Prop} [DecidablePred p] {d e : D}
    (h : dots'.Perm (dots.filter (fun e => p e) ++ [d])) :
    e ∈ dots' ↔ (e ∈ dots ∧ p e) ∨ e = d := by
  rw [h.mem_iff, mem_append, mem_filter, mem_singleton, decide_eq_true_eq]

end Frontier

/-- The list holds, once each, the members of the set that no member follows. -/
structure IsFrontier {D : Type*} (before : D → D → Bool) (S : Set D) (dots : List D) : Prop where
  nodup : dots.Nodup
  subset : ∀ d ∈ dots, d ∈ S
  antichain : ∀ d ∈ dots, ∀ e ∈ dots, before d e = false
  /-- Everything seen is kept, or before something that is. -/
  covers : ∀ d ∈ S, d ∈ dots ∨ ∃ e ∈ dots, before d e = true

structure StrictOn {D : Type*} (before : D → D → Bool) (S : Set D) : Prop where
  irrefl : ∀ d ∈ S, before d d = false
  trans : ∀ d ∈ S, ∀ e ∈ S, ∀ f ∈ S, before d e = true → before e f = true → before d f = true

lemma StrictOn.mono {D : Type*} {before : D → D → Bool} {S T : Set D} (h : StrictOn before T)
    (hST : S ⊆ T) : StrictOn before S where
  irrefl d hd := h.irrefl d (hST hd)
  trans d hd e he f hf := h.trans d (hST hd) e (hST he) f (hST hf)

namespace IsFrontier

variable {D : Type*} {before : D → D → Bool} {S T : Set D} {dots dots' : List D} {d : D}

lemma empty : IsFrontier before ∅ [] where
  nodup := nodup_nil
  subset _ hd := absurd hd not_mem_nil
  antichain _ hd := absurd hd not_mem_nil
  covers d hd := absurd hd (Set.notMem_empty d)

section

variable (h : IsFrontier before S dots)
include h

/-- What is kept is what was seen and nothing seen follows. -/
theorem mem_iff (hS : StrictOn before S) : d ∈ dots ↔ d ∈ S ∧ ∀ e ∈ S, before d e = false := by
  constructor
  · intro hd
    refine ⟨h.subset d hd, fun e he => Bool.eq_false_of_not_eq_true fun hde => ?_⟩
    rcases h.covers e he with hmem | ⟨f, hf, hef⟩
    · exact absurd hde (by rw [h.antichain d hd e hmem]; decide)
    · have hdf := hS.trans d (h.subset d hd) e he f (h.subset f hf) hde hef
      exact absurd hdf (by rw [h.antichain d hd f hf]; decide)
  · rintro ⟨hd, hmax⟩
    rcases h.covers d hd with hmem | ⟨e, he, hde⟩
    · exact hmem
    · exact absurd hde (by rw [hmax e (h.subset e he)]; decide)

/-- Frontiers of the same set are the same up to their order. -/
theorem perm (h' : IsFrontier before S dots') (hS : StrictOn before S) : dots.Perm dots' := by
  refine (perm_ext_iff_of_nodup h.nodup h'.nodup).mpr fun d => ?_
  rw [h.mem_iff hS, h'.mem_iff hS]

lemma of_perm (hp : dots'.Perm dots) : IsFrontier before S dots' where
  nodup := hp.nodup_iff.mpr h.nodup
  subset d hd := h.subset d (hp.mem_iff.mp hd)
  antichain d hd e he := h.antichain d (hp.mem_iff.mp hd) e (hp.mem_iff.mp he)
  covers d hd := by
    rcases h.covers d hd with hmem | ⟨e, he, hde⟩
    · exact .inl (hp.mem_iff.mpr hmem)
    · exact .inr ⟨e, hp.mem_iff.mpr he, hde⟩

lemma insert_of_known
    (hd : ∃ e ∈ dots, before d e = true ∨ d = e) : IsFrontier before (insert d S) dots where
  nodup := h.nodup
  subset e he := .inr (h.subset e he)
  antichain := h.antichain
  covers e he := by
    rcases he with rfl | he
    · obtain ⟨f, hf, hbefore | rfl⟩ := hd
      · exact .inr ⟨f, hf, hbefore⟩
      · exact .inl hf
    · exact h.covers e he

lemma insert_of_new (hS : StrictOn before (insert d S))
    (hd : ¬ ∃ e ∈ dots, before d e = true ∨ d = e) :
    IsFrontier before (insert d S) (dots.filter (fun e => !before e d) ++ [d]) := by
  push Not at hd
  have hmem : ∀ e, e ∈ dots.filter (fun e => !before e d) ++ [d] ↔
      (e ∈ dots ∧ before e d = false) ∨ e = d := by
    intro e
    simp
  refine ⟨?_, fun e he => ?_, fun e he f hf => ?_, fun e he => ?_⟩
  · refine List.Nodup.append (h.nodup.filter _) (nodup_singleton d) ?_
    intro e he hed
    rw [mem_singleton] at hed
    exact (hd e (mem_of_mem_filter he)).2 hed.symm
  · rcases (hmem e).mp he with ⟨he, -⟩ | rfl
    · exact .inr (h.subset e he)
    · exact .inl rfl
  · rcases (hmem e).mp he with ⟨he, hed⟩ | rfl
    · rcases (hmem f).mp hf with ⟨hf, -⟩ | rfl
      · exact h.antichain e he f hf
      · exact hed
    · rcases (hmem f).mp hf with ⟨hf, -⟩ | rfl
      · exact Bool.eq_false_of_not_eq_true (hd f hf).1
      · exact hS.irrefl _ (.inl rfl)
  · -- what is dropped, and what was before it, is before the new write
    have hkept : ∀ f ∈ dots, f ∈ dots.filter (fun e => !before e d) ++ [d] ∨
        before f d = true := by
      intro f hf
      by_cases hfd : before f d = true
      · exact .inr hfd
      · exact .inl ((hmem f).mpr (.inl ⟨hf, Bool.eq_false_of_not_eq_true hfd⟩))
    have hnew : d ∈ dots.filter (fun e => !before e d) ++ [d] := (hmem d).mpr (.inr rfl)
    rcases he with rfl | he
    · exact .inl hnew
    · rcases h.covers e he with hmem' | ⟨f, hf, hef⟩
      · exact (hkept e hmem').imp_right fun hed => ⟨d, hnew, hed⟩
      · refine .inr ?_
        rcases hkept f hf with hf' | hfd
        · exact ⟨f, hf', hef⟩
        · exact ⟨d, hnew, hS.trans e (.inr he) f (.inr (h.subset f hf)) d (.inl rfl) hef hfd⟩

/-- Taking a write in keeps the register a frontier. -/
theorem absorb [DecidableEq D] (hS : StrictOn before (insert d S)) :
    IsFrontier before (insert d S) (Frontier.absorb before dots d) := by
  rw [Frontier.absorb]
  split_ifs with hd
  · exact h.insert_of_known hd
  · exact h.insert_of_new hS hd

end

lemma union_of_frontier (h : IsFrontier before (S ∪ {d | d ∈ dots'}) dots)
    (h' : IsFrontier before T dots') (hST : StrictOn before (S ∪ T)) :
    IsFrontier before (S ∪ T) dots where
  nodup := h.nodup
  subset d hd := (h.subset d hd).imp id (h'.subset d)
  antichain := h.antichain
  covers d hd := by
    have hseen : ∀ e, e ∈ S ∪ {d | d ∈ dots'} → e ∈ S ∪ T := fun e he => he.imp id (h'.subset e)
    rcases hd with hd | hd
    · exact h.covers d (.inl hd)
    · rcases h'.covers d hd with hmem | ⟨e, he, hde⟩
      · exact h.covers d (.inr hmem)
      · rcases h.covers e (.inr he) with hmem | ⟨f, hf, hef⟩
        · exact .inr ⟨e, hmem, hde⟩
        · refine .inr ⟨f, hf, hST.trans d (.inr hd) e (.inr (h'.subset e he)) f ?_ hde hef⟩
          exact hseen f (h.subset f hf)

section Register

variable [DecidableEq D] {R : Type*} (contents : R → List D) {take : R → D → R}

lemma foldl_absorb
    (htake : ∀ r d, (contents (take r d)).Perm (Frontier.absorb before (contents r) d))
    {l : List D} {r : R} (h : IsFrontier before S (contents r))
    (hS : StrictOn before (S ∪ {d | d ∈ l})) :
    IsFrontier before (S ∪ {d | d ∈ l}) (contents (l.foldl take r)) := by
  induction l generalizing r S with
  | nil => simpa using h
  | cons d l ih =>
    have hset : S ∪ {e | e ∈ d :: l} = insert d S ∪ {e | e ∈ l} := by
      ext e
      simp [or_left_comm, or_assoc]
    rw [hset] at hS ⊢
    refine ih ?_ hS
    exact (h.absorb (hS.mono Set.subset_union_left)).of_perm (htake r d)

/-- Merging a register into another one gives the frontier of what both have seen. -/
theorem merge (htake : ∀ r d, (contents (take r d)).Perm (Frontier.absorb before (contents r) d))
    {r : R} (h : IsFrontier before S (contents r)) (h' : IsFrontier before T dots')
    (hST : StrictOn before (S ∪ T)) :
    IsFrontier before (S ∪ T) (contents (dots'.foldl take r)) :=
  have hsub := hST.mono (Set.union_subset_union_right S h'.subset)
  (h.foldl_absorb contents htake hsub).union_of_frontier h' hST

end Register

end IsFrontier

end Foundation
