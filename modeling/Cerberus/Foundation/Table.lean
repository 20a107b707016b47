import Mathlib

/-!
# Keyed tables

A list of rows, looked up by a key of the row. `upsert` replaces the first row with the key of the
new one, or appends it; `drop` removes every row with a key. As long as no two rows share a key
(`Keyed`), a table is known by its lookups: `lookup_upsert`, `lookup_drop` and `Keyed.perm`.
-/

namespace Foundation

open List

namespace Table

variable {α β κ : Type*} [DecidableEq κ] (key : α → κ)

def lookup (k : κ) (l : List α) : Option α := l.find? fun a => key a = k

/-- Replace the first row with the same key, or append the row. -/
def upsert (x : α) : List α → List α
  | [] => [x]
  | y :: l => if key y = key x then x :: l else y :: upsert x l

def drop (k : κ) (l : List α) : List α := l.filter fun a => key a ≠ k

def Keyed (l : List α) : Prop := (l.map key).Nodup

variable {key} {k k' : κ} {x y : α} {l l' : List α}

@[simp] lemma lookup_nil : lookup key k [] = none := rfl

lemma lookup_cons : lookup key k (y :: l) = if key y = k then some y else lookup key k l := by
  rw [lookup, List.find?_cons]
  by_cases h : key y = k
  · simp [h]
  · simp [h, lookup]

@[simp] lemma lookup_upsert :
    lookup key k (upsert key x l) = if key x = k then some x else lookup key k l := by
  induction l with
  | nil => exact lookup_cons
  | cons y l ih =>
    rw [upsert]
    by_cases hy : key y = key x
    · rw [if_pos hy, lookup_cons, lookup_cons, hy]
      split_ifs
      · rfl
      · rfl
    · rw [if_neg hy, lookup_cons, ih, lookup_cons]
      by_cases hk : key x = k
      · rw [if_neg (hk ▸ hy), if_pos hk, if_pos hk]
      · rw [if_neg hk, if_neg hk]

@[simp] lemma lookup_drop :
    lookup key k (drop key k' l) = if k' = k then none else lookup key k l := by
  rw [drop]
  induction l with
  | nil =>
    rw [filter_nil, lookup_nil]
    exact (ite_self none).symm
  | cons y l ih =>
    by_cases hy : key y = k'
    · rw [filter_cons_of_neg (by simpa using hy), ih, lookup_cons, hy]
      split_ifs
      · rfl
      · rfl
    · rw [filter_cons_of_pos (by simpa using hy), lookup_cons, ih, lookup_cons]
      by_cases hk : k' = k
      · rw [if_neg (hk ▸ hy), if_pos hk, if_pos hk]
      · rw [if_neg hk, if_neg hk]

lemma lookup_isSome_iff : (lookup key k l).isSome = true ↔ k ∈ l.map key := by
  rw [lookup, List.find?_isSome, mem_map]
  simp only [decide_eq_true_eq]

lemma key_of_lookup (h : lookup key k l = some x) : key x = k :=
  of_decide_eq_true (List.find?_some (p := fun a => decide (key a = k)) h)

lemma Keyed.mem_iff (h : Keyed key l) : x ∈ l ↔ lookup key (key x) l = some x := by
  constructor
  · intro hx
    induction l with
    | nil => exact absurd hx not_mem_nil
    | cons y l ih =>
      rw [Keyed, map_cons, nodup_cons] at h
      rw [lookup_cons]
      rcases mem_cons.mp hx with rfl | hx
      · rw [if_pos rfl]
      · have hy : key y ≠ key x := fun hy => h.1 (hy ▸ mem_map_of_mem hx)
        rw [if_neg hy]
        exact ih h.2 hx
  · exact mem_of_find?_eq_some

lemma mem_map_upsert : k ∈ (upsert key x l).map key ↔ key x = k ∨ k ∈ l.map key := by
  rw [← lookup_isSome_iff, ← lookup_isSome_iff, lookup_upsert]
  split_ifs with hk
  · simp [hk]
  · simp [hk]

lemma Keyed.upsert (h : Keyed key l) : Keyed key (upsert key x l) := by
  rw [Keyed] at h ⊢
  induction l with
  | nil => exact nodup_singleton _
  | cons y l ih =>
    rw [map_cons, nodup_cons] at h
    rw [Table.upsert]
    split_ifs with hy
    · rw [map_cons, nodup_cons, ← hy]
      exact h
    · rw [map_cons, nodup_cons, mem_map_upsert]
      exact ⟨not_or.mpr ⟨Ne.symm hy, h.1⟩, ih h.2⟩

lemma Keyed.drop (h : Keyed key l) : Keyed key (drop key k l) :=
  h.sublist (List.Sublist.map key filter_sublist)

omit [DecidableEq κ] in
lemma Keyed.of_perm (h : Keyed key l) (hp : l'.Perm l) : Keyed key l' :=
  (hp.map key).nodup_iff.mpr h

omit [DecidableEq κ] in
lemma Keyed.filterMap (h : Keyed key l) {f : α → Option β} {key' : β → κ}
    (hf : ∀ a b, f a = some b → key' b = key a) : Keyed key' (l.filterMap f) := by
  have hsub : ((l.filterMap f).map key').Sublist (l.map key) := by
    induction l with
    | nil => exact .slnil
    | cons a l ih =>
      have hl : Keyed key l := (nodup_cons.mp h).2
      cases hfa : f a with
      | none =>
        rw [filterMap_cons_none hfa]
        exact (ih hl).cons _
      | some b =>
        rw [filterMap_cons_some hfa, map_cons, map_cons, hf a b hfa]
        exact (ih hl).cons_cons _
  exact h.sublist hsub

/-- Tables in which the same is found for every key are the same up to the order of the rows. What
is read off a row has to tell its key. -/
theorem Keyed.perm (h : Keyed key l) (h' : Keyed key l') {f : α → β} {g : β → κ}
    (hg : ∀ a, g (f a) = key a) (hf : ∀ k, (lookup key k l).map f = (lookup key k l').map f) :
    (l.map f).Perm (l'.map f) := by
  have hmem : ∀ {m : List α}, Keyed key m →
      (m.map f).Nodup ∧ ∀ b, b ∈ m.map f ↔ (lookup key (g b) m).map f = some b := by
    intro m hm
    have hkeys : m.map key = (m.map f).map g := by
      rw [map_map]
      exact map_congr_left fun a _ => (hg a).symm
    refine ⟨List.Nodup.of_map g (hkeys ▸ hm), fun b => ?_⟩
    rw [mem_map, Option.map_eq_some_iff]
    constructor
    · rintro ⟨a, ha, rfl⟩
      exact ⟨a, hg a ▸ hm.mem_iff.mp ha, rfl⟩
    · rintro ⟨a, ha, rfl⟩
      exact ⟨a, mem_of_find?_eq_some ha, rfl⟩
  refine (perm_ext_iff_of_nodup (hmem h).1 (hmem h').1).mpr fun b => ?_
  rw [(hmem h).2, (hmem h').2, hf]

end Table

end Foundation
