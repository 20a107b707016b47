import Mathlib

/-!
# Sorting by a key

`sort.Slice` of Go, with a `less` that compares keys. Elements with equal keys may come out in any
order, so the sort is not a function of the keys alone; what is relied on is that the result is a
sorted permutation, and that a slice that is sorted already is left as it is.

With a `less` that need not be an order, a sort permutes; the slices on which `less` is a strict
weak order come out sorted (`LessSort`).

Sorting makes the same values neighbours if the keys keep them together
(`SortedBy.nodup_destutter_iff`).
-/

namespace Foundation

open List hiding pairwise_insertionSort pairwise_map

variable {α β : Type*} [LinearOrder β]

def SortedBy (key : α → β) (l : List α) : Prop := l.Pairwise fun a b => key a ≤ key b

variable {key : α → β} {l l' : List α}

/-- Lists with the same elements, sorted by keys that tell the elements apart, are equal. -/
theorem SortedBy.eq_of_perm (h : SortedBy key l) (h' : SortedBy key l') (hp : l.Perm l')
    (hkey : ∀ a ∈ l, ∀ b ∈ l, key a = key b → a = b) : l = l' := by
  refine hp.eq_of_pairwise (fun a b ha hb hab hba => ?_) h h'
  exact hkey a ha b (hp.mem_iff.mpr hb) (le_antisymm hab hba)

structure KeySort (key : α → β) where
  sort : List α → List α
  perm : ∀ l, (sort l).Perm l
  sorted : ∀ l, SortedBy key (sort l)
  fixed : ∀ l, SortedBy key l → sort l = l

namespace KeySort

variable {key : α → β} (S : KeySort key)

@[simp] lemma sort_sort (l : List α) : S.sort (S.sort l) = S.sort l := S.fixed _ (S.sorted l)

lemma length_sort (l : List α) : (S.sort l).length = l.length := (S.perm l).length_eq

lemma mem_sort {a : α} {l : List α} : a ∈ S.sort l ↔ a ∈ l := (S.perm l).mem_iff

variable (key) in
def insertion : KeySort key where
  sort := List.insertionSort fun a b => key a ≤ key b
  perm := perm_insertionSort _
  sorted l :=
    have : Std.Total fun a b => key a ≤ key b := ⟨fun a b => le_total (key a) (key b)⟩
    have : IsTrans α fun a b => key a ≤ key b := ⟨fun _ _ _ => le_trans⟩
    List.pairwise_insertionSort _ l
  fixed _ h := h.insertionSort_eq

end KeySort

/-! ### What is written from a sorted list

A sort does not say in which order elements with the same key come out. What is written from the
sorted list does not depend on it if what is written for two such elements is the same in both
orders, and then it does not depend on the order of the list that was sorted at all. -/

variable {γ : Type*} {key : α → β} {f : α → List γ}

lemma flatMap_append_comm {u : List α} {w : List γ} (h : ∀ b ∈ u, f b ++ w = w ++ f b) :
    u.flatMap f ++ w = w ++ u.flatMap f := by
  induction u with
  | nil => simp
  | cons b u ih =>
    rw [flatMap_cons, append_assoc, ih fun b' hb' => h b' (mem_cons_of_mem _ hb'),
      ← append_assoc, h b mem_cons_self, append_assoc]

/-- Sorted lists with the same elements give the same text, if elements with the same key can be
written in both orders. -/
theorem SortedBy.flatMap_eq_of_perm (h : SortedBy key l) (h' : SortedBy key l') (hp : l.Perm l')
    (hcomm : ∀ a ∈ l, ∀ b ∈ l, key a = key b → f a ++ f b = f b ++ f a) :
    l.flatMap f = l'.flatMap f := by
  induction l generalizing l' with
  | nil => rw [hp.nil_eq]
  | cons a l ih =>
    obtain ⟨u, v, rfl⟩ := append_of_mem (hp.mem_iff.mp mem_cons_self)
    have hrest : l.Perm (u ++ v) := List.Perm.cons_inv (hp.trans perm_middle)
    have hsorted : SortedBy key (u ++ v) :=
      h'.sublist (List.Sublist.append_left (sublist_cons_self a v) u)
    -- what stands before `a` in the other list has the same key, so `a` can be written first
    have hfirst : u.flatMap f ++ f a = f a ++ u.flatMap f := by
      refine flatMap_append_comm fun b hb => ?_
      have hmem : b ∈ a :: l := hp.mem_iff.mpr (mem_append_left _ hb)
      have hle : key b ≤ key a := (pairwise_append.mp h').2.2 b hb a mem_cons_self
      have hge : key a ≤ key b := by
        rcases mem_cons.mp hmem with rfl | hbl
        · exact le_rfl
        · exact (pairwise_cons.mp h).1 b hbl
      exact hcomm b hmem a mem_cons_self (le_antisymm hle hge)
    calc (a :: l).flatMap f
        = f a ++ (u ++ v).flatMap f := by
          rw [flatMap_cons, ih (pairwise_cons.mp h).2 hsorted hrest
            fun b hb c hc => hcomm b (mem_cons_of_mem _ hb) c (mem_cons_of_mem _ hc)]
      _ = (u.flatMap f ++ f a) ++ v.flatMap f := by
          rw [flatMap_append, hfirst, append_assoc]
      _ = (u ++ a :: v).flatMap f := by
          rw [flatMap_append, flatMap_cons, append_assoc]

lemma SortedBy.exists_place (h : SortedBy key l) (k : β) :
    ∃ lo hi, (lo ++ hi).Perm l ∧
      ∀ as, (∀ a ∈ as, key a = k) → SortedBy key (lo ++ as ++ hi) := by
  refine ⟨l.filter (key · < k), l.filter (fun a => !decide (key a < k)), ?_, fun as has => ?_⟩
  · exact filter_append_perm (fun a => decide (key a < k)) l
  · have hlo : ∀ a ∈ l.filter (key · < k), key a < k := fun a ha =>
      of_decide_eq_true (mem_filter.mp ha).2
    have hhi : ∀ a ∈ l.filter (fun a => !decide (key a < k)), k ≤ key a := by
      intro a ha
      simpa using (mem_filter.mp ha).2
    have has' : SortedBy key as :=
      pairwise_of_forall_mem_list fun a ha b hb => le_of_eq ((has a ha).trans (has b hb).symm)
    refine pairwise_append.mpr ⟨pairwise_append.mpr ⟨h.filter _, has', ?_⟩, h.filter _, ?_⟩
    · intro a ha b hb
      rw [has b hb]
      exact (hlo a ha).le
    · intro a ha b hb
      refine le_trans ?_ (hhi b hb)
      rcases mem_append.mp ha with ha | ha
      · exact (hlo a ha).le
      · exact (has a ha).le

/-- What is written from the sorted list does not depend on the order of the list iff
elements with the same key can be written in both orders. -/
theorem KeySort.flatMap_sort_eq_iff (S : KeySort key) (f : α → List γ) (l : List α) :
    (∀ l', l'.Perm l → (S.sort l').flatMap f = (S.sort l).flatMap f) ↔
      ∀ a ∈ l, ∀ b ∈ l, key a = key b → f a ++ f b = f b ++ f a := by
  classical
  constructor
  · intro h a ha b hb hkey
    by_cases hab : a = b
    · rw [hab]
    -- both orders of the two elements, at their place in the rest of the list
    have hb' : b ∈ l.erase a := (mem_erase_of_ne (Ne.symm hab)).mpr hb
    obtain ⟨lo, hi, hrest, hplace⟩ :=
      (S.sorted ((l.erase a).erase b)).exists_place (key a)
    have hl : l.Perm (a :: b :: (lo ++ hi)) :=
      (perm_cons_erase ha).trans (((perm_cons_erase hb').trans
        (((S.perm _).symm.trans hrest.symm).cons b)).cons a)
    have hwritten : ∀ as : List α, as.Perm [a, b] → (lo ++ as ++ hi).flatMap f =
        (S.sort l).flatMap f := by
      intro as has
      have hkeys : ∀ c ∈ as, key c = key a := by
        intro c hc
        rcases mem_pair.mp (has.mem_iff.mp hc) with rfl | rfl
        · rfl
        · exact hkey.symm
      have hperm : (lo ++ as ++ hi).Perm l := by
        refine List.Perm.trans ?_ hl.symm
        rw [append_assoc]
        refine (perm_append_comm_assoc lo as hi).trans ?_
        exact has.append_right (lo ++ hi)
      rw [← h _ hperm, S.fixed _ (hplace as hkeys)]
    have heq := (hwritten [a, b] (.refl _)).trans (hwritten [b, a] (.swap a b [])).symm
    simp only [flatMap_append, flatMap_cons, flatMap_nil, append_nil] at heq
    exact append_cancel_left (append_cancel_right heq)
  · intro h l' hp
    refine (S.sorted l').flatMap_eq_of_perm (S.sorted l)
      ((S.perm l').trans (hp.trans (S.perm l).symm)) fun a ha b hb => ?_
    exact h a (hp.mem_iff.mp (S.mem_sort.mp ha)) b (hp.mem_iff.mp (S.mem_sort.mp hb))

/-! ### Sorting by a comparison -/

/-- The comparison orders the elements of the list: no two of them are less than each other, and not
being greater is transitive. -/
structure StrictWeakOn {α : Type*} (less : α → α → Prop) (l : List α) : Prop where
  asymm : ∀ a ∈ l, ∀ b ∈ l, less a b → ¬ less b a
  trans : ∀ a ∈ l, ∀ b ∈ l, ∀ c ∈ l, ¬ less b a → ¬ less c b → ¬ less c a

/-- A sort by a comparison that need not be an order. -/
structure LessSort {α : Type*} (less : α → α → Prop) where
  sort : List α → List α
  perm : ∀ l, (sort l).Perm l
  sorted : ∀ l, StrictWeakOn less l → (sort l).Pairwise fun a b => ¬ less b a

namespace LessSort

variable {α : Type*} {less : α → α → Prop}

lemma mem_sort (S : LessSort less) {a : α} {l : List α} : a ∈ S.sort l ↔ a ∈ l :=
  (S.perm l).mem_iff

lemma pairwise_insertionSort [DecidableRel less] {l : List α} (h : StrictWeakOn less l) :
    (l.insertionSort fun a b => ¬ less b a).Pairwise fun a b => ¬ less b a := by
  -- on the elements of the list the comparison is total and transitive
  let r : { a // a ∈ l } → { a // a ∈ l } → Prop := fun a b => ¬ less b.1 a.1
  have : DecidableRel r := fun a b => inferInstanceAs (Decidable (¬ less b.1 a.1))
  have : Std.Total r := ⟨fun a b => by
    by_contra hno
    rw [not_or, not_not, not_not] at hno
    exact h.asymm b.1 b.2 a.1 a.2 hno.1 hno.2⟩
  have : IsTrans _ r := ⟨fun a b c => h.trans a.1 a.2 b.1 b.2 c.1 c.2⟩
  have hmap : (l.attach.insertionSort r).map Subtype.val =
      l.insertionSort fun a b => ¬ less b a := by
    rw [map_insertionSort r (fun a b => ¬ less b a) Subtype.val l.attach
      fun _ _ _ _ => Iff.rfl, attach_map_subtype_val]
  rw [← hmap, List.pairwise_map]
  exact List.pairwise_insertionSort r l.attach

variable (less) in
def insertion [DecidableRel less] : LessSort less where
  sort := List.insertionSort fun a b => ¬ less b a
  perm := perm_insertionSort _
  sorted _ h := pairwise_insertionSort h

end LessSort

/-! ### Choosing -/

lemma foldl_choose {choose : α → α → α}
    (hchoose : ∀ a b, choose a b = a ∧ key b ≤ key a ∨ choose a b = b ∧ key a ≤ key b)
    (l : List α) (a : α) :
    l.foldl choose a ∈ a :: l ∧ ∀ x ∈ a :: l, key x ≤ key (l.foldl choose a) := by
  induction l generalizing a with
  | nil => simp
  | cons b l ih =>
    obtain ⟨hmem, hmax⟩ := ih (choose a b)
    have hbest := hmax _ mem_cons_self
    rw [foldl_cons]
    constructor
    · rcases mem_cons.mp hmem with h | h
      · rw [h]
        rcases hchoose a b with ⟨hab, -⟩ | ⟨hab, -⟩
        · rw [hab]
          exact mem_cons_self
        · rw [hab]
          exact mem_cons_of_mem _ mem_cons_self
      · exact mem_cons_of_mem _ (mem_cons_of_mem _ h)
    · have hle : key a ≤ key (choose a b) ∧ key b ≤ key (choose a b) := by
        rcases hchoose a b with ⟨hab, hba⟩ | ⟨hab, hba⟩
        · rw [hab]
          exact ⟨le_rfl, hba⟩
        · rw [hab]
          exact ⟨hba, le_rfl⟩
      intro x hx
      rcases mem_cons.mp hx with rfl | hx
      · exact hle.1.trans hbest
      · rcases mem_cons.mp hx with rfl | hx
        · exact hle.2.trans hbest
        · exact hmax x (mem_cons_of_mem _ hx)

/-! ### Neighbours counted once

Of neighbours with the same value one is kept (`List.destutter`). A value that comes back after
another one is kept twice. -/

section Neighbours

variable [DecidableEq γ] {v w : γ} {l : List γ}

lemma mem_destutter'_ne : v ∈ l.destutter' (· ≠ ·) w ↔ v ∈ w :: l := by
  induction l generalizing w with
  | nil => simp
  | cons u l ih =>
    by_cases h : w = u
    · rw [List.destutter'_cons_neg _ (not_not.mpr h), ih, h]
      simp
    · rw [List.destutter'_cons_pos _ h, mem_cons, ih, ← mem_cons]

lemma mem_destutter_ne : v ∈ l.destutter (· ≠ ·) ↔ v ∈ l := by
  obtain _ | ⟨w, l⟩ := l
  · simp
  · rw [destutter_cons', mem_destutter'_ne]

lemma nodup_destutter'_ne_iff :
    (l.destutter' (· ≠ ·) w).Nodup ↔ ∀ a b, a ≠ b → ¬ [a, b, a].Sublist (w :: l) := by
  induction l generalizing w with
  | nil =>
    refine iff_of_true (nodup_singleton w) fun a b _ h => ?_
    exact absurd h.length_le (by simp)
  | cons u l ih =>
    by_cases h : w = u
    · subst h
      rw [List.destutter'_cons_neg _ (not_not.mpr rfl), ih]
      refine forall₃_congr fun a b hab => not_congr ⟨fun hsub => hsub.cons w, fun hsub => ?_⟩
      rcases cons_sublist_cons'.mp hsub with hsub | ⟨rfl, hsub⟩
      · exact hsub
      · rcases cons_sublist_cons'.mp hsub with hsub | ⟨rfl, -⟩
        · exact hsub.cons_cons a
        · exact absurd rfl hab
    · rw [List.destutter'_cons_pos _ h, nodup_cons, mem_destutter'_ne, ih]
      constructor
      · rintro ⟨hw, hrest⟩ a b hab hsub
        rcases cons_sublist_cons'.mp hsub with hsub | ⟨rfl, hback⟩
        · exact hrest a b hab hsub
        · exact hw (hback.subset (mem_cons_of_mem _ mem_cons_self))
      · refine fun hall => ⟨fun hw => ?_, fun a b hab hsub => hall a b hab (hsub.cons w)⟩
        have hmem : w ∈ l := (mem_cons.mp hw).resolve_left h
        exact hall w u h (((singleton_sublist.mpr hmem).cons_cons u).cons_cons w)

/-- Counting neighbours once leaves no element twice iff no element comes back after another
one. -/
theorem nodup_destutter_ne_iff :
    (l.destutter (· ≠ ·)).Nodup ↔ ∀ a b, a ≠ b → ¬ [a, b, a].Sublist l := by
  obtain _ | ⟨w, l⟩ := l
  · refine iff_of_true nodup_nil fun a b _ h => ?_
    exact absurd h.length_le (by simp)
  · rw [destutter_cons', nodup_destutter'_ne_iff]

lemma SortedBy.mem_right {a b : α} {l₁ l₂ : List α} (h : SortedBy key (l₁ ++ a :: l₂))
    (hb : b ∈ l₁ ++ a :: l₂) (hlt : key a < key b) : b ∈ l₂ := by
  rcases mem_append.mp hb with hb | hb
  · have hle := (pairwise_append.mp h).2.2 b hb a mem_cons_self
    exact absurd hlt (not_lt.mpr hle)
  · rcases mem_cons.mp hb with rfl | hb
    · exact absurd hlt (lt_irrefl _)
    · exact hb

lemma SortedBy.triple_sublist {a b c : α} {l : List α} (h : SortedBy key l) (ha : a ∈ l)
    (hb : b ∈ l) (hc : c ∈ l) (hab : key a < key b) (hbc : key b < key c) : [a, b, c].Sublist l := by
  obtain ⟨l₁, l₂, rfl⟩ := append_of_mem ha
  have hright : SortedBy key l₂ := (pairwise_cons.mp (pairwise_append.mp h).2.1).2
  obtain ⟨l₃, l₄, rfl⟩ := append_of_mem (h.mem_right hb hab)
  have hc' : c ∈ l₄ := hright.mem_right (h.mem_right hc (hab.trans hbc)) hbc
  have hend : [b, c].Sublist (l₃ ++ b :: l₄) :=
    ((singleton_sublist.mpr hc').cons_cons b).trans (sublist_append_right _ _)
  exact (hend.cons_cons a).trans (sublist_append_right _ _)

/-- The values of a list that is sorted by keys which tell values apart, neighbours with the same
value counted once, are all different iff no two elements with the same value have one with
another value between their keys. -/
theorem SortedBy.nodup_destutter_iff {val : α → γ} {l : List α} (h : SortedBy key l)
    (hkey : ∀ a b, key a = key b → val a = val b) :
    ((l.map val).destutter (· ≠ ·)).Nodup ↔ ∀ a ∈ l, ∀ b ∈ l, ∀ c ∈ l,
      key a < key b → key b < key c → val a = val c → val b = val a := by
  rw [nodup_destutter_ne_iff]
  constructor
  · intro hall a ha b hb c hc hab hbc hval
    by_contra hne
    refine hall (val a) (val b) (Ne.symm hne) ?_
    have hsub := (h.triple_sublist ha hb hc hab hbc).map val
    rwa [map_cons, map_cons, map_singleton, ← hval] at hsub
  · intro hall v w hvw hsub
    obtain ⟨l', hl', heq⟩ := sublist_map_iff.mp hsub
    obtain ⟨a, b, c, rfl⟩ : ∃ a b c, l' = [a, b, c] := by
      refine length_eq_three.mp ?_
      rw [← length_map (f := val), ← heq]
      rfl
    simp only [map_cons, map_nil, List.cons.injEq, and_true] at heq
    obtain ⟨rfl, rfl, hc⟩ := heq
    have hsorted : SortedBy key [a, b, c] := h.sublist hl'
    simp only [SortedBy, pairwise_cons, mem_cons, not_mem_nil, or_false,
      forall_eq_or_imp, forall_eq] at hsorted
    obtain ⟨⟨hab, -⟩, hbc, -⟩ := hsorted
    have hlt : ∀ {x y : α}, key x ≤ key y → val x ≠ val y → key x < key y :=
      fun hle hne => lt_of_le_of_ne hle fun heq => hne (hkey _ _ heq)
    refine hvw (hall a (hl'.subset (by simp)) b (hl'.subset (by simp)) c (hl'.subset (by simp))
      (hlt hab hvw) (hlt hbc fun heq => hvw ?_) hc).symm
    rw [heq, hc]

end Neighbours

end Foundation
