import Mathlib

/-!
# Forests of nodes that refer to their children

Nodes that hold references to their children are a forest if no node is a child twice and no root is
a child. The references of a place are `next o`: the roots for `none` and the children of `a` for
`some a`. `flatten` lists the nodes in pre-order, parents before children.

In a forest there is one way down to a node (`Descent.unique`), so `flatten` ends and lists every
node that there is a way to once (`IsForest.flatten_spec`). In a finite forest only nodes on or
below a cycle have none (`IsForest.forall_descent_iff`).
-/

namespace Foundation

open List Option

variable {α : Type*}

def walkAll (walk : α → Option (List α)) : List α → Option (List α)
  | [] => some []
  | a :: as => (walk a).bind fun l => (walkAll walk as).map (l ++ ·)

/-- Walk down from a node, at most `n` levels deep. -/
def walk (next : Option α → List α) : ℕ → α → Option (List α)
  | 0, _ => none
  | n + 1, a => (walkAll (walk next n) (next (some a))).map (a :: ·)

/-- The nodes below the roots, in pre-order. -/
def flatten (next : Option α → List α) (n : ℕ) : Option (List α) :=
  walkAll (walk next n) (next none)

/-- No node is referred to twice. -/
structure IsForest (next : Option α → List α) : Prop where
  nodup : ∀ o, (next o).Nodup
  parent : ∀ {o o' : Option α} {a : α}, a ∈ next o → a ∈ next o' → o = o'

/-- A way down from the roots, the last node first. -/
inductive Descent (next : Option α → List α) : List α → Prop
  | nil : Descent next []
  | cons {a : α} {p : List α} (h : Descent next p) (ha : a ∈ next p.head?) : Descent next (a :: p)

variable {next : Option α → List α} {a x : α} {p q : List α} {n : ℕ}

namespace Descent

lemma of_cons (h : Descent next (a :: p)) : Descent next p ∧ a ∈ next p.head? := by
  obtain _ | ⟨hp, ha⟩ := h
  exact ⟨hp, ha⟩

lemma of_suffix (h : Descent next p) (hq : q <:+ p) : Descent next q := by
  induction h with
  | nil =>
    rw [suffix_nil.mp hq]
    exact .nil
  | cons hp ha ih =>
    rcases suffix_cons_iff.mp hq with rfl | hq
    · exact .cons hp ha
    · exact ih hq

lemma unique (hnext : IsForest next) (hp : Descent next (a :: p)) (hq : Descent next (a :: q)) :
    p = q := by
  induction p generalizing a q with
  | nil =>
    have hhead := hnext.parent hp.of_cons.2 hq.of_cons.2
    exact (List.head?_eq_none_iff.mp hhead.symm).symm
  | cons b p ih =>
    have hhead := hnext.parent hp.of_cons.2 hq.of_cons.2
    obtain ⟨q, rfl⟩ := List.head?_eq_some_iff.mp hhead.symm
    rw [ih hp.of_cons.1 hq.of_cons.1]

lemma notMem (hnext : IsForest next) (h : Descent next (a :: p)) : a ∉ p := by
  intro ha
  obtain ⟨s, t, rfl⟩ := append_of_mem ha
  have ht : Descent next (a :: t) := h.of_cons.1.of_suffix (suffix_append s _)
  have hlength := congrArg List.length (unique hnext h ht)
  rw [length_append, length_cons] at hlength
  omega

lemma nodup (hnext : IsForest next) (h : Descent next p) : p.Nodup := by
  induction h with
  | nil => exact nodup_nil
  | cons hp ha ih => exact nodup_cons.mpr ⟨notMem hnext (.cons hp ha), ih⟩

lemma mem_next (h : Descent next p) (hx : x ∈ p) : ∃ o, x ∈ next o := by
  obtain ⟨s, t, rfl⟩ := append_of_mem hx
  exact ⟨_, (h.of_suffix (suffix_append s _)).of_cons.2⟩

end Descent

lemma walkAll_eq {f : α → Option (List α)} {as : List α} (h : ∀ a ∈ as, ∃ l, f a = some l) :
    walkAll f as = some (as.flatMap fun a => (f a).getD []) := by
  induction as with
  | nil => rfl
  | cons a as ih =>
    obtain ⟨l, hl⟩ := h a mem_cons_self
    rw [walkAll, hl, bind_some, ih fun b hb => h b (mem_cons_of_mem _ hb),
      flatMap_cons, hl]
    rfl

lemma walkAll_mono {f g : α → Option (List α)} (hfg : ∀ a l, f a = some l → g a = some l)
    {as l : List α} (h : walkAll f as = some l) : walkAll g as = some l := by
  induction as generalizing l with
  | nil => exact h
  | cons a as ih =>
    obtain ⟨l₁, h₁, hrest⟩ := bind_eq_some_iff.mp h
    obtain ⟨l₂, h₂, rfl⟩ := map_eq_some_iff.mp hrest
    rw [walkAll, hfg a l₁ h₁, bind_some, ih h₂]
    rfl

lemma walk_succ {l : List α} (h : walk next n a = some l) : walk next (n + 1) a = some l := by
  induction n generalizing a l with
  | zero => cases h
  | succ n ih =>
    obtain ⟨l', hl', rfl⟩ := map_eq_some_iff.mp h
    rw [walk, walkAll_mono (fun _ _ => ih) hl']
    rfl

lemma flatten_mono {l : List α} {m : ℕ} (hnm : n ≤ m) (h : flatten next n = some l) :
    flatten next m = some l := by
  induction m, hnm using Nat.le_induction with
  | base => exact h
  | succ m _ ih => exact walkAll_mono (fun _ _ => walk_succ) ih

lemma exists_suffix_cons (hp : p <:+ q) (hne : q ≠ p) : ∃ c, c :: p <:+ q := by
  obtain ⟨t, rfl⟩ := hp
  rcases eq_nil_or_concat t with rfl | ⟨t', c, rfl⟩
  · exact absurd rfl hne
  · refine ⟨c, t', ?_⟩
    rw [concat_eq_append, append_assoc]
    rfl

namespace IsForest

variable {S : Finset α}

/-- A list of the nodes whose way down ends like this, each once. -/
def Lists (next : Option α → List α) (Q : List α → Prop) (l : List α) : Prop :=
  l.Nodup ∧ ∀ x, x ∈ l ↔ ∃ q, Descent next (x :: q) ∧ Q (x :: q)

lemma exists_walkAll (hnext : IsForest next)
    (hwalk : ∀ a ∈ next p.head?, ∃ l, walk next n a = some l ∧ Lists next (a :: p <:+ ·) l) :
    ∃ l, walkAll (walk next n) (next p.head?) = some l ∧
      Lists next (fun q => ∃ a, a :: p <:+ q) l := by
  have hall := walkAll_eq fun a ha => (hwalk a ha).imp fun _ hl => hl.1
  have hlists : ∀ a ∈ next p.head?, Lists next (a :: p <:+ ·) ((walk next n a).getD []) := by
    intro a ha
    obtain ⟨l, hl, hlists⟩ := hwalk a ha
    rw [hl]
    exact hlists
  refine ⟨_, hall, nodup_flatMap.mpr ⟨fun a ha => (hlists a ha).1, ?_⟩, fun x => ?_⟩
  · refine (hnext.nodup _).imp_of_mem fun {a b} ha hb hab x hxa hxb => ?_
    obtain ⟨q, hq, hsuffix⟩ := ((hlists a ha).2 x).mp hxa
    obtain ⟨q', hq', hsuffix'⟩ := ((hlists b hb).2 x).mp hxb
    rw [Descent.unique hnext hq' hq] at hsuffix'
    have heq := (suffix_of_suffix_length_le hsuffix hsuffix' le_rfl).eq_of_length rfl
    exact hab (List.cons.inj heq).1
  · rw [mem_flatMap]
    constructor
    · rintro ⟨a, ha, hx⟩
      obtain ⟨q, hq, hsuffix⟩ := ((hlists a ha).2 x).mp hx
      exact ⟨q, hq, a, hsuffix⟩
    · rintro ⟨q, hq, a, hsuffix⟩
      have ha : a ∈ next p.head? := (hq.of_suffix hsuffix).of_cons.2
      exact ⟨a, ha, ((hlists a ha).2 x).mpr ⟨q, hq, hsuffix⟩⟩

section

variable (hnext : IsForest next) (hS : ∀ o, ∀ a ∈ next o, a ∈ S)
include hnext hS

lemma exists_walk (hp : Descent next (a :: p)) (hn : S.card ≤ n + p.length) :
    ∃ l, walk next n a = some l ∧ Lists next (a :: p <:+ ·) l := by
  classical
  induction n generalizing a p with
  | zero =>
    -- the nodes of a way are different, so there is no way this long
    have hsub : (a :: p).toFinset ⊆ S := by
      intro x hx
      obtain ⟨o, ho⟩ := hp.mem_next (mem_toFinset.mp hx)
      exact hS o x ho
    have hcard := Finset.card_le_card hsub
    rw [toFinset_card_of_nodup (hp.nodup hnext), length_cons] at hcard
    omega
  | succ n ih =>
    obtain ⟨l, hl, hnodup, hmem⟩ := exists_walkAll (p := a :: p) (n := n) hnext fun c hc =>
      ih (.cons hp hc) (by rw [length_cons]; omega)
    refine ⟨a :: l, ?_, nodup_cons.mpr ⟨fun ha => ?_, hnodup⟩, fun x => ?_⟩
    · rw [walk, show walkAll (walk next n) (next (some a)) = some l from hl]
      rfl
    · obtain ⟨q, hq, c, hsuffix⟩ := (hmem a).mp ha
      have hlength := hsuffix.length_le
      rw [Descent.unique hnext hq hp, length_cons] at hlength
      omega
    · rw [mem_cons, hmem]
      constructor
      · rintro (rfl | ⟨q, hq, c, hsuffix⟩)
        · exact ⟨p, hp, suffix_refl _⟩
        · exact ⟨q, hq, (suffix_cons c _).trans hsuffix⟩
      · rintro ⟨q, hq, hsuffix⟩
        by_cases hx : x = a
        · exact .inl hx
        · exact .inr ⟨q, hq, exists_suffix_cons hsuffix fun heq => hx (List.cons.inj heq).1⟩

/-- The recursion ends, and every node that there is a way down to is listed once. -/
theorem flatten_spec :
    ∃ l, (∀ n, S.card ≤ n → flatten next n = some l) ∧ l.Nodup ∧
      ∀ x, x ∈ l ↔ ∃ p, Descent next (x :: p) := by
  obtain ⟨l, hl, hnodup, hmem⟩ := exists_walkAll (p := []) (n := S.card) hnext fun a ha =>
    hnext.exists_walk hS (.cons .nil ha) le_rfl
  refine ⟨l, fun n hn => flatten_mono hn hl, hnodup, fun x => (hmem x).trans ⟨?_, ?_⟩⟩
  · rintro ⟨q, hq, -⟩
    exact ⟨q, hq⟩
  · rintro ⟨q, hq⟩
    exact ⟨q, hq, exists_suffix_cons nil_suffix (cons_ne_nil x q)⟩

end

lemma exists_descent {b : α} (hab : Relation.TransGen (fun x y => x ∈ next (some y)) a b)
    (hb : Descent next (b :: p)) : ∃ t, Descent next (a :: (t ++ b :: p)) := by
  induction hab using Relation.TransGen.head_induction_on with
  | single h => exact ⟨[], .cons hb h⟩
  | head h _ ih =>
    obtain ⟨t, ht⟩ := ih
    exact ⟨_ :: t, .cons ht h⟩

/-- In a finite forest there is a way down to every node iff no node is below itself. -/
theorem forall_descent_iff (hnext : IsForest next) (hS : ∀ o, ∀ a ∈ next o, a ∈ S)
    (hup : ∀ a ∈ S, ∃ o, a ∈ next o ∧ ∀ b ∈ o, b ∈ S) :
    (∀ a ∈ S, ∃ p, Descent next (a :: p)) ↔
      ∀ a, ¬ Relation.TransGen (fun x y => x ∈ next (some y)) a a := by
  constructor
  · intro hall a hcycle
    obtain ⟨b, hb, -⟩ := Relation.TransGen.head'_iff.mp hcycle
    obtain ⟨p, hp⟩ := hall a (hS _ a hb)
    obtain ⟨t, ht⟩ := exists_descent hcycle hp
    exact ht.notMem hnext (mem_append_right t mem_cons_self)
  · intro hacyclic
    let above : S → S → Prop := fun b a => Relation.TransGen (fun x y => x ∈ next (some y)) a.1 b.1
    have : IsTrans S above := ⟨fun _ _ _ hab hbc => hbc.trans hab⟩
    have : Std.Irrefl above := ⟨fun a => hacyclic a.1⟩
    have hwf : WellFounded above := Finite.wellFounded_of_trans_of_irrefl above
    intro a ha
    induction h : (⟨a, ha⟩ : S) using hwf.induction generalizing a with
    | _ s ih =>
      subst h
      obtain ⟨_ | b, hab, hmem⟩ := hup a ha
      · exact ⟨[], .cons .nil hab⟩
      · obtain ⟨p, hp⟩ := ih ⟨b, hmem b rfl⟩ (.single hab) b (hmem b rfl) rfl
        exact ⟨b :: p, .cons hp hab⟩

end IsForest

end Foundation
