import Cerberus.Foundation.OrderedMap

/-!
# Draining an amount out of a finite map

Some bindings of a map hold an amount. Draining `r` walks along a list of keys and takes what it
finds: a binding that holds no more than what is still missing is removed whole, the first binding
that holds more is reduced and ends the walk. `Drainable` says which bindings hold an amount and how
one of them is reduced; `drain` is the walk.

What the walk takes is what the map loses (`total_drain`); with all keys of drainable bindings in
the list it fails only if the map does not hold enough (`drain_remaining`).
-/

namespace Foundation

structure Drainable (K V : Type*) where
  amount : K → V → Option ℕ
  /-- Take a part out of what a value holds. -/
  reduce : V → ℕ → V
  /-- A reduced binding holds the rest, and can be drained again. -/
  amount_reduce : ∀ {k v a r}, amount k v = some a → r < a → amount k (reduce v r) = some (a - r)

namespace Drainable

variable {K V : Type*} [LinearOrder K]

/-- Take `r` out of the drainable bindings of `m`, in the order of the given keys. Returns the new
map and what is still missing. -/
def drain (d : Drainable K V) : List K → ℕ → OrdMap K V → OrdMap K V × ℕ
  | [], r, m => (m, r)
  | k :: ks, r, m =>
    if r = 0 then (m, 0)
    else
      match m.get? k with
      | none => drain d ks r m
      | some v =>
        match d.amount k v with
        | none => drain d ks r m
        | some a =>
          if a ≤ r then drain d ks (r - a) (m.delete k) else (m.put k (d.reduce v r), 0)

def weight (d : Drainable K V) (k : K) (v : V) : ℕ := (d.amount k v).getD 0

def total (d : Drainable K V) (m : OrdMap K V) : ℕ := m.sum d.weight

variable (d : Drainable K V)

lemma drain_cons_cases (k : K) (ks : List K) (r : ℕ) (m : OrdMap K V) :
    (r = 0 ∧ d.drain (k :: ks) r m = (m, 0)) ∨
    (r ≠ 0 ∧ (∀ v, m.get? k = some v → d.amount k v = none) ∧
      d.drain (k :: ks) r m = d.drain ks r m) ∨
    (∃ v a, m.get? k = some v ∧ d.amount k v = some a ∧ a ≤ r ∧
      d.drain (k :: ks) r m = d.drain ks (r - a) (m.delete k)) ∨
    (∃ v a, m.get? k = some v ∧ d.amount k v = some a ∧ r < a ∧
      d.drain (k :: ks) r m = (m.put k (d.reduce v r), 0)) := by
  rw [drain]
  by_cases hr : r = 0
  · exact Or.inl ⟨hr, if_pos hr⟩
  rw [if_neg hr]
  cases hv : m.get? k with
  | none => exact Or.inr (Or.inl ⟨hr, by simp, rfl⟩)
  | some v =>
    cases ha : d.amount k v with
    | none => exact Or.inr (Or.inl ⟨hr, fun v' hv' => Option.some.inj hv' ▸ ha, by simp only [ha]⟩)
    | some a =>
      by_cases har : a ≤ r
      · exact Or.inr (Or.inr (Or.inl ⟨v, a, rfl, ha, har, by simp only [ha, if_pos har]⟩))
      · exact Or.inr (Or.inr (Or.inr
          ⟨v, a, rfl, ha, not_le.mp har, by simp only [ha, if_neg har]⟩))

section Cons

variable {d} {k : K} {ks : List K} {r : ℕ} {m : OrdMap K V} {v : V} {a : ℕ}

lemma drain_cons_of_skip (h : ∀ v, m.get? k = some v → d.amount k v = none) :
    d.drain (k :: ks) r m = d.drain ks r m := by
  rcases d.drain_cons_cases k ks r m with
    ⟨rfl, h'⟩ | ⟨-, -, h'⟩ | ⟨v, a, hv, ha, -⟩ | ⟨v, a, hv, ha, -⟩
  · rw [h']
    cases ks <;> simp [drain]
  · exact h'
  · simp [h v hv] at ha
  · simp [h v hv] at ha

variable (hv : m.get? k = some v) (ha : d.amount k v = some a) (hr : r ≠ 0)
include hv ha hr

lemma drain_cons_of_le (har : a ≤ r) : d.drain (k :: ks) r m = d.drain ks (r - a) (m.delete k) := by
  simp only [drain, if_neg hr, hv, ha, if_pos har]

lemma drain_cons_of_lt (har : r < a) : d.drain (k :: ks) r m = (m.put k (d.reduce v r), 0) := by
  simp only [drain, if_neg hr, hv, ha, if_neg (not_le.mpr har)]

end Cons

@[simp] lemma drain_zero (ks : List K) (m : OrdMap K V) : d.drain ks 0 m = (m, 0) := by
  cases ks <;> simp [drain]

variable {m : OrdMap K V} {k k' : K} {v : V} {a r : ℕ} {ks : List K}

lemma total_delete (hv : m.get? k = some v) (ha : d.amount k v = some a) :
    d.total (m.delete k) + a = d.total m := by
  have h := OrdMap.sum_delete d.weight m k
  simp only [OrdMap.weightAt, hv, weight, ha, Option.elim_some, Option.getD_some] at h
  exact h

lemma total_reduce (hv : m.get? k = some v) (ha : d.amount k v = some a) (hr : r < a) :
    d.total (m.put k (d.reduce v r)) + r = d.total m := by
  have h := OrdMap.sum_put d.weight m k (d.reduce v r)
  simp only [OrdMap.weightAt, hv, weight, ha, d.amount_reduce ha hr, Option.elim_some,
    Option.getD_some] at h
  unfold total
  omega

/-- What a drain takes is what the map loses. -/
theorem total_drain (ks : List K) (r : ℕ) (m : OrdMap K V) :
    d.total (d.drain ks r m).1 + r = d.total m + (d.drain ks r m).2 := by
  induction ks generalizing r m with
  | nil => rfl
  | cons k ks ih =>
    rcases d.drain_cons_cases k ks r m with
      ⟨hr, h⟩ | ⟨-, -, h⟩ | ⟨v, a, hv, ha, har, h⟩ | ⟨v, a, hv, ha, har, h⟩
    · rw [h, hr]
    · rw [h]
      exact ih r m
    · rw [h]
      have h₁ := ih (r - a) (m.delete k)
      have h₂ := d.total_delete hv ha
      omega
    · rw [h]
      exact d.total_reduce hv ha har

lemma drain_remaining_le (ks : List K) (r : ℕ) (m : OrdMap K V) : (d.drain ks r m).2 ≤ r := by
  induction ks generalizing r m with
  | nil => exact le_rfl
  | cons k ks ih =>
    rcases d.drain_cons_cases k ks r m with
      ⟨-, h⟩ | ⟨-, -, h⟩ | ⟨v, a, -, -, -, h⟩ | ⟨v, a, -, -, -, h⟩
    · simp [h]
    · rw [h]
      exact ih r m
    · rw [h]
      exact (ih (r - a) (m.delete k)).trans (Nat.sub_le r a)
    · simp [h]

/-- What the removal and the reduction of a drainable binding keep, a drain keeps. -/
theorem drain_keeps {I : OrdMap K V → Prop}
    (hdelete : ∀ m k v a, I m → m.get? k = some v → d.amount k v = some a → I (m.delete k))
    (hreduce : ∀ m k v a r, I m → m.get? k = some v → d.amount k v = some a → r < a →
      I (m.put k (d.reduce v r))) (ks : List K) (r : ℕ) (h : I m) : I (d.drain ks r m).1 := by
  induction ks generalizing r m with
  | nil => exact h
  | cons k ks ih =>
    rcases d.drain_cons_cases k ks r m with
      ⟨-, heq⟩ | ⟨-, -, heq⟩ | ⟨v, a, hv, ha, -, heq⟩ | ⟨v, a, hv, ha, har, heq⟩
    · rw [heq]
      exact h
    · rw [heq]
      exact ih r h
    · rw [heq]
      exact ih (r - a) (hdelete m k v a h hv ha)
    · rw [heq]
      exact hreduce m k v a r h hv ha har

/-- A weight that vanishes on every drainable binding keeps its sum. -/
theorem sum_drain {g : K → V → ℕ} (hg : ∀ k v a, d.amount k v = some a → g k v = 0)
    (ks : List K) (r : ℕ) (m : OrdMap K V) : (d.drain ks r m).1.sum g = m.sum g := by
  refine d.drain_keeps (I := fun m' => m'.sum g = m.sum g) ?_ ?_ ks r rfl
  · intro m' k v a h hv ha
    have hsum := OrdMap.sum_delete g m' k
    simpa [OrdMap.weightAt, hv, hg k v a ha, h] using hsum
  · intro m' k v a r h hv ha har
    have hsum := OrdMap.sum_put g m' k (d.reduce v r)
    simpa [OrdMap.weightAt, hv, hg k v a ha, hg k _ _ (d.amount_reduce ha har), h] using hsum

section

variable (hks : ∀ k v a, m.get? k = some v → d.amount k v = some a → k ∈ ks)
include hks

lemma drain_exhausts : (d.drain ks r m).2 = 0 ∨ d.total (d.drain ks r m).1 = 0 := by
  induction ks generalizing r m with
  | nil =>
    refine Or.inr ?_
    have hzero : m.sum d.weight = m.sum fun _ _ => 0 := by
      refine OrdMap.sum_congr fun k v hv => ?_
      cases ha : d.amount k v with
      | none => simp [weight, ha]
      | some a => exact absurd (hks k v a hv ha) List.not_mem_nil
    rw [drain, total, hzero]
    simp [OrdMap.sum]
  | cons k ks ih =>
    rcases d.drain_cons_cases k ks r m with
      ⟨-, h⟩ | ⟨-, hk, h⟩ | ⟨v, a, -, -, -, h⟩ | ⟨v, a, -, -, -, h⟩
    · simp [h]
    · rw [h]
      refine ih fun k' v' a' hv' ha' => ?_
      rcases List.mem_cons.mp (hks k' v' a' hv' ha') with rfl | hmem
      · exact absurd ha' (by simp [hk v' hv'])
      · exact hmem
    · rw [h]
      refine ih fun k' v' a' hv' ha' => ?_
      rw [OrdMap.get?_delete] at hv'
      split_ifs at hv' with hkk
      exact (List.mem_cons.mp (hks k' v' a' hv' ha')).resolve_left hkk
    · simp [h]

/-- A drain over all drainable keys misses exactly what the map does not hold. -/
theorem drain_remaining : (d.drain ks r m).2 = r - d.total m := by
  have h₁ := d.total_drain ks r m
  have h₂ := d.drain_remaining_le ks r m
  rcases d.drain_exhausts (r := r) hks with h | h <;> omega

end

lemma get?_drain (hk' : ∀ v, m.get? k' = some v → d.amount k' v = none) (ks : List K) (r : ℕ) :
    (d.drain ks r m).1.get? k' = m.get? k' := by
  have hne : ∀ (m' : OrdMap K V) k v a, m'.get? k' = m.get? k' → m'.get? k = some v →
      d.amount k v = some a → k' ≠ k := by
    rintro m' k v a h hv ha rfl
    rw [hk' v (h ▸ hv)] at ha
    cases ha
  refine d.drain_keeps (I := fun m' => m'.get? k' = m.get? k') ?_ ?_ ks r rfl
  · intro m' k v a h hv ha
    rw [OrdMap.get?_delete, if_neg (hne m' k v a h hv ha), h]
  · intro m' k v a r h hv ha _
    rw [OrdMap.get?_put, if_neg (hne m' k v a h hv ha), h]

lemma get?_of_get?_drain_of_amount {v' : V} (hv' : d.amount k' v' = none) (ks : List K) (r : ℕ) :
    (d.drain ks r m).1.get? k' = some v' → m.get? k' = some v' := by
  refine d.drain_keeps (I := fun m' => m'.get? k' = some v' → m.get? k' = some v') ?_ ?_ ks r id
  · intro m' k v a h _ _ hget
    rw [OrdMap.get?_delete] at hget
    split_ifs at hget
    exact h hget
  · intro m' k v a r h _ ha har hget
    rw [OrdMap.get?_put] at hget
    split_ifs at hget with hkk
    · cases hget
      rw [hkk, d.amount_reduce ha har] at hv'
      cases hv'
    · exact h hget

lemma get?_of_get?_drain (ks : List K) (r : ℕ) :
    (d.drain ks r m).1.get? k' ≠ none → m.get? k' ≠ none := by
  refine d.drain_keeps (I := fun m' => m'.get? k' ≠ none → m.get? k' ≠ none) ?_ ?_ ks r id
  · intro m' k v a h _ _ hget
    rw [OrdMap.get?_delete] at hget
    split_ifs at hget with hkk
    · exact absurd rfl hget
    · exact h hget
  · intro m' k v a r h hv _ _ hget
    rw [OrdMap.get?_put] at hget
    split_ifs at hget with hkk
    · exact h (by simp [hkk, hv])
    · exact h hget

end Drainable

end Foundation
