import Mathlib

/-!
# Finite maps ordered by their keys

`OrdMap K V` is a finite map from a linearly ordered key type, stored as the list of its bindings in
strictly increasing order of keys. The order is a field of the structure, so two maps with the same
lookups are equal (`OrdMap.ext_get?`) and listing the keys gives them in order.

Besides lookup, insertion (`put`) and removal (`delete`) the file has the sum of a weight over the
bindings, `OrdMap.sum f m = ∑ f k v`. All accounting over such maps goes through `sum_put` and
`sum_delete`.
-/

namespace Foundation

open List hiding sum_le_sum

/-- A finite map: the list of its bindings in strictly increasing order of keys. -/
@[ext]
structure OrdMap (K V : Type*) [LinearOrder K] where
  /-- The bindings, in increasing order of keys. -/
  entries : List (K × V)
  /-- Keys strictly increase along the list, so no key is bound twice. -/
  sorted : (entries.map Prod.fst).Pairwise (· < ·)

namespace OrdMap

variable {K V : Type*} [LinearOrder K]

/-- Insert a binding into an ordered list of bindings, replacing the binding of the same key. -/
def insertEntry (k : K) (v : V) : List (K × V) → List (K × V)
  | [] => [(k, v)]
  | e :: l =>
    if k < e.1 then (k, v) :: e :: l
    else if k = e.1 then (k, v) :: l
    else e :: insertEntry k v l

variable {k : K} {v : V} {l : List (K × V)} {m : OrdMap K V} {f g : K → V → ℕ}

lemma mem_keys_insertEntry {k' : K} :
    k' ∈ (insertEntry k v l).map Prod.fst ↔ k' = k ∨ k' ∈ l.map Prod.fst := by
  induction l with
  | nil => simp [insertEntry]
  | cons e l ih =>
    unfold insertEntry
    split_ifs with h₁ h₂
    · simp
    · simp [h₂]
    · simp only [map_cons, mem_cons, ih]
      tauto

lemma insertEntry_sorted (k : K) (v : V) (h : (l.map Prod.fst).Pairwise (· < ·)) :
    ((insertEntry k v l).map Prod.fst).Pairwise (· < ·) := by
  induction l with
  | nil => simp [insertEntry]
  | cons e l ih =>
    rw [map_cons, pairwise_cons] at h
    unfold insertEntry
    split_ifs with h₁ h₂
    · rw [map_cons, pairwise_cons]
      refine ⟨fun k' hk' => ?_, pairwise_cons.mpr h⟩
      rcases mem_cons.mp hk' with rfl | hk'
      · exact h₁
      · exact h₁.trans (h.1 k' hk')
    · rw [map_cons, pairwise_cons, h₂]
      exact h
    · rw [map_cons, pairwise_cons]
      refine ⟨fun k' hk' => ?_, ih h.2⟩
      rcases mem_keys_insertEntry.mp hk' with rfl | hk'
      · exact lt_of_le_of_ne (not_lt.mp h₁) (Ne.symm h₂)
      · exact h.1 k' hk'

def empty : OrdMap K V := ⟨[], List.Pairwise.nil⟩

def get? (m : OrdMap K V) (k : K) : Option V := m.entries.lookup k

/-- Bind a key to a value, replacing its old value if there is one. -/
def put (m : OrdMap K V) (k : K) (v : V) : OrdMap K V :=
  ⟨insertEntry k v m.entries, insertEntry_sorted k v m.sorted⟩

def delete (m : OrdMap K V) (k : K) : OrdMap K V :=
  ⟨m.entries.filter fun e => e.1 ≠ k,
    m.sorted.sublist (filter_sublist.map _)⟩

def keys (m : OrdMap K V) : List K := m.entries.map Prod.fst

/-! ### Lookup -/

lemma lookup_eq_some_of_mem (h : (l.map Prod.fst).Pairwise (· < ·)) (hkv : (k, v) ∈ l) :
    l.lookup k = some v := by
  induction l with
  | nil => simp at hkv
  | cons e l ih =>
    rw [map_cons, pairwise_cons] at h
    rcases mem_cons.mp hkv with rfl | hkv
    · simp
    · have hne : k ≠ e.1 := (h.1 k (mem_map_of_mem (f := Prod.fst) hkv)).ne'
      rw [lookup_cons, beq_eq_false_iff_ne.mpr hne]
      exact ih h.2 hkv

lemma mem_entries_iff : (k, v) ∈ m.entries ↔ m.get? k = some v := by
  refine ⟨lookup_eq_some_of_mem m.sorted, fun h => ?_⟩
  obtain ⟨l₁, l₂, hl, -⟩ := lookup_eq_some_iff.mp h
  simp [hl]

lemma mem_keys_iff : k ∈ m.keys ↔ m.get? k ≠ none := by
  constructor
  · intro hk
    obtain ⟨⟨k', v⟩, hkv, rfl⟩ := mem_map.mp hk
    simp [mem_entries_iff.mp hkv]
  · intro hk
    obtain ⟨v, hv⟩ := Option.ne_none_iff_exists'.mp hk
    exact mem_map.mpr ⟨(k, v), mem_entries_iff.mpr hv, rfl⟩

lemma keys_nodup (m : OrdMap K V) : m.keys.Nodup := m.sorted.imp fun h => h.ne

@[simp] lemma get?_empty (k : K) : (empty : OrdMap K V).get? k = none := rfl

lemma lookup_cons_eq (k k₀ : K) (v₀ : V) (l : List (K × V)) :
    ((k₀, v₀) :: l).lookup k = if k = k₀ then some v₀ else l.lookup k := by
  by_cases hk : k = k₀
  · simp [hk]
  · rw [lookup_cons, beq_eq_false_iff_ne.mpr hk, if_neg hk]

lemma lookup_insertEntry (k k' : K) (v : V) (l : List (K × V)) :
    (insertEntry k v l).lookup k' = if k' = k then some v else l.lookup k' := by
  induction l with
  | nil => simp [insertEntry, lookup_cons_eq]
  | cons e l ih =>
    obtain ⟨k₀, v₀⟩ := e
    unfold insertEntry
    by_cases h₁ : k < k₀
    · simp [h₁, lookup_cons_eq]
    · by_cases h₂ : k = k₀
      · subst h₂
        by_cases hk : k' = k <;> simp [lookup_cons_eq, hk]
      · by_cases hk : k' = k
        · subst hk
          simp [h₁, h₂, lookup_cons_eq, ih]
        · simp [h₁, h₂, lookup_cons_eq, ih, hk]

@[simp] lemma get?_put (m : OrdMap K V) (k k' : K) (v : V) :
    (m.put k v).get? k' = if k' = k then some v else m.get? k' :=
  lookup_insertEntry k k' v m.entries

@[simp] lemma get?_delete (m : OrdMap K V) (k k' : K) :
    (m.delete k).get? k' = if k' = k then none else m.get? k' := by
  refine Option.ext fun v => ?_
  rw [← mem_entries_iff]
  split_ifs with hk
  · simp [delete, hk]
  · simp [delete, hk, mem_entries_iff]

/-- Two ordered lists with the same members are equal, so maps are determined by their lookups. -/
theorem ext_get? {m' : OrdMap K V} (h : ∀ k, m.get? k = m'.get? k) : m = m' := by
  have hnodup : ∀ m : OrdMap K V, m.entries.Nodup := fun m => List.Nodup.of_map _ m.keys_nodup
  have hperm : m.entries.Perm m'.entries := by
    refine (perm_ext_iff_of_nodup (hnodup m) (hnodup m')).mpr ?_
    rintro ⟨k, v⟩
    rw [mem_entries_iff, mem_entries_iff, h k]
  have hlt : ∀ m : OrdMap K V, m.entries.Pairwise fun a b => a.1 < b.1 :=
    fun m => pairwise_map.mp m.sorted
  refine OrdMap.ext (hperm.eq_of_pairwise (fun a b _ _ hab hba => ?_) (hlt m) (hlt m'))
  exact absurd hab hba.not_gt

instance [DecidableEq V] : DecidableEq (OrdMap K V) := fun m m' =>
  decidable_of_iff (m.entries = m'.entries) OrdMap.ext_iff.symm

lemma put_put (m : OrdMap K V) (k : K) (v v' : V) : (m.put k v).put k v' = m.put k v' := by
  refine ext_get? fun k' => ?_
  simp only [get?_put]
  split_ifs <;> rfl

/-! ### Folding a map into another one -/

section Fold

variable {W : Type*} {f : OrdMap K V → K × W → OrdMap K V} {g : Option V → W → V}

lemma get?_foldl_list (hf : ∀ m k w, f m (k, w) = m.put k (g (m.get? k) w))
    {l : List (K × W)} (hl : (l.map Prod.fst).Pairwise (· < ·)) (m : OrdMap K V) (k : K) :
    (l.foldl f m).get? k = (l.lookup k).elim (m.get? k) fun w => some (g (m.get? k) w) := by
  induction l generalizing m with
  | nil => rfl
  | cons e l ih =>
    obtain ⟨k₀, w₀⟩ := e
    rw [map_cons, pairwise_cons] at hl
    rw [foldl_cons, ih hl.2, hf, get?_put, lookup_cons_eq]
    by_cases hk : k = k₀
    · -- no later binding has the same key
      have hnone : l.lookup k = none := by
        refine lookup_eq_none_iff.mpr fun p hp => ?_
        have hlt := hl.1 p.1 (mem_map_of_mem hp)
        simpa [hk] using hlt.ne
      simp [hk, hk ▸ hnone]
    · simp [hk]

theorem get?_foldl (hf : ∀ m k w, f m (k, w) = m.put k (g (m.get? k) w)) (m : OrdMap K V)
    (d : OrdMap K W) (k : K) :
    (d.entries.foldl f m).get? k = (d.get? k).elim (m.get? k) fun w => some (g (m.get? k) w) :=
  get?_foldl_list hf d.sorted m k

lemma get?_foldl_put_cases {α : Type*} {f : α → K} {g : α → V} {l : List α} {m : OrdMap K V} {k : K}
    {v : V} (h : (l.foldl (fun m a => m.put (f a) (g a)) m).get? k = some v) :
    m.get? k = some v ∨ ∃ a ∈ l, f a = k ∧ g a = v := by
  induction l generalizing m with
  | nil => exact .inl h
  | cons a l ih =>
    rcases ih h with hm | ⟨b, hb, hkv⟩
    · rw [get?_put] at hm
      split_ifs at hm with hk
      · exact .inr ⟨a, mem_cons_self, hk.symm, Option.some.inj hm⟩
      · exact .inl hm
    · exact .inr ⟨b, mem_cons_of_mem _ hb, hkv⟩

lemma foldl_put_entries (m : OrdMap K V) :
    m.entries.foldl (fun m e => m.put e.1 e.2) .empty = m := by
  refine ext_get? fun k => ?_
  rw [get?_foldl (g := fun _ w => w) (fun _ _ _ => rfl)]
  cases m.get? k with
  | none => rfl
  | some v => rfl

end Fold

/-! ### Renaming keys -/

section MapKeys

variable {L : Type*} [LinearOrder L] (f : K → L) (hf : StrictMono f)

def mapKeys (m : OrdMap K V) : OrdMap L V where
  entries := m.entries.map fun e => (f e.1, e.2)
  sorted := by
    have h := m.sorted.map f fun _ _ hlt => hf hlt
    rwa [map_map] at h ⊢

@[simp] lemma entries_mapKeys (m : OrdMap K V) :
    (m.mapKeys f hf).entries = m.entries.map fun e => (f e.1, e.2) := rfl

@[simp] lemma get?_mapKeys (m : OrdMap K V) (k : K) : (m.mapKeys f hf).get? (f k) = m.get? k := by
  refine Option.ext fun v => ?_
  rw [← mem_entries_iff, ← mem_entries_iff, entries_mapKeys, mem_map]
  constructor
  · rintro ⟨⟨k', v'⟩, hmem, heq⟩
    obtain ⟨hk, rfl⟩ := Prod.mk.inj heq
    exact hf.injective hk ▸ hmem
  · intro hmem
    exact ⟨(k, v), hmem, rfl⟩

lemma mapKeys_injective : Function.Injective (mapKeys (V := V) f hf) := by
  intro m m' h
  refine ext_get? fun k => ?_
  rw [← get?_mapKeys f hf m, h, get?_mapKeys]

end MapKeys

/-! ### Sums over the bindings -/

def sum (f : K → V → ℕ) (m : OrdMap K V) : ℕ := (m.entries.map fun e => f e.1 e.2).sum

/-- The weight of the binding of one key, `0` if the key is unbound. -/
def weightAt (f : K → V → ℕ) (m : OrdMap K V) (k : K) : ℕ := (m.get? k).elim 0 (f k)

@[simp] lemma sum_empty (f : K → V → ℕ) : (empty : OrdMap K V).sum f = 0 := rfl

lemma weightAt_eq_zero (h : ∀ v, m.get? k = some v → f k v = 0) : m.weightAt f k = 0 := by
  unfold weightAt
  cases hv : m.get? k with
  | none => rfl
  | some v => exact h v hv

/-- A removal gives the weight of the removed binding back. -/
theorem sum_delete (f : K → V → ℕ) (m : OrdMap K V) (k : K) :
    (m.delete k).sum f + m.weightAt f k = m.sum f := by
  obtain ⟨l, h⟩ := m
  unfold sum weightAt delete get?
  simp only [ne_eq, decide_not]
  induction l with
  | nil => simp
  | cons e l ih =>
    obtain ⟨k₀, v₀⟩ := e
    rw [map_cons, pairwise_cons] at h
    by_cases hk : k = k₀
    · -- the removed binding is the first one, and no later one has its key
      subst hk
      have hl : l.filter (fun e => !decide (e.1 = k)) = l := by
        refine filter_eq_self.mpr fun e he => ?_
        have := h.1 e.1 (mem_map_of_mem (f := Prod.fst) he)
        simpa using this.ne'
      simp [List.lookup, hl, Nat.add_comm]
    · have ih := ih h.2
      have hk' : k₀ ≠ k := Ne.symm hk
      simp only [List.lookup, beq_eq_false_iff_ne.mpr hk, filter_cons, hk', decide_false,
        Bool.not_false, if_true, map_cons, sum_cons]
      omega

/-- An insertion trades the weight of the binding it replaces for the weight of the new one. -/
theorem sum_put (f : K → V → ℕ) (m : OrdMap K V) (k : K) (v : V) :
    (m.put k v).sum f + m.weightAt f k = m.sum f + f k v := by
  have hdel : (m.put k v).delete k = m.delete k := by
    refine ext_get? fun k' => ?_
    by_cases hk : k' = k <;> simp [hk]
  have h₁ := sum_delete f (m.put k v) k
  have h₂ := sum_delete f m k
  have h₃ : (m.put k v).weightAt f k = f k v := by simp [weightAt]
  rw [hdel] at h₁
  omega

lemma weightAt_le_sum (f : K → V → ℕ) (m : OrdMap K V) (k : K) : m.weightAt f k ≤ m.sum f :=
  (sum_delete f m k).symm ▸ Nat.le_add_left _ _

lemma sum_congr (h : ∀ k v, m.get? k = some v → f k v = g k v) : m.sum f = m.sum g := by
  unfold sum
  congr 1
  exact map_congr_left fun e he => h e.1 e.2 (mem_entries_iff.mp he)

lemma sum_eq_sum_keys (f : K → V → ℕ) (m : OrdMap K V) :
    m.sum f = (m.keys.map (m.weightAt f)).sum := by
  unfold sum keys
  rw [map_map]
  congr 1
  refine map_congr_left fun e he => ?_
  simp [weightAt, mem_entries_iff.mp he]

lemma sum_le_sum (m : OrdMap K V) (h : ∀ k v, f k v ≤ g k v) : m.sum f ≤ m.sum g :=
  List.sum_le_sum fun e _ => h e.1 e.2

lemma sum_add (f g : K → V → ℕ) (m : OrdMap K V) :
    m.sum (fun k v => f k v + g k v) = m.sum f + m.sum g :=
  sum_map_add

end OrdMap

end Foundation
