import Cerberus.Foundation.OrderedMap

/-!
# Vector clocks

A vector clock maps actors to 64-bit counters; an actor that is not bound counts zero. `count` reads
a counter as a number, and clocks are compared counter by counter (`dominatedBy_iff`). A clock may
bind an actor to zero explicitly, so clocks with the same counters need not be equal; they are when
neither does (`ext_of_positive`).

The join of two clocks folds the bindings of one into the other; how is left open (`count_foldl`).
-/

namespace Foundation

open OrdMap List

abbrev Clock (α : Type*) [LinearOrder α] := OrdMap α UInt64

namespace Clock

variable {α : Type*} [LinearOrder α]

def get (c : Clock α) (a : α) : UInt64 := (c.get? a).getD 0

/-- Count one more event of an actor; the counter wraps around. -/
def tick (c : Clock α) (a : α) : Clock α := c.put a (get c a + 1)

def dominatedBy (c d : Clock α) : Bool := c.entries.all fun e => e.2 ≤ get d e.1

def count (c : Clock α) (a : α) : ℕ := (get c a).toNat

def Positive (c : Clock α) : Prop := ∀ a, c.get? a ≠ some 0

variable {c d : Clock α} {a b : α}

@[simp] lemma count_empty : count (OrdMap.empty : Clock α) a = 0 := rfl

lemma count_lt : count c a < 2 ^ 64 := (get c a).toNat_lt

lemma count_of_get? {v : UInt64} (h : c.get? a = some v) : count c a = v.toNat := by
  rw [count, get, h, Option.getD_some]

lemma count_put [Decidable (b = a)] (v : UInt64) :
    count (c.put a v) b = if b = a then v.toNat else count c b := by
  rw [count, get, OrdMap.get?_put]
  split_ifs
  · rfl
  · rfl

lemma count_tick [Decidable (b = a)] (h : count c a + 1 < 2 ^ 64) :
    count (tick c a) b = count c b + if b = a then 1 else 0 := by
  have hadd : (get c a + 1).toNat = count c a + 1 := by
    rw [UInt64.toNat_add]
    exact Nat.mod_eq_of_lt h
  rw [tick, count_put]
  split_ifs with hb
  · rw [hb, hadd]
  · rfl

lemma dominatedBy_iff : dominatedBy c d = true ↔ ∀ a, count c a ≤ count d a := by
  rw [dominatedBy, all_eq_true]
  constructor
  · intro h a
    cases hv : c.get? a with
    | none =>
      rw [count, get, hv]
      exact Nat.zero_le _
    | some v =>
      rw [count_of_get? hv]
      exact of_decide_eq_true (h (a, v) (mem_entries_iff.mpr hv))
  · rintro h ⟨a, v⟩ hv
    refine decide_eq_true ?_
    have hle := h a
    rwa [count_of_get? (mem_entries_iff.mp hv)] at hle

lemma positive_empty : Positive (OrdMap.empty : Clock α) := by
  intro a h
  cases h

lemma positive_iff : Positive c ↔ ∀ e ∈ c.entries, e.2 ≠ 0 := by
  constructor
  · rintro h ⟨a, v⟩ hav rfl
    exact h a (mem_entries_iff.mp hav)
  · intro h a ha
    exact h (a, 0) (mem_entries_iff.mpr ha) rfl

instance : Decidable (Positive c) := decidable_of_iff _ positive_iff.symm

lemma Positive.get?_eq_some_iff (h : Positive c) {v : UInt64} :
    c.get? a = some v ↔ get c a = v ∧ v ≠ 0 := by
  rw [get]
  cases hc : c.get? a with
  | none =>
    simp only [Option.getD_none, reduceCtorEq, false_iff, not_and, not_not]
    exact fun h => h.symm
  | some w =>
    simp only [Option.some.injEq, Option.getD_some]
    constructor
    · rintro rfl
      exact ⟨rfl, fun h0 => h a (h0 ▸ hc)⟩
    · exact fun hw => hw.1

lemma Positive.count_pos_iff (h : Positive c) : 0 < count c a ↔ a ∈ c.keys := by
  rw [mem_keys_iff, count, get]
  cases hc : c.get? a with
  | none => simp
  | some v =>
    have hv : v.toNat ≠ 0 := fun h0 => h a (hc.trans (congrArg some (UInt64.toNat_inj.mp h0)))
    simp only [Option.getD_some, ne_eq, reduceCtorEq, not_false_eq_true, iff_true]
    exact Nat.pos_of_ne_zero hv

theorem ext_of_positive (hc : Positive c) (hd : Positive d) (h : ∀ a, count c a = count d a) :
    c = d := by
  refine ext_get? fun a => Option.ext fun v => ?_
  have hget : get c a = get d a := UInt64.toNat_inj.mp (h a)
  rw [hc.get?_eq_some_iff, hd.get?_eq_some_iff, hget]

lemma Positive.put (h : Positive c) {v : UInt64} (hv : v ≠ 0) : Positive (c.put a v) := by
  intro b hb
  rw [OrdMap.get?_put] at hb
  split_ifs at hb
  · exact hv (Option.some.inj hb)
  · exact h b hb

lemma Positive.tick (h : Positive c) (hlt : count c a + 1 < 2 ^ 64) : Positive (tick c a) := by
  refine h.put fun h0 => ?_
  have hone := count_tick (b := a) hlt
  rw [Clock.tick, count_put, if_pos rfl, h0, if_pos rfl] at hone
  cases hone

/-! ### The order of clocks -/

def Precedes (c d : Clock α) : Prop :=
  (∀ a, count c a ≤ count d a) ∧ ¬ ∀ a, count d a ≤ count c a

instance : Decidable (Precedes c d) :=
  decidable_of_iff (dominatedBy c d = true ∧ ¬ dominatedBy d c = true) <| by
    rw [dominatedBy_iff, dominatedBy_iff, Precedes]

lemma not_precedes_self (c : Clock α) : ¬ Precedes c c := fun h => h.2 h.1

lemma Precedes.trans {e : Clock α} (h : Precedes c d) (h' : Precedes d e) : Precedes c e :=
  ⟨fun a => (h.1 a).trans (h'.1 a), fun hle => h.2 fun a => (h'.1 a).trans (hle a)⟩

lemma precedes_iff_of_positive (hc : Positive c) (hd : Positive d) :
    Precedes c d ↔ dominatedBy c d = true ∧ c ≠ d := by
  rw [dominatedBy_iff]
  refine and_congr_right fun hle => not_congr ⟨fun h => ?_, fun h a => h ▸ le_rfl⟩
  exact ext_of_positive hc hd fun a => le_antisymm (hle a) (h a)

/-! ### Renaming actors -/

section MapKeys

variable {β : Type*} [LinearOrder β] (f : α → β) (hf : StrictMono f)

@[simp] lemma get_mapKeys (c : Clock α) (a : α) : get (c.mapKeys f hf) (f a) = get c a := by
  rw [get, OrdMap.get?_mapKeys, get]

@[simp] lemma dominatedBy_mapKeys (c d : Clock α) :
    dominatedBy (c.mapKeys f hf) (d.mapKeys f hf) = dominatedBy c d := by
  unfold dominatedBy
  rw [entries_mapKeys, all_map]
  simp only [Function.comp_def, get_mapKeys]

end MapKeys

/-! ### Joins -/

section Join

variable {f : Clock α → α × UInt64 → Clock α}

section

variable
  (hf : ∀ c a v b, count (f c (a, v)) b = if b = a then max (count c a) v.toNat else count c b)
include hf

lemma count_foldl_list
    {l : List (α × UInt64)} (hl : (l.map Prod.fst).Pairwise (· < ·)) (c : Clock α) (b : α) :
    count (l.foldl f c) b = max (count c b) ((l.lookup b).getD 0).toNat := by
  induction l generalizing c with
  | nil => simp
  | cons e l ih =>
    obtain ⟨a, v⟩ := e
    rw [map_cons, pairwise_cons] at hl
    rw [foldl_cons, ih hl.2, hf, lookup_cons_eq]
    by_cases hb : b = a
    · -- no later binding is of the same actor
      have hnone : l.lookup a = none := by
        refine lookup_eq_none_iff.mpr fun p hp => ?_
        have hlt := hl.1 p.1 (mem_map_of_mem hp)
        simpa using hlt.ne
      simp [hb, hnone]
    · simp [hb]

theorem count_foldl (c d : Clock α) (b : α) :
    count (d.entries.foldl f c) b = max (count c b) (count d b) :=
  count_foldl_list hf d.sorted c b

end

/-- A join is positive when folding in a positive binding keeps clocks positive. -/
theorem Positive.foldl (hf : ∀ c a v, v ≠ 0 → Positive c → Positive (f c (a, v)))
    (hc : Positive c) (hd : Positive d) : Positive (d.entries.foldl f c) := by
  have hv := positive_iff.mp hd
  revert hv
  generalize d.entries = l
  intro hv
  induction l generalizing c with
  | nil => exact hc
  | cons e l ih =>
    refine ih (hf c e.1 e.2 (hv e mem_cons_self) hc) fun e' he' => ?_
    exact hv e' (mem_cons_of_mem _ he')

end Join

end Clock

end Foundation
