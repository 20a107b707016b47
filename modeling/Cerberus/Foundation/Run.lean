import Mathlib

/-!
# Runs of a deterministic system

A system with states `σ` moves by events `ε`. `runFrom` is the state after a sequence of events,
`Along` says that every event of a run meets a condition in the state it happens in, and `totalCost`
adds up what the events cost.

`Along.invariant` is the invariant rule for runs with a bounded budget. `runFrom_keeps` and
`along_of_keeps` are the rules for invariants of all steps, and `runFrom_iff_along` is the one for a
property that is lost for good.
-/

namespace Foundation

open List

variable {σ ε : Type*} (step : σ → ε → σ)

def runFrom (s : σ) (es : List ε) : σ := es.foldl step s

/-- Every event of the run meets `P` in the state it happens in. -/
def Along (P : σ → ε → Prop) : σ → List ε → Prop
  | _, [] => True
  | s, e :: es => P s e ∧ Along P (step s e) es

def totalCost (c : σ → ε → ℕ) : σ → List ε → ℕ
  | _, [] => 0
  | s, e :: es => c s e + totalCost c (step s e) es

instance decidableAlong (P : σ → ε → Prop) [∀ s e, Decidable (P s e)] :
    ∀ s es, Decidable (Along step P s es)
  | _, [] => inferInstanceAs (Decidable True)
  | s, e :: es =>
    have := decidableAlong P (step s e) es
    inferInstanceAs (Decidable (P s e ∧ Along step P (step s e) es))

variable {step}

@[simp] lemma runFrom_nil (s : σ) : runFrom step s [] = s := rfl

@[simp] lemma runFrom_cons (s : σ) (e : ε) (es : List ε) :
    runFrom step s (e :: es) = runFrom step (step s e) es := rfl

lemma runFrom_append (s : σ) (es es' : List ε) :
    runFrom step s (es ++ es') = runFrom step (runFrom step s es) es' :=
  foldl_append

variable {P Q N : σ → ε → Prop} {s : σ} {es : List ε} {c : σ → ε → ℕ} {I J : σ → Prop}

@[simp] lemma along_nil (s : σ) : Along step P s [] := trivial

@[simp] lemma along_cons {e : ε} :
    Along step P s (e :: es) ↔ P s e ∧ Along step P (step s e) es := Iff.rfl

lemma along_append {es' : List ε} :
    Along step P s (es ++ es') ↔ Along step P s es ∧ Along step P (runFrom step s es) es' := by
  induction es generalizing s with
  | nil => simp
  | cons e es ih => simp [ih, and_assoc]

@[simp] lemma totalCost_nil (c : σ → ε → ℕ) (s : σ) : totalCost step c s [] = 0 := rfl

@[simp] lemma totalCost_cons (c : σ → ε → ℕ) (s : σ) (e : ε) (es : List ε) :
    totalCost step c s (e :: es) = c s e + totalCost step c (step s e) es := rfl

lemma totalCost_append (c : σ → ε → ℕ) (s : σ) (es es' : List ε) :
    totalCost step c s (es ++ es') =
      totalCost step c s es + totalCost step c (runFrom step s es) es' := by
  induction es generalizing s with
  | nil => simp
  | cons e es ih => simp [ih, Nat.add_assoc]

lemma totalCost_one (s : σ) (es : List ε) : totalCost step (fun _ _ => 1) s es = es.length := by
  induction es generalizing s with
  | nil => rfl
  | cons e es ih => rw [totalCost_cons, ih, length_cons, Nat.add_comm]

/-- A condition holds along a run when it holds at each of its events. -/
theorem along_iff_forall_split :
    Along step P s es ↔ ∀ pre e post, es = pre ++ e :: post → P (runFrom step s pre) e := by
  constructor
  · rintro h pre e post rfl
    exact (along_append.mp h).2.1
  · intro h
    induction es generalizing s with
    | nil => trivial
    | cons e es ih =>
      refine ⟨h [] e es rfl, ih fun pre e' post hes => ?_⟩
      exact h (e :: pre) e' post (by rw [hes]; rfl)

lemma totalCost_eq_zero_iff :
    totalCost step c s es = 0 ↔ Along step (fun s e => c s e = 0) s es := by
  induction es generalizing s with
  | nil => simp
  | cons e es ih => rw [totalCost_cons, along_cons, Nat.add_eq_zero_iff, ih]

/-- If an event costs nothing or a price, a run costs at most the price iff after an event
that costs no other one does. -/
theorem totalCost_le_iff_once {b : ℕ} (hb : 0 < b) (hc : ∀ s e, c s e = 0 ∨ c s e = b) :
    totalCost step c s es ≤ b ↔ ∀ pre e rest, es = pre ++ e :: rest →
      c (runFrom step s pre) e ≠ 0 →
        Along step (fun s e => c s e = 0) (step (runFrom step s pre) e) rest := by
  induction es generalizing s with
  | nil =>
    refine iff_of_true (Nat.zero_le _) fun pre e rest hes => ?_
    exact absurd hes.symm (by simp)
  | cons e es ih =>
    rw [totalCost_cons]
    rcases hc s e with hzero | hprice
    · rw [hzero, Nat.zero_add, ih]
      constructor
      · intro h pre e' rest hes hne
        cases pre with
        | nil =>
          cases hes
          exact absurd hzero hne
        | cons e₀ pre =>
          cases hes
          exact h pre e' rest rfl hne
      · intro h pre e' rest hes hne
        exact h (e :: pre) e' rest (by rw [hes]; rfl) hne
    · have hrest : c s e + totalCost step c (step s e) es ≤ b ↔
          Along step (fun s e => c s e = 0) (step s e) es := by
        rw [hprice, ← totalCost_eq_zero_iff]
        omega
      rw [hrest]
      constructor
      · intro h pre e' rest hes hne
        cases pre with
        | nil =>
          cases hes
          exact h
        | cons e₀ pre =>
          cases hes
          exact absurd (along_append.mp h).2.1 hne
      · intro h
        exact h [] e es rfl (by rw [runFrom_nil, hprice]; omega)

lemma Along.mono (hPQ : ∀ s e, P s e → Q s e) (h : Along step P s es) : Along step Q s es := by
  induction es generalizing s with
  | nil => trivial
  | cons e es ih => exact ⟨hPQ s e h.1, ih h.2⟩

lemma along_of_forall_mem (h : ∀ e ∈ es, ∀ s, P s e) : Along step P s es := by
  induction es generalizing s with
  | nil => trivial
  | cons e es ih =>
    exact ⟨h e mem_cons_self s, ih fun e' he' => h e' (mem_cons_of_mem _ he')⟩

/-- The invariant rule: what every event that meets the condition keeps holds after the run. -/
theorem Along.keeps (hstep : ∀ s e, I s → P s e → I (step s e)) (h : I s) (hP : Along step P s es) :
    I (runFrom step s es) := by
  induction es generalizing s with
  | nil => exact h
  | cons e es ih => exact ih (hstep s e h hP.1) hP.2

/-- What holds at every step in states that meet an invariant holds along runs. -/
theorem Along.imp_of_keeps (hstep : ∀ s e, I s → P s e → I (step s e))
    (hQ : ∀ s e, I s → P s e → Q s e) (h : I s) (hP : Along step P s es) : Along step Q s es := by
  induction es generalizing s with
  | nil => trivial
  | cons e es ih => exact ⟨hQ s e h hP.1, ih (hstep s e h hP.1) hP.2⟩

theorem runFrom_keeps (hstep : ∀ s e, I s → I (step s e)) (h : I s) (es : List ε) :
    I (runFrom step s es) := by
  induction es generalizing s with
  | nil => exact h
  | cons e es ih => exact ih (hstep s e h)

/-- What holds at every step in states that meet an invariant of all steps holds along every run. -/
theorem along_of_keeps (hstep : ∀ s e, I s → I (step s e)) (hQ : ∀ s e, I s → Q s e) (h : I s)
    (es : List ε) : Along step Q s es := by
  induction es generalizing s with
  | nil => trivial
  | cons e es ih => exact ⟨hQ s e h, ih (hstep s e h)⟩

/-- A property that comes back at no step, and is lost exactly at the steps that miss a condition, is
left after a run iff it held before and the condition holds along the run. -/
theorem runFrom_iff_along (hI : ∀ s e, I s → I (step s e))
    (hstep : ∀ s e, I s → (J (step s e) ↔ J s ∧ P s e)) (h : I s) (es : List ε) :
    J (runFrom step s es) ↔ J s ∧ Along step P s es := by
  induction es generalizing s with
  | nil => exact (and_iff_left trivial).symm
  | cons e es ih => rw [runFrom_cons, ih (hI s e h), hstep s e h, along_cons, and_assoc]

/-- In a run whose events meet `N`, conditions that are the same in states that meet an invariant
are the same along the run. -/
theorem along_congr_of_keeps (hstep : ∀ s e, I s → N s e → I (step s e))
    (hPQ : ∀ s e, I s → N s e → (P s e ↔ Q s e)) (h : I s) (hN : Along step N s es) :
    Along step P s es ↔ Along step Q s es := by
  induction es generalizing s with
  | nil => exact Iff.rfl
  | cons e es ih => exact and_congr (hPQ s e h hN.1) (ih (hstep s e h hN.1) hN.2)

/-- In a run whose events meet `N`, a property whose preservation by a step is a condition on the
step holds all along iff the condition does. The invariant has to be kept only as long as
the property is. -/
theorem Along.forall_prefix_iff (hI : ∀ s e, I s → N s e → J (step s e) → I (step s e))
    (hstep : ∀ s e, I s → N s e → J s → (J (step s e) ↔ P s e)) (hN : Along step N s es) (h : I s)
    (hs : J s) : (∀ pre, pre <+: es → J (runFrom step s pre)) ↔ Along step P s es := by
  induction es generalizing s with
  | nil =>
    refine ⟨fun _ => trivial, fun _ pre hpre => ?_⟩
    rw [prefix_nil.mp hpre]
    exact hs
  | cons e es ih =>
    have hnextI := hI s e h hN.1
    constructor
    · intro hall
      have hnext : J (step s e) := hall [e] (cons_prefix_cons.mpr ⟨rfl, List.nil_prefix⟩)
      refine ⟨(hstep s e h hN.1 hs).mp hnext, (ih hN.2 (hnextI hnext) hnext).mp fun pre hpre => ?_⟩
      exact hall (e :: pre) (cons_prefix_cons.mpr ⟨rfl, hpre⟩)
    · rintro ⟨hP, halong⟩ pre hpre
      cases pre with
      | nil => exact hs
      | cons e' pre =>
        obtain ⟨rfl, hrest⟩ := cons_prefix_cons.mp hpre
        have hnext := (hstep s e' h hN.1 hs).mpr hP
        exact (ih hN.2 (hnextI hnext) hnext).mpr halong pre hrest

/-- A property whose preservation by a step is a condition on the step holds all along a run exactly
when the condition does. -/
theorem forall_prefix_iff_along (hI : ∀ s e, I s → I (step s e))
    (hstep : ∀ s e, I s → J s → (J (step s e) ↔ P s e)) (h : I s) (hs : J s) :
    (∀ pre, pre <+: es → J (runFrom step s pre)) ↔ Along step P s es :=
  Along.forall_prefix_iff (N := fun _ _ => True) (fun s e h _ _ => hI s e h)
    (fun s e h _ => hstep s e h) (along_of_forall_mem fun _ _ _ => trivial) h hs

section Budget

variable {c : σ → ε → ℕ} {B : ℕ} {I : ℕ → σ → Prop} {P : σ → ε → Prop}

/-- The invariant rule for runs with a budget: `I n s` speaks of a state reached at cost `n`. -/
theorem Along.invariant
    (hstep : ∀ n s e, I n s → P s e → n + c s e < B → I (n + c s e) (step s e))
    {n : ℕ} {s : σ} {es : List ε} (h : I n s) (hP : Along step P s es)
    (hB : n + totalCost step c s es < B) :
    I (n + totalCost step c s es) (runFrom step s es) := by
  induction es generalizing n s with
  | nil => exact h
  | cons e es ih =>
    rw [totalCost_cons, ← Nat.add_assoc] at hB ⊢
    exact ih (hstep n s e h hP.1 (by omega)) hP.2 hB

/-- What holds at every step in states that meet an invariant holds along runs with a budget. -/
theorem Along.imp_of_invariant {Q : σ → ε → Prop}
    (hstep : ∀ n s e, I n s → P s e → n + c s e < B → I (n + c s e) (step s e))
    (hQ : ∀ n s e, I n s → P s e → n + c s e < B → Q s e)
    {n : ℕ} {s : σ} {es : List ε} (h : I n s) (hP : Along step P s es)
    (hB : n + totalCost step c s es < B) : Along step Q s es := by
  induction es generalizing n s with
  | nil => trivial
  | cons e es ih =>
    rw [totalCost_cons, ← Nat.add_assoc] at hB
    exact ⟨hQ n s e h hP.1 (by omega), ih (hstep n s e h hP.1 (by omega)) hP.2 hB⟩

end Budget

lemma getElem?_append_singleton_iff {α : Type*} {l : List α} {a b : α} {i : ℕ} :
    (l ++ [a])[i]? = some b ↔ l[i]? = some b ∨ i = l.length ∧ b = a := by
  rcases Nat.lt_trichotomy i l.length with h | h | h
  · rw [List.getElem?_append_left h]
    simp [h.ne]
  · subst h
    simp [eq_comm]
  · have hlen : (l ++ [a]).length ≤ i := by simpa using h
    rw [List.getElem?_eq_none hlen, List.getElem?_eq_none h.le]
    simp [h.ne']

end Foundation
