import Mathlib

/-!
# Loops

A loop with state `σ` runs its body until the body returns. `loop body n` runs it for at most `n`
rounds; `Returns` says that some number of rounds is enough. The rules below do a round at a time,
so that proofs about a loop never count rounds, and `exists_returns` is the termination rule.
`rounds` looks at a loop while it is running; `rounds_invariant` is the invariant rule.

A loop over a map meets its keys in any order (`Traversal`).
-/

namespace Foundation

variable {σ ρ : Type*}

/-- Run a loop for at most `n` rounds. The body goes on with a new state or returns. -/
def loop (body : σ → σ ⊕ ρ) : ℕ → σ → Option ρ
  | 0, _ => none
  | n + 1, s =>
    match body s with
    | .inl s' => loop body n s'
    | .inr r => some r

def rounds (body : σ → σ ⊕ ρ) : ℕ → σ → σ ⊕ ρ
  | 0, s => .inl s
  | n + 1, s =>
    match body s with
    | .inl s' => rounds body n s'
    | .inr r => .inr r

def Returns (body : σ → σ ⊕ ρ) (s : σ) (r : ρ) : Prop := ∃ n, loop body n s = some r

variable {body : σ → σ ⊕ ρ} {s s' : σ} {r r' : ρ}

lemma loop_succ_inl (h : body s = .inl s') (n : ℕ) : loop body (n + 1) s = loop body n s' := by
  rw [loop, h]

lemma loop_succ_inr (h : body s = .inr r) (n : ℕ) : loop body (n + 1) s = some r := by
  rw [loop, h]

lemma returns_iff_of_inl (h : body s = .inl s') : Returns body s r ↔ Returns body s' r := by
  constructor
  · rintro ⟨n, hn⟩
    cases n with
    | zero => cases hn
    | succ n => exact ⟨n, (loop_succ_inl h n).symm.trans hn⟩
  · rintro ⟨n, hn⟩
    exact ⟨n + 1, (loop_succ_inl h n).trans hn⟩

lemma returns_iff_of_inr (h : body s = .inr r') : Returns body s r ↔ r' = r := by
  constructor
  · rintro ⟨n, hn⟩
    cases n with
    | zero => cases hn
    | succ n => exact Option.some.inj ((loop_succ_inr h n).symm.trans hn)
  · rintro rfl
    exact ⟨1, loop_succ_inr h 0⟩

variable {n : ℕ} {I : σ → Prop}

lemma rounds_eq_inr_iff : rounds body n s = .inr r ↔ loop body n s = some r := by
  induction n generalizing s with
  | zero => simp [rounds, loop]
  | succ n ih =>
    rw [rounds, loop]
    cases body s with
    | inl s' => exact ih
    | inr r' => simp

/-- The invariant rule: what every round keeps holds as long as the loop goes on, and what a round
then returns meets the condition on results. -/
theorem rounds_invariant {Q : ρ → Prop} (hstep : ∀ s s', I s → body s = .inl s' → I s')
    (hreturn : ∀ s r, I s → body s = .inr r → Q r) (h : I s) (n : ℕ) :
    (rounds body n s).elim I Q := by
  induction n generalizing s with
  | zero => exact h
  | succ n ih =>
    rw [rounds]
    cases hb : body s with
    | inl s' => exact ih (hstep s s' h hb)
    | inr r => exact hreturn s r h hb

/-- The termination rule: `I n s` bounds the number of rounds that are left by `n`. -/
theorem exists_returns {I : ℕ → σ → Prop}
    (hround : ∀ n s s', I n s → body s = .inl s' → ∃ m < n, I m s') (h : I n s) :
    ∃ r, Returns body s r := by
  induction n using Nat.strong_induction_on generalizing s with
  | _ n ih =>
    cases hb : body s with
    | inr r => exact ⟨r, (returns_iff_of_inr hb).mpr rfl⟩
    | inl s' =>
      obtain ⟨m, hm, hI⟩ := hround n s s' h hb
      obtain ⟨r, hr⟩ := ih m hm hI
      exact ⟨r, (returns_iff_of_inl hb).mpr hr⟩

/-- A loop whose rounds lower a measure returns after as many rounds as the measure says. -/
theorem exists_loop_eq_some (μ : σ → ℕ) (hround : ∀ s s', body s = .inl s' → μ s' < μ s)
    (h : μ s < n) : ∃ r, loop body n s = some r := by
  induction n generalizing s with
  | zero => exact absurd h (Nat.not_lt_zero _)
  | succ n ih =>
    cases hb : body s with
    | inr r => exact ⟨r, loop_succ_inr hb n⟩
    | inl s' =>
      obtain ⟨r, hr⟩ := ih (Nat.lt_of_lt_of_le (hround s s' hb) (Nat.lt_succ_iff.mp h))
      exact ⟨r, (loop_succ_inl hb n).trans hr⟩

/-- A loop that always goes on from the states of `I` does not return from them. -/
theorem loop_eq_none (hround : ∀ s, I s → ∃ s', body s = .inl s' ∧ I s') (h : I s) (n : ℕ) :
    loop body n s = none := by
  induction n generalizing s with
  | zero => rfl
  | succ n ih =>
    obtain ⟨s', hs', hI⟩ := hround s h
    rw [loop_succ_inl hs', ih hI]

section Map

variable {σ' ρ' : Type*} {body' : σ' → σ' ⊕ ρ'} {f : σ → σ'} {g : ρ → ρ'}

variable (hround : ∀ s, body' (f s) = (body s).map f g)
include hround

/-- A loop whose rounds are those of another one, seen through `f` and `g`. -/
theorem rounds_map (n : ℕ) (s : σ) : rounds body' n (f s) = (rounds body n s).map f g := by
  induction n generalizing s with
  | zero => rfl
  | succ n ih =>
    rw [rounds, rounds, hround]
    rcases body s with s' | r
    · exact ih s'
    · rfl

theorem returns_map_iff {r' : ρ'} : Returns body' (f s) r' ↔ ∃ r, Returns body s r ∧ g r = r' := by
  have hloop : ∀ n, loop body' n (f s) = some r' ↔ ∃ r, loop body n s = some r ∧ g r = r' := by
    intro n
    rw [← rounds_eq_inr_iff, rounds_map hround]
    simp only [← rounds_eq_inr_iff]
    rcases rounds body n s with s' | r
    · simp
    · simp
  constructor
  · rintro ⟨n, hn⟩
    obtain ⟨r, hr, hg⟩ := (hloop n).mp hn
    exact ⟨r, ⟨n, hr⟩, hg⟩
  · rintro ⟨r, ⟨n, hr⟩, hg⟩
    exact ⟨n, (hloop n).mpr ⟨r, hr, hg⟩⟩

end Map

/-- Two loops do the same from the states on which their bodies agree. -/
theorem loop_congr {body' : σ → σ ⊕ ρ}
    (hround : ∀ s, I s → body' s = body s ∧ ∀ s', body s = .inl s' → I s') (h : I s) (n : ℕ) :
    loop body' n s = loop body n s := by
  induction n generalizing s with
  | zero => rfl
  | succ n ih =>
    obtain ⟨heq, hI⟩ := hround s h
    cases hb : body s with
    | inr r => rw [loop_succ_inr hb, loop_succ_inr (heq.trans hb)]
    | inl s' => rw [loop_succ_inl hb, loop_succ_inl (heq.trans hb), ih (hI s' hb)]

/-! ### Maps -/

/-- An order in which a program goes through a map, whose keys are a finite set. -/
structure Traversal (α : Type*) where
  enum : Finset α → List α
  coe_enum : ∀ s, (enum s : Multiset α) = s.val

namespace Traversal

variable {α : Type*} (o : Traversal α)

lemma mem_enum {s : Finset α} {a : α} : a ∈ o.enum s ↔ a ∈ s := by
  rw [← Multiset.mem_coe, o.coe_enum, Finset.mem_val]

lemma nodup_enum (s : Finset α) : (o.enum s).Nodup := by
  rw [← Multiset.coe_nodup, o.coe_enum]
  exact s.nodup

end Traversal

end Foundation
