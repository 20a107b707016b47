import Mathlib

/-!
# Procedures that may fail

`Fallible σ ε` is the monad of procedures over a state `σ` that may end with an error. What has been
done to the state before an error stays done. `exec` runs a procedure; it is computed from the
operations by the lemmas of this file.
-/

namespace Foundation

/-- Procedures over a state that may end with an error; the state survives the error. -/
abbrev Fallible (σ ε : Type) := ExceptT ε (StateM σ)

namespace Fallible

variable {σ ε α β : Type}

def exec (p : Fallible σ ε α) (s : σ) : Except ε α × σ := StateT.run (ExceptT.run p) s

variable (s : σ)

@[simp] lemma exec_pure (a : α) : exec (pure a : Fallible σ ε α) s = (.ok a, s) := rfl

@[simp] lemma exec_throw (e : ε) : exec (throw e : Fallible σ ε α) s = (.error e, s) := rfl

@[simp] lemma exec_get : exec (get : Fallible σ ε σ) s = (.ok s, s) := rfl

@[simp] lemma exec_set (t : σ) : exec (set t : Fallible σ ε PUnit) s = (.ok ⟨⟩, t) := rfl

@[simp] lemma exec_modify (f : σ → σ) :
    exec (modify f : Fallible σ ε PUnit) s = (.ok ⟨⟩, f s) := rfl

lemma exec_bind (p : Fallible σ ε α) (f : α → Fallible σ ε β) : exec (p >>= f) s =
    match exec p s with
    | (.ok a, t) => exec (f a) t
    | (.error e, t) => (.error e, t) := by
  change StateT.run (ExceptT.run p >>= ExceptT.bindCont f) s = _
  rw [StateT.run_bind]
  unfold exec
  rcases StateT.run (ExceptT.run p) s with ⟨e | a, t⟩ <;> rfl

@[simp] lemma exec_map (f : α → β) (p : Fallible σ ε α) :
    exec (f <$> p) s = ((exec p s).1.map f, (exec p s).2) := by
  rw [← bind_pure_comp, exec_bind]
  rcases exec p s with ⟨e | a, t⟩ <;> rfl

end Fallible

lemma ite_error_eq_ok_iff {ε α : Type*} {p : Prop} [Decidable p] {e : ε} {r : Except ε α} {a : α} :
    (if p then .error e else r) = .ok a ↔ ¬ p ∧ r = .ok a := by
  split_ifs with h
  · exact ⟨fun habs => (nomatch habs), fun habs => absurd h habs.1⟩
  · exact ⟨fun hr => ⟨h, hr⟩, And.right⟩

end Foundation
