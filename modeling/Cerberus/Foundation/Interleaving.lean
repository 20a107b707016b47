import Cerberus.Foundation.StoreProgram

/-!
# Procedures amid the writes of others

`StoreProg.execAmid` runs a program while others write to the same store: before every operation of
the program the next list of foreign writes reaches the store. `Proc.runAmid` does the same for
procedures.

A weight on the bindings says what a reader takes from the store. Foreign writes are `Weightless` if
the weight of every key stays what it is after each of them.
-/

namespace Foundation

namespace Write

variable {L K V : Type} [LinearOrder K] {f : K → V → ℕ} {m : OrdMap K V}

lemma sum_apply (f : K → V → ℕ) (x : Write L K V) (m : OrdMap K V) :
    (x.apply m).sum f + m.weightAt f x.key = m.sum f + (x.apply m).weightAt f x.key := by
  have hget := x.get?_apply m x.key
  rw [if_pos rfl] at hget
  rw [OrdMap.weightAt.eq_def f (x.apply m), hget]
  obtain ⟨site, k, v | v⟩ := x
  · exact OrdMap.sum_delete f m k
  · exact OrdMap.sum_put f m k v

lemma weightAt_apply_of_ne (x : Write L K V) (m : OrdMap K V) {k : K} (h : k ≠ x.key) :
    (x.apply m).weightAt f k = m.weightAt f k := by
  rw [OrdMap.weightAt, get?_apply, if_neg h, OrdMap.weightAt]

/-- None of the writes changes the weight of a key. -/
def Weightless (f : K → V → ℕ) (ws : List (Write L K V)) (m : OrdMap K V) : Prop :=
  ∀ pre, pre <+: ws → ∀ k, (applyAll pre m).weightAt f k = m.weightAt f k

namespace Weightless

variable {ws ws' : List (Write L K V)}

section

variable (h : Weightless f (ws ++ ws') m)
include h

lemma weightAt_eq (k : K) : (applyAll ws m).weightAt f k = m.weightAt f k :=
  h ws (List.prefix_append ws ws') k

lemma right : Weightless f ws' (applyAll ws m) := by
  intro pre hpre k
  rw [← applyAll_append, h (ws ++ pre) ((List.prefix_append_right_inj ws).mpr hpre) k,
    h.weightAt_eq k]

lemma sum_eq : (applyAll ws m).sum f = m.sum f := by
  induction ws generalizing m with
  | nil => rfl
  | cons x ws ih =>
    have hfirst : Weightless f ([x] ++ (ws ++ ws')) m := h
    have hkey : (x.apply m).weightAt f x.key = m.weightAt f x.key := hfirst.weightAt_eq x.key
    have hrest : (applyAll ws (x.apply m)).sum f = (x.apply m).sum f := ih hfirst.right
    have htrade := sum_apply f x m
    rw [applyAll, hrest]
    omega

end

lemma of_prefix (h : Weightless f ws' m) (hws : ws <+: ws') : Weightless f ws m :=
  fun pre hpre => h pre (hpre.trans hws)

/-- If the weights are below a bound, writes that leave their sum alone modulo the bound are
weightless. -/
theorem of_sum_mod {N : ℕ} (hf : ∀ k v, f k v < N)
    (h : ∀ pre, pre <+: ws → (applyAll pre m).sum f % N = m.sum f % N) : Weightless f ws m := by
  have hlt (m' : OrdMap K V) (k : K) (hN : 0 < N) : m'.weightAt f k < N := by
    unfold OrdMap.weightAt
    cases m'.get? k with
    | none => exact hN
    | some v => exact hf k v
  induction ws generalizing m with
  | nil =>
    intro pre hpre k
    rw [List.prefix_nil.mp hpre]
    rfl
  | cons x ws ih =>
    -- the first write changes one weight, and the sum by the difference
    have hfirst : (x.apply m).sum f % N = m.sum f % N := h [x] ⟨ws, rfl⟩
    have hkey : (x.apply m).weightAt f x.key = m.weightAt f x.key := by
      have htrade := sum_apply f x m
      rcases Nat.eq_zero_or_pos N with rfl | hN
      · rw [Nat.mod_zero, Nat.mod_zero] at hfirst
        omega
      · have hmod : m.weightAt f x.key ≡ (x.apply m).weightAt f x.key [MOD N] :=
          Nat.ModEq.add_left_cancel hfirst (by rw [htrade])
        exact (hmod.eq_of_lt_of_lt (hlt _ _ hN) (hlt _ _ hN)).symm
    have hsame (k : K) : (x.apply m).weightAt f k = m.weightAt f k := by
      by_cases hk : k = x.key
      · rw [hk, hkey]
      · exact weightAt_apply_of_ne x m hk
    have hrest : Weightless f ws (x.apply m) := by
      refine ih fun pre hpre => ?_
      have hcons : x :: pre <+: x :: ws := (List.prefix_cons_inj x).mpr hpre
      exact (h _ hcons).trans hfirst.symm
    intro pre hpre k
    rcases List.prefix_cons_iff.mp hpre with rfl | ⟨pre', rfl, hpre'⟩
    · rfl
    · exact (hrest pre' hpre' k).trans (hsame k)

end Weightless

end Write

namespace StoreProg

variable {L L' E K V α β : Type} [LinearOrder K]

/-- Run a program on a store whose operations do not fail, amid the writes of others: before each
operation the next list of foreign writes is applied. The lists that are left come back. -/
def execAmid : StoreProg L E K V α → List (List (Write L' K V)) → OrdMap K V →
    α × List (List (Write L' K V)) × OrdMap K V
  | ret a, others, m => (a, others, m)
  | get k next, others, m =>
    let m := Write.applyAll (others.headD []) m
    (next (.ok (m.get? k))).execAmid others.tail m
  | keys next, others, m =>
    let m := Write.applyAll (others.headD []) m
    (next (.ok m.keys)).execAmid others.tail m
  | put _ k v next, others, m =>
    let m := Write.applyAll (others.headD []) m
    (next (.ok ())).execAmid others.tail (m.put k v)
  | delete _ k next, others, m =>
    let m := Write.applyAll (others.headD []) m
    (next (.ok ())).execAmid others.tail (m.delete k)

lemma execAmid_bind (p : StoreProg L E K V α) (f : α → StoreProg L E K V β)
    (others : List (List (Write L' K V))) (m : OrdMap K V) :
    (p.bind f).execAmid others m =
      (f (p.execAmid others m).1).execAmid (p.execAmid others m).2.1 (p.execAmid others m).2.2 := by
  induction p generalizing others m with
  | ret a => rfl
  | get k next ih => exact ih _ _ _
  | keys next ih => exact ih _ _ _
  | put s k v next ih => exact ih _ _ _
  | delete s k next ih => exact ih _ _ _

lemma execAmid_nil (p : StoreProg L E K V α) (m : OrdMap K V) :
    p.execAmid ([] : List (List (Write L' K V))) m = ((p.exec m).1, [], (p.exec m).2) := by
  induction p generalizing m with
  | ret a => rfl
  | get k next ih => exact ih _ _
  | keys next ih => exact ih _ _
  | put s k v next ih => exact ih _ _
  | delete s k next ih => exact ih _ _

end StoreProg

/-- The world after the foreign writes that come before the next operation. -/
def World.disturbed {σ L K V : Type} [LinearOrder K] (w : World σ K V)
    (others : List (List (Write L K V))) : World σ K V :=
  ⟨w.mem, Write.applyAll (others.headD []) w.store⟩

namespace Write.Weightless

variable {σ L K V : Type} [LinearOrder K] {f : K → V → ℕ} {others : List (List (Write L K V))}
  {w : World σ K V}

variable (h : Weightless f others.flatten w.store)
include h

lemma cut : Weightless f (others.headD [] ++ others.tail.flatten) w.store := by
  cases others with
  | nil => exact h
  | cons ws others => exact h

lemma weightAt_disturbed : (w.disturbed others).store.weightAt f = w.store.weightAt f :=
  funext h.cut.weightAt_eq

lemma sum_disturbed : (w.disturbed others).store.sum f = w.store.sum f :=
  h.cut.sum_eq

lemma tail : Weightless f others.tail.flatten (w.disturbed others).store :=
  h.cut.right

end Write.Weightless

namespace Proc

variable {σ ε L L' E K V α β : Type} [LinearOrder K]

def runAmid (p : Proc σ ε L E K V α) (others : List (List (Write L' K V))) (w : World σ K V) :
    Except ε α × List (List (Write L' K V)) × World σ K V :=
  let r := (p w.mem).execAmid others w.store
  (r.1.1, r.2.1, ⟨r.1.2, r.2.2⟩)

variable (others : List (List (Write L' K V))) (w : World σ K V)

@[simp] lemma runAmid_pure (a : α) :
    (pure a : Proc σ ε L E K V α).runAmid others w = (.ok a, others, w) := rfl

@[simp] lemma runAmid_getKey (inj : E → ε) (k : K) :
    (getKey inj k : Proc σ ε L E K V (Option V)).runAmid others w =
      (.ok ((w.disturbed others).store.get? k), others.tail, w.disturbed others) := rfl

@[simp] lemma runAmid_listKeys (inj : E → ε) :
    (listKeys inj : Proc σ ε L E K V (List K)).runAmid others w =
      (.ok (w.disturbed others).store.keys, others.tail, w.disturbed others) := rfl

lemma runAmid_bind (p : Proc σ ε L E K V α) (f : α → Proc σ ε L E K V β) :
    (p >>= f).runAmid others w =
      match p.runAmid others w with
      | (.ok a, others', w') => (f a).runAmid others' w'
      | (.error e, others', w') => (.error e, others', w') := by
  change runAmid (andThen p f) others w = _
  unfold andThen runAmid
  rw [StoreProg.execAmid_bind]
  rcases (p w.mem).execAmid others w.store with ⟨⟨e | a, s'⟩, others', m'⟩ <;> rfl

lemma runAmid_nil (p : Proc σ ε L E K V α) :
    p.runAmid ([] : List (List (Write L' K V))) w = ((p.run w).1, [], (p.run w).2) := by
  unfold runAmid
  rw [StoreProg.execAmid_nil]
  rfl

end Proc

end Foundation
