import Cerberus.Crdt.Model
import Cerberus.Foundation.Frontier

/-!
# Clocks and registers

What the operations on clocks and registers compute: a merge of clocks is the counterwise maximum,
clocks without zero counters are ordered strictly by `happensBefore`, and a register takes writes in
as a frontier does, up to the order of the list.

`History` says how a register came about. If no clock has a zero counter, the register holds the
frontier of all writes that went into it (`register_frontier`).
-/

namespace Cerberus.Crdt

open Foundation List

open Kernel (Text)

namespace VectorClock

variable {c d e : VectorClock}

@[simp] lemma count_merge (c d : VectorClock) (a : Text) :
    Clock.count (c.merge d) a = max (c.count a) (d.count a) := by
  refine Clock.count_foldl (fun c a v b => ?_) c d a
  have hlt : c.get a < v ↔ c.count a < v.toNat := UInt64.lt_iff_toNat_lt
  rw [raise, Clock.count_put]
  split_ifs with hb h
  · exact (max_eq_right (hlt.mp h).le).symm
  · exact (max_eq_left (not_lt.mp (mt hlt.mpr h))).symm
  · rfl

lemma positive_merge (hc : c.Positive) (hd : d.Positive) : Clock.Positive (c.merge d) := by
  refine Clock.Positive.foldl (fun c a v hv hc => hc.put ?_) hc hd
  split_ifs with h
  · exact hv
  · -- a counter that is not below a positive one is positive
    intro h0
    rw [h0, UInt64.not_lt, UInt64.le_iff_toNat_le] at h
    exact hv (UInt64.toNat_inj.mp (Nat.le_zero.mp h))

lemma happensBefore_iff (hc : c.Positive) (hd : d.Positive) :
    c.happensBefore d = true ↔ c.Precedes d := by
  rw [happensBefore, Bool.and_eq_true, decide_eq_true_eq, Clock.precedes_iff_of_positive hc hd]

lemma count_foldl_merge {l : List Dot} {a : Text} {n : ℕ} (hc : c.count a = n)
    (hl : ∀ d ∈ l, d.clock.count a ≤ n) :
    Clock.count (l.foldl (fun ctx dot => VectorClock.merge ctx dot.clock) c) a = n := by
  induction l generalizing c with
  | nil => exact hc
  | cons d l ih =>
    refine ih ?_ fun e he => hl e (mem_cons_of_mem _ he)
    rw [count_merge, hc]
    exact max_eq_left (hl d mem_cons_self)

lemma positive_foldl_merge {l : List Dot} (hc : c.Positive)
    (hl : ∀ d ∈ l, d.clock.Positive) :
    Clock.Positive (l.foldl (fun ctx dot => VectorClock.merge ctx dot.clock) c) := by
  induction l generalizing c with
  | nil => exact hc
  | cons d l ih =>
    refine ih ?_ fun e he => hl e (mem_cons_of_mem _ he)
    exact positive_merge hc (hl d mem_cons_self)

end VectorClock

/-! ### The order of writes -/

/-- The causal order of writes. -/
def Dot.before (d e : Dot) : Bool := d.clock.happensBefore e.clock

lemma Dot.before_iff {d e : Dot} (hd : d.clock.Positive) (he : e.clock.Positive) :
    d.before e = true ↔ d.clock.Precedes e.clock := VectorClock.happensBefore_iff hd he

lemma Dot.strictOn_before : StrictOn Dot.before {d | d.clock.Positive} where
  irrefl _ hd := Bool.eq_false_of_not_eq_true fun h =>
    Clock.not_precedes_self _ ((before_iff hd hd).mp h)
  trans _ hd _ he _ hf hde hef :=
    (before_iff hd hf).mpr (((before_iff hd he).mp hde).trans ((before_iff he hf).mp hef))

/-! ### Registers -/

namespace MvRegister

lemma absorb_perm (reg : MvRegister) (d : Dot) :
    (reg.absorb d).dots.Perm (Frontier.absorb Dot.before reg.dots d) := by
  have hany : (reg.dots.any fun e => d.clock.happensBefore e.clock ||
      (d.clock = e.clock && d.actor = e.actor && d.value = e.value)) = true ↔
      ∃ e ∈ reg.dots, Dot.before d e = true ∨ d = e := by
    simp [Dot.before, Dot.ext_iff, and_comm, and_left_comm]
  rw [absorb, Frontier.absorb]
  by_cases h : ∃ e ∈ reg.dots, Dot.before d e = true ∨ d = e
  · rw [if_pos (hany.mpr h), if_pos h]
  · -- a write that is not known is not among those kept
    have hkept : ¬ ((reg.dots.filter fun e => !e.clock.happensBefore d.clock).any (· = d)) =
        true := by
      rw [any_eq_true]
      rintro ⟨e, he, hed⟩
      exact h ⟨e, mem_of_mem_filter he, .inr (of_decide_eq_true hed).symm⟩
    rw [if_neg (mt hany.mp h), if_neg h]
    simp only [if_neg hkept]
    exact KeySort.perm _ _

variable {reg : MvRegister} {d d' : Dot} {l : List Dot} {v : Text}

lemma mem_of_mem_absorb {ex : Dot} (h : ex ∈ (reg.absorb d).dots) : ex ∈ reg.dots ∨ ex = d := by
  rw [absorb] at h
  split at h
  · exact .inl h
  · rw [KeySort.mem_sort] at h
    split at h
    · exact .inl (mem_of_mem_filter h)
    · exact (mem_append.mp h).imp mem_of_mem_filter mem_singleton.mp

lemma absorb_sorted (reg : MvRegister) (h : SortedBy Dot.sortKey reg.dots) (d : Dot) :
    SortedBy Dot.sortKey (reg.absorb d).dots := by
  rw [absorb]
  split
  · exact h
  · exact (KeySort.insertion Dot.sortKey).sorted _

lemma absorb_ne_nil (reg : MvRegister) (d : Dot) : (reg.absorb d).dots ≠ [] := by
  intro h
  have hp := absorb_perm reg d
  rw [h, nil_perm, Frontier.absorb] at hp
  split_ifs at hp with hd
  · obtain ⟨e, he, -⟩ := hd
    rw [hp] at he
    exact absurd he not_mem_nil
  · simp at hp

lemma foldl_absorb_sorted (reg : MvRegister) (h : SortedBy Dot.sortKey reg.dots) (l : List Dot) :
    SortedBy Dot.sortKey (l.foldl absorb reg).dots := by
  induction l generalizing reg with
  | nil => exact h
  | cons d l ih => exact ih _ (absorb_sorted reg h d)

lemma foldl_absorb_ne_nil (h : reg.dots ≠ [] ∨ l ≠ []) : (l.foldl absorb reg).dots ≠ [] := by
  induction l generalizing reg with
  | nil => exact h.resolve_right (not_not.mpr rfl)
  | cons d l ih => exact ih (.inl (absorb_ne_nil reg d))

/-! ### What is read from a register -/

variable {reg : MvRegister}

lemma one_lt_length_destutter' (v : Text) (l : List Text) :
    1 < (l.destutter' (· ≠ ·) v).length ↔ ∃ w ∈ l, w ≠ v := by
  induction l with
  | nil => simp
  | cons w l ih =>
    by_cases h : v = w
    · rw [List.destutter'_cons_neg _ (not_not.mpr h), ih]
      simp [h]
    · rw [List.destutter'_cons_pos _ h, length_cons]
      refine iff_of_true ?_ ⟨w, mem_cons_self, Ne.symm h⟩
      exact Nat.succ_lt_succ (length_pos_iff.mpr (List.destutter'_ne_nil _ _))

lemma isConflicted_iff :
    reg.isConflicted = true ↔ ∃ d ∈ reg.dots, ∃ d' ∈ reg.dots, d.value ≠ d'.value := by
  rw [isConflicted, decide_eq_true_eq, values]
  cases reg.dots with
  | nil => simp
  | cons d l =>
    rw [map_cons, destutter_cons', one_lt_length_destutter']
    constructor
    · rintro ⟨v, hv, hne⟩
      obtain ⟨d', hd', rfl⟩ := mem_map.mp hv
      exact ⟨d', mem_cons_of_mem _ hd', d, mem_cons_self, hne⟩
    · rintro ⟨d', hd', d'', hd'', hne⟩
      -- one of the two values is not that of the first write
      have hsome : ∃ x ∈ d :: l, x.value ≠ d.value := by
        by_contra hall
        push Not at hall
        exact hne ((hall d' hd').trans (hall d'' hd'').symm)
      obtain ⟨x, hx, hxd⟩ := hsome
      rcases mem_cons.mp hx with rfl | hx
      · exact absurd rfl hxd
      · exact ⟨x.value, mem_map_of_mem hx, hxd⟩

lemma mem_values : v ∈ reg.values ↔ ∃ d ∈ reg.dots, d.value = v := by
  rw [values, mem_destutter_ne, mem_map]

lemma value_eq_of_sortKey_eq (h : d.sortKey = d'.sortKey) : d.value = d'.value :=
  congrArg (fun k => (ofLex k).2) h

lemma value_eq_of_lwwKey_eq (h : d.lwwKey = d'.lwwKey) : d.value = d'.value :=
  congrArg (fun k => (ofLex k).2) h

lemma lwwValue_eq_some_iff : reg.lwwValue = some v ↔
    ∃ d ∈ reg.dots, d.value = v ∧ ∀ ex ∈ reg.dots, ex.lwwKey ≤ d.lwwKey := by
  rw [lwwValue]
  cases hdots : reg.dots with
  | nil => simp
  | cons d l =>
    obtain ⟨hmem, hmax⟩ : l.foldl later d ∈ d :: l ∧
        ∀ x ∈ d :: l, x.lwwKey ≤ (l.foldl later d).lwwKey := by
      refine foldl_choose (fun a b => ?_) l d
      rw [later]
      split_ifs with h
      · exact .inl ⟨rfl, h.le⟩
      · exact .inr ⟨rfl, not_lt.mp h⟩
    constructor
    · intro h
      exact ⟨_, hmem, Option.some.inj h, hmax⟩
    · rintro ⟨d', hd', rfl, hmax'⟩
      exact congrArg some (value_eq_of_lwwKey_eq (le_antisymm (hmax' _ hmem) (hmax _ hd')))

/-! ### How a register came about -/

/-- The writes and merges that a register came about by. -/
inductive History
  | new
  | write (h : History) (actor value : Text) (clock : VectorClock)
  | merge (h other : History)

namespace History

/-- The register that a history ends with. -/
def register : History → MvRegister
  | new => .new
  | write h actor value clock => h.register.write actor value clock
  | merge h other => h.register.merge other.register

/-- All writes that went into the register. -/
def writes : History → List Dot
  | new => []
  | write h actor value clock => h.writes ++ [⟨actor, value, clock⟩]
  | merge h other => h.writes ++ other.writes

/-- No clock that went into the register has a zero counter. -/
def Positive (h : History) : Prop := ∀ d ∈ h.writes, d.clock.Positive

lemma sorted (h : History) : SortedBy Dot.sortKey h.register.dots := by
  induction h with
  | new => exact List.Pairwise.nil
  | write h actor value clock ih => exact absorb_sorted _ ih _
  | merge h other ih _ => exact foldl_absorb_sorted _ ih _

lemma isFrontier {h : History} (hh : h.Positive) :
    IsFrontier Dot.before {d | d ∈ h.writes} h.register.dots := by
  induction h with
  | new =>
    have hset : {d | d ∈ writes new} = ∅ := by simp [writes]
    rw [hset]
    exact IsFrontier.empty
  | write h actor value clock ih =>
    have hset : {d | d ∈ (h.write actor value clock).writes} =
        insert ⟨actor, value, clock⟩ {d | d ∈ h.writes} := by
      ext d
      simp [writes, or_comm]
    rw [hset]
    refine ((ih fun d hd => hh d (mem_append_left _ hd)).absorb ?_).of_perm (absorb_perm _ _)
    exact Dot.strictOn_before.mono (hset ▸ hh)
  | merge h other ih ih' =>
    have hset : {d | d ∈ (h.merge other).writes} = {d | d ∈ h.writes} ∪ {d | d ∈ other.writes} := by
      ext d
      simp [writes]
    rw [hset]
    refine IsFrontier.merge dots absorb_perm (ih fun d hd => hh d (mem_append_left _ hd))
      (ih' fun d hd => hh d (mem_append_right _ hd)) ?_
    exact Dot.strictOn_before.mono (hset ▸ hh)

lemma perm_of_mem_iff {h g : History} (hh : h.Positive) (hw : ∀ d, d ∈ h.writes ↔ d ∈ g.writes) :
    h.register.dots.Perm g.register.dots := by
  have hg : g.Positive := fun d hd => hh d ((hw d).mpr hd)
  have hset : {d | d ∈ g.writes} = {d | d ∈ h.writes} := Set.ext fun d => (hw d).symm
  exact (isFrontier hh).perm (hset ▸ isFrontier hg) (Dot.strictOn_before.mono hh)

lemma Positive.merge {h other : History} (hh : h.Positive) (ho : other.Positive) :
    (h.merge other).Positive := by
  intro d hd
  rcases mem_append.mp hd with hd | hd
  · exact hh d hd
  · exact ho d hd

end History

/-- The register holds exactly the writes that are not before another one of the list, and none of
them is before another one. -/
structure Retains (reg : MvRegister) (l : List Dot) : Prop where
  nodup : reg.dots.Nodup
  frontier : ∀ d, d ∈ reg.dots ↔ d ∈ l ∧ ∀ e ∈ l, ¬ d.clock.Precedes e.clock
  antichain : ∀ d ∈ reg.dots, ∀ e ∈ reg.dots, ¬ d.clock.Precedes e.clock

lemma retains_of_isFrontier (hl : ∀ d ∈ l, d.clock.Positive)
    (h : IsFrontier Dot.before {d | d ∈ l} reg.dots) : reg.Retains l := by
  have hbefore : ∀ d ∈ l, ∀ e ∈ l, Dot.before d e = false ↔ ¬ d.clock.Precedes e.clock := by
    intro d hd e he
    rw [← Dot.before_iff (hl d hd) (hl e he), Bool.not_eq_true]
  refine ⟨h.nodup, fun d => ?_, fun d hd e he => ?_⟩
  · rw [h.mem_iff (Dot.strictOn_before.mono hl)]
    exact and_congr_right fun hd => forall₂_congr fun e he => hbefore d hd e he
  · exact (hbefore d (h.subset d hd) e (h.subset e he)).mp (h.antichain d hd e he)

/-- A register is the frontier of what it absorbed: it retains the writes that are not before
another one, whether they were absorbed from a list or came by writes and merges, and on what is
retained merging is commutative, associative and idempotent. -/
theorem register_frontier :
    (∀ l : List Dot, (∀ d ∈ l, d.clock.Positive) → (l.foldl absorb new).Retains l) ∧
    (∀ h : History, h.Positive → h.register.Retains h.writes) ∧
    ∀ h₁ h₂ h₃ : History, h₁.Positive → h₂.Positive → h₃.Positive →
      (h₁.register.merge h₂.register).dots.Perm (h₂.register.merge h₁.register).dots ∧
      ((h₁.register.merge h₂.register).merge h₃.register).dots.Perm
        (h₁.register.merge (h₂.register.merge h₃.register)).dots ∧
      (h₁.register.merge h₁.register).dots.Perm h₁.register.dots := by
  refine ⟨fun l hl => ?_, fun h hh => ?_, fun h₁ h₂ h₃ hh₁ hh₂ hh₃ => ⟨?_, ?_, ?_⟩⟩
  · have hstrict : StrictOn Dot.before (∅ ∪ {d | d ∈ l}) := by
      rw [Set.empty_union]
      exact Dot.strictOn_before.mono hl
    have hfold := IsFrontier.empty.foldl_absorb dots absorb_perm (r := new) hstrict
    rw [Set.empty_union] at hfold
    exact retains_of_isFrontier hl hfold
  · exact retains_of_isFrontier hh (History.isFrontier hh)
  · refine History.perm_of_mem_iff (h := h₁.merge h₂) (g := h₂.merge h₁) (hh₁.merge hh₂) fun d => ?_
    simp [History.writes, or_comm]
  · refine History.perm_of_mem_iff (h := (h₁.merge h₂).merge h₃) (g := h₁.merge (h₂.merge h₃))
      ((hh₁.merge hh₂).merge hh₃) fun d => ?_
    simp [History.writes]
  · refine History.perm_of_mem_iff (h := h₁.merge h₁) (g := h₁) (hh₁.merge hh₁) fun d => ?_
    simp [History.writes]

end MvRegister

end Cerberus.Crdt
