import Cerberus.Foundation.Frontier
import Cerberus.State.Model

/-!
# Clocks and registers of the engine

What the operations on clocks and registers compute. `equal` reads a missing counter as zero, so it
is equality only between clocks without zero counters; between such clocks `happensBefore` is the
strict order of clocks, and a register takes writes in as a frontier does.
-/

namespace Cerberus.State

open Foundation List OrdMap

namespace VClock

variable {c d : VClock}

@[simp] lemma count_mergeMax (c d : VClock) (a : GoString) :
    Clock.count (c.mergeMax d) a = max (c.count a) (d.count a) := by
  refine Clock.count_foldl (fun c a v b => ?_) c d a
  have hlt : c.get a < v ↔ c.count a < v.toNat := UInt64.lt_iff_toNat_lt
  rw [raise]
  split_ifs with h hb hb
  · rw [Clock.count_put, if_pos hb, max_eq_right (hlt.mp h).le]
  · rw [Clock.count_put, if_neg hb]
  · rw [hb, max_eq_left (not_lt.mp (mt hlt.mpr h))]
  · rfl

lemma positive_mergeMax (hc : c.Positive) (d : VClock) : Clock.Positive (c.mergeMax d) := by
  rw [mergeMax]
  induction d.entries generalizing c with
  | nil => exact hc
  | cons e l ih =>
    refine ih ?_
    rw [raise]
    split_ifs with h
    · refine hc.put fun h0 => ?_
      rw [h0, UInt64.lt_iff_toNat_lt] at h
      exact Nat.not_lt_zero _ h
    · exact hc

lemma count_foldl_mergeMax {l : List Dot} {a : GoString}
    (hl : ∀ d ∈ l, d.clock.count a ≤ c.count a) :
    Clock.count (l.foldl (fun c dt => mergeMax c dt.clock) c) a = c.count a := by
  induction l generalizing c with
  | nil => rfl
  | cons d l ih =>
    have hd : Clock.count (mergeMax c d.clock) a = c.count a := by
      rw [count_mergeMax]
      exact max_eq_left (hl d mem_cons_self)
    rw [foldl_cons, ih fun e he => hd ▸ hl e (mem_cons_of_mem _ he), hd]

lemma positive_foldl_mergeMax (hc : c.Positive) (l : List Dot) :
    Clock.Positive (l.foldl (fun c dt => mergeMax c dt.clock) c) := by
  induction l generalizing c with
  | nil => exact hc
  | cons d l ih => exact ih (positive_mergeMax hc _)

lemma equal_iff (hc : c.Positive) (hd : d.Positive) : c.equal d = true ↔ c = d := by
  constructor
  · intro h
    rw [equal, Bool.and_eq_true, decide_eq_true_eq, all_eq_true] at h
    -- the bindings of one clock are bindings of the other, which has as many
    have hsub : c.entries ⊆ d.entries := by
      rintro ⟨a, v⟩ hav
      have hv : v ≠ 0 := fun h0 => hc a (h0 ▸ mem_entries_iff.mp hav)
      have hget := of_decide_eq_true (h.2 (a, v) hav)
      exact mem_entries_iff.mpr (hd.get?_eq_some_iff.mpr ⟨hget, hv⟩)
    have hnodup : c.entries.Nodup := .of_map Prod.fst c.keys_nodup
    have hperm := (hnodup.subperm hsub).perm_of_length_le h.1.ge
    refine ext_get? fun a => Option.ext fun v => ?_
    rw [← mem_entries_iff, ← mem_entries_iff, hperm.mem_iff]
  · rintro rfl
    rw [equal, Bool.and_eq_true, decide_eq_true_eq, all_eq_true]
    refine ⟨rfl, ?_⟩
    rintro ⟨a, v⟩ hav
    rw [decide_eq_true_eq, Clock.get, mem_entries_iff.mp hav, Option.getD_some]

lemma happensBefore_iff (hc : c.Positive) (hd : d.Positive) :
    c.happensBefore d = true ↔ c.Precedes d := by
  rw [happensBefore, Bool.and_eq_true, Bool.not_eq_true', ← Bool.not_eq_true, equal_iff hc hd,
    Clock.precedes_iff_of_positive hc hd]

end VClock

/-! ### The order of writes -/

/-- The causal order of writes. -/
def Dot.before (d e : Dot) : Bool := d.clock.happensBefore e.clock

lemma Dot.before_iff {d e : Dot} (hd : d.clock.Positive) (he : e.clock.Positive) :
    d.before e = true ↔ d.clock.Precedes e.clock := VClock.happensBefore_iff hd he

lemma Dot.strictOn_before : StrictOn Dot.before {d | d.clock.Positive} where
  irrefl _ hd := Bool.eq_false_of_not_eq_true fun h =>
    Clock.not_precedes_self _ ((before_iff hd hd).mp h)
  trans _ hd _ he _ hf hde hef :=
    (before_iff hd hf).mpr (((before_iff hd he).mp hde).trans ((before_iff he hf).mp hef))

lemma Dot.new_of_count_lt {d ex : Dot} {a : GoString} (h : ex.clock.count a < d.clock.count a) :
    ¬ d.clock.Precedes ex.clock ∧ d ≠ ex := by
  refine ⟨fun hprec => absurd (hprec.1 a) (Nat.not_le.mpr h), ?_⟩
  rintro rfl
  exact lt_irrefl _ h

/-! ### Registers -/

namespace MvEntry

variable (host : Host) {m m' : MvEntry} {d : Dot}

lemma absorb_perm (hm : ∀ ex ∈ m.dots, ex.clock.Positive) (hd : d.clock.Positive) :
    (m.absorb host d).dots.Perm (Frontier.absorb Dot.before m.dots d) := by
  have hany : (m.dots.any fun ex => d.clock.happensBefore ex.clock ||
      (d.clock.equal ex.clock && d.actor = ex.actor && d.value = ex.value)) = true ↔
      ∃ ex ∈ m.dots, Dot.before d ex = true ∨ d = ex := by
    rw [any_eq_true]
    refine exists_congr fun ex => and_congr_right fun hex => ?_
    rw [Bool.or_eq_true, Bool.and_eq_true, Bool.and_eq_true, VClock.equal_iff hd (hm ex hex),
      decide_eq_true_eq, decide_eq_true_eq, Dot.before, Dot.ext_iff, and_assoc, and_rotate]
  rw [absorb, Frontier.absorb]
  by_cases h : ∃ ex ∈ m.dots, Dot.before d ex = true ∨ d = ex
  · rw [if_pos (hany.mpr h), if_pos h]
  · -- a write that is not known is not among those kept
    have hkept : ¬ ((m.dots.filter fun ex => !ex.clock.happensBefore d.clock).any fun ex =>
        ex.actor = d.actor && ex.value = d.value && ex.clock.equal d.clock) = true := by
      rw [any_eq_true]
      rintro ⟨ex, hex, heq⟩
      have hex' := mem_of_mem_filter hex
      rw [Bool.and_eq_true, Bool.and_eq_true, VClock.equal_iff (hm ex hex') hd,
        decide_eq_true_eq, decide_eq_true_eq] at heq
      exact h ⟨ex, hex', .inr (Dot.ext heq.1.1.symm heq.1.2.symm heq.2.symm)⟩
    rw [if_neg (mt hany.mp h), if_neg h]
    simp only [if_neg hkept]
    exact host.sorter.perm _

variable {host} in
lemma mem_of_mem_absorb {ex : Dot} (h : ex ∈ (m.absorb host d).dots) : ex ∈ m.dots ∨ ex = d := by
  rw [absorb] at h
  split at h
  · exact .inl h
  · rw [host.sorter.mem_sort] at h
    split at h
    · exact .inl (mem_of_mem_filter h)
    · exact (mem_append.mp h).imp mem_of_mem_filter mem_singleton.mp

/-- A write that nothing in a register follows or equals is taken in, and what is before it is
dropped. -/
lemma absorb_perm_of_new (hm : ∀ ex ∈ m.dots, ex.clock.Positive) (hd : d.clock.Positive)
    (hnew : ∀ ex ∈ m.dots, ¬ d.clock.Precedes ex.clock ∧ d ≠ ex) :
    (m.absorb host d).dots.Perm (m.dots.filter (fun ex => ¬ ex.clock.Precedes d.clock) ++ [d]) := by
  have hno : ¬ ∃ ex ∈ m.dots, Dot.before d ex = true ∨ d = ex := by
    rintro ⟨ex, hex, hbefore | rfl⟩
    · exact (hnew ex hex).1 ((Dot.before_iff hd (hm ex hex)).mp hbefore)
    · exact (hnew d hex).2 rfl
  have hfilter : m.dots.filter (fun ex => !Dot.before ex d) =
      m.dots.filter (fun ex => ¬ ex.clock.Precedes d.clock) := by
    refine filter_congr fun ex hex => ?_
    rw [Bool.eq_iff_iff, Bool.not_eq_true', ← Bool.not_eq_true, Dot.before_iff (hm ex hex) hd,
      decide_eq_true_eq]
  have hperm := absorb_perm host hm hd
  rwa [Frontier.absorb, if_neg hno, hfilter] at hperm

lemma mem_absorb_of_new (hm : ∀ ex ∈ m.dots, ex.clock.Positive) (hd : d.clock.Positive)
    (hnew : ∀ ex ∈ m.dots, ¬ d.clock.Precedes ex.clock ∧ d ≠ ex) {ex : Dot} :
    ex ∈ (m.absorb host d).dots ↔ (ex ∈ m.dots ∧ ¬ ex.clock.Precedes d.clock) ∨ ex = d :=
  Frontier.mem_iff_of_perm (absorb_perm_of_new host hm hd hnew)

lemma absorb_of_follows (hm : ∀ ex ∈ m.dots, ex.clock.Positive) (hd : d.clock.Positive)
    (hfollows : ∀ ex ∈ m.dots, ex.clock.Precedes d.clock) : (m.absorb host d).dots = [d] := by
  have hnone : m.dots.filter (fun ex => ¬ ex.clock.Precedes d.clock) = [] := by
    refine filter_eq_nil_iff.mpr fun ex hex => ?_
    rw [decide_eq_true_eq, not_not]
    exact hfollows ex hex
  have hperm := absorb_perm_of_new host hm hd fun ex hex => ?_
  · rw [hnone] at hperm
    exact perm_singleton.mp hperm
  · refine ⟨fun hprec => Clock.not_precedes_self _ (hprec.trans (hfollows ex hex)), ?_⟩
    rintro rfl
    exact Clock.not_precedes_self _ (hfollows d hex)

lemma absorb_of_followed (ex : Dot) (hex : ex ∈ m.dots) (hpos : ex.clock.Positive)
    (hd : d.clock.Positive) (h : d.clock.Precedes ex.clock) : m.absorb host d = m := by
  have hbefore := (VClock.happensBefore_iff hd hpos).mpr h
  rw [absorb, if_pos]
  refine any_eq_true.mpr ⟨ex, hex, ?_⟩
  rw [hbefore, Bool.true_or]

/-! ### What is read from a register -/

lemma distinctValues_foldl (l : List Dot) (out : List GoString) (hout : out.Nodup) :
    let out' := l.foldl (fun out d => if d.value ∈ out then out else out ++ [d.value]) out
    out'.Nodup ∧ ∀ v, v ∈ out' ↔ v ∈ out ∨ ∃ d ∈ l, d.value = v := by
  induction l generalizing out with
  | nil => exact ⟨hout, by simp⟩
  | cons d l ih =>
    rw [foldl_cons]
    split_ifs with hd
    · refine ⟨(ih out hout).1, fun v => ?_⟩
      rw [(ih out hout).2 v, exists_mem_cons_iff]
      refine ⟨Or.imp_right .inr, ?_⟩
      rintro (hv | rfl | hv)
      · exact .inl hv
      · exact .inl hd
      · exact .inr hv
    · have hout' : (out ++ [d.value]).Nodup := by
        refine List.Nodup.append hout (nodup_singleton _) ?_
        rw [disjoint_singleton]
        exact hd
      refine ⟨(ih _ hout').1, fun v => ?_⟩
      rw [(ih _ hout').2 v, mem_append, mem_singleton, exists_mem_cons_iff, or_assoc,
        eq_comm]

lemma nodup_distinctValues (m : MvEntry) : m.distinctValues.Nodup :=
  (distinctValues_foldl m.dots [] nodup_nil).1

lemma mem_distinctValues {v : GoString} : v ∈ m.distinctValues ↔ ∃ d ∈ m.dots, d.value = v := by
  rw [distinctValues, (distinctValues_foldl m.dots [] nodup_nil).2 v]
  simp

lemma conflicted_iff : m.conflicted = true ↔ ∃ d ∈ m.dots, ∃ d' ∈ m.dots, d.value ≠ d'.value := by
  have hcard : m.distinctValues.length = m.distinctValues.toFinset.card :=
    (toFinset_card_of_nodup m.nodup_distinctValues).symm
  rw [conflicted, decide_eq_true_eq, hcard, Finset.one_lt_card]
  have hval : ∀ v, v ∈ m.distinctValues.toFinset ↔ ∃ d ∈ m.dots, d.value = v := fun v => by
    rw [mem_toFinset, mem_distinctValues]
  constructor
  · rintro ⟨v, hv, w, hw, hne⟩
    obtain ⟨d, hd, rfl⟩ := (hval v).mp hv
    obtain ⟨d', hd', rfl⟩ := (hval w).mp hw
    exact ⟨d, hd, d', hd', hne⟩
  · rintro ⟨d, hd, d', hd', hne⟩
    exact ⟨_, (hval _).mpr ⟨d, hd, rfl⟩, _, (hval _).mpr ⟨d', hd', rfl⟩, hne⟩

lemma value_eq_of_lwwKey_eq {d d' : Dot} (h : d.lwwKey = d'.lwwKey) : d.value = d'.value :=
  congrArg (fun k => (ofLex (ofLex k).2).1) h

lemma foldl_better (l : List Dot) (d : Dot) :
    l.foldl better d ∈ d :: l ∧ ∀ ex ∈ d :: l, ex.lwwKey ≤ (l.foldl better d).lwwKey := by
  refine foldl_choose (fun a b => ?_) l d
  rw [better]
  split_ifs with h
  · exact .inr ⟨rfl, h.le⟩
  · exact .inl ⟨rfl, not_lt.mp h⟩

lemma lwwValue_eq_some_iff {v : GoString} : m.lwwValue = some v ↔
    ∃ d ∈ m.dots, d.value = v ∧ ∀ ex ∈ m.dots, ex.lwwKey ≤ d.lwwKey := by
  rw [lwwValue]
  cases hdots : m.dots with
  | nil => simp
  | cons d l =>
    obtain ⟨hmem, hmax⟩ := foldl_better l d
    constructor
    · intro h
      exact ⟨_, hmem, Option.some.inj h, hmax⟩
    · rintro ⟨d', hd', rfl, hmax'⟩
      exact congrArg some (value_eq_of_lwwKey_eq (le_antisymm (hmax' _ hmem) (hmax _ hd')))

lemma exists_lwwValue (hd : d ∈ m.dots) : ∃ ex ∈ m.dots, m.lwwValue = some ex.value := by
  rw [lwwValue]
  cases hdots : m.dots with
  | nil =>
    rw [hdots] at hd
    exact absurd hd not_mem_nil
  | cons d l => exact ⟨_, (foldl_better l d).1, rfl⟩

lemma lwwValue_congr (h : ∀ d, d ∈ m.dots ↔ d ∈ m'.dots) : m.lwwValue = m'.lwwValue := by
  refine Option.ext fun v => ?_
  simp only [lwwValue_eq_some_iff, h]

end MvEntry

end Cerberus.State
