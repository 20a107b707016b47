import Cerberus.Crdt.Registers
import Cerberus.State.Registers

/-!
# The registers of the daemon and of the core

The register of `daemon/state` is written after that of `core/crdt`. The two compare clocks for
equality in different ways: the core compares the maps, the daemon their sizes and the counters of
one of them, where a counter that is missing reads as zero. So a clock with an explicit zero may be
`equal` to one that it happens before, and the daemon then keeps a write that the core drops
(`zero_counter_kept`, `registers_mirror_iff`).

Both list the values of a register. The daemon remembers which ones it has seen; the core only drops
those that follow an equal one, in the order of the authors (`values_once_iff`).
-/

namespace Cerberus.Refinement

open Foundation List Function

open Kernel (Text)

lemma strictMono_text : StrictMono (Subtype.val : Text → GoString) := Subtype.strictMono_coe _

/-- A clock of the core as the daemon has it. -/
def goClock (c : Crdt.VectorClock) : State.VClock := c.mapKeys Subtype.val strictMono_text

def goDot (d : Crdt.Dot) : State.Dot := ⟨d.actor.val, d.value.val, goClock d.clock⟩

/-- The two registers hold the same writes, and the same is read from them. -/
structure Mirrors (m : State.MvEntry) (reg : Crdt.MvRegister) : Prop where
  dots : ∀ x, x ∈ m.dots ↔ ∃ d ∈ reg.dots, goDot d = x
  conflicted : m.conflicted = reg.isConflicted
  lwwValue : m.lwwValue = reg.lwwValue.map Subtype.val

/-- The register of the daemon after writes. -/
def goRegister (host : State.Host) (l : List Crdt.Dot) : State.MvEntry :=
  l.foldl (fun m d => m.absorb host (goDot d)) ⟨[]⟩

/-- The register of the core after writes. -/
def rustRegister (l : List Crdt.Dot) : Crdt.MvRegister := l.foldl Crdt.MvRegister.absorb .new

variable {host : State.Host} {c d : Crdt.VectorClock} {S : Set Crdt.VectorClock}

lemma goClock_injective : Function.Injective goClock := OrdMap.mapKeys_injective _ strictMono_text

lemma goDot_injective : Function.Injective goDot := by
  intro d d' h
  obtain ⟨hactor, hvalue, hclock⟩ := State.Dot.mk.inj h
  exact Crdt.Dot.ext (Subtype.ext hactor) (Subtype.ext hvalue) (goClock_injective hclock)

lemma count_goDot (d : Crdt.Dot) : (goDot d).clock.count (goDot d).actor = d.clock.count d.actor :=
  congrArg UInt64.toNat (Clock.get_mapKeys _ strictMono_text d.clock d.actor)

/-! ### Clocks -/

lemma equal_goClock_iff : (goClock c).equal (goClock d) = true ↔
    c.entries.length = d.entries.length ∧ ∀ e ∈ c.entries, d.get e.1 = e.2 := by
  unfold State.VClock.equal
  rw [Bool.and_eq_true, decide_eq_true_eq, goClock, goClock, OrdMap.entries_mapKeys,
    OrdMap.entries_mapKeys, length_map, length_map, all_map, all_eq_true]
  simp only [comp_apply, decide_eq_true_eq]
  refine and_congr_right fun _ => forall₂_congr fun e _ => ?_
  exact Eq.congr_left (Clock.get_mapKeys _ strictMono_text d e.1)

lemma equal_goClock_self (c : Crdt.VectorClock) : (goClock c).equal (goClock c) = true := by
  refine equal_goClock_iff.mpr ⟨rfl, fun e he => ?_⟩
  rw [Clock.get, OrdMap.mem_entries_iff.mp he, Option.getD_some]

lemma dominatedBy_of_equal (h : (goClock c).equal (goClock d) = true) :
    c.dominatedBy d = true := by
  unfold Clock.dominatedBy
  rw [all_eq_true]
  intro e he
  rw [(equal_goClock_iff.mp h).2 e he]
  exact decide_eq_true (UInt64.le_refl _)

/-- The daemon tells the clocks of a set apart. -/
def Discerned (S : Set Crdt.VectorClock) : Prop :=
  ∀ c ∈ S, ∀ d ∈ S, (goClock c).equal (goClock d) = true → c = d

namespace Discerned

variable (h : Discerned S)
include h

lemma equal_eq (hc : c ∈ S) (hd : d ∈ S) : (goClock c).equal (goClock d) = decide (c = d) := by
  rw [Bool.eq_iff_iff, decide_eq_true_eq]
  constructor
  · exact h c hc d hd
  · rintro rfl
    exact equal_goClock_self c

lemma happensBefore_eq (hc : c ∈ S) (hd : d ∈ S) :
    (goClock c).happensBefore (goClock d) = c.happensBefore d := by
  unfold State.VClock.happensBefore Crdt.VectorClock.happensBefore
  rw [h.equal_eq hc hd, goClock, goClock, Clock.dominatedBy_mapKeys, decide_not]

lemma absorb_perm {m : State.MvEntry} {reg : Crdt.MvRegister} {x : Crdt.Dot}
    (hreg : ∀ ex ∈ reg.dots, ex.clock ∈ S) (hx : x.clock ∈ S)
    (hp : m.dots.Perm (reg.dots.map goDot)) :
    (m.absorb host (goDot x)).dots.Perm ((reg.absorb x).dots.map goDot) := by
  have hstale : (m.dots.any fun ex => (goDot x).clock.happensBefore ex.clock ||
      ((goDot x).clock.equal ex.clock && (goDot x).actor = ex.actor &&
        (goDot x).value = ex.value)) =
      reg.dots.any fun ex => x.clock.happensBefore ex.clock ||
        (x.clock = ex.clock && x.actor = ex.actor && x.value = ex.value) := by
    rw [hp.any_eq, any_map, Bool.eq_iff_iff, any_eq_true, any_eq_true]
    refine exists_congr fun ex => and_congr_right fun hex => ?_
    simp only [comp_apply, Bool.or_eq_true, Bool.and_eq_true, decide_eq_true_eq]
    simp only [goDot, h.happensBefore_eq hx (hreg ex hex), h.equal_eq hx (hreg ex hex),
      decide_eq_true_eq, Subtype.ext_iff]
  have hkept : (m.dots.filter fun ex => !ex.clock.happensBefore (goDot x).clock).Perm
      ((reg.dots.filter fun ex => !ex.clock.happensBefore x.clock).map goDot) := by
    refine (hp.filter _).trans (List.Perm.of_eq ?_)
    rw [filter_map]
    refine congrArg (List.map goDot) (filter_congr fun ex hex => ?_)
    simp only [comp_apply, goDot, h.happensBefore_eq (hreg ex hex) hx]
  have hdup : ((m.dots.filter fun ex => !ex.clock.happensBefore (goDot x).clock).any fun ex =>
      ex.actor = (goDot x).actor && ex.value = (goDot x).value &&
        ex.clock.equal (goDot x).clock) =
      (reg.dots.filter fun ex => !ex.clock.happensBefore x.clock).any (· = x) := by
    rw [hkept.any_eq, any_map, Bool.eq_iff_iff, any_eq_true, any_eq_true]
    refine exists_congr fun ex => and_congr_right fun hex => ?_
    simp only [comp_apply, Bool.and_eq_true, decide_eq_true_eq]
    simp only [goDot, h.equal_eq (hreg ex (mem_of_mem_filter hex)) hx, decide_eq_true_eq,
      Crdt.Dot.ext_iff, Subtype.ext_iff, and_assoc]
  unfold State.MvEntry.absorb Crdt.MvRegister.absorb
  rw [hstale]
  split_ifs
  · exact hp
  · simp only [hdup]
    refine (host.sorter.perm _).trans ?_
    refine List.Perm.trans ?_ ((KeySort.perm _ _).map goDot).symm
    split_ifs
    · exact hkept
    · rw [map_append]
      exact hkept.append_right _

lemma registers_perm {l : List Crdt.Dot} (hl : ∀ x ∈ l, x.clock ∈ S) :
    (goRegister host l).dots.Perm ((rustRegister l).dots.map goDot) := by
  have hrun : ∀ (m : State.MvEntry) (reg : Crdt.MvRegister), (∀ ex ∈ reg.dots, ex.clock ∈ S) →
      m.dots.Perm (reg.dots.map goDot) →
      (l.foldl (fun m x => m.absorb host (goDot x)) m).dots.Perm
        ((l.foldl Crdt.MvRegister.absorb reg).dots.map goDot) := by
    induction l with
    | nil => exact fun _ _ _ hp => hp
    | cons x l ih =>
      intro m reg hreg hp
      have hx := hl x mem_cons_self
      refine ih (fun y hy => hl y (mem_cons_of_mem _ hy)) _ _ (fun ex hex => ?_)
        (h.absorb_perm hreg hx hp)
      rcases Crdt.MvRegister.mem_of_mem_absorb hex with hex | rfl
      · exact hreg ex hex
      · exact hx
  exact hrun ⟨[]⟩ .new (fun ex hex => absurd hex not_mem_nil) .nil

end Discerned

/-! ### What is read -/

lemma lwwKey_le_of_goDot_le {x y : Crdt.Dot} (h : (goDot x).lwwKey ≤ (goDot y).lwwKey) :
    x.lwwKey ≤ y.lwwKey := by
  unfold State.Dot.lwwKey at h
  unfold Crdt.Dot.lwwKey
  rw [count_goDot, count_goDot, Prod.Lex.toLex_le_toLex] at h
  rw [Prod.Lex.toLex_le_toLex]
  refine h.imp_right fun hle => ⟨hle.1, ?_⟩
  rcases Prod.Lex.toLex_le_toLex.mp hle.2 with hlt | heq
  · exact hlt.le
  · exact heq.1.le

lemma mirrors_of_perm {m : State.MvEntry} {reg : Crdt.MvRegister}
    (hp : m.dots.Perm (reg.dots.map goDot)) : Mirrors m reg where
  dots x := by rw [hp.mem_iff, mem_map]
  conflicted := by
    rw [Bool.eq_iff_iff, State.MvEntry.conflicted_iff, Crdt.MvRegister.isConflicted_iff]
    simp only [hp.mem_iff, mem_map, exists_exists_and_eq_and]
    refine exists_congr fun d => and_congr_right fun _ => exists_congr fun d' =>
      and_congr_right fun _ => ?_
    exact not_congr Subtype.ext_iff.symm
  lwwValue := by
    cases hv : m.lwwValue with
    | none =>
      have hnil : reg.dots = [] := by
        refine eq_nil_iff_forall_not_mem.mpr fun d hd => ?_
        obtain ⟨ex, -, hex⟩ := State.MvEntry.exists_lwwValue
          (hp.mem_iff.mpr (mem_map_of_mem hd))
        exact Option.some_ne_none _ (hex.symm.trans hv)
      rw [Crdt.MvRegister.lwwValue, hnil]
      rfl
    | some v =>
      obtain ⟨x, hx, rfl, hmax⟩ := State.MvEntry.lwwValue_eq_some_iff.mp hv
      obtain ⟨d, hd, rfl⟩ := mem_map.mp (hp.mem_iff.mp hx)
      have hlww : reg.lwwValue = some d.value := by
        refine Crdt.MvRegister.lwwValue_eq_some_iff.mpr ⟨d, hd, rfl, fun ex hex => ?_⟩
        exact lwwKey_le_of_goDot_le (hmax _ (hp.mem_iff.mpr (mem_map_of_mem hex)))
      rw [hlww]
      rfl

/-! ### Clocks that are not told apart -/

namespace Sample

def letter (b : UInt8) (h : (⟨[b]⟩ : GoString).valid = true) : Text := ⟨⟨[b]⟩, h⟩

def anna : Text := letter 97 rfl

def ben : Text := letter 98 rfl

def carl : Text := letter 99 rfl

end Sample

section

variable {x y : Crdt.Dot}

lemma dots_rustRegister_singleton (x : Crdt.Dot) : (rustRegister [x]).dots = [x] := rfl

lemma dots_goRegister_singleton (x : Crdt.Dot) : (goRegister host [x]).dots = [goDot x] :=
  perm_singleton.mp (host.sorter.perm _)

lemma dots_rustRegister_pair (h : y.clock.happensBefore x.clock = true) :
    (rustRegister [x, y]).dots = [x] := by
  have hstep : rustRegister [x, y] = (rustRegister [x]).absorb y := rfl
  rw [hstep, Crdt.MvRegister.absorb, if_pos]
  · exact dots_rustRegister_singleton x
  · rw [dots_rustRegister_singleton, any_cons, h]
    rfl

lemma mem_goRegister_pair (h : (goClock y.clock).equal (goClock x.clock) = true)
    (hvalue : x.value ≠ y.value) : goDot y ∈ (goRegister host [x, y]).dots := by
  have hstep : goRegister host [x, y] = (goRegister host [x]).absorb host (goDot y) := rfl
  have hval : ¬ (goDot x).value = (goDot y).value := fun heq => hvalue (Subtype.ext heq)
  rw [hstep, State.MvEntry.absorb, dots_goRegister_singleton, if_neg]
  · have hdup : ∀ kept : List State.Dot, (∀ ex ∈ kept, ex = goDot x) →
        ¬ (kept.any fun ex => ex.actor = (goDot y).actor && ex.value = (goDot y).value &&
          ex.clock.equal (goDot y).clock) = true := by
      intro kept hkept hany
      obtain ⟨ex, hex, heq⟩ := any_eq_true.mp hany
      rw [hkept ex hex, Bool.and_eq_true, Bool.and_eq_true, decide_eq_true_eq,
        decide_eq_true_eq] at heq
      exact hval heq.1.2
    simp only [if_neg (hdup _ fun ex hex => mem_singleton.mp (mem_of_mem_filter hex)),
      host.sorter.mem_sort]
    exact mem_append_right _ mem_cons_self
  · rw [any_cons, any_nil, Bool.or_false, State.VClock.happensBefore]
    simp only [goDot, h] at hval ⊢
    simp [Ne.symm (Ne.intro hval)]

end

/-- Two writes of one actor whose clocks the daemon does not tell apart: the core drops the second
one, the daemon keeps it. -/
lemma Discerned.of_mirrors
    (h : ∀ l : List Crdt.Dot, (∀ x ∈ l, x.clock ∈ S) →
      Mirrors (goRegister host l) (rustRegister l)) : Discerned S := by
  intro c hc d hd heq
  by_contra hne
  let x : Crdt.Dot := ⟨Sample.anna, Sample.ben, d⟩
  let y : Crdt.Dot := ⟨Sample.anna, Sample.carl, c⟩
  have hbefore : y.clock.happensBefore x.clock = true := by
    rw [Crdt.VectorClock.happensBefore, Bool.and_eq_true]
    exact ⟨dominatedBy_of_equal heq, decide_eq_true hne⟩
  have hvalue : Sample.ben ≠ Sample.carl := by decide
  have hxy : ∀ z ∈ [x, y], z.clock ∈ S := by
    intro z hz
    rcases mem_pair.mp hz with rfl | rfl
    · exact hd
    · exact hc
  obtain ⟨z, hz, hzy⟩ := ((h [x, y] hxy).dots _).mp (mem_goRegister_pair heq hvalue)
  rw [dots_rustRegister_pair hbefore, mem_singleton] at hz
  rw [hz] at hzy
  exact hvalue (congrArg Crdt.Dot.value (goDot_injective hzy))

/-- The registers of the daemon and of the core mirror each other for all sequences of writes with
clocks from a set iff no two different clocks of the set count as equal in the daemon. -/
theorem registers_mirror_iff (host : State.Host) (S : Set Crdt.VectorClock) :
    (∀ l : List Crdt.Dot, (∀ x ∈ l, x.clock ∈ S) → Mirrors (goRegister host l) (rustRegister l)) ↔
      ∀ c ∈ S, ∀ d ∈ S, (goClock c).equal (goClock d) = true → c = d := by
  constructor
  · exact Discerned.of_mirrors
  · intro h l hl
    exact mirrors_of_perm (Discerned.registers_perm h hl)

section

namespace Sample

/-- Two writes; the second one counts the same event of its author, has an explicit zero for another
actor, and knows nothing of the third one. -/
def zeroCounter : List Crdt.Dot :=
  [⟨anna, ben, (OrdMap.empty.put anna 1).put carl 5⟩,
    ⟨anna, carl, (OrdMap.empty.put anna 1).put ben 0⟩]

end Sample

/-- The daemon keeps both writes and is in conflict, the core drops the second one. -/
theorem zero_counter_kept :
    (goRegister State.Sample.host Sample.zeroCounter).dots.map State.Dot.value =
        [Sample.ben.val, Sample.carl.val] ∧
      (goRegister State.Sample.host Sample.zeroCounter).conflicted = true ∧
      (goRegister State.Sample.host Sample.zeroCounter).lwwValue = some Sample.carl.val ∧
      (rustRegister Sample.zeroCounter).dots.map Crdt.Dot.value = [Sample.ben] ∧
      (rustRegister Sample.zeroCounter).isConflicted = false ∧
      (rustRegister Sample.zeroCounter).lwwValue = some Sample.ben := by
  decide +kernel

end

/-! ### The values of a register -/

def goEntry (reg : Crdt.MvRegister) : State.MvEntry := ⟨reg.dots.map goDot⟩

/-- Two writes of the same value have one of another value between them, in the order of authors and
values that the register keeps. -/
def Straddled (dots : List Crdt.Dot) : Prop :=
  ∃ d ∈ dots, ∃ e ∈ dots, ∃ f ∈ dots,
    d.sortKey < e.sortKey ∧ e.sortKey < f.sortKey ∧ d.value = f.value ∧ e.value ≠ d.value

open Crdt.MvRegister in
/-- `values` lists the values of the writes that a register holds, which are those that
`distinctValues` lists; it lists every one of them once iff no value is written on both sides
of another one. -/
theorem values_once_iff (h : History) :
    (∀ v, v ∈ h.register.values ↔ ∃ d ∈ h.register.dots, d.value = v) ∧
    (∀ v, v ∈ (goEntry h.register).distinctValues ↔ ∃ w ∈ h.register.values, w.val = v) ∧
    (goEntry h.register).distinctValues.Nodup ∧
    (h.register.values.Nodup ↔ ¬ Straddled h.register.dots) := by
  refine ⟨fun v => mem_values, fun v => ?_, State.MvEntry.nodup_distinctValues _, ?_⟩
  · simp only [State.MvEntry.mem_distinctValues, goEntry, List.mem_map, mem_values,
      exists_exists_and_eq_and]
    rfl
  · rw [values, h.sorted.nodup_destutter_iff fun _ _ => value_eq_of_sortKey_eq, Straddled]
    push Not
    rfl

namespace Sample

/-- Three actors write at the same time, the first and the third one the same value. -/
def splitVote : Crdt.MvRegister.History :=
  ((Crdt.MvRegister.History.new.write anna ben (OrdMap.empty.put anna 1)).write ben carl
    (OrdMap.empty.put ben 1)).write carl ben (OrdMap.empty.put carl 1)

end Sample

open Sample

/-- The value of the first and the third actor is listed twice by the core, and once by the
daemon. -/
theorem split_vote_listed_twice :
    splitVote.register.values = [ben, carl, ben] ∧
      (goEntry splitVote.register).distinctValues = [ben.val, carl.val] := by
  decide +kernel

end Cerberus.Refinement
