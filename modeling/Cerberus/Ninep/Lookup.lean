import Cerberus.Ninep.Model

/-!
# The device of a path

`deviceFor` finds the device whose directory is the longest that covers a path (`Owner`). It does not
find a device that is registered at the empty path. The order of the table makes no difference.
-/

namespace Cerberus.Ninep

open Foundation Contract List

/-- The device whose directory is the longest that covers a path. -/
structure Owner (devices : OrdMap GoString ResourceRef) (path dir : GoString) (ref : ResourceRef) :
    Prop where
  mem : (dir, ref) ∈ devices.entries
  covers : GoString.Covers dir path
  longest : ∀ d ∈ devices.entries, GoString.Covers d.1 path → d.1.bytes.length ≤ dir.bytes.length

variable {devices : OrdMap GoString ResourceRef} {path dir dir' : GoString} {ref ref' : ResourceRef}

lemma Owner.unique (h : Owner devices path dir ref) (h' : Owner devices path dir' ref') :
    dir = dir' ∧ ref = ref' := by
  obtain rfl : dir = dir' := GoString.eq_of_covers h.covers h'.covers
    (le_antisymm (h'.longest _ h.mem h.covers) (h.longest _ h'.mem h'.covers))
  refine ⟨rfl, ?_⟩
  have hget := OrdMap.mem_entries_iff.mp h.mem
  rw [OrdMap.mem_entries_iff.mp h'.mem] at hget
  exact (Option.some.inj hget).symm

lemma owner_self (hmem : (dir, ref) ∈ devices.entries) : Owner devices dir dir ref :=
  ⟨hmem, .inl rfl, fun _ _ hcovers => hcovers.isPrefix.length_le⟩

/-- The loop of `deviceFor` ends with the longest directory that covers the path, if there is one
that is longer than the first. -/
lemma foldl_longer (path : GoString) (l : List (GoString × ResourceRef))
    (best : GoString × ResourceRef) :
    (l.foldl (longer path) best = best ∨ l.foldl (longer path) best ∈ l ∧
        GoString.Covers (l.foldl (longer path) best).1 path) ∧
      best.1.bytes.length ≤ (l.foldl (longer path) best).1.bytes.length ∧
      ∀ d ∈ l, GoString.Covers d.1 path →
        d.1.bytes.length ≤ (l.foldl (longer path) best).1.bytes.length := by
  induction l generalizing best with
  | nil => exact ⟨.inl rfl, le_rfl, fun d hd => absurd hd not_mem_nil⟩
  | cons d l ih =>
    rw [foldl_cons]
    obtain ⟨hcases, hle, hmax⟩ := ih (longer path best d)
    unfold longer at hcases hle hmax ⊢
    split_ifs at hcases hle hmax ⊢ with hd
    · refine ⟨.inr ?_, hd.2.le.trans hle, fun d' hd' hcovers => ?_⟩
      · rcases hcases with heq | ⟨hmem, hcovers⟩
        · rw [heq]
          exact ⟨mem_cons_self, hd.1⟩
        · exact ⟨mem_cons_of_mem _ hmem, hcovers⟩
      · rcases mem_cons.mp hd' with rfl | hd'
        · exact hle
        · exact hmax d' hd' hcovers
    · refine ⟨hcases.imp_right fun h => ⟨mem_cons_of_mem _ h.1, h.2⟩, hle, ?_⟩
      intro d' hd' hcovers
      rcases mem_cons.mp hd' with rfl | hd'
      · rw [not_and, Nat.not_lt] at hd
        exact (hd hcovers).trans hle
      · exact hmax d' hd' hcovers

variable {σ : Type} {s : Server σ}

lemma deviceFor_eq_some_iff :
    s.deviceFor path = some (dir, ref) ↔ Owner s.devices path dir ref ∧ dir ≠ .lit "" := by
  obtain ⟨hcases, -, hmax⟩ := foldl_longer path s.devices.entries (.lit "", zeroRef)
  unfold Server.deviceFor
  simp only
  constructor
  · intro h
    split_ifs at h with hempty
    obtain heq := Option.some.inj h
    rw [heq] at hcases hmax hempty
    rcases hcases with hfirst | ⟨hmem, hcovers⟩
    · exact absurd (congrArg Prod.fst hfirst) hempty
    · exact ⟨⟨hmem, hcovers, hmax⟩, hempty⟩
  · rintro ⟨howner, hne⟩
    have hlen := hmax _ howner.mem howner.covers
    have hpos : 0 < dir.bytes.length :=
      length_pos_iff.mpr fun hnil => hne (GoString.ext hnil)
    have hne' : (s.devices.entries.foldl (longer path) (.lit "", zeroRef)).1 ≠ .lit "" := by
      intro hempty
      rw [hempty] at hlen
      exact absurd hlen (Nat.not_le.mpr hpos)
    rw [if_neg hne']
    rcases hcases with hfirst | ⟨hmem, hcovers⟩
    · exact absurd (congrArg Prod.fst hfirst) hne'
    · obtain ⟨h₁, h₂⟩ := howner.unique ⟨hmem, hcovers, hmax⟩
      rw [h₁, h₂]

lemma deviceFor_eq_none_iff : s.deviceFor path = none ↔
    ∀ d ∈ s.devices.entries, GoString.Covers d.1 path → d.1 = .lit "" := by
  obtain ⟨hcases, -, hmax⟩ := foldl_longer path s.devices.entries (.lit "", zeroRef)
  unfold Server.deviceFor
  simp only
  constructor
  · intro h d hd hcovers
    split_ifs at h with hempty
    have hlen := hmax d hd hcovers
    rw [hempty] at hlen
    exact GoString.ext (length_eq_zero_iff.mp (Nat.le_zero.mp hlen))
  · intro hall
    refine if_pos ?_
    rcases hcases with hfirst | ⟨hmem, hcovers⟩
    · rw [hfirst]
    · exact hall _ hmem hcovers

lemma isAncestorDir_iff (hpath : path.trimRightSlashes = path) (hne : path ≠ .lit "") :
    s.isAncestorDir path = true ↔ ∃ d ∈ s.devices.entries, d.1.under path = true := by
  unfold Server.isAncestorDir
  simp only [hpath]
  rw [if_neg hne, any_eq_true]

end Cerberus.Ninep
