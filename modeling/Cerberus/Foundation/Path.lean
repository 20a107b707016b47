import Cerberus.Foundation.GoString

/-!
# Slash-separated paths

A path is a string cut into segments at its slashes. A path is inside another one when the segments
of the other one are its first segments; a final slash of the outer path does not count, and
everything is inside the empty path.

A path is under a directory when it goes on after the directory and a slash.
-/

namespace Foundation

open List

namespace GoString

def segments (s : GoString) : List (List UInt8) := s.bytes.splitOn 0x2F

def trimSlash (s : GoString) : GoString :=
  if s.bytes.getLast? = some 0x2F then ⟨s.bytes.dropLast⟩ else s

def Inside (sub base : GoString) : Prop :=
  base = ⟨[]⟩ ∨ base.trimSlash.segments <+: sub.segments

lemma segments_prefix (base rest : List UInt8) :
    segments ⟨base⟩ <+: segments ⟨base ++ 0x2F :: rest⟩ := by
  rw [segments, segments, splitOn_append_cons_self]
  exact prefix_append _ _

lemma inside_self (s : GoString) : s.Inside s := by
  rw [Inside, trimSlash]
  split_ifs with h
  · obtain ⟨l, hl⟩ := List.getLast?_eq_some_iff.mp h
    right
    have hs : s = ⟨l ++ 0x2F :: []⟩ := GoString.ext hl
    rw [hs, dropLast_concat]
    exact segments_prefix l []
  · exact .inr (prefix_refl _)

lemma inside_of_append {base : GoString} {rest : List UInt8}
    (h : base.bytes.getLast? = some 0x2F ∨ rest.head? = some 0x2F) :
    (⟨base.bytes ++ rest⟩ : GoString).Inside base := by
  rw [Inside, trimSlash]
  right
  split_ifs with hlast
  · obtain ⟨l, hl⟩ := List.getLast?_eq_some_iff.mp hlast
    rw [hl, dropLast_concat, append_assoc]
    exact segments_prefix l rest
  · obtain ⟨rest', rfl⟩ := List.head?_eq_some_iff.mp (h.resolve_left hlast)
    exact segments_prefix base.bytes rest'

/-! ### Directories -/

def trimRightSlashes (s : GoString) : GoString := ⟨s.bytes.rdropWhile (· == 0x2F)⟩

def trimPrefix (s p : GoString) : GoString :=
  if s.hasPrefix p then ⟨s.bytes.drop p.bytes.length⟩ else s

def firstSegment (s : GoString) : GoString := ⟨s.bytes.takeWhile (· != 0x2F)⟩

def lastSegment (s : GoString) : GoString := ⟨s.bytes.rtakeWhile (· != 0x2F)⟩

/-- The path goes on after the directory and a slash. -/
def under (path dir : GoString) : Bool := path.hasPrefix (dir ++ .lit "/")

def Covers (dir path : GoString) : Prop := path = dir ∨ path.under dir = true

instance (dir path : GoString) : Decidable (Covers dir path) :=
  inferInstanceAs (Decidable (_ ∨ _))

variable {dir dir' path : GoString}

lemma under_iff : path.under dir = true ↔ ∃ rest, path.bytes = dir.bytes ++ 0x2F :: rest := by
  unfold under hasPrefix
  rw [List.isPrefixOf_iff_prefix]
  constructor
  · rintro ⟨rest, hrest⟩
    refine ⟨rest, ?_⟩
    rw [← hrest, bytes_append, append_assoc]
    rfl
  · rintro ⟨rest, hrest⟩
    refine ⟨rest, ?_⟩
    rw [hrest, bytes_append, append_assoc]
    rfl

lemma Covers.isPrefix (h : Covers dir path) : dir.bytes <+: path.bytes := by
  rcases h with rfl | h
  · exact prefix_refl _
  · obtain ⟨rest, hrest⟩ := under_iff.mp h
    rw [hrest]
    exact prefix_append _ _

lemma eq_of_covers (h : Covers dir path) (h' : Covers dir' path)
    (hlen : dir.bytes.length = dir'.bytes.length) : dir = dir' :=
  GoString.ext ((prefix_of_prefix_length_le h.isPrefix h'.isPrefix hlen.le).eq_of_length hlen)

lemma trimRightSlashes_eq_self_iff {s : GoString} :
    s.trimRightSlashes = s ↔ s.bytes.getLast? ≠ some 0x2F := by
  rw [GoString.ext_iff, trimRightSlashes, rdropWhile_eq_self_iff]
  constructor
  · intro h hlast
    have hne : s.bytes ≠ [] := fun hnil => by
      rw [hnil] at hlast
      cases hlast
    rw [List.getLast?_eq_some_getLast hne] at hlast
    exact h hne (by rw [Option.some.inj hlast]; rfl)
  · intro h hne heq
    refine h ?_
    rw [List.getLast?_eq_some_getLast hne, eq_of_beq heq]

lemma trimRightSlashes_trimRightSlashes (s : GoString) :
    s.trimRightSlashes.trimRightSlashes = s.trimRightSlashes :=
  GoString.ext (rdropWhile_idempotent _ _)

lemma slash_notMem_firstSegment (s : GoString) : 0x2F ∉ s.firstSegment.bytes := by
  intro h
  have hne := mem_takeWhile_imp h
  exact absurd hne (by decide)

lemma trimRightSlashes_join (dir : GoString) {name : GoString} (hne : name ≠ .lit "")
    (hslash : 0x2F ∉ name.bytes) :
    (dir ++ .lit "/" ++ name).trimRightSlashes = dir ++ .lit "/" ++ name := by
  have hbytes : name.bytes ≠ [] := fun hnil => hne (GoString.ext hnil)
  rw [trimRightSlashes_eq_self_iff, bytes_append, List.getLast?_append_of_ne_nil _ hbytes]
  exact fun hlast => hslash (mem_of_getLast? hlast)

lemma trimPrefix_of_under (h : path.under dir = true) :
    dir ++ .lit "/" ++ path.trimPrefix (dir ++ .lit "/") = path := by
  have hprefix : path.hasPrefix (dir ++ .lit "/") = true := h
  unfold trimPrefix
  rw [if_pos hprefix]
  obtain ⟨rest, hrest⟩ := isPrefixOf_iff_prefix.mp hprefix
  refine GoString.ext ?_
  rw [bytes_append, ← hrest, drop_left]

lemma covers_next (h : path.under dir = true) :
    Covers (dir ++ .lit "/" ++ (path.trimPrefix (dir ++ .lit "/")).firstSegment) path := by
  obtain ⟨rest, hrest⟩ : ∃ rest, path.trimPrefix (dir ++ .lit "/") = rest := ⟨_, rfl⟩
  have hpath := trimPrefix_of_under h
  rw [hrest] at hpath ⊢
  have hsplit : rest.bytes.takeWhile (· != 0x2F) ++ rest.bytes.dropWhile (· != 0x2F) = rest.bytes :=
    takeWhile_append_dropWhile
  cases hdrop : rest.bytes.dropWhile (· != 0x2F) with
  | nil =>
    rw [hdrop, append_nil] at hsplit
    have hfirst : rest.firstSegment = rest := GoString.ext hsplit
    rw [hfirst, hpath]
    exact .inl rfl
  | cons b tail =>
    have hb : b = 0x2F := by
      have hhead := head_dropWhile_not (· != 0x2F) (l := rest.bytes) (by rw [hdrop]; simp)
      simp only [hdrop, head_cons] at hhead
      simpa using hhead
    subst hb
    rw [hdrop] at hsplit
    refine .inr (under_iff.mpr ⟨tail, ?_⟩)
    rw [← hpath, bytes_append, bytes_append (dir ++ .lit "/"), append_assoc, ← hsplit]
    rfl

end GoString

end Foundation
