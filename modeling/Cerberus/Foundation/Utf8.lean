import Mathlib

/-!
# UTF-8 over byte lists

A byte list is cut from left to right into runes: a well-formed UTF-8 sequence of one to four bytes
is one rune, and a byte that starts no such sequence is a piece of its own. `runeWidth` is the
length of the sequence at the head of the list, `0` if there is none, `runes` is the cutting,
`validUtf8` says that every piece is a sequence, and `coerceUtf8` replaces every other piece by the
encoding of U+FFFD, as text encoders do with bytes that are not UTF-8. Valid input is unchanged
(`coerceUtf8_of_valid`), coercing twice is coercing once (`coerceUtf8_idem`).

A valid list may be cut where no continuation byte follows (`validUtf8_take_iff`).
-/

namespace Foundation

open List

def isCont (b : UInt8) : Bool := 0x80 ≤ b && b ≤ 0xBF

/-- The second bytes that may follow the first byte of a three- or four-byte sequence: the ranges
exclude overlong forms, surrogates and values above U+10FFFF. -/
def isSecond (a b : UInt8) : Bool :=
  if a = 0xE0 then 0xA0 ≤ b && b ≤ 0xBF
  else if a = 0xED then 0x80 ≤ b && b ≤ 0x9F
  else if a = 0xF0 then 0x90 ≤ b && b ≤ 0xBF
  else if a = 0xF4 then 0x80 ≤ b && b ≤ 0x8F
  else isCont b

/-- The width of the UTF-8 sequence at the head of a byte list, `0` if the head starts none. -/
def runeWidth : List UInt8 → ℕ
  | [] => 0
  | a :: l =>
    if a < 0x80 then 1
    else if 0xC2 ≤ a && a ≤ 0xDF then
      match l with
      | b :: _ => if isCont b then 2 else 0
      | [] => 0
    else if 0xE0 ≤ a && a ≤ 0xEF then
      match l with
      | b :: c :: _ => if isSecond a b && isCont c then 3 else 0
      | _ => 0
    else if 0xF0 ≤ a && a ≤ 0xF4 then
      match l with
      | b :: c :: d :: _ => if isSecond a b && isCont c && isCont d then 4 else 0
      | _ => 0
    else 0

/-- Cut a byte list into runes, after skipping the first `n` bytes. -/
def runesFrom : ℕ → List UInt8 → List (List UInt8)
  | _, [] => []
  | n + 1, _ :: l => runesFrom n l
  | 0, a :: l => (a :: l.take (runeWidth (a :: l) - 1)) :: runesFrom (runeWidth (a :: l) - 1) l

/-- The runes of a byte list: UTF-8 sequences, and single bytes that belong to none. -/
def runes (l : List UInt8) : List (List UInt8) := runesFrom 0 l

def validUtf8 (l : List UInt8) : Bool := (runes l).all fun c => runeWidth c != 0

/-- A piece of a byte list, or U+FFFD in place of a piece that is no UTF-8 sequence. -/
def coerceRune (c : List UInt8) : List UInt8 :=
  if runeWidth c = 0 then [0xEF, 0xBF, 0xBD] else c

/-- Replace the bytes that belong to no UTF-8 sequence by U+FFFD. -/
def coerceUtf8 (l : List UInt8) : List UInt8 := (runes l).flatMap coerceRune

/-! ### Cutting and joining -/

lemma flatten_runesFrom (n : ℕ) (l : List UInt8) : (runesFrom n l).flatten = l.drop n := by
  induction l generalizing n with
  | nil => simp [runesFrom]
  | cons a l ih =>
    cases n with
    | zero =>
      rw [runesFrom, flatten_cons, ih, cons_append, take_append_drop, drop_zero]
    | succ n => rw [runesFrom, ih, drop_succ_cons]

lemma flatten_runes (l : List UInt8) : (runes l).flatten = l := flatten_runesFrom 0 l

lemma runeWidth_le_length (l : List UInt8) : runeWidth l ≤ l.length := by
  unfold runeWidth
  split
  · simp
  · repeat' split
    all_goals simp

variable {l : List UInt8}

/-- What follows a sequence does not matter. -/
lemma runeWidth_take_append (h : runeWidth l ≠ 0) (r : List UInt8) :
    runeWidth (l.take (runeWidth l) ++ r) = runeWidth l := by
  rcases l with _ | ⟨a, l⟩
  · exact absurd rfl h
  by_cases h₁ : a < 0x80
  · simp [runeWidth, h₁]
  by_cases h₂ : (0xC2 ≤ a && a ≤ 0xDF) = true
  · rcases l with _ | ⟨b, l⟩
    · simp [runeWidth, h₁, h₂] at h
    · by_cases hb : isCont b = true <;> simp [runeWidth, h₁, h₂, hb] at h ⊢
  by_cases h₃ : (0xE0 ≤ a && a ≤ 0xEF) = true
  · rcases l with _ | ⟨b, _ | ⟨c, l⟩⟩
    · simp [runeWidth, h₁, h₂, h₃] at h
    · simp [runeWidth, h₁, h₂, h₃] at h
    · by_cases hb : (isSecond a b && isCont c) = true <;> simp [runeWidth, h₁, h₂, h₃, hb] at h ⊢
  by_cases h₄ : (0xF0 ≤ a && a ≤ 0xF4) = true
  · rcases l with _ | ⟨b, _ | ⟨c, _ | ⟨d, l⟩⟩⟩
    · simp [runeWidth, h₁, h₂, h₃, h₄] at h
    · simp [runeWidth, h₁, h₂, h₃, h₄] at h
    · simp [runeWidth, h₁, h₂, h₃, h₄] at h
    · by_cases hb : (isSecond a b && isCont c && isCont d) = true <;>
        simp [runeWidth, h₁, h₂, h₃, h₄, hb] at h ⊢
  simp [runeWidth, h₁, h₂, h₃, h₄] at h

lemma runeWidth_append (h : runeWidth l ≠ 0) (r : List UInt8) :
    runeWidth (l ++ r) = runeWidth l := by
  have happ := runeWidth_take_append h (l.drop (runeWidth l) ++ r)
  rwa [← append_assoc, take_append_drop] at happ

lemma runeWidth_take (a : UInt8) (l : List UInt8) :
    runeWidth (a :: l.take (runeWidth (a :: l) - 1)) = runeWidth (a :: l) := by
  rcases hw : runeWidth (a :: l) with _ | n
  · by_contra hne
    exact hne ((runeWidth_append hne l).symm.trans hw)
  · have htake := runeWidth_take_append (hw.trans_ne n.succ_ne_zero) []
    rwa [hw, take_succ_cons, append_nil] at htake

/-- A piece that is exactly one UTF-8 sequence. -/
def IsRune (c : List UInt8) : Prop := runeWidth c ≠ 0 ∧ runeWidth c = c.length

variable {n : ℕ} {c : List UInt8} {cs : List (List UInt8)} {b a : UInt8}

lemma exists_of_mem_runesFrom (hc : c ∈ runesFrom n l) :
    ∃ (a : UInt8) (r : List UInt8), c = a :: r.take (runeWidth (a :: r) - 1) := by
  induction l generalizing n with
  | nil => simp [runesFrom] at hc
  | cons a l ih =>
    cases n with
    | succ n => exact ih hc
    | zero =>
      rw [runesFrom] at hc
      rcases mem_cons.mp hc with rfl | hc
      · exact ⟨a, l, rfl⟩
      · exact ih hc

lemma isRune_of_mem_runesFrom (hc : c ∈ runesFrom n l) (hw : runeWidth c ≠ 0) : IsRune c := by
  obtain ⟨a, r, rfl⟩ := exists_of_mem_runesFrom hc
  refine ⟨hw, ?_⟩
  rw [runeWidth_take] at hw ⊢
  have hle := runeWidth_le_length (a :: r)
  rw [length_cons] at hle
  rw [length_cons, length_take, min_eq_left (by omega)]
  omega

lemma runesFrom_length_append (l r : List UInt8) : runesFrom l.length (l ++ r) = runes r := by
  induction l with
  | nil => rfl
  | cons a l ih => exact ih

lemma runes_append (hc : IsRune c) (r : List UInt8) : runes (c ++ r) = c :: runes r := by
  have hw : runeWidth (c ++ r) = c.length := (runeWidth_append hc.1 r).trans hc.2
  rcases c with _ | ⟨a, c⟩
  · exact absurd rfl hc.1
  rw [cons_append] at hw ⊢
  rw [runes, runesFrom, hw, length_cons, Nat.add_sub_cancel, runesFrom_length_append,
    take_left']
  rfl

lemma runes_flatten_append (h : ∀ c ∈ cs, IsRune c) (r : List UInt8) :
    runes (cs.flatten ++ r) = cs ++ runes r := by
  induction cs with
  | nil => rfl
  | cons c cs ih =>
    rw [flatten_cons, append_assoc, runes_append (h c mem_cons_self),
      ih fun c' hc' => h c' (mem_cons_of_mem _ hc'), cons_append]

lemma runes_flatten (h : ∀ c ∈ cs, IsRune c) : runes cs.flatten = cs := by
  have happ := runes_flatten_append h []
  rwa [append_nil, show runes [] = [] from rfl, append_nil] at happ

lemma isRune_ascii (hb : b < 0x80) : IsRune [b] := by
  have hwidth : runeWidth [b] = 1 := if_pos hb
  exact ⟨hwidth ▸ Nat.one_ne_zero, hwidth⟩

lemma runes_ascii (hl : ∀ b ∈ l, b < 0x80) : runes l = l.map fun b => [b] := by
  have hflatten : (l.map fun b => [b]).flatten = l := by
    rw [← flatMap_def, flatMap_singleton']
  conv_lhs => rw [← hflatten]
  refine runes_flatten fun c hc => ?_
  obtain ⟨b, hb, rfl⟩ := mem_map.mp hc
  exact isRune_ascii (hl b hb)

/-! ### Coercion -/

lemma isRune_coerceRune (hc : c ∈ runesFrom n l) : IsRune (coerceRune c) := by
  unfold coerceRune
  split_ifs with h
  · exact ⟨by decide, by decide⟩
  · exact isRune_of_mem_runesFrom hc h

lemma runes_coerceUtf8 (l : List UInt8) : runes (coerceUtf8 l) = (runes l).map coerceRune := by
  rw [coerceUtf8, flatMap_def]
  refine runes_flatten fun c hc => ?_
  obtain ⟨c', hc', rfl⟩ := mem_map.mp hc
  exact isRune_coerceRune hc'

lemma validUtf8_coerceUtf8 (l : List UInt8) : validUtf8 (coerceUtf8 l) = true := by
  rw [validUtf8, runes_coerceUtf8, all_map, all_eq_true]
  intro c hc
  simpa using (isRune_coerceRune hc).1

lemma coerceUtf8_of_valid (h : validUtf8 l = true) : coerceUtf8 l = l := by
  rw [validUtf8, all_eq_true] at h
  have hmap : (runes l).map coerceRune = runes l := by
    refine (map_congr_left fun c hc => ?_).trans (map_id _)
    have hw : runeWidth c ≠ 0 := by simpa using h c hc
    exact if_neg hw
  rw [coerceUtf8, flatMap_def, hmap, flatten_runes]

lemma validUtf8_of_ascii (h : ∀ b ∈ l, b < 0x80) : validUtf8 l = true := by
  rw [validUtf8, runes_ascii h, all_map, all_eq_true]
  intro b hb
  simpa using (isRune_ascii (h b hb)).1

lemma coerceUtf8_idem (l : List UInt8) : coerceUtf8 (coerceUtf8 l) = coerceUtf8 l :=
  coerceUtf8_of_valid (validUtf8_coerceUtf8 l)

lemma eq_of_coerceUtf8_ascii (h : ∀ b ∈ coerceUtf8 l, b < 0x80) : coerceUtf8 l = l := by
  refine coerceUtf8_of_valid ?_
  rw [validUtf8, all_eq_true]
  intro c hc
  by_contra hw
  have hw : runeWidth c = 0 := by simpa using hw
  have hmem : (0xEF : UInt8) ∈ coerceUtf8 l :=
    mem_flatMap.mpr ⟨c, hc, by simp [coerceRune, hw]⟩
  exact absurd (h _ hmem) (by decide)

/-! ### Cutting a text -/

lemma isRune_of_valid (h : validUtf8 l = true) : ∀ c ∈ runes l, IsRune c := by
  rw [validUtf8, all_eq_true] at h
  intro c hc
  exact isRune_of_mem_runesFrom hc (by simpa using h c hc)

lemma validUtf8_flatten (h : ∀ c ∈ cs, IsRune c) : validUtf8 cs.flatten = true := by
  rw [validUtf8, runes_flatten h, all_eq_true]
  intro c hc
  simpa using (h c hc).1

lemma validUtf8_append (h : validUtf8 l = true) (r : List UInt8) :
    validUtf8 (l ++ r) = validUtf8 r := by
  have hrunes : runes (l ++ r) = runes l ++ runes r := by
    have happ := runes_flatten_append (isRune_of_valid h) r
    rwa [flatten_runes] at happ
  rw [validUtf8] at h
  rw [validUtf8, validUtf8, hrunes, all_append, h, Bool.true_and]

lemma isCont_of_isSecond (h : isSecond a b = true) : isCont b = true := by
  unfold isSecond at h
  unfold isCont at h ⊢
  split_ifs at h <;>
  · simp only [Bool.and_eq_true, decide_eq_true_eq, UInt8.le_iff_toNat_le, UInt8.reduceToNat] at h ⊢
    omega

lemma isCont_of_mem_take (hb : b ∈ l.take (runeWidth (a :: l) - 1)) : isCont b = true := by
  by_cases h₁ : a < 0x80
  · simp [runeWidth, h₁] at hb
  by_cases h₂ : (0xC2 ≤ a && a ≤ 0xDF) = true
  · rcases l with _ | ⟨b₁, l⟩
    · simp at hb
    · by_cases hc : isCont b₁ = true
      · simp [runeWidth, h₁, h₂, hc] at hb
        rwa [hb]
      · simp [runeWidth, h₁, h₂, hc] at hb
  by_cases h₃ : (0xE0 ≤ a && a ≤ 0xEF) = true
  · rcases l with _ | ⟨b₁, _ | ⟨b₂, l⟩⟩
    · simp at hb
    · simp [runeWidth, h₁, h₂, h₃] at hb
    · by_cases hc : (isSecond a b₁ && isCont b₂) = true
      · simp [runeWidth, h₁, h₂, h₃, hc] at hb
        rw [Bool.and_eq_true] at hc
        rcases hb with rfl | rfl
        exacts [isCont_of_isSecond hc.1, hc.2]
      · simp [runeWidth, h₁, h₂, h₃, hc] at hb
  by_cases h₄ : (0xF0 ≤ a && a ≤ 0xF4) = true
  · rcases l with _ | ⟨b₁, _ | ⟨b₂, _ | ⟨b₃, l⟩⟩⟩
    · simp at hb
    · simp [runeWidth, h₁, h₂, h₃, h₄] at hb
    · simp [runeWidth, h₁, h₂, h₃, h₄] at hb
    · by_cases hc : (isSecond a b₁ && isCont b₂ && isCont b₃) = true
      · simp [runeWidth, h₁, h₂, h₃, h₄, hc] at hb
        rw [Bool.and_eq_true, Bool.and_eq_true] at hc
        rcases hb with rfl | rfl | rfl
        exacts [isCont_of_isSecond hc.1.1, hc.1.2, hc.2]
      · simp [runeWidth, h₁, h₂, h₃, h₄, hc] at hb
  simp [runeWidth, h₁, h₂, h₃, h₄] at hb

lemma IsRune.isCont {u : List UInt8} (hu : IsRune u) {i : ℕ} (hb : u[i + 1]? = some b) :
    isCont b = true := by
  rcases u with _ | ⟨a, l⟩
  · cases hb
  rw [List.getElem?_cons_succ] at hb
  refine isCont_of_mem_take (a := a) (l := l) ?_
  rw [hu.2, length_cons, Nat.add_sub_cancel, take_length]
  exact mem_of_getElem? hb

lemma runeWidth_of_isCont (h : isCont b = true) (l : List UInt8) : runeWidth (b :: l) = 0 := by
  simp only [Foundation.isCont, Bool.and_eq_true, decide_eq_true_eq, UInt8.le_iff_toNat_le,
    UInt8.reduceToNat] at h
  have h₁ : ¬ b < 0x80 := by
    simp only [UInt8.lt_iff_toNat_lt, UInt8.reduceToNat]
    omega
  have h₂ : ∀ lo hi : UInt8, 0xC0 ≤ lo → (lo ≤ b && b ≤ hi) = false := by
    intro lo hi hlo
    simp only [UInt8.le_iff_toNat_le, UInt8.reduceToNat] at hlo
    simp only [Bool.and_eq_false_iff, decide_eq_false_iff_not, UInt8.le_iff_toNat_le]
    omega
  simp [runeWidth, h₁, h₂ 0xC2 0xDF (by decide), h₂ 0xE0 0xEF (by decide),
    h₂ 0xF0 0xF4 (by decide)]

lemma validUtf8_take_flatten (h : ∀ c ∈ cs, IsRune c) (hb : cs.flatten[n]? = some b)
    (hcont : isCont b = false) : validUtf8 (cs.flatten.take n) = true := by
  induction cs generalizing n with
  | nil => cases hb
  | cons u cs ih =>
    have hu : IsRune u := h u mem_cons_self
    have hvalid : validUtf8 u = true := by
      have hsingle : validUtf8 [u].flatten = true :=
        validUtf8_flatten fun c hc => mem_singleton.mp hc ▸ hu
      rwa [flatten_singleton] at hsingle
    rw [flatten_cons] at hb ⊢
    rcases lt_or_ge n u.length with hlt | hge
    · rw [List.getElem?_append_left hlt] at hb
      cases n with
      | zero => rfl
      | succ n => exact absurd (hu.isCont hb) (by rw [hcont]; exact Bool.false_ne_true)
    · rw [List.getElem?_append_right hge] at hb
      rw [take_append, take_of_length_le hge, validUtf8_append hvalid]
      exact ih (fun c hc => h c (mem_cons_of_mem _ hc)) hb

lemma validUtf8_drop (h : validUtf8 l = true) (htake : validUtf8 (l.take n) = true) :
    validUtf8 (l.drop n) = true := by
  rw [← validUtf8_append htake, take_append_drop, h]

/-- A valid list may be cut exactly where no continuation byte follows. -/
theorem validUtf8_take_iff (h : validUtf8 l = true) (hb : l[n]? = some b) :
    validUtf8 (l.take n) = true ↔ isCont b = false := by
  constructor
  · intro htake
    have hdrop : validUtf8 (l.drop n) = true := validUtf8_drop h htake
    obtain ⟨hn, rfl⟩ := List.getElem?_eq_some_iff.mp hb
    rw [drop_eq_getElem_cons hn] at hdrop
    by_contra hcont
    rw [Bool.not_eq_false] at hcont
    have hrune := isRune_of_valid hdrop _ mem_cons_self
    rw [IsRune, runeWidth_take, runeWidth_of_isCont hcont] at hrune
    exact hrune.1 rfl
  · intro hcont
    rw [← flatten_runes l] at hb ⊢
    exact validUtf8_take_flatten (isRune_of_valid h) hb hcont

/-! ### Coercing the pieces of a text -/

/-- Of two texts written piece by piece, the one whose pieces are at least as long has the length of
the other one iff every piece has. -/
lemma length_flatMap_eq_iff {α β : Type*} {f g : α → List β} {l : List α}
    (h : ∀ a ∈ l, (g a).length ≤ (f a).length) :
    (l.flatMap g).length ≤ (l.flatMap f).length ∧
      ((l.flatMap f).length = (l.flatMap g).length ↔ ∀ a ∈ l, (f a).length = (g a).length) := by
  induction l with
  | nil => simp
  | cons a l ih =>
    obtain ⟨hle, hiff⟩ := ih fun a' ha' => h a' (mem_cons_of_mem _ ha')
    have ha := h a mem_cons_self
    rw [flatMap_cons, flatMap_cons, length_append, length_append,
      forall_mem_cons, ← hiff]
    omega

lemma length_of_mem_runesFrom (hc : c ∈ runesFrom n l) (hw : runeWidth c = 0) : c.length = 1 := by
  obtain ⟨a, r, rfl⟩ := exists_of_mem_runesFrom hc
  rw [runeWidth_take] at hw
  rw [hw]
  rfl

lemma length_coerceRune (hc : c ∈ runes l) :
    c.length ≤ (coerceRune c).length ∧
      ((coerceRune c).length = c.length ↔ runeWidth c ≠ 0) := by
  unfold coerceRune
  split_ifs with hw
  · rw [length_of_mem_runesFrom hc hw]
    exact ⟨by decide, iff_of_false (by decide) (not_not.mpr hw)⟩
  · exact ⟨le_rfl, iff_of_true rfl hw⟩

lemma length_coerceUtf8 (l : List UInt8) : l.length ≤ (coerceUtf8 l).length ∧
    ((coerceUtf8 l).length = l.length ↔ validUtf8 l = true) := by
  have h := length_flatMap_eq_iff (f := coerceRune) (g := id) (l := runes l)
    fun c hc => (length_coerceRune hc).1
  rw [flatMap_id, flatten_runes, ← coerceUtf8] at h
  refine ⟨h.1, h.2.trans ?_⟩
  rw [validUtf8, all_eq_true]
  refine forall₂_congr fun c hc => ?_
  rw [id, (length_coerceRune hc).2]
  simp

/-- The pieces of a text, coerced one by one, join to the text iff each of them is valid. -/
theorem flatMap_coerceUtf8_eq_iff (ps : List (List UInt8)) :
    ps.flatMap coerceUtf8 = ps.flatten ↔ ∀ p ∈ ps, validUtf8 p = true := by
  constructor
  · intro h
    have hlen := (length_flatMap_eq_iff (f := coerceUtf8) (g := id) (l := ps)
      fun p _ => (length_coerceUtf8 p).1).2.mp (by rw [h, flatMap_id])
    exact fun p hp => (length_coerceUtf8 p).2.mp (hlen p hp)
  · intro h
    rw [← flatMap_id]
    exact flatMap_congr fun p hp => coerceUtf8_of_valid (h p hp)

end Foundation
