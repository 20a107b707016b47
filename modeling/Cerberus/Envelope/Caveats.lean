import Cerberus.Envelope.Narrowing

/-!
# The order of the caveats

The canonical form of a grant has its caveats sorted, so that their order does not change what is
signed. They are sorted by a key in which operation and value run into each other, and the sort
leaves caveats with equal keys as they come (`canonicalBytes_order_iff`).
-/

namespace Cerberus.Envelope

open Foundation Contract

/-- The order of the caveats does not change what is signed. -/
def OrderFree (H : Host) (g : Grant) : Prop :=
  ∀ l, l.Perm g.caveats → canonicalBytes H { g with caveats := l } = canonicalBytes H g

/-- Caveats with one key can be encoded in either order. -/
def KeysCommute (H : Host) (g : Grant) : Prop :=
  ∀ c ∈ g.caveats, ∀ d ∈ g.caveats, caveatKey H.floatText c = caveatKey H.floatText d →
    putCaveat H c ++ putCaveat H d = putCaveat H d ++ putCaveat H c

variable {H : Host} {g : Grant}

lemma canonicalBytes_caveats_eq_iff {l : List Caveat} (hl : l.Perm g.caveats) :
    canonicalBytes H { g with caveats := l } = canonicalBytes H g ↔
      (H.sort.sort l).flatMap (putCaveat H) = (H.sort.sort g.caveats).flatMap (putCaveat H) := by
  have hlen : len32 (H.sort.sort l) = len32 (H.sort.sort g.caveats) := by
    rw [len32, len32, H.sort.length_sort, H.sort.length_sort, hl.length_eq]
  simp only [canonicalBytes, putList, hlen, List.append_cancel_right_eq,
    List.append_cancel_left_eq]

lemma eq_of_putCaveat_append {c d : Caveat} {r s : List UInt8} (hc : CaveatOk c) (hd : CaveatOk d)
    (h : putCaveat H c ++ r = putCaveat H d ++ s) : c = d := by
  let start : Cursor := Cursor.start (putCaveat H c ++ r)
  obtain ⟨n, hn⟩ := reads_caveat (H := H) hc start rfl (Nat.zero_le _) ⟨r, rfl⟩
  obtain ⟨m, hm⟩ := reads_caveat (H := H) hd start rfl (Nat.zero_le _) ⟨s, h.symm⟩
  rw [hn] at hm
  exact (Prod.mk.inj (Option.some.inj hm)).1

lemma keysCommute_iff (hg : ∀ c ∈ g.caveats, CaveatOk c) :
    KeysCommute H g ↔ ∀ c ∈ g.caveats, ∀ d ∈ g.caveats,
      caveatKey H.floatText c = caveatKey H.floatText d → c = d := by
  constructor
  · intro h c hc d hd hkey
    exact eq_of_putCaveat_append (hg c hc) (hg d hd) (h c hc d hd hkey)
  · intro h c hc d hd hkey
    rw [h c hc d hd hkey]

/-- The canonical form of a grant does not depend on the order of its caveats iff caveats
with the same key have encodings that commute. For strings below `2 ^ 32` bytes this says that
different caveats have different keys, and it is so whenever no operation has an equals sign. -/
theorem canonicalBytes_order_iff (H : Host) (g : Grant) :
    (OrderFree H g ↔ KeysCommute H g) ∧
    ((∀ c ∈ g.caveats, CaveatOk c) → (OrderFree H g ↔ ∀ c ∈ g.caveats, ∀ d ∈ g.caveats,
      caveatKey H.floatText c = caveatKey H.floatText d → c = d)) ∧
    ((∀ c ∈ g.caveats, PlainCaveat c) → OrderFree H g) := by
  have hiff : OrderFree H g ↔ KeysCommute H g := by
    unfold OrderFree KeysCommute
    rw [← H.sort.flatMap_sort_eq_iff (putCaveat H) g.caveats]
    exact forall₂_congr fun l hl => canonicalBytes_caveats_eq_iff hl
  refine ⟨hiff, fun hg => hiff.trans (keysCommute_iff hg), fun hg => hiff.mpr ?_⟩
  intro c hc d hd hkey
  rw [eq_of_caveatKey_eq (hg d hd) (hg c hc) hkey]

/-- Two caveats with strings as values have the same key, and swapping them changes the canonical
form. -/
theorem swapped_caveats_differ :
    sampleGrant.caveats = [⟨.lit "a", .string (.lit "b=c")⟩, ⟨.lit "a=b", .string (.lit "c")⟩] ∧
    sampleGrant.caveats.reverse.Perm sampleGrant.caveats ∧
    canonicalBytes sampleHost { sampleGrant with caveats := sampleGrant.caveats.reverse } ≠
      canonicalBytes sampleHost sampleGrant :=
  ⟨rfl, List.reverse_perm _, by decide +kernel⟩

end Cerberus.Envelope
