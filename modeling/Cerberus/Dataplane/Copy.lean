import Cerberus.Dataplane.CopiedSource

/-!
# The copy of a sender

The copy of an input ends, unless the limit is the greatest number and there is something to copy
(`exists_copied`).
-/

namespace Cerberus.Dataplane

open Foundation Contract List Input

variable {write : ℕ → Option GoString} {r : Input GoString} {limit : UInt64} {d : Copied}

lemma exists_returns_idle (hnil : r.bytes = []) :
    ∃ e, Returns (idleRound (.ofInput GoString)) r e := by
  refine exists_returns (I := fun n (r : Input GoString) =>
    r.bytes = [] ∧ r.bytes.length + r.pieces.length = n) (fun n r r' hI hround => ?_) ⟨hnil, rfl⟩
  obtain ⟨hnil, rfl⟩ := hI
  have hbytes := r.fst_read_append_bytes 0
  rw [hnil, append_eq_nil_iff] at hbytes
  unfold idleRound at hround
  split at hround
  · rename_i hnone
    cases hround
    refine ⟨_, ?_, hbytes.2, rfl⟩
    rcases err_read_cases 0 r with ⟨-, heq⟩ | ⟨hne, -⟩
    · have hsome : (r.read 0).2.1 = some r.ending := by rw [heq]
      exact absurd (hsome.symm.trans hnone) (Option.some_ne_none _)
    · exact size_read_lt hne (.inr hnil)
  · cases hround

lemma exists_copied (write : ℕ → Option GoString)
    (hmoves : limit.toNat + 1 < 2 ^ 64 ∨ r.bytes = []) :
    ∃ k d, rounds (copyRound (R := .ofInput GoString) write limit) k ⟨0, r, []⟩ = .inr d := by
  obtain ⟨d, k, hk⟩ := exists_returns_from (R := .ofInput GoString) (s := r) write
    (hmoves.imp_right exists_returns_idle)
  exact ⟨k, d, rounds_eq_inr_iff.mpr hk⟩

namespace Copied.Spec

variable {bytes : List UInt8} {ending : ReadErr GoString}

lemma length_le (h : d.Spec write bytes ending limit) :
    d.written.flatten.length ≤ limit.toNat := by
  unfold Copied.Spec at h
  split at h
  · rw [h.1]
    exact h.2.2.2.1
  · rw [h.1]
    exact h.2.2.2
  · exact h.1.2
  · rw [h.1]
    exact length_take_le _ _

variable (h : d.Spec (fun _ => none) bytes ending limit)
include h

lemma closes_none : d.closes none = true := by
  unfold Copied.Spec at h
  unfold Copied.closes
  split at h
  · rename_i herr
    rw [herr]
  · rename_i herr
    rw [herr]
  · obtain ⟨-, i, hi⟩ := h
    cases hi
  · rename_i herr
    rw [herr]

lemma err_none (hend : ending = .eof) (hlen : bytes.length ≤ limit.toNat) : d.err = none := by
  unfold Copied.Spec at h
  split at h
  · assumption
  · rw [hend] at h
    cases h.2.2.1
  · obtain ⟨-, i, hi⟩ := h
    cases hi
  · exact absurd hlen (Nat.not_le.mpr h.2.2)

end Copied.Spec

/-! ### The header -/

section Header

variable {unmarshal : List UInt8 → Option Header} {b w : List UInt8} {h : Header}

lemma uint32_readFull (hlen : b.length ≤ maxHeaderLen) (hpre : r.bytes <+: putBytes b ++ w)
    (hle : 4 ≤ r.bytes.length) : (uint32 (r.readFull 4).1).toNat = b.length := by
  obtain ⟨t, ht⟩ := hpre
  have htake : r.bytes.take 4 = putUint32 (len32 b) := by
    have hfront : (r.bytes ++ t).take 4 = r.bytes.take 4 := take_append_of_le_length hle
    rw [← hfront, ht, putBytes, append_assoc]
    rfl
  rw [fst_readFull, htake, uint32_putUint32]
  exact toNat_len32 (lt_of_le_of_lt hlen (by decide))

lemma readHeader_of_le (unmarshal : List UInt8 → Option Header) (hb : b ≠ [])
    (hlen : b.length ≤ maxHeaderLen) (hpre : r.bytes <+: putBytes b ++ w)
    (hle : 4 + b.length ≤ r.bytes.length) :
    ∃ payload : Input GoString, readHeader unmarshal r = (unmarshal b).map (·, payload) ∧
      payload.bytes = r.bytes.drop (4 + b.length) ∧ payload.fault = r.fault := by
  have hcount := uint32_readFull hlen hpre (by omega)
  have hpos := length_pos_iff.mpr hb
  have hrest : (r.readFull 4).2.2.bytes = r.bytes.drop 4 := bytes_readFull 4 r
  have hbuf : ((r.readFull 4).2.2.readFull b.length).1 = b := by
    obtain ⟨t, ht⟩ := hpre
    have hdrop : (r.bytes ++ t).drop 4 = r.bytes.drop 4 ++ t :=
      drop_append_of_le_length (by omega)
    have hfront : (r.bytes.drop 4 ++ t).take b.length = (r.bytes.drop 4).take b.length :=
      take_append_of_le_length (by rw [length_drop]; omega)
    rw [fst_readFull, hrest, ← hfront, ← hdrop, ht, putBytes, append_assoc,
      drop_left' (length_putUint32 _), take_left' rfl]
  refine ⟨((r.readFull 4).2.2.readFull b.length).2.2, ?_, ?_, rfl⟩
  · unfold readHeader
    simp only [hcount]
    rw [if_neg, if_neg, if_neg, hbuf]
    · rw [isSome_err_readFull_iff, hrest, length_drop]
      omega
    · omega
    · rw [isSome_err_readFull_iff]
      omega
  · rw [bytes_readFull, hrest, drop_drop]

lemma le_of_readHeader (hlen : b.length ≤ maxHeaderLen) (hpre : r.bytes <+: putBytes b ++ w)
    (hread : readHeader unmarshal r ≠ none) : 4 + b.length ≤ r.bytes.length := by
  unfold readHeader at hread
  simp only [ne_eq] at hread
  split_ifs at hread with hprefix hrange hbuf
  · exact absurd rfl hread
  · exact absurd rfl hread
  · exact absurd rfl hread
  · rw [isSome_err_readFull_iff, Nat.not_lt] at hprefix
    rw [isSome_err_readFull_iff, Nat.not_lt, uint32_readFull hlen hpre hprefix,
      bytes_readFull, length_drop] at hbuf
    omega

end Header

end Cerberus.Dataplane
