import Cerberus.Cabi.Model

/-!
# Propagation of revocations

A process exports its set of revoked ids as bytes, and another one merges such bytes in calls that
take a limited number of ids. The result is the union (`revocations_propagate`).
-/

namespace Cerberus.Cabi

open Foundation Finset

open Kernel (CapId)

open Identity (RevocationSet)

/-- A buffer that one call merges: whole ids, and not too many. -/
def Mergeable (buf : List UInt8) : Prop :=
  capIdLen ∣ buf.length ∧ buf.length / capIdLen ≤ maxRevocationsPerMerge

/-- The set after merging buffers one after the other. -/
def mergeAll (rev : RevocationSet) (bufs : List (List UInt8)) : RevocationSet :=
  bufs.foldl (fun rev buf => (cerberusRevocationsMerge rev (some buf) buf.length).2) rev

variable {rev : RevocationSet} {buf : List UInt8} {id : CapId}

/-! ### One call -/

lemma mem_foldl_revoke {ids : List CapId} :
    id ∈ (ids.foldl RevocationSet.revoke rev).revoked ↔ id ∈ rev.revoked ∨ id ∈ ids := by
  induction ids generalizing rev with
  | nil => simp
  | cons a ids ih =>
    rw [List.foldl_cons, ih, RevocationSet.revoke, mem_insert, List.mem_cons,
      or_comm (a := id = a), or_assoc]

lemma merge_of_mergeable (rev : RevocationSet) (buf : List UInt8) {len : ℕ}
    (h : capIdLen ∣ len ∧ len / capIdLen ≤ maxRevocationsPerMerge) :
    ∃ rev', cerberusRevocationsMerge rev (some buf) len = (((len / capIdLen : ℕ) : ℤ), rev') ∧
      ∀ id, id ∈ rev'.revoked ↔
        id ∈ rev.revoked ∨ id ∈ (records capIdLen (len / capIdLen) buf : List CapId) := by
  rw [cerberusRevocationsMerge]
  by_cases hlen : len = 0
  · subst hlen
    exact ⟨rev, rfl, fun id => (or_iff_left List.not_mem_nil).symm⟩
  · have hmod : ¬ len % capIdLen ≠ 0 := not_not.mpr (Nat.mod_eq_zero_of_dvd h.1)
    rw [if_neg hlen]
    simp only [if_neg hmod, if_neg (not_lt.mpr h.2)]
    refine ⟨_, rfl, fun id => ?_⟩
    rw [RevocationSet.merge, mem_union, mem_foldl_revoke]
    exact or_congr_right (or_iff_right (notMem_empty id))

lemma merge_of_not_mergeable (rev : RevocationSet) (data : Option (List UInt8)) {len : ℕ}
    (h : ¬ capIdLen ∣ len ∨ maxRevocationsPerMerge < len / capIdLen) :
    cerberusRevocationsMerge rev data len = (-1, rev) := by
  have hlen : len ≠ 0 := by
    rintro rfl
    rcases h with h | h
    · exact h (dvd_zero _)
    · exact absurd h (by decide)
  cases data with
  | none => exact if_neg hlen
  | some buf =>
    rw [cerberusRevocationsMerge, if_neg hlen]
    rcases h with h | h
    · exact if_pos (mt Nat.dvd_of_mod_eq_zero h)
    · simp only [if_pos h, ite_self]

lemma mem_mergeAll {bufs : List (List UInt8)} (h : ∀ buf ∈ bufs, Mergeable buf) :
    id ∈ (mergeAll rev bufs).revoked ↔
      id ∈ rev.revoked ∨ ∃ buf ∈ bufs, id ∈ unpacked capIdLen buf := by
  induction bufs generalizing rev with
  | nil => simp [mergeAll]
  | cons buf bufs ih =>
    obtain ⟨rev', hcall, hmem⟩ := merge_of_mergeable rev buf (h buf List.mem_cons_self)
    have hcons : mergeAll rev (buf :: bufs) = mergeAll rev' bufs := by
      rw [mergeAll, List.foldl_cons, hcall]
      rfl
    rw [hcons, ih fun b hb => h b (List.mem_cons_of_mem _ hb), hmem, List.exists_mem_cons_iff,
      or_assoc, unpacked]

/-! ### Export -/

lemma mem_elements : id ∈ rev.elements ↔ id ∈ rev.revoked := mem_sort _

lemma nodup_elements (rev : RevocationSet) : rev.elements.Nodup := sort_nodup _ _

lemma export_eq {cap : ℕ} (h : cerberusRevocationsExportLen rev ≤ cap) :
    cerberusRevocationsExport rev (some cap) =
      (((packed rev.elements).length : ℤ), packed rev.elements) := by
  have hlen : (packed rev.elements).length = rev.len * capIdLen := by
    rw [length_packed, RevocationSet.elements, length_sort]
    rfl
  have hfits : ¬ cap < rev.len * capIdLen := not_lt.mpr h
  rw [cerberusRevocationsExport]
  simp only [if_neg hfits, hlen]
  norm_cast

/-- Revocations propagate whole: merging batches of what one process exports into the set of another
one, in any order and with any repetition, leaves the union, of which a further export yields each
id once; and a call with a broken length or too many ids is rejected and changes nothing. -/
theorem revocations_propagate (source target : RevocationSet) (cap : ℕ)
    (batches calls : List (List UInt8)) (hcap : cerberusRevocationsExportLen source ≤ cap)
    (hbatches : batches.flatten = (cerberusRevocationsExport source (some cap)).2)
    (hwhole : ∀ batch ∈ batches, Mergeable batch) (hcalls : ∀ buf, buf ∈ calls ↔ buf ∈ batches) :
    (mergeAll target calls).revoked = target.revoked ∪ source.revoked ∧
    (∀ cap', cerberusRevocationsExportLen (mergeAll target calls) ≤ cap' →
      ∃ ids : List CapId, ids.Nodup ∧ (∀ id, id ∈ ids ↔ id ∈ target.revoked ∪ source.revoked) ∧
        cerberusRevocationsExport (mergeAll target calls) (some cap') =
          (((packed ids).length : ℤ), packed ids)) ∧
    ∀ rev data len, (¬ capIdLen ∣ len ∨ maxRevocationsPerMerge < len / capIdLen) →
      cerberusRevocationsMerge rev data len = (-1, rev) := by
  have hunion : (mergeAll target calls).revoked = target.revoked ∪ source.revoked := by
    ext id
    rw [mem_mergeAll fun buf hbuf => hwhole buf ((hcalls buf).mp hbuf), mem_union]
    refine or_congr_right ?_
    calc (∃ buf ∈ calls, id ∈ unpacked capIdLen buf)
        ↔ id ∈ batches.flatMap (unpacked capIdLen) := by
          rw [List.mem_flatMap]
          exact exists_congr fun buf => and_congr_left fun _ => hcalls buf
      _ ↔ id ∈ unpacked capIdLen (packed source.elements) := by
          rw [← unpacked_flatten (by decide) fun b hb => (hwhole b hb).1, hbatches, export_eq hcap]
      _ ↔ id ∈ source.revoked := by
          rw [unpacked_packed (by decide), mem_elements]
  refine ⟨hunion, fun cap' hcap' => ?_, fun rev data len => merge_of_not_mergeable rev data⟩
  refine ⟨(mergeAll target calls).elements, nodup_elements _, fun id => ?_, export_eq hcap'⟩
  rw [mem_elements, hunion]

/-- The two ids of a set come to another one in two batches, the second batch first and twice. -/
theorem revocations_propagate_sample :
    (mergeAll ⟨{Vector.replicate 16 1}⟩
        [List.replicate 16 3, List.replicate 16 2, List.replicate 16 3]).revoked =
      {Vector.replicate 16 1} ∪ {Vector.replicate 16 2, Vector.replicate 16 3} := by
  have hle : RevocationSet.IdLe (Vector.replicate 16 2) (Vector.replicate 16 3) := by
    change (⟨List.replicate 16 2⟩ : GoString) ≤ ⟨List.replicate 16 3⟩
    decide
  have helements : RevocationSet.elements ⟨{Vector.replicate 16 2, Vector.replicate 16 3}⟩ =
      [Vector.replicate 16 2, Vector.replicate 16 3] := by
    rw [RevocationSet.elements, sort_insert _ (by simp [hle]) (by simp),
      sort_singleton]
  refine (revocations_propagate ⟨{Vector.replicate 16 2, Vector.replicate 16 3}⟩
    ⟨{Vector.replicate 16 1}⟩ 32 [List.replicate 16 2, List.replicate 16 3]
    [List.replicate 16 3, List.replicate 16 2, List.replicate 16 3] (by decide) ?_
    (by simp [Mergeable, capIdLen, maxRevocationsPerMerge]) (by simp [or_comm])).1
  rw [export_eq (by decide), helements]
  decide

/-! ### Runs -/

/-- The ids that a call revokes. A merge takes all ids of its buffer, or none. -/
def Call.revokes : Call → List CapId
  | .revoke (some id) => [id]
  | .revocationsMerge (some buf) len =>
    if capIdLen ∣ len ∧ len / capIdLen ≤ maxRevocationsPerMerge then
      records capIdLen (len / capIdLen) buf
    else []
  | _ => []

lemma mem_step (P : Kernel.Platform) (s : Process) (c : Call) :
    id ∈ (step P s c).revocations.revoked ↔ id ∈ s.revocations.revoked ∨ id ∈ c.revokes := by
  have hnone : id ∈ s.revocations.revoked ↔ id ∈ s.revocations.revoked ∨ id ∈ ([] : List CapId) :=
    (or_iff_left List.not_mem_nil).symm
  rcases c with _ | _ | _ | _ | ⟨_ | a⟩ | ⟨_ | buf, len⟩
  iterate 5 exact hnone
  · rw [Call.revokes, List.mem_singleton, or_comm]
    exact mem_insert
  · have hsame : (cerberusRevocationsMerge s.revocations none len).2 = s.revocations := by
      rw [cerberusRevocationsMerge]
      split_ifs <;> rfl
    rw [step, hsame]
    exact hnone
  · rw [Call.revokes, step]
    split_ifs with h
    · obtain ⟨rev', hcall, hmem⟩ := merge_of_mergeable s.revocations buf h
      rw [hcall]
      exact hmem id
    · rw [merge_of_not_mergeable _ _ (by rwa [not_and_or, not_le] at h)]
      exact hnone

/-- After any calls, `cerberus_is_revoked` answers yes exactly for the ids that one of them revoked,
itself or in a merge that was not refused. The functions on capabilities revoke none. -/
theorem isRevoked_run (P : Kernel.Platform) (seed : Vector UInt8 32) (calls : List Call)
    (id : CapId) :
    cerberusIsRevoked (run P seed calls).revocations (some id) =
      if id ∈ calls.flatMap Call.revokes then 1 else 0 := by
  have hrun : ∀ s, id ∈ (runFrom (step P) s calls).revocations.revoked ↔
      id ∈ s.revocations.revoked ∨ id ∈ calls.flatMap Call.revokes := by
    induction calls with
    | nil => exact fun s => (or_iff_left List.not_mem_nil).symm
    | cons c calls ih =>
      intro s
      rw [runFrom_cons, ih, mem_step, List.flatMap_cons, List.mem_append, or_assoc]
  have hmem := (hrun ⟨Kernel.withSeed P seed, .new⟩).trans (or_iff_right (notMem_empty id))
  simp only [cerberusIsRevoked, RevocationSet.isRevoked, run, hmem, decide_eq_true_eq]

end Cerberus.Cabi
