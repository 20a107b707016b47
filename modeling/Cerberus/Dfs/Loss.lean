import Cerberus.Dfs.Memory

/-!
# Losing shards

A file is meant to survive the loss of `m` shards of every chunk. Shards are lost from the store,
where equal shards are one entry, but redundancy is counted by position. If two positions of a file
have the same shard, then losing `m` entries of each chunk may cost a chunk `m + 1` positions
(`copies_lost_together`).
-/

namespace Cerberus.Dfs

open Foundation List Option

variable {k m n : ℕ} {H : Host} {code : ErasureCode k m} {data : List UInt8} {man : Manifest}

/-- At most `m` shards of each chunk. -/
def Losable (m : ℕ) (man : Manifest) (lost : ℕ → List Cid) : Prop :=
  ∀ i cm, man.chunks[i]? = some cm →
    (lost i).Nodup ∧ (lost i).length ≤ m ∧ ∀ c ∈ lost i, c ∈ cm.shardCIDs

/-- The ids that are lost from the store. -/
def lostIds (man : Manifest) (lost : ℕ → List Cid) : List Cid :=
  (List.range man.chunks.length).flatMap lost

section

variable {κ : Type*} [DecidableEq κ] {f : List UInt8 → κ} {S R : List (List UInt8)} {ids : List κ}

lemma countP_notMem_add (f : List UInt8 → κ) (S : List (List UInt8)) (ids : List κ) :
    S.countP (fun x => f x ∉ ids) + S.countP (fun x => f x ∈ ids) = S.length := by
  rw [Nat.add_comm, length_eq_countP_add_countP fun x => f x ∈ ids]
  simp

lemma le_countP_notMem (hlen : S.length = k + m) (hS : S.Nodup)
    (hf : ∀ x ∈ S, ∀ y ∈ S, f x = f y → x = y) (hids : ids.length ≤ m) :
    k ≤ S.countP fun x => f x ∉ ids := by
  have hcount : S.countP (fun x => f x ∈ ids) ≤ ids.length := by
    rw [countP_eq_length_filter, ← length_map (f := f)]
    refine (List.Nodup.subperm ?_ ?_).length_le
    · refine (hS.filter _).map_on fun x hx y hy => ?_
      exact hf x (mem_of_mem_filter hx) y (mem_of_mem_filter hy)
    · intro c hc
      obtain ⟨x, hx, rfl⟩ := mem_map.mp hc
      exact of_decide_eq_true (mem_filter.mp hx).2
  have hsum := countP_notMem_add f S ids
  omega

lemma countP_notMem_lt {x : List UInt8} (hlen : S.length = k + m) (hx : x ∈ S)
    (hR : R.Subperm (S.erase x)) (hRlen : R.length = m) (hxids : f x ∈ ids)
    (hids : ∀ y ∈ R, f y ∈ ids) : S.countP (fun x => f x ∉ ids) < k := by
  have hall : R.countP (fun x => f x ∈ ids) = m := by
    rw [countP_eq_length.mpr fun y hy => decide_eq_true (hids y hy), hRlen]
  have hcount : m + 1 ≤ S.countP (fun x => f x ∈ ids) := by
    rw [(perm_cons_erase hx).countP_eq, countP_cons, if_pos (decide_eq_true hxids)]
    exact Nat.succ_le_succ (hall.symm.le.trans (hR.countP_le _))
  have hsum := countP_notMem_add f S ids
  omega

end

/-! ### Which files survive -/

lemma get_dropAll_iff (h : man.Describes H code n data) (hn : 0 < n)
    (hcode : H.newEncoder k m = some code) (hk : 0 < k) (hm : 0 < m)
    (hsha : Collisionless H (shardsOf code n data)) (ids : List Cid) :
    (get H memShardStore man
        ((putAll H memShardStore (shardsOf code n data) .empty).dropAll ids)).1 = .ok data ↔
      ∀ chunk ∈ chunksOf n data,
        k ≤ (code.shards chunk).countP fun shard => shardCID H shard ∉ ids := by
  have hheld := (get?_putAll hsha .empty).1
  rw [get_mem_iff h hn hcode hk hm]
  · refine forall₂_congr fun chunk hchunk => ?_
    refine Eq.to_iff (congrArg (k ≤ ·) (countP_congr fun shard hshard => ?_))
    have hshard' : shard ∈ shardsOf code n data := mem_flatMap.mpr ⟨chunk, hchunk, hshard⟩
    simp only [decide_eq_true_eq]
    unfold Blocks.Holds
    rw [get?_dropAll]
    split_ifs with hid
    · exact iff_of_false (by simp) (not_not.mpr hid)
    · exact iff_of_true (hheld shard hshard') hid
  · intro c x hx shard hshard heq
    rw [get?_dropAll] at hx
    split_ifs at hx
    exact genuine_putAll hsha (genuine_empty H _) c x hx shard hshard heq

lemma Manifest.Describes.getElem?_chunks (h : man.Describes H code n data) (i : ℕ) :
    man.chunks[i]?.map ChunkManifest.shardCIDs =
      (chunksOf n data)[i]?.map fun chunk => (code.shards chunk).map (shardCID H) := by
  rw [← List.getElem?_map, h.shardCIDs_eq, List.getElem?_map]

variable {lost : ℕ → List Cid} {i j : ℕ} {chunk chunk' x : List UInt8} {R : List (List UInt8)}

lemma mem_lostIds_iff {c : Cid} : c ∈ lostIds man lost ↔ ∃ i < man.chunks.length, c ∈ lost i := by
  simp [lostIds]

section

variable (h : man.Describes H code n data) (hsha : Collisionless H (shardsOf code n data))
include h hsha

lemma mem_lost_of_mem_lostIds (hnodup : (shardsOf code n data).Nodup)
    (hlost : Losable m man lost) {shard : List UInt8} (hi : (chunksOf n data)[i]? = some chunk)
    (hshard : shard ∈ code.shards chunk) (hc : shardCID H shard ∈ lostIds man lost) :
    shardCID H shard ∈ lost i := by
  obtain ⟨j, hj, hcj⟩ := mem_lostIds_iff.mp hc
  have hcm := List.getElem?_eq_getElem hj
  have hids := h.getElem?_chunks j
  rw [hcm, map_some] at hids
  obtain ⟨chunk', hchunk', hids'⟩ := map_eq_some_iff.mp hids.symm
  have hmem := (hlost j _ hcm).2.2 _ hcj
  rw [← hids'] at hmem
  obtain ⟨shard', hshard', heq⟩ := mem_map.mp hmem
  have hall : ∀ {i chunk shard}, (chunksOf n data)[i]? = some chunk → shard ∈ code.shards chunk →
      shard ∈ shardsOf code n data := fun hi hs =>
    mem_flatMap.mpr ⟨_, mem_of_getElem? hi, hs⟩
  obtain rfl : shard' = shard :=
    hsha _ (hall hchunk' hshard') _ (hall hi hshard) (shardCID_eq_iff.mp heq)
  by_contra hne
  have hij : i ≠ j := by
    rintro rfl
    exact hne hcj
  -- the two chunks are different parts of the list of all shards
  have hdisjoint := (nodup_flatMap.mp hnodup).2
  obtain ⟨hi', rfl⟩ := List.getElem?_eq_some_iff.mp hi
  obtain ⟨hj', rfl⟩ := List.getElem?_eq_some_iff.mp hchunk'
  have hpair := pairwise_iff_getElem.mp hdisjoint
  rcases lt_or_gt_of_ne hij with hlt | hlt
  · exact hpair i j hi' hj' hlt hshard hshard'
  · exact hpair j i hj' hi' hlt hshard' hshard

/-- Two positions with the same shard, one of them in a chunk, and `m` other positions of this
chunk: there is a loss that costs the chunk all of them. -/
lemma exists_losable (hm : 0 < m)
    (hi : (chunksOf n data)[i]? = some chunk) (hj : (chunksOf n data)[j]? = some chunk')
    (hx' : x ∈ code.shards chunk') (hR : ∀ y ∈ R, y ∈ code.shards chunk) (hRlen : R.length = m)
    (hij : i = j → x ∈ R) :
    ∃ lost, Losable m man lost ∧ shardCID H x ∈ lostIds man lost ∧
      ∀ y ∈ R, shardCID H y ∈ lostIds man lost := by
  have hlen : man.chunks.length = (chunksOf n data).length := h.chunks.length_eq
  have hilt : i < man.chunks.length := hlen ▸ (List.getElem?_eq_some_iff.mp hi).1
  have hjlt : j < man.chunks.length := hlen ▸ (List.getElem?_eq_some_iff.mp hj).1
  let lost : ℕ → List Cid := fun i' =>
    if i' = i then R.dedup.map (shardCID H) else if i' = j then [shardCID H x] else []
  have hlost : ∀ y ∈ R, shardCID H y ∈ lost i := by
    intro y hy
    simp only [lost, if_true]
    exact mem_map_of_mem (mem_dedup.mpr hy)
  refine ⟨lost, ?_, mem_lostIds_iff.mpr ?_, fun y hy => ?_⟩
  · intro i' cm hcm
    have hids := h.getElem?_chunks i'
    rw [hcm, map_some] at hids
    by_cases hi' : i' = i
    · subst hi'
      rw [hi, map_some] at hids
      simp only [lost, if_true]
      refine ⟨(R.nodup_dedup).map_on fun y hy z hz heq => ?_, ?_, fun c hc => ?_⟩
      · have hall : ∀ y ∈ R.dedup, y ∈ shardsOf code n data := fun y hy =>
          mem_flatMap.mpr ⟨chunk, mem_of_getElem? hi, hR y (mem_dedup.mp hy)⟩
        exact hsha y (hall y hy) z (hall z hz) (shardCID_eq_iff.mp heq)
      · rw [length_map, ← hRlen]
        exact (dedup_sublist R).length_le
      · rw [Option.some.inj hids]
        obtain ⟨y, hy, rfl⟩ := mem_map.mp hc
        exact mem_map_of_mem (hR y (mem_dedup.mp hy))
    · simp only [lost, if_neg hi']
      split_ifs with hj'
      · subst hj'
        rw [hj, map_some] at hids
        refine ⟨nodup_singleton _, hm, fun c hc => ?_⟩
        rw [Option.some.inj hids, mem_singleton.mp hc]
        exact mem_map_of_mem hx'
      · exact ⟨nodup_nil, Nat.zero_le _, fun c hc => absurd hc not_mem_nil⟩
  · by_cases hji : j = i
    · exact ⟨i, hilt, hlost x (hij hji.symm)⟩
    · refine ⟨j, hjlt, ?_⟩
      simp only [lost, if_neg hji, if_true]
      exact mem_cons_self
  · exact mem_lostIds_iff.mpr ⟨i, hilt, hlost y hy⟩

end

section

variable (h : man.Describes H code n data) (hn : 0 < n)
  (hsha : Collisionless H (shardsOf code n data))
include h hn hsha

/-- If the same shard stands at two positions, then a loss of at most `m` shards of each chunk may
leave less than `k` positions of the first chunk. -/
lemma exists_losable_countP_lt (hm : 0 < m)
    (hi : (chunksOf n data)[i]? = some chunk) (hj : (chunksOf n data)[j]? = some chunk')
    (hx : x ∈ code.shards chunk) (hx' : x ∈ code.shards chunk')
    (hR : R.Subperm ((code.shards chunk).erase x)) (hRlen : R.length = m) (hij : i = j → x ∈ R) :
    ∃ lost, Losable m man lost ∧ ∃ chunk ∈ chunksOf n data,
      (code.shards chunk).countP (fun shard => shardCID H shard ∉ lostIds man lost) < k := by
  have hsub : ∀ y ∈ R, y ∈ code.shards chunk := fun y hy => mem_of_mem_erase (hR.subset hy)
  obtain ⟨lost, hlost, hxlost, hRlost⟩ :=
    exists_losable h hsha hm hi hj hx' hsub hRlen hij
  have hchunk := mem_of_getElem? hi
  refine ⟨lost, hlost, chunk, hchunk, ?_⟩
  exact countP_notMem_lt (code.length_shards (ne_nil_of_mem_chunksOf hn hchunk)) hx hR hRlen hxlost
    hRlost

lemma nodup_of_forall_losable (hk : 0 < k) (hm : 0 < m)
    (hkeep : ∀ lost, Losable m man lost → ∀ chunk ∈ chunksOf n data,
      k ≤ (code.shards chunk).countP fun shard => shardCID H shard ∉ lostIds man lost) :
    (shardsOf code n data).Nodup := by
  -- two positions with the same shard, and what else is lost of the first chunk
  have hno : ∀ {i j : ℕ} {chunk chunk' x : List UInt8} {R : List (List UInt8)},
      (chunksOf n data)[i]? = some chunk → (chunksOf n data)[j]? = some chunk' →
      x ∈ code.shards chunk → x ∈ code.shards chunk' →
      R.Subperm ((code.shards chunk).erase x) → R.length = m → ¬ (i = j → x ∈ R) := by
    intro i j chunk chunk' x R hi hj hx hx' hR hRlen hij
    obtain ⟨lost, hlost, c, hc, hlt⟩ :=
      exists_losable_countP_lt h hn hsha hm hi hj hx hx' hR hRlen hij
    exact absurd (hkeep lost hlost c hc) (Nat.not_le.mpr hlt)
  refine nodup_flatMap.mpr ⟨fun chunk hchunk => ?_, ?_⟩
  · -- a shard that stands twice in a chunk
    by_contra hdup
    obtain ⟨x, hcount⟩ : ∃ x, 2 ≤ (code.shards chunk).count x := by
      by_contra hall
      push Not at hall
      exact hdup (nodup_iff_count_le_one.mpr fun x => Nat.le_of_lt_succ (hall x))
    have hx : x ∈ code.shards chunk := count_pos_iff.mp (by omega)
    have hx₂ : x ∈ (code.shards chunk).erase x := by
      refine count_pos_iff.mp ?_
      rw [count_erase_self]
      omega
    have hlen := code.length_shards (ne_nil_of_mem_chunksOf hn hchunk)
    have hlen₁ := length_erase_of_mem hx
    have hlen₂ := length_erase_of_mem hx₂
    obtain ⟨i, hi⟩ := mem_iff_getElem?.mp hchunk
    refine hno (R := x :: (((code.shards chunk).erase x).erase x).take (m - 1)) hi hi hx hx ?_ ?_
      fun _ => mem_cons_self
    · refine (subperm_cons x).mpr (take_sublist _ _).subperm |>.trans ?_
      exact (perm_cons_erase hx₂).symm.subperm
    · rw [length_cons, length_take]
      omega
  · -- a shard that stands in two chunks
    refine pairwise_iff_getElem.mpr fun i j hi hj hlt x hx hx' => ?_
    have hlen := code.length_shards (ne_nil_of_mem_chunksOf hn (getElem_mem hi))
    have hlen₁ := length_erase_of_mem hx
    refine hno (List.getElem?_eq_getElem hi) (List.getElem?_eq_getElem hj) hx hx'
      (take_sublist m _).subperm ?_ fun hij => absurd hij hlt.ne
    rw [length_take]
    omega

lemma le_countP_of_nodup (hnodup : (shardsOf code n data).Nodup)
    (hlost : Losable m man lost) (hchunk : chunk ∈ chunksOf n data) :
    k ≤ (code.shards chunk).countP fun shard => shardCID H shard ∉ lostIds man lost := by
  obtain ⟨i, hi⟩ := mem_iff_getElem?.mp hchunk
  obtain ⟨cm, hcm⟩ : ∃ cm, man.chunks[i]? = some cm := by
    have hids := h.getElem?_chunks i
    rw [hi, map_some] at hids
    exact (map_eq_some_iff.mp hids).imp fun _ => And.left
  have hkeep : k ≤ (code.shards chunk).countP fun shard => shardCID H shard ∉ lost i := by
    refine le_countP_notMem (code.length_shards (ne_nil_of_mem_chunksOf hn hchunk)) ?_ ?_
      (hlost i cm hcm).2.1
    · exact (nodup_flatMap.mp hnodup).1 chunk hchunk
    · intro x hx y hy heq
      exact hsha x (mem_flatMap.mpr ⟨chunk, hchunk, hx⟩) y
        (mem_flatMap.mpr ⟨chunk, hchunk, hy⟩) (shardCID_eq_iff.mp heq)
  refine hkeep.trans (countP_mono_left fun shard hshard hnot => ?_)
  rw [decide_eq_true_eq] at hnot ⊢
  exact fun hlostid => hnot (mem_lost_of_mem_lostIds h hsha hnodup hlost hi hshard hlostid)

end

/-- A file that was put into an empty store survives every loss of at most `m` different shards of
each chunk iff no two of its shards, of one chunk or of different chunks, are equal. -/
theorem survives_loss_iff (H : Host) (cfg : Config) (hcfg : cfg.validate = none)
    (r : Input GoString) (man : Manifest) (b : Blocks)
    (hput : put H memShardStore cfg r .empty = some (.ok man, b))
    (code : ErasureCode cfg.dataShards cfg.parityShards)
    (hcode : H.newEncoder cfg.dataShards cfg.parityShards = some code)
    (hsha : Collisionless H (shardsOf code cfg.chunkSize r.bytes)) :
    (∀ lost, Losable cfg.parityShards man lost →
        (get H memShardStore man (b.dropAll (lostIds man lost))).1 = .ok r.bytes) ↔
      (shardsOf code cfg.chunkSize r.bytes).Nodup := by
  obtain ⟨hman, rfl⟩ := put_ok_of_encoder hcfg hcode hput
  obtain ⟨hk, hm⟩ := counts_pos hcfg
  have hn := chunkSize_pos hcfg
  simp only [get_dropAll_iff hman hn hcode hk hm hsha]
  constructor
  · exact nodup_of_forall_losable hman hn hsha hk hm
  · intro hnodup lost hlost chunk hchunk
    exact le_countP_of_nodup hman hn hsha hnodup hlost hchunk

/-- The shards of `[1, 2, 3]` are different, so one of them may be lost. -/
theorem survives_loss_iff_sample :
    ∃ man b, put Sample.host memShardStore Sample.config (Sample.reader [1, 2, 3]) .empty =
        some (.ok man, b) ∧
      ∀ lost, Losable 1 man lost →
        (get Sample.host memShardStore man (b.dropAll (lostIds man lost))).1 = .ok [1, 2, 3] := by
  refine ⟨_, _, rfl, ?_⟩
  exact (survives_loss_iff Sample.host Sample.config rfl (Sample.reader [1, 2, 3]) _ _ rfl .xor rfl
    (by decide +kernel)).mpr (by decide +kernel)

/-- One data shard and one copy of it are one entry of the store: when it is lost, the file is. -/
theorem copies_lost_together :
    ∃ man b c, put Sample.host memShardStore ⟨4, 1, 1⟩ (Sample.reader [7]) .empty =
        some (.ok man, b) ∧
      man.chunks.map ChunkManifest.shardCIDs = [[c, c]] ∧ b.keys = [c] ∧
      Losable 1 man (fun _ => [c]) ∧
      (get Sample.host memShardStore man (b.dropAll (lostIds man fun _ => [c]))).1 =
        .error (.tooFewShards 0 0 1) := by
  refine ⟨_, _, shardCID Sample.host [7], rfl, by decide +kernel, by decide +kernel, ?_,
    by decide +kernel⟩
  intro i cm hcm
  refine ⟨List.nodup_singleton _, le_rfl, fun c hc => ?_⟩
  rw [List.mem_singleton.mp hc]
  exact (by decide +kernel : ∀ cm ∈ _, shardCID Sample.host [7] ∈ cm.shardCIDs) cm
    (List.mem_of_getElem? hcm)

end Cerberus.Dfs
