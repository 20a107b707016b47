import Cerberus.Dfs.Memory

/-!
# What a root id identifies

The root id of a file is the hash of the ids of all its shards. From it one comes back to the shards
(`rootID_eq_iff`), but not to the file: the last chunk is filled up with zeros before it is cut, and
the number of its bytes is not hashed. So files with the same root id may differ in zeros at the end
(`rootID_identifies_iff`).
-/

namespace Cerberus.Dfs

open Foundation List

variable {k m n : ℕ} {H : Host} {code : ErasureCode k m} {a b : List UInt8} {man man' : Manifest}

/-- The second file is the first one with zeros at the end, or the other way round. -/
def ZerosApart (a b : List UInt8) : Prop :=
  ∃ z, b = a ++ List.replicate z 0 ∨ a = b ++ List.replicate z 0

/-- How long the shards of each chunk are. -/
def shardLens (code : ErasureCode k m) (n : ℕ) (data : List UInt8) : List ℕ :=
  (chunksOf n data).map fun chunk => code.shardLen chunk.length

/-- Different files that differ only in the zeros that fill up the last chunk. -/
structure PaddedAlike (code : ErasureCode k m) (n : ℕ) (a b : List UInt8) : Prop where
  ne : a ≠ b
  zerosApart : ZerosApart a b
  shardLens_eq : shardLens code n a = shardLens code n b

/-! ### From the root id to the shards -/

lemma length_shardCID (H : Host) (shard : List UInt8) : (shardCID H shard).bytes.length = 36 := by
  simp [shardCID]

lemma eq_of_map_shardCID_eq {S T : List (List UInt8)} (hsha : Collisionless H (S ++ T))
    (h : S.map (shardCID H) = T.map (shardCID H)) : S = T := by
  have hlen : S.length = T.length := by
    simpa using congrArg List.length h
  refine ext_getElem hlen fun i hi hi' => ?_
  have hid := getElem_of_eq h (by simpa using hi)
  rw [getElem_map, getElem_map] at hid
  exact hsha _ (mem_append_left _ (getElem_mem hi)) _
    (mem_append_right _ (getElem_mem hi')) (shardCID_eq_iff.mp hid)

lemma rootInput_eq_iff (hsha : Collisionless H (shardsOf code n a ++ shardsOf code n b)) :
    rootInput H code n a = rootInput H code n b ↔ shardsOf code n a = shardsOf code n b := by
  have hlen : ∀ data, ∀ l ∈ (shardsOf code n data).map fun shard => (shardCID H shard).bytes,
      l.length = 36 := by
    intro data l hl
    obtain ⟨shard, -, rfl⟩ := mem_map.mp hl
    exact length_shardCID H shard
  constructor
  · intro h
    unfold rootInput at h
    rw [flatMap_def, flatMap_def] at h
    have hids := eq_of_flatten_eq (by decide) (hlen a) (hlen b) h
    have hinj : Function.Injective GoString.bytes := fun _ _ => GoString.ext
    refine eq_of_map_shardCID_eq hsha (map_injective_iff.mpr hinj ?_)
    rw [map_map, map_map]
    exact hids
  · intro h
    unfold rootInput
    rw [h]

lemma shardsOf_eq_iff (hn : 0 < n) (hk : 0 < k) : shardsOf code n a = shardsOf code n b ↔
    (chunksOf n a).map code.shards = (chunksOf n b).map code.shards := by
  have hlen : ∀ data, ∀ l ∈ (chunksOf n data).map code.shards, l.length = k + m := by
    intro data l hl
    obtain ⟨chunk, hchunk, rfl⟩ := mem_map.mp hl
    exact code.length_shards (ne_nil_of_mem_chunksOf hn hchunk)
  unfold shardsOf
  rw [flatMap_def, flatMap_def]
  constructor
  · intro h
    exact eq_of_flatten_eq (Nat.add_pos_left hk m) (hlen a) (hlen b) h
  · exact congrArg List.flatten

/-! ### From the shards to the file -/

lemma zerosApart_iff_of_lt (ha : n < a.length) (hb : n < b.length) : ZerosApart a b ↔
    a.take n = b.take n ∧ ZerosApart (a.drop n) (b.drop n) := by
  have hside : ∀ {a b : List UInt8} {z : ℕ}, n < a.length → (b = a ++ List.replicate z 0 ↔
      a.take n = b.take n ∧ b.drop n = a.drop n ++ List.replicate z 0) := by
    intro a b z ha
    constructor
    · rintro rfl
      rw [take_append_of_le_length ha.le, drop_append_of_le_length ha.le]
      exact ⟨rfl, rfl⟩
    · rintro ⟨htake, hdrop⟩
      rw [← take_append_drop n b, hdrop, ← htake, ← append_assoc, take_append_drop]
  unfold ZerosApart
  simp only [hside ha, hside hb, eq_comm (a := b.take n), ← and_or_left, exists_and_left]

lemma map_shards_eq_iff (hn : 0 < n) :
    (chunksOf n a).map code.shards = (chunksOf n b).map code.shards ↔
      ZerosApart a b ∧ shardLens code n a = shardLens code n b := by
  -- a file of one chunk at most, and a longer one, have different numbers of chunks
  have hcount : ∀ {a b : List UInt8} {γ : Type} {f : List UInt8 → γ}, a.length ≤ n →
      n < b.length → (chunksOf n a).map f ≠ (chunksOf n b).map f := by
    intro a b γ f ha hb heq
    have hlen := congrArg List.length heq
    rw [length_map, length_map, length_chunksOf, length_chunksOf] at hlen
    have hone : (a.length + n - 1) / n < 2 := (Nat.div_lt_iff_lt_mul hn).mpr (by omega)
    have htwo : 2 ≤ (b.length + n - 1) / n := (Nat.le_div_iff_mul_le hn).mpr (by omega)
    omega
  induction hlen : a.length using Nat.strong_induction_on generalizing a b with
  | _ len ih =>
    subst hlen
    unfold shardLens
    rcases le_or_gt a.length n with ha | ha <;> rcases le_or_gt b.length n with hb | hb
    · rw [chunksOf_of_length_le hn ha, chunksOf_of_length_le hn hb]
      split_ifs with hanil hbnil hbnil
      · subst hanil hbnil
        exact iff_of_true rfl ⟨⟨0, .inl rfl⟩, rfl⟩
      · simp
      · simp
      · simp only [map_cons, map_nil, List.cons.injEq, and_true]
        rw [code.shards_eq_iff hanil, and_comm]
        exact Iff.rfl
    · exact iff_of_false (hcount ha hb) fun h => hcount ha hb h.2
    · exact iff_of_false (hcount hb ha).symm fun h => hcount hb ha h.2.symm
    · -- the first chunks of both files are full
      have htake : a.take n ≠ [] := by
        rw [← length_pos_iff, length_take]
        omega
      have hlen : (a.take n).length = (b.take n).length := by
        rw [length_take, length_take]
        omega
      have hfirst : code.shards (a.take n) = code.shards (b.take n) ↔ a.take n = b.take n := by
        refine ⟨fun h => ?_, congrArg _⟩
        obtain ⟨-, z, hz | hz⟩ := (code.shards_eq_iff htake).mp h
        · exact (prefix_iff_eq_take.mp ⟨_, hz.symm⟩).trans (by rw [hlen, take_length])
        · refine (prefix_iff_eq_take.mp ⟨_, hz.symm⟩).trans ?_ |>.symm
          rw [← hlen, take_length]
      have hlt : (a.drop n).length < a.length := by
        rw [length_drop]
        omega
      rw [chunksOf_of_le hn ha.le, chunksOf_of_le hn hb.le, zerosApart_iff_of_lt ha hb]
      simp only [map_cons, List.cons.injEq, hlen, true_and]
      rw [hfirst, and_assoc]
      exact and_congr_right fun _ => ih _ hlt rfl

theorem rootID_eq_iff (h : man.Describes H code n a) (h' : man'.Describes H code n b) (hn : 0 < n)
    (hk : 0 < k)
    (hsha : Collisionless H (rootInput H code n a :: rootInput H code n b ::
      (shardsOf code n a ++ shardsOf code n b))) :
    man.rootID = man'.rootID ↔ ZerosApart a b ∧ shardLens code n a = shardLens code n b := by
  have hroot : H.sha256 (rootInput H code n a) = H.sha256 (rootInput H code n b) ↔
      rootInput H code n a = rootInput H code n b :=
    ⟨hsha _ (by simp) _ (by simp), congrArg _⟩
  rw [h.rootID, h'.rootID, shardCID_eq_iff, hroot, rootInput_eq_iff, shardsOf_eq_iff hn hk,
    map_shards_eq_iff hn]
  exact fun x hx y hy =>
    hsha x (mem_cons_of_mem _ (mem_cons_of_mem _ hx)) y
      (mem_cons_of_mem _ (mem_cons_of_mem _ hy))

/-- Two files that were put with one configuration, into any stores: the root id tells them apart
exactly if they do not differ only in the zeros that fill up the last chunk. -/
theorem rootID_identifies_iff {σ σ' : Type} (H : Host) (cfg : Config) (hcfg : cfg.validate = none)
    (code : ErasureCode cfg.dataShards cfg.parityShards)
    (hcode : H.newEncoder cfg.dataShards cfg.parityShards = some code)
    (store : ShardStore σ) (store' : ShardStore σ') (r r' : Input GoString) (s t : σ) (s' t' : σ')
    (man man' : Manifest) (hput : put H store cfg r s = some (.ok man, t))
    (hput' : put H store' cfg r' s' = some (.ok man', t'))
    (hsha : Collisionless H (rootInput H code cfg.chunkSize r.bytes ::
      rootInput H code cfg.chunkSize r'.bytes ::
      (shardsOf code cfg.chunkSize r.bytes ++ shardsOf code cfg.chunkSize r'.bytes))) :
    (man.rootID = man'.rootID → r.bytes = r'.bytes) ↔
      ¬ PaddedAlike code cfg.chunkSize r.bytes r'.bytes := by
  have hman := (put_ok_of_encoder hcfg hcode hput).1
  have hman' := (put_ok_of_encoder hcfg hcode hput').1
  rw [rootID_eq_iff hman hman' (chunkSize_pos hcfg) (counts_pos hcfg).1 hsha]
  constructor
  · rintro h ⟨hne, hzeros, hlens⟩
    exact hne (h ⟨hzeros, hlens⟩)
  · rintro h ⟨hzeros, hlens⟩
    by_contra hne
    exact h ⟨hne, hzeros, hlens⟩

/-- The files `[1, 2, 3]` and `[5, 2, 3]` have different root ids. -/
theorem rootID_identifies_iff_sample :
    ∃ man man' b b', put Sample.host memShardStore Sample.config (Sample.reader [1, 2, 3]) .empty =
        some (.ok man, b) ∧
      put Sample.host memShardStore Sample.config (Sample.reader [5, 2, 3]) .empty =
        some (.ok man', b') ∧ man.rootID ≠ man'.rootID := by
  refine ⟨_, _, _, _, rfl, rfl, fun hroot => ?_⟩
  have h := (rootID_identifies_iff Sample.host Sample.config rfl .xor rfl memShardStore
    memShardStore (Sample.reader [1, 2, 3]) (Sample.reader [5, 2, 3]) .empty _ .empty _ _ _ rfl rfl
    (by decide +kernel)).mpr ?_ hroot
  · exact absurd h (by decide)
  · rintro ⟨-, ⟨z, hz | hz⟩, -⟩
    · exact absurd (List.head_eq_of_cons_eq hz) (by decide)
    · exact absurd (List.head_eq_of_cons_eq hz) (by decide)

/-- A byte, and this byte with a zero behind it, are cut into the same two shards. -/
theorem rootID_shared :
    ∃ man man' b b', put Sample.host memShardStore Sample.config (Sample.reader [1]) .empty =
        some (.ok man, b) ∧
      put Sample.host memShardStore Sample.config (Sample.reader [1, 0]) .empty =
        some (.ok man', b') ∧ man.rootID = man'.rootID :=
  ⟨_, _, _, _, rfl, rfl, by decide +kernel⟩

end Cerberus.Dfs
