import Cerberus.Dfs.Reading

/-!
# Shards in memory

What `MemShardStore` holds after `Put`, and what `Get` makes of it. Shards are stored under their
content, so equal shards of a file are one entry; as long as no two of them collide under SHA-256,
every shard is found (`get?_putAll`). `Get` returns the file iff of every chunk enough shards are
held, counted by position (`get_mem_iff`).
-/

namespace Cerberus.Dfs

open Foundation List

variable {k m : ℕ} {H : Host} {code : ErasureCode k m} {b : Blocks}

/-- The shard is stored under its id. -/
def Blocks.Holds (H : Host) (b : Blocks) (shard : List UInt8) : Prop :=
  b.get? (shardCID H shard) = some shard

instance (shard : List UInt8) : Decidable (b.Holds H shard) :=
  inferInstanceAs (Decidable (_ = _))

/-- Nothing is stored that collides with one of the shards. -/
def Blocks.Genuine (H : Host) (b : Blocks) (shards : List (List UInt8)) : Prop :=
  ∀ c x, b.get? c = some x → ∀ shard ∈ shards, H.sha256 x = H.sha256 shard → x = shard

/-- Different shards have different hashes. -/
def Collisionless (H : Host) (shards : List (List UInt8)) : Prop :=
  ∀ x ∈ shards, ∀ y ∈ shards, H.sha256 x = H.sha256 y → x = y

instance (shards : List (List UInt8)) : Decidable (Collisionless H shards) :=
  inferInstanceAs (Decidable (∀ x ∈ shards, ∀ y ∈ shards, _))

/-! ### Storing -/

variable {shards : List (List UInt8)} {man : Manifest} {n : ℕ} {data : List UInt8}

lemma get?_putAll (h : Collisionless H shards) (b : Blocks) :
    (∀ x ∈ shards, (putAll H memShardStore shards b).Holds H x) ∧
      ∀ c, c ∉ shards.map (shardCID H) →
        (putAll H memShardStore shards b).get? c = b.get? c := by
  induction shards using List.reverseRecOn with
  | nil => exact ⟨fun _ hx => absurd hx not_mem_nil, fun _ _ => rfl⟩
  | append_singleton shards shard ih =>
    have hput : putAll H memShardStore (shards ++ [shard]) b =
        (putAll H memShardStore shards b).put (shardCID H shard) shard := putAll_append _ _ _
    obtain ⟨hheld, hother⟩ := ih fun x hx y hy =>
      h x (mem_append_left _ hx) y (mem_append_left _ hy)
    rw [hput]
    constructor
    · intro x hx
      unfold Blocks.Holds
      rw [OrdMap.get?_put]
      split_ifs with hcid
      · exact congrArg some (h shard (by simp) x hx (shardCID_eq_iff.mp hcid.symm))
      · rcases mem_append.mp hx with hx | hx
        · exact hheld x hx
        · exact absurd (congrArg _ (mem_singleton.mp hx)) hcid
    · intro c hc
      rw [map_append, mem_append, not_or] at hc
      rw [OrdMap.get?_put, if_neg, hother c hc.1]
      rintro rfl
      exact hc.2 mem_cons_self

lemma genuine_empty (H : Host) (shards : List (List UInt8)) : Blocks.Genuine H .empty shards := by
  intro c x hx
  cases hx

lemma genuine_putAll (h : Collisionless H shards) (hb : b.Genuine H shards) :
    (putAll H memShardStore shards b).Genuine H shards := by
  intro c x hx shard hshard heq
  obtain ⟨hheld, hother⟩ := get?_putAll h b
  by_cases hc : c ∈ shards.map (shardCID H)
  · obtain ⟨y, hy, rfl⟩ := mem_map.mp hc
    obtain rfl := Option.some.inj ((hheld y hy).symm.trans hx)
    exact h y hy shard hshard heq
  · rw [hother c hc] at hx
    exact hb c x hx shard hshard heq

lemma get?_dropAll (b : Blocks) (ids : List Cid) (c : Cid) :
    (b.dropAll ids).get? c = if c ∈ ids then none else b.get? c := by
  unfold Blocks.dropAll
  induction ids generalizing b with
  | nil => rw [foldl_nil, if_neg not_mem_nil]
  | cons id ids ih =>
    rw [foldl_cons, ih, OrdMap.get?_delete]
    by_cases hc : c ∈ ids
    · rw [if_pos hc, if_pos (mem_cons_of_mem _ hc)]
    · rw [if_neg hc]
      by_cases hid : c = id
      · rw [if_pos hid, if_pos (hid ▸ mem_cons_self)]
      · rw [if_neg hid, if_neg]
        simp [hid, hc]

/-! ### Reading -/

lemma responses_mem (ids : List Cid) (b : Blocks) :
    responses memShardStore ids b = (ids.map b.find, b) := by
  induction ids with
  | nil => rfl
  | cons c ids ih =>
    have hget : memShardStore.getShard c b = (b.find c, b) := rfl
    rw [responses, hget, ih, map_cons]

lemma answers_mem (cms : List ChunkManifest) (b : Blocks) :
    answers memShardStore cms b = (cms.map ChunkManifest.shardCIDs).map (List.map b.find) := by
  induction cms with
  | nil => rfl
  | cons cm cms ih => rw [answers, responses_mem, ih, map_cons, map_cons]

lemma find_eq_ok_iff {c : Cid} {x : List UInt8} : b.find c = .ok x ↔ b.get? c = some x := by
  unfold Blocks.find
  cases b.get? c with
  | none => simp
  | some y => simp

lemma Manifest.Describes.shardCIDs_eq (h : man.Describes H code n data) :
    man.chunks.map ChunkManifest.shardCIDs =
      (chunksOf n data).map fun chunk => (code.shards chunk).map (shardCID H) := by
  have hids : ∀ cms chunks, List.Forall₂ (ChunkManifest.Describes H code) cms chunks →
      cms.map ChunkManifest.shardCIDs =
        chunks.map fun chunk => (code.shards chunk).map (shardCID H) := by
    intro cms chunks hchunks
    induction hchunks with
    | nil => rfl
    | cons hcm _ ih => rw [map_cons, map_cons, hcm.shardCIDs, ih]
  exact hids _ _ h.chunks

lemma held_map_find_iff :
    Held k shards ((shards.map (shardCID H)).map b.find) ↔
      k ≤ shards.countP fun shard => b.Holds H shard := by
  unfold Held
  rw [map_map, ← map_prod_left_eq_zip, countP_map]
  refine Eq.to_iff (congrArg (k ≤ ·) (countP_congr fun shard _ => ?_))
  simp only [Function.comp_apply, decide_eq_true_eq]
  exact find_eq_ok_iff

/-- `Get` from memory returns the file iff of every chunk `k` shards or more are held. -/
theorem get_mem_iff (h : man.Describes H code n data) (hn : 0 < n)
    (hcode : H.newEncoder k m = some code) (hk : 0 < k) (hm : 0 < m)
    (hgenuine : b.Genuine H (shardsOf code n data)) :
    (get H memShardStore man b).1 = .ok data ↔
      ∀ chunk ∈ chunksOf n data, k ≤ (code.shards chunk).countP fun shard => b.Holds H shard := by
  have hforge : ∀ rs ∈ answers memShardStore man.chunks b,
      Unforged H rs (shardsOf code n data) := by
    intro rs hrs x hx shard hshard heq
    rw [answers_mem] at hrs
    obtain ⟨ids, -, rfl⟩ := mem_map.mp hrs
    obtain ⟨c, -, hc⟩ := mem_map.mp hx
    exact hgenuine c x (find_eq_ok_iff.mp hc) shard hshard heq
  rw [(h.get_returns hn hcode hk hm memShardStore b hforge).eq_ok_iff, answers_mem, h.shardCIDs_eq,
    forall₂_map_left_iff, map_map, forall₂_map_right_iff, forall₂_same]
  refine forall₂_congr fun chunk _ => ?_
  exact held_map_find_iff

/-- A file that is put into an empty store and read back. -/
theorem exists_put_get {cfg : Config} (hcfg : cfg.validate = none)
    {code : ErasureCode cfg.dataShards cfg.parityShards}
    (hcode : H.newEncoder cfg.dataShards cfg.parityShards = some code) {r : Input GoString}
    (hfault : r.fault = none) (hsha : Collisionless H (shardsOf code cfg.chunkSize r.bytes)) :
    ∃ man b, put H memShardStore cfg r .empty = some (.ok man, b) ∧
      (get H memShardStore man b).1 = .ok r.bytes := by
  have hsome : H.newEncoder cfg.dataShards cfg.parityShards ≠ none := by simp [hcode]
  obtain ⟨man, b, hput⟩ := exists_put hcfg accepting_memShardStore hsome hfault .empty
  obtain ⟨hman, rfl⟩ := put_ok_of_encoder hcfg hcode hput
  obtain ⟨hk, hm⟩ := counts_pos hcfg
  have hn := chunkSize_pos hcfg
  refine ⟨man, _, hput, (get_mem_iff hman hn hcode hk hm ?_).mpr fun chunk hchunk => ?_⟩
  · exact genuine_putAll hsha (genuine_empty H _)
  · -- every shard is held
    have hheld := (get?_putAll hsha .empty).1
    have hall : ∀ shard ∈ code.shards chunk, decide ((putAll H memShardStore
        (shardsOf code cfg.chunkSize r.bytes) .empty).Holds H shard) = true := fun shard hshard =>
      decide_eq_true (hheld shard (List.mem_flatMap.mpr ⟨chunk, hchunk, hshard⟩))
    rw [List.countP_eq_length.mpr hall, code.length_shards (ne_nil_of_mem_chunksOf hn hchunk)]
    exact Nat.le_add_right _ _

theorem exists_put_get_sample :
    ∃ man b, put Sample.host memShardStore Sample.config (Sample.reader [1, 2, 3]) .empty =
      some (.ok man, b) ∧ (get Sample.host memShardStore man b).1 = .ok [1, 2, 3] :=
  exists_put_get rfl (rfl : Sample.host.newEncoder 2 1 = some .xor) rfl (by decide +kernel)

end Cerberus.Dfs
