import Cerberus.Dfs.Put

/-!
# Reading from a hostile store

`Get` asks a shard store for the shards of a file. Whatever the store answers, `Get` fails or
returns the bytes of the file, and it returns them if at `k` positions of every chunk the answer is
the shard that was put (`get_correct`). An answer that hashes to an id of the file without being
the shard would be a collision of SHA-256; the theorems exclude it for the answers that occur.
-/

namespace Cerberus.Dfs

open Foundation List

variable {σ : Type} {k m : ℕ} {H : Host} {store : ShardStore σ} {code : ErasureCode k m}

/-- What the store answers, chunk by chunk. -/
def answers (store : ShardStore σ) : List ChunkManifest → σ → List (List Response)
  | [], _ => []
  | cm :: cms, s =>
    let rs := responses store cm.shardCIDs s
    rs.1 :: answers store cms rs.2

/-- No answer hashes to the id of a shard without being the shard. -/
def Unforged (H : Host) (rs : List Response) (shards : List (List UInt8)) : Prop :=
  ∀ b, .ok b ∈ rs → ∀ shard ∈ shards, H.sha256 b = H.sha256 shard → b = shard

/-- At `k` positions the answer is the shard. -/
def Held (k : ℕ) (shards : List (List UInt8)) (rs : List Response) : Prop :=
  k ≤ (shards.zip rs).countP fun p => p.2 = .ok p.1

instance (k : ℕ) (shards : List (List UInt8)) (rs : List Response) : Decidable (Held k shards rs) :=
  inferInstanceAs (Decidable (_ ≤ _))

variable {rs : List Response} {shards : List (List UInt8)} {data shard chunk : List UInt8}

lemma unforged_iff : Unforged H rs shards ↔
    ∀ answer ∈ rs, ∀ shard ∈ shards,
      ∀ b ∈ answer.toOption, H.sha256 b = H.sha256 shard → b = shard := by
  constructor
  · rintro h (e | b) hanswer shard hshard b' hb'
    · cases hb'
    · cases hb'
      exact h b hanswer shard hshard
  · intro h b hb shard hshard
    exact h (.ok b) hb shard hshard b rfl

instance (rs : List Response) (shards : List (List UInt8)) : Decidable (Unforged H rs shards) :=
  decidable_of_iff _ unforged_iff.symm

/-- The result is the data if the condition holds, and an error otherwise. -/
def ReturnsIf (P : Prop) (data : List UInt8) (res : Except Err (List UInt8)) : Prop :=
  (P ∧ res = .ok data) ∨ (¬ P ∧ ∃ e, res = .error e)

lemma ReturnsIf.eq_ok_iff {P : Prop} {res : Except Err (List UInt8)} (h : ReturnsIf P data res) :
    res = .ok data ↔ P := by
  rcases h with ⟨hP, hok⟩ | ⟨hP, e, herr⟩
  · exact iff_of_true hok hP
  · rw [herr]
    exact iff_of_false (fun habs => by cases habs) hP

lemma shardCID_eq_iff {b : List UInt8} :
    shardCID H b = shardCID H shard ↔ H.sha256 b = H.sha256 shard := by
  unfold shardCID
  rw [GoString.mk.injEq, append_cancel_left_eq, Vector.toList_inj]

/-! ### One chunk -/

lemma length_responses (store : ShardStore σ) (ids : List Cid) (s : σ) :
    (responses store ids s).1.length = ids.length := by
  induction ids generalizing s with
  | nil => rfl
  | cons c ids ih => rw [responses, length_cons, length_cons, ih]

lemma accepted_shardCID {answer : Response}
    (h : ∀ b, answer = .ok b → H.sha256 b = H.sha256 shard → b = shard) :
    accepted H (shardCID H shard) answer = if answer = .ok shard then some shard else none := by
  cases answer with
  | error e => rfl
  | ok b =>
    rw [accepted]
    by_cases hb : b = shard
    · rw [if_pos (congrArg _ hb), if_pos (congrArg _ hb), hb]
    · rw [if_neg fun hcid => hb (h b rfl (shardCID_eq_iff.mp hcid)),
        if_neg fun heq => hb (Except.ok.inj heq)]

lemma survivors_accepted (hlen : rs.length = shards.length) (hforge : Unforged H rs shards) :
    Survivors (List.zipWith (accepted H) (shards.map (shardCID H)) rs) shards ∧
      (List.zipWith (accepted H) (shards.map (shardCID H)) rs).countP Option.isSome =
        (shards.zip rs).countP fun p => p.2 = .ok p.1 := by
  induction shards generalizing rs with
  | nil =>
    rw [eq_nil_of_length_eq_zero hlen]
    exact ⟨.nil, rfl⟩
  | cons shard shards ih =>
    obtain ⟨answer, rs, rfl⟩ := exists_cons_of_length_eq_add_one hlen
    have hhead := accepted_shardCID (H := H) fun b hb =>
      hforge b (hb ▸ mem_cons_self) shard mem_cons_self
    obtain ⟨hsurv, hcount⟩ := ih (Nat.succ.inj hlen) fun b hb x hx =>
      hforge b (mem_cons_of_mem _ hb) x (mem_cons_of_mem _ hx)
    rw [map_cons, zipWith_cons_cons, zip_cons_cons, countP_cons,
      countP_cons, hhead, hcount]
    constructor
    · refine .cons ?_ hsurv
      split_ifs
      · exact .inr rfl
      · exact .inl rfl
    · by_cases hanswer : answer = .ok shard
      · simp [hanswer]
      · simp [hanswer]

lemma assemble_survivors (hchunk : chunk ≠ []) (ci : ℕ) {got : List (Option (List UInt8))}
    (hgot : Survivors got (code.shards chunk)) :
    assemble code ci chunk.length got =
      if got.countP Option.isSome < k then
        .error (.tooFewShards ci (got.countP Option.isSome) k)
      else .ok chunk := by
  unfold assemble
  split_ifs with hcount
  · rfl
  · rw [code.reconstruct_shards hchunk hgot (Nat.le_of_not_lt hcount)]
    simp only [code.verify_shards hchunk, if_true, code.join_shards]

lemma getChunk_returns {cm : ChunkManifest} (store : ShardStore σ)
    (hcm : cm.Describes H code chunk) (hchunk : chunk ≠ []) (ci : ℕ) (s : σ)
    (hforge : Unforged H (responses store cm.shardCIDs s).1 (code.shards chunk)) :
    ReturnsIf (Held k (code.shards chunk) (responses store cm.shardCIDs s).1) chunk
      (getChunk H store code ci cm s).1 := by
  have hlen : (responses store cm.shardCIDs s).1.length = (code.shards chunk).length := by
    rw [length_responses, hcm.shardCIDs, length_map]
  obtain ⟨hsurv, hcount⟩ := survivors_accepted hlen hforge
  have hget : (getChunk H store code ci cm s).1 = assemble code ci chunk.length
      (List.zipWith (accepted H) ((code.shards chunk).map (shardCID H))
        (responses store cm.shardCIDs s).1) := by
    rw [← hcm.shardCIDs, ← hcm.chunkBytes]
    rfl
  rw [hget, assemble_survivors hchunk ci hsurv, hcount]
  split_ifs with hlt
  · exact .inr ⟨Nat.not_le.mpr hlt, _, rfl⟩
  · exact .inl ⟨Nat.le_of_not_lt hlt, rfl⟩

/-! ### Files -/

/-- `Get` over the chunks returns the file if enough shards of every chunk are held, and an error
otherwise. -/
lemma getChunks_returns {cms : List ChunkManifest} {chunks : List (List UInt8)}
    (store : ShardStore σ) (hcms : List.Forall₂ (ChunkManifest.Describes H code) cms chunks)
    (hchunks : ∀ chunk ∈ chunks, chunk ≠ []) (ci : ℕ) (s : σ)
    (hforge : ∀ rs ∈ answers store cms s, ∀ chunk ∈ chunks, Unforged H rs (code.shards chunk)) :
    ReturnsIf (List.Forall₂ (Held k) (chunks.map code.shards) (answers store cms s)) chunks.flatten
      (getChunks H store code ci cms s).1 := by
  induction hcms generalizing ci s with
  | nil => exact .inl ⟨.nil, rfl⟩
  | @cons cm chunk cms chunks hcm _ ih =>
    have hchunk := hchunks chunk mem_cons_self
    have hcount : cm.shardCIDs.length = k + m := by
      rw [hcm.shardCIDs, length_map, code.length_shards hchunk]
    have hfirst := getChunk_returns store hcm hchunk ci s
      (hforge _ mem_cons_self chunk mem_cons_self)
    have hrest := ih (fun c hc => hchunks c (mem_cons_of_mem _ hc)) (ci + 1)
      (responses store cm.shardCIDs s).2 fun rs hrs c hc =>
        hforge rs (mem_cons_of_mem _ hrs) c (mem_cons_of_mem _ hc)
    have hpair : getChunk H store code ci cm s =
        ((getChunk H store code ci cm s).1, (responses store cm.shardCIDs s).2) := rfl
    rw [map_cons, answers, forall₂_cons, getChunks, if_neg (not_not.mpr hcount), hpair]
    rcases hfirst with ⟨hheld, hok⟩ | ⟨hheld, e, herr⟩
    · rw [hok]
      rcases hr : getChunks H store code (ci + 1) cms (responses store cm.shardCIDs s).2 with
        ⟨res, s'⟩
      rw [hr] at hrest
      simp only [hr]
      rcases hrest with ⟨hall, rfl⟩ | ⟨hall, e, rfl⟩
      · exact .inl ⟨⟨hheld, hall⟩, rfl⟩
      · exact .inr ⟨fun h => hall h.2, e, rfl⟩
    · rw [herr]
      exact .inr ⟨fun h => hheld h.1, e, rfl⟩

theorem Manifest.Describes.get_returns {man : Manifest} {n : ℕ} (h : man.Describes H code n data)
    (hn : 0 < n) (hcode : H.newEncoder k m = some code) (hk : 0 < k) (hm : 0 < m)
    (store : ShardStore σ) (s : σ)
    (hforge : ∀ rs ∈ answers store man.chunks s, Unforged H rs (shardsOf code n data)) :
    ReturnsIf (List.Forall₂ (Held k) ((chunksOf n data).map code.shards)
      (answers store man.chunks s)) data (get H store man s).1 := by
  have hget : get H store man s = getChunks H store code 0 man.chunks s := by
    obtain ⟨rootID, dataShards, parityShards, chunkSize, totalBytes, chunks⟩ := man
    obtain ⟨rfl, rfl, -, -, -, -⟩ := h
    simp only [get, hcode]
    rw [if_neg]
    rintro (h0 | h0)
    · exact hk.ne' h0
    · exact hm.ne' h0
  have hchunks := getChunks_returns store h.chunks (fun _ hc => ne_nil_of_mem_chunksOf hn hc) 0 s
    fun rs hrs chunk hchunk b hb shard hshard => hforge rs hrs b hb shard
      (mem_flatMap.mpr ⟨chunk, hchunk, hshard⟩)
  rw [flatten_chunksOf hn] at hchunks
  rw [hget]
  exact hchunks

section

variable {τ : Type} {cfg : Config} {r : Input GoString} {man : Manifest}

lemma counts_pos (hcfg : cfg.validate = none) : 0 < cfg.dataShards ∧ 0 < cfg.parityShards := by
  rw [Config.validate] at hcfg
  split_ifs at hcfg with h0 hcounts
  exact ⟨Nat.pos_of_ne_zero fun h => hcounts (.inl h),
    Nat.pos_of_ne_zero fun h => hcounts (.inr h)⟩

/-- Reads are correct against a hostile store: `Get` fails or returns the bytes that `Put` has read,
and it returns them if at `k` positions of every chunk, or more, the answer of the store is the
shard that was put. -/
theorem get_correct (H : Host) (cfg : Config) (hcfg : cfg.validate = none) (r : Input GoString)
    (putStore : ShardStore τ) (s₀ s₁ : τ) (man : Manifest)
    (hput : put H putStore cfg r s₀ = some (.ok man, s₁))
    (code : ErasureCode cfg.dataShards cfg.parityShards)
    (hcode : H.newEncoder cfg.dataShards cfg.parityShards = some code)
    (store : ShardStore σ) (s : σ)
    (hforge : ∀ rs ∈ answers store man.chunks s,
      Unforged H rs (shardsOf code cfg.chunkSize r.bytes)) :
    ((∃ e, (get H store man s).1 = .error e) ∨ (get H store man s).1 = .ok r.bytes) ∧
      (List.Forall₂ (Held cfg.dataShards) ((chunksOf cfg.chunkSize r.bytes).map code.shards)
          (answers store man.chunks s) →
        (get H store man s).1 = .ok r.bytes) := by
  have hman := (put_ok_of_encoder hcfg hcode hput).1
  have hret := hman.get_returns (chunkSize_pos hcfg) hcode (counts_pos hcfg).1 (counts_pos hcfg).2
    store s hforge
  refine ⟨?_, hret.eq_ok_iff.mpr⟩
  rcases hret with ⟨-, hok⟩ | ⟨-, herr⟩
  · exact .inr hok
  · exact .inl herr

namespace Sample

/-- Two data shards and one parity shard, chunks of four bytes. -/
def config : Config := ⟨4, 2, 1⟩

/-- A store that holds no shards but the first data shard and the parity shard of `[1, 2, 3]`, and
answers with other bytes for the second data shard. -/
def hostile : ShardStore Unit where
  putShard _ _ s := (.ok ⟨[]⟩, s)
  getShard c s :=
    (if c = shardCID host [1, 2] then .ok [1, 2]
      else if c = shardCID host [3, 0] then .ok [66]
      else if c = shardCID host [2, 2] then .ok [2, 2]
      else .error (.notFound c), s)

end Sample

open Sample

/-- The bytes are found from one data shard and the parity. -/
theorem get_correct_sample :
    ∃ man s, put host memShardStore config (reader [1, 2, 3]) .empty =
        some (.ok man, s) ∧
      (get host hostile man ()).1 = .ok [1, 2, 3] := by
  refine ⟨_, _, rfl, ?_⟩
  refine (get_correct host config rfl (reader [1, 2, 3]) memShardStore .empty _
    _ rfl .xor rfl hostile () ?_).2 ?_
  · decide +kernel
  · decide +kernel

end

end Cerberus.Dfs
