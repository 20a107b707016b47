import Cerberus.Dfs.Model

/-!
# What `Put` leaves

`Put` returns a manifest that lists, chunk by chunk, the ids of the shards of the bytes that the
reader gave, however it gave them (`put_ok`); these shards have then been put into the store, in
this order. It always comes to an end (`exists_put`).
-/

namespace Cerberus.Dfs

open Foundation List Input

variable {σ : Type} {k m : ℕ} (H : Host) (store : ShardStore σ) (code : ErasureCode k m)

/-- The entry of a manifest for a chunk. -/
structure ChunkManifest.Describes (cm : ChunkManifest) (chunk : List UInt8) : Prop where
  shardCIDs : cm.shardCIDs = (code.shards chunk).map (shardCID H)
  chunkBytes : cm.chunkBytes = chunk.length

/-- The shards of a file, chunk by chunk. -/
def shardsOf (n : ℕ) (data : List UInt8) : List (List UInt8) :=
  (chunksOf n data).flatMap code.shards

/-- What the root id is the hash of. -/
def rootInput (n : ℕ) (data : List UInt8) : List UInt8 :=
  (shardsOf code n data).flatMap fun shard => (shardCID H shard).bytes

/-- The manifest of a file. -/
structure Manifest.Describes (man : Manifest) (n : ℕ) (data : List UInt8) : Prop where
  dataShards : man.dataShards = k
  parityShards : man.parityShards = m
  chunkSize : man.chunkSize = n
  totalBytes : man.totalBytes = data.length
  chunks : List.Forall₂ (ChunkManifest.Describes H code) man.chunks (chunksOf n data)
  rootID : man.rootID = shardCID H (rootInput H code n data)

/-- The store after shards were put into it. -/
def putAll (shards : List (List UInt8)) (s : σ) : σ :=
  shards.foldl (fun s shard => (store.putShard (shardCID H shard) shard s).2) s

/-- The store refuses no shard. -/
def ShardStore.Accepting : Prop := ∀ c shard s, ∃ hint, (store.putShard c shard s).1 = .ok hint

lemma accepting_memShardStore : memShardStore.Accepting := by
  intro c shard s
  exact ⟨.lit "mem", rfl⟩

/-! ### One chunk -/

variable {H store code} {chunk : List UInt8} {s s' : σ}

lemma putShards_ok {shards : List (List UInt8)} {l : List (Cid × GoString)}
    (h : putShards H store shards s = (.ok l, s')) :
    l.map Prod.fst = shards.map (shardCID H) ∧ s' = putAll H store shards s := by
  induction shards generalizing s l with
  | nil =>
    cases h
    exact ⟨rfl, rfl⟩
  | cons shard rest ih =>
    rw [putShards] at h
    rcases hput : store.putShard (shardCID H shard) shard s with ⟨e | hint, s₁⟩
    · simp only [hput] at h
      cases h
    · simp only [hput] at h
      rcases hrest : putShards H store rest s₁ with ⟨e | l', s₂⟩
      · simp only [hrest] at h
        cases h
      · simp only [hrest] at h
        cases h
        obtain ⟨hids, hs⟩ := ih hrest
        refine ⟨congrArg (shardCID H shard :: ·) hids, ?_⟩
        rw [hs, putAll, putAll, foldl_cons, hput]

lemma exists_putShards (H : Host) (haccept : store.Accepting) (shards : List (List UInt8)) (s : σ) :
    ∃ l s', putShards H store shards s = (.ok l, s') := by
  induction shards generalizing s with
  | nil => exact ⟨[], s, rfl⟩
  | cons shard rest ih =>
    obtain ⟨hint, hhint⟩ := haccept (shardCID H shard) shard s
    obtain ⟨l, s', hrest⟩ := ih (store.putShard (shardCID H shard) shard s).2
    refine ⟨(shardCID H shard, hint) :: l, s', ?_⟩
    have hput : store.putShard (shardCID H shard) shard s =
        (.ok hint, (store.putShard (shardCID H shard) shard s).2) := Prod.ext hhint rfl
    rw [putShards, hput]
    simp only [hrest]

lemma putChunk_ok {cm : ChunkManifest} (h : putChunk H store code chunk s = (.ok cm, s')) :
    cm.Describes H code chunk ∧ s' = putAll H store (code.shards chunk) s := by
  rw [putChunk] at h
  split_ifs at h
  · cases h
  · rcases hput : putShards H store (code.shards chunk) s with ⟨e | l, s₁⟩
    · simp only [hput] at h
      cases h
    · simp only [hput] at h
      cases h
      obtain ⟨hids, hs⟩ := putShards_ok hput
      exact ⟨⟨hids, rfl⟩, hs⟩

lemma exists_putChunk (H : Host) (code : ErasureCode k m) (haccept : store.Accepting)
    (hchunk : chunk ≠ []) (s : σ) :
    ∃ cm s', putChunk H store code chunk s = (.ok cm, s') := by
  obtain ⟨l, s', hl⟩ := exists_putShards H haccept (code.shards chunk) s
  refine ⟨⟨l.map Prod.fst, l.map Prod.snd, chunk.length⟩, s', ?_⟩
  rw [putChunk, if_neg hchunk, hl]

/-! ### The loop -/

/-- What the loop has still to do from a state: the manifest that it returns describes what is left
of the file, after what has been read before. -/
structure Stored (n : ℕ) (H : Host) (store : ShardStore σ) (code : ErasureCode k m)
    (p : PutState σ) (man : Manifest) (s : σ) : Prop where
  fault : p.reader.fault = none
  dataShards : man.dataShards = p.man.dataShards
  parityShards : man.parityShards = p.man.parityShards
  chunkSize : man.chunkSize = p.man.chunkSize
  totalBytes : man.totalBytes = p.man.totalBytes + p.reader.bytes.length
  chunks : ∃ cms, man.chunks = p.man.chunks ++ cms ∧
    List.Forall₂ (ChunkManifest.Describes H code) cms (chunksOf n p.reader.bytes)
  rootID : man.rootID = shardCID H (p.rootInput ++ rootInput H code n p.reader.bytes)
  store : s = putAll H store (shardsOf code n p.reader.bytes) p.store

def readChunks (chunk : List UInt8) : List (List UInt8) := if chunk = [] then [] else [chunk]

lemma putAll_append (l l' : List (List UInt8)) (s : σ) :
    putAll H store (l ++ l') s = putAll H store l' (putAll H store l s) := foldl_append

lemma putRead_ok {p : PutState σ} {man : Manifest} {root : List UInt8}
    (h : putRead H store code p chunk = (.ok (man, root), s)) :
    ∃ cms, List.Forall₂ (ChunkManifest.Describes H code) cms (readChunks chunk) ∧
      man = { p.man with
        chunks := p.man.chunks ++ cms
        totalBytes := p.man.totalBytes + chunk.length } ∧
      root = p.rootInput ++ ((readChunks chunk).flatMap code.shards).flatMap
        (fun shard => (shardCID H shard).bytes) ∧
      s = putAll H store ((readChunks chunk).flatMap code.shards) p.store := by
  unfold readChunks
  rw [putRead] at h
  split_ifs at h with hchunk
  · cases h
    refine ⟨[], ?_⟩
    simp [hchunk, putAll]
  · rcases hput : putChunk H store code chunk p.store with ⟨e | cm, s₁⟩
    · simp only [hput] at h
      cases h
    · simp only [hput] at h
      cases h
      obtain ⟨hcm, hs⟩ := putChunk_ok hput
      refine ⟨[cm], ?_, ?_, ?_, ?_⟩
      · rw [if_neg hchunk]
        exact .cons hcm .nil
      · rw [hcm.chunkBytes]
      · rw [if_neg hchunk, hcm.shardCIDs, flatMap_singleton, flatMap_map]
      · rw [if_neg hchunk, flatMap_singleton, hs]

lemma exists_putRead (H : Host) (code : ErasureCode k m) (haccept : store.Accepting)
    (p : PutState σ) (chunk : List UInt8) :
    ∃ r s, putRead H store code p chunk = (.ok r, s) := by
  unfold putRead
  split_ifs with hchunk
  · exact ⟨_, _, rfl⟩
  · obtain ⟨cm, s, hput⟩ := exists_putChunk H code haccept hchunk p.store
    rw [hput]
    exact ⟨_, _, rfl⟩

namespace Stored

variable {n : ℕ} {p p' : PutState σ} {man : Manifest}

lemma done (hbytes : p.reader.bytes = []) (hfault : p.reader.fault = none) (hn : 0 < n) :
    Stored n H store code p { p.man with rootID := shardCID H p.rootInput } p.store := by
  have hnil : chunksOf n p.reader.bytes = [] := by
    rw [hbytes, chunksOf_of_length_le hn (Nat.zero_le _), if_pos rfl]
  refine ⟨hfault, rfl, rfl, rfl, ?_, ⟨[], (append_nil _).symm, ?_⟩, ?_, ?_⟩
  · rw [hbytes, length_nil, Nat.add_zero]
  · rw [hnil]
    exact .nil
  · rw [rootInput, shardsOf, hnil, flatMap_nil, flatMap_nil, append_nil]
  · rw [shardsOf, hnil]
    rfl

lemma of_round (hn : 0 < n)
    (hread : putRead H store code p (p.reader.readFull n).1 =
      (.ok (p'.man, p'.rootInput), p'.store))
    (hreader : p'.reader = (p.reader.readFull n).2.2) (h : Stored n H store code p' man s) :
    Stored n H store code p man s := by
  rw [fst_readFull] at hread
  have hbytes : p'.reader.bytes = p.reader.bytes.drop n := by rw [hreader, bytes_readFull]
  have hchunks : chunksOf n p.reader.bytes =
      readChunks (p.reader.bytes.take n) ++ chunksOf n p'.reader.bytes := by
    rw [hbytes]
    exact chunksOf_eq_append hn _
  have hshards : shardsOf code n p.reader.bytes =
      (readChunks (p.reader.bytes.take n)).flatMap code.shards ++
        shardsOf code n p'.reader.bytes := by
    rw [shardsOf, hchunks, flatMap_append, shardsOf]
  obtain ⟨cms, hcms, hman, hroot, hs⟩ := putRead_ok hread
  obtain ⟨cms', hcat, hcms'⟩ := h.chunks
  refine ⟨?_, ?_, ?_, ?_, ?_, ⟨cms ++ cms', ?_, ?_⟩, ?_, ?_⟩
  · rw [← h.fault, hreader, fault_readFull]
  · rw [h.dataShards, hman]
  · rw [h.parityShards, hman]
  · rw [h.chunkSize, hman]
  · have hlen : (p.reader.bytes.take n).length + p'.reader.bytes.length =
        p.reader.bytes.length := by
      rw [hbytes, ← length_append, take_append_drop]
    rw [h.totalBytes, hman, ← hlen, Nat.add_assoc]
  · rw [hcat, hman, append_assoc]
  · rw [hchunks]
    exact rel_append hcms hcms'
  · rw [h.rootID, hroot, rootInput, rootInput, hshards, flatMap_append, append_assoc]
  · rw [h.store, hs, hshards, putAll_append]

end Stored

lemma loop_putBody (H : Host) (store : ShardStore σ) (code : ErasureCode k m) {n : ℕ} (hn : 0 < n)
    {fuel : ℕ} {p : PutState σ}
    (hfuel : p.reader.bytes.length < fuel) :
    ∃ res s, loop (putBody H store code n) fuel p = some (res, s) ∧
      (∀ man, res = .ok man → Stored n H store code p man s) ∧
      (store.Accepting → p.reader.fault = none → ∃ man, res = .ok man) := by
  induction fuel generalizing p with
  | zero => exact absurd hfuel (Nat.not_lt_zero _)
  | succ fuel ih =>
    rcases hread : putRead H store code p (p.reader.readFull n).1 with ⟨e | ⟨man, root⟩, s₁⟩
    · -- a shard could not be stored
      have hbody : putBody H store code n p = .inr (.error e, s₁) := by
        rw [putBody, hread]
      refine ⟨.error e, s₁, loop_succ_inr hbody fuel, fun man hman => ?_, fun haccept _ => ?_⟩
      · cases hman
      · obtain ⟨r, s, hok⟩ := exists_putRead H code haccept p (p.reader.readFull n).1
        rw [hread] at hok
        cases hok
    · set p' : PutState σ := ⟨(p.reader.readFull n).2.2, man, root, s₁⟩ with hp'
      have hbytes : p'.reader.bytes = p.reader.bytes.drop n := bytes_readFull n _
      have hround : ∀ {man' s}, Stored n H store code p' man' s → Stored n H store code p man' s :=
        fun h => h.of_round hn hread rfl
      by_cases hle : n ≤ p.reader.bytes.length
      · -- a whole chunk has been read
        have hbody : putBody H store code n p = .inl p' := by
          rw [putBody, hread]
          simp only [err_readFull_of_le hle]
          rfl
        have hlt : p'.reader.bytes.length < fuel := by
          rw [hbytes, length_drop]
          omega
        obtain ⟨res, s, hloop, hok, hacc⟩ := ih hlt
        refine ⟨res, s, (loop_succ_inl hbody fuel).trans hloop, fun man' h => ?_, hacc⟩
        exact hround (hok man' h)
      · have hlt := Nat.lt_of_not_le hle
        cases hfault : p.reader.fault with
        | none =>
          have hbody : putBody H store code n p =
              .inr (.ok { man with rootID := shardCID H root }, s₁) := by
            rw [putBody, hread]
            rcases err_readFull_of_lt hlt hfault with herr | herr
            · simp only [herr]
            · simp only [herr]
          refine ⟨_, s₁, loop_succ_inr hbody fuel, fun man' h => ?_, fun _ _ => ⟨_, rfl⟩⟩
          cases h
          refine hround (Stored.done (p := p') ?_ hfault hn)
          rw [hbytes, drop_of_length_le hlt.le]
        | some e =>
          have hbody : putBody H store code n p = .inr (.error (.read e), s₁) := by
            rw [putBody, hread]
            simp only [err_readFull_of_fault hlt hfault]
          refine ⟨_, s₁, loop_succ_inr hbody fuel, fun man' h => ?_, fun _ h => ?_⟩
          · cases h
          · cases h

/-! ### Put -/

variable {cfg : Config} {r : Input GoString} {man : Manifest}

lemma chunkSize_pos (hcfg : cfg.validate = none) : 0 < cfg.chunkSize := by
  refine Nat.pos_of_ne_zero fun h0 => ?_
  rw [Config.validate, if_pos h0] at hcfg
  cases hcfg

/-- What `Put` returns without an error is the manifest of the bytes that have been read, and their
shards have been put into the store. -/
theorem put_ok (hcfg : cfg.validate = none) (h : put H store cfg r s = some (.ok man, s')) :
    ∃ code, H.newEncoder cfg.dataShards cfg.parityShards = some code ∧ r.fault = none ∧
      man.Describes H code cfg.chunkSize r.bytes ∧
      s' = putAll H store (shardsOf code cfg.chunkSize r.bytes) s := by
  rw [put] at h
  cases hcode : H.newEncoder cfg.dataShards cfg.parityShards with
  | none =>
    rw [hcode] at h
    cases h
  | some code =>
    obtain ⟨res, s'', hloop, hok, -⟩ := loop_putBody H store code (chunkSize_pos hcfg)
      (p := ⟨r, cfg.manifest, [], s⟩) (Nat.lt_succ_self _)
    rw [hcode] at h
    simp only [hloop, Option.some.injEq, Prod.mk.injEq] at h
    obtain ⟨rfl, rfl⟩ := h
    have hstored := hok man rfl
    obtain ⟨cms, hcat, hcms⟩ := hstored.chunks
    refine ⟨code, rfl, hstored.fault, ⟨hstored.dataShards, hstored.parityShards, hstored.chunkSize,
      ?_, ?_, hstored.rootID⟩, hstored.store⟩
    · exact hstored.totalBytes.trans (Nat.zero_add _)
    · rw [hcat]
      exact hcms

lemma put_ok_of_encoder (hcfg : cfg.validate = none)
    {code : ErasureCode cfg.dataShards cfg.parityShards}
    (hcode : H.newEncoder cfg.dataShards cfg.parityShards = some code)
    (h : put H store cfg r s = some (.ok man, s')) : man.Describes H code cfg.chunkSize r.bytes ∧
      s' = putAll H store (shardsOf code cfg.chunkSize r.bytes) s := by
  obtain ⟨code', hcode', -, hman, hs⟩ := put_ok hcfg h
  obtain rfl : code = code' := Option.some.inj (hcode.symm.trans hcode')
  exact ⟨hman, hs⟩

lemma exists_put_result (H : Host) (store : ShardStore σ) (hcfg : cfg.validate = none)
    (r : Input GoString) (s : σ) : ∃ res, put H store cfg r s = some res := by
  unfold put
  cases H.newEncoder cfg.dataShards cfg.parityShards with
  | none => exact ⟨_, rfl⟩
  | some code =>
    obtain ⟨res, s', hloop, -⟩ := loop_putBody H store code (chunkSize_pos hcfg)
      (p := ⟨r, cfg.manifest, [], s⟩) (Nat.lt_succ_self _)
    exact ⟨_, hloop⟩

/-- With a store that accepts every shard, `Put` of a reader without an error returns a
manifest. -/
theorem exists_put (hcfg : cfg.validate = none) (haccept : store.Accepting)
    (hcode : H.newEncoder cfg.dataShards cfg.parityShards ≠ none) (hfault : r.fault = none)
    (s : σ) : ∃ man s', put H store cfg r s = some (.ok man, s') := by
  obtain ⟨code, hcode⟩ := Option.ne_none_iff_exists'.mp hcode
  obtain ⟨res, s', hloop, -, hacc⟩ := loop_putBody H store code (chunkSize_pos hcfg)
    (p := ⟨r, cfg.manifest, [], s⟩) (Nat.lt_succ_self _)
  obtain ⟨man, rfl⟩ := hacc haccept hfault
  refine ⟨man, s', ?_⟩
  rw [put, hcode]
  exact hloop

end Cerberus.Dfs
