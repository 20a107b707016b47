import Cerberus.System.Model

/-!
# Placing shards on peers

Files that are written at the same time share one counter. A chunk of the default coding has six
shards, and two of them may be lost. A writer that is alone gives at most two of the six to peers
(`one_writer`), since every third call does. With other writers in between, every call of a chunk
may be a third one (`two_remote_iff`).
-/

namespace Cerberus.System

open Foundation Contract Dfs List Function

/-- A call of `PutShard` by the writer of a file. -/
structure Write where
  file : ℕ
  cid : Cid
  shard : List UInt8

def shardCount : ℕ := defaultConfig.dataShards + defaultConfig.parityShards

/-- The shard was placed on a peer. -/
def Remote : Except ShardStoreErr GoString → Prop
  | .error _ => False
  | .ok hint => remotePlacement.bytes <+: hint.bytes

instance : DecidablePred Remote
  | .error _ => inferInstanceAs (Decidable False)
  | .ok hint => inferInstanceAs (Decidable (remotePlacement.bytes <+: hint.bytes))

/-- Calls of any writers, in the order in which they raise the counter, each with what the mesh does
in it: the placements that they return, with the file. -/
def placements : List (Write × PutMesh) → Scatter Blocks → List (ℕ × Except ShardStoreErr GoString)
  | [], _ => []
  | (w, mesh) :: calls, r =>
    let res := r.putShard memShardStore mesh w.cid w.shard
    (w.file, res.1) :: placements calls res.2

/-- Where the shards of a file went, by chunks. -/
def chunkPlacements (f : ℕ) (l : List (ℕ × Except ShardStoreErr GoString)) :
    List (List (Except ShardStoreErr GoString)) :=
  chunksOf shardCount ((l.filter (·.1 = f)).map Prod.snd)

/-- Calls with the numbers that the counter gives them. -/
def numbered {α : Type} : UInt64 → List α → List (UInt64 × α)
  | _, [] => []
  | n, a :: l => (n + 1, a) :: numbered (n + 1) l

/-- The numbers of the calls of a file, by chunks. -/
def chunkNumbers (f : ℕ) (n : UInt64) (writes : List Write) : List (List UInt64) :=
  chunksOf shardCount (((numbered n writes).filter (·.2.file = f)).map Prod.fst)

def placement (n : UInt64) (mesh : PutMesh) : Except ShardStoreErr GoString :=
  .ok ((remotePeer n mesh).elim (.lit "mem") fun peer => remotePlacement ++ encodePeer peer)

lemma putShard_eq (w : Write) (mesh : PutMesh) (r : Scatter Blocks) :
    ∃ b, r.putShard memShardStore mesh w.cid w.shard =
      (placement (r.putCount + 1) mesh, ⟨r.putCount + 1, b⟩) := by
  unfold Scatter.putShard placement
  cases hpeer : remotePeer (r.putCount + 1) mesh with
  | none => exact ⟨r.store.put w.cid w.shard, by simp only [hpeer]; rfl⟩
  | some peer => exact ⟨r.store, by simp only [hpeer]; rfl⟩

variable {n : UInt64} {mesh : PutMesh} {α : Type}

lemma remote_placement_iff : Remote (placement n mesh) ↔ (remotePeer n mesh).isSome := by
  unfold Remote placement
  cases remotePeer n mesh with
  | none => exact iff_of_false (by decide) Bool.false_ne_true
  | some peer => exact iff_of_true (prefix_append _ _) rfl

lemma mod_eq_zero_of_remotePeer (h : (remotePeer n mesh).isSome) : n % placementEvery = 0 := by
  by_contra hn
  rw [remotePeer, if_neg hn] at h
  cases h

def PutMesh.willing : PutMesh := ⟨[Vector.replicate 32 1], 0, some [1], fun _ => true⟩

lemma remotePeer_willing : (remotePeer n .willing).isSome ↔ n % placementEvery = 0 := by
  refine ⟨mod_eq_zero_of_remotePeer, fun hn => ?_⟩
  rw [remotePeer, if_pos hn]
  rfl

/-! ### Runs -/

lemma placements_eq (calls : List (Write × PutMesh)) (r : Scatter Blocks) :
    placements calls r =
      (numbered r.putCount calls).map fun p => (p.2.1.file, placement p.1 p.2.2) := by
  induction calls generalizing r with
  | nil => rfl
  | cons call calls ih =>
    obtain ⟨w, mesh⟩ := call
    obtain ⟨b, hput⟩ := putShard_eq w mesh r
    rw [placements, hput, ih]
    rfl

lemma numbered_map {β : Type} (f : α → β) (n : UInt64) (l : List α) :
    numbered n (l.map f) = (numbered n l).map fun p => (p.1, f p.2) := by
  induction l generalizing n with
  | nil => rfl
  | cons a l ih => rw [map_cons, numbered, numbered, ih, map_cons]

lemma map_snd_numbered (n : UInt64) (l : List α) : (numbered n l).map Prod.snd = l := by
  induction l generalizing n with
  | nil => rfl
  | cons a l ih => rw [numbered, map_cons, ih]

def chunkCalls (f : ℕ) (n : UInt64) (calls : List (Write × PutMesh)) :
    List (List (UInt64 × Write × PutMesh)) :=
  chunksOf shardCount ((numbered n calls).filter (·.2.1.file = f))

lemma chunkPlacements_eq (f : ℕ) (calls : List (Write × PutMesh)) (r : Scatter Blocks) :
    chunkPlacements f (placements calls r) =
      (chunkCalls f r.putCount calls).map (List.map fun p => placement p.1 p.2.2) := by
  rw [chunkPlacements, chunkCalls, placements_eq, filter_map, map_map, ← chunksOf_map]
  rfl

lemma chunkNumbers_eq (f : ℕ) (n : UInt64) (calls : List (Write × PutMesh)) :
    chunkNumbers f n (calls.map Prod.fst) = (chunkCalls f n calls).map (List.map Prod.fst) := by
  rw [chunkNumbers, chunkCalls, numbered_map, filter_map, map_map, ← chunksOf_map]
  rfl

lemma countP_remote_le (part : List (UInt64 × Write × PutMesh)) :
    (part.map fun p => placement p.1 p.2.2).countP (Remote ·) ≤
      (part.map Prod.fst).countP (· % placementEvery = 0) := by
  rw [countP_map, countP_map]
  refine countP_mono_left fun p _ hremote => ?_
  simp only [comp_apply, decide_eq_true_eq] at hremote ⊢
  exact mod_eq_zero_of_remotePeer (remote_placement_iff.mp hremote)

/-- Any writes of any files, interleaved in any way: every chunk has at most two shards at peers,
whatever the mesh does, iff at most two of the numbers that every chunk gets from the counter
are divisible by three. -/
theorem two_remote_iff (writes : List Write) (r : Scatter Blocks) :
    (∀ calls : List (Write × PutMesh), calls.map Prod.fst = writes →
        ∀ f, ∀ chunk ∈ chunkPlacements f (placements calls r), chunk.countP (Remote ·) ≤ 2) ↔
      ∀ f, ∀ numbers ∈ chunkNumbers f r.putCount writes,
        numbers.countP (· % placementEvery = 0) ≤ 2 := by
  constructor
  · intro hall f numbers hnumbers
    -- let every peer be willing
    have hfst : (writes.map fun w => (w, PutMesh.willing)).map Prod.fst = writes := by
      rw [map_map]
      exact map_id writes
    rw [← hfst, chunkNumbers_eq] at hnumbers
    obtain ⟨chunk, hchunk, rfl⟩ := mem_map.mp hnumbers
    have hle := hall _ hfst f _ (chunkPlacements_eq f _ r ▸ mem_map_of_mem hchunk)
    rw [countP_map] at hle ⊢
    refine le_of_eq_of_le (countP_congr fun p hp => ?_) hle
    have hmesh : p.2.2 = PutMesh.willing := by
      obtain ⟨i, rfl⟩ := exists_of_mem_chunksOf hchunk
      have hp := mem_of_mem_drop (mem_of_mem_take hp)
      rw [numbered_map] at hp
      obtain ⟨q, -, rfl⟩ := mem_map.mp (mem_of_mem_filter hp)
      rfl
    simp only [comp_apply, decide_eq_true_eq]
    rw [remote_placement_iff, hmesh, remotePeer_willing]
  · rintro hall calls rfl f chunk hchunk
    rw [chunkPlacements_eq] at hchunk
    obtain ⟨part, hpart, rfl⟩ := mem_map.mp hchunk
    refine (countP_remote_le part).trans (hall f _ ?_)
    rw [chunkNumbers_eq]
    exact mem_map_of_mem hpart

/-! ### One writer -/

lemma countP_mod_three_le (a : ℕ) : (List.range' a 6).countP (fun j => j % 3 = 0) ≤ 2 := by
  simp only [List.range', countP_cons, countP_nil, decide_eq_true_eq]
  split_ifs <;> omega

lemma map_fst_numbered (n : UInt64) (l : List α) :
    (numbered n l).map Prod.fst = (List.range l.length).map fun j => n + 1 + UInt64.ofNat j := by
  induction l generalizing n with
  | nil => rfl
  | cons a l ih =>
    rw [numbered, map_cons, ih, length_cons, range_succ_eq_map, map_cons,
      map_map]
    refine congrArg₂ _ (by simp) (map_congr_left fun j _ => ?_)
    rw [comp_apply, Nat.succ_eq_add_one, Nat.add_comm j, UInt64.ofNat_add,
      ← UInt64.add_assoc]
    rfl

lemma mod_placementEvery_iff {j : ℕ} (h : n.toNat + 1 + j < 2 ^ 64) :
    (n + 1 + UInt64.ofNat j) % placementEvery = 0 ↔ (n.toNat + 1 + j) % 3 = 0 := by
  have hsum : (n + 1 + UInt64.ofNat j).toNat = n.toNat + 1 + j := by
    simp
    omega
  rw [← UInt64.toNat_inj, UInt64.toNat_mod, hsum]
  exact Iff.rfl

lemma take_range'_sublist (s m : ℕ) : ((List.range' s m).take 6).Sublist (List.range' s 6) := by
  rcases Nat.le_total m 6 with h | h
  · rw [take_of_length_le (by simpa using h)]
    exact List.range'_sublist_right.mpr h
  · obtain ⟨d, rfl⟩ := Nat.exists_eq_add_of_le h
    rw [← List.range'_append, take_left' (by simp)]

lemma countP_numbers_le {l : List α} (hn : n.toNat + l.length < 2 ^ 64) (i : ℕ) :
    ((((numbered n l).map Prod.fst).drop i).take 6).countP
      (· % placementEvery = 0) ≤ 2 := by
  rw [map_fst_numbered, ← map_drop, ← map_take, countP_map]
  calc _ = (((List.range l.length).drop i).take 6).countP fun j => (n.toNat + 1 + j) % 3 = 0 :=
        countP_congr fun j hj => ?_
    _ ≤ (List.range' i 6).countP fun j => (n.toNat + 1 + j) % 3 = 0 := ?_
    _ = (List.range' (n.toNat + 1 + i) 6).countP fun j => j % 3 = 0 := ?_
    _ ≤ 2 := countP_mod_three_le _
  · have hlt := mem_range.mp (mem_of_mem_drop (mem_of_mem_take hj))
    simp only [comp_apply, decide_eq_true_eq]
    exact mod_placementEvery_iff (by omega)
  · rw [range_eq_range', drop_range', Nat.zero_add, Nat.mul_one]
    exact (take_range'_sublist _ _).countP_le
  · rw [← map_add_range', countP_map]
    rfl

/-- A file whose writer is alone, before the counter overflows. -/
theorem one_writer {calls : List (Write × PutMesh)} {r : Scatter Blocks} {f : ℕ}
    {chunk : List (Except ShardStoreErr GoString)} (halone : ∀ call ∈ calls, call.1.file = f)
    (hcount : r.putCount.toNat + calls.length < 2 ^ 64)
    (hchunk : chunk ∈ chunkPlacements f (placements calls r)) : chunk.countP (Remote ·) ≤ 2 := by
  have hall : ∀ p ∈ numbered r.putCount calls, decide (p.2.1.file = f) = true := by
    intro p hp
    refine decide_eq_true (halone p.2 ?_)
    rw [← map_snd_numbered r.putCount calls]
    exact mem_map_of_mem hp
  rw [chunkPlacements_eq, chunkCalls, filter_eq_self.mpr hall] at hchunk
  obtain ⟨part, hpart, rfl⟩ := mem_map.mp hchunk
  obtain ⟨i, rfl⟩ := exists_of_mem_chunksOf hpart
  refine (countP_remote_le _).trans ?_
  rw [map_take, map_drop]
  exact countP_numbers_le hcount i

theorem one_writer_six : ∃ calls, ∃ chunk ∈ chunkPlacements 0 (placements calls ⟨0, .empty⟩),
    chunk.countP (Remote ·) ≤ 2 := by
  have hne : chunkPlacements 0 (placements (List.replicate 6 (⟨0, ⟨[]⟩, []⟩, .willing))
      ⟨0, .empty⟩) ≠ [] := cons_ne_nil _ _
  obtain ⟨chunk, hchunk⟩ := exists_mem_of_ne_nil _ hne
  refine ⟨_, chunk, hchunk, one_writer (fun call hcall => ?_) (by decide) hchunk⟩
  rw [eq_of_mem_replicate hcall]

/-- Three writers take turns: all six shards of a chunk of one of them go to peers. -/
theorem chunk_all_remote :
    ∃ (calls : List (Write × PutMesh)) (chunk : List (Except ShardStoreErr GoString)),
      chunk ∈ chunkPlacements 0 (placements calls ⟨0, .empty⟩) ∧ chunk.length = 6 ∧
      chunk.countP (Remote ·) = 6 := by
  refine ⟨(List.range 18).map fun i => (⟨(i + 1) % 3, ⟨[]⟩, []⟩, .willing), ?_⟩
  exact ⟨_, mem_of_getElem? (i := 0) rfl, by decide +kernel, by decide +kernel⟩

end Cerberus.System
