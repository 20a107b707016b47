import Cerberus.System.Model

/-!
# Fetching a shard from peers

`GetShard` returns the first answer without an error, and does not look at its bytes; `getChunk`
compares them with the id afterwards, when the other answers are gone.
-/

namespace Cerberus.System

open Foundation Contract Dfs List

variable {σ ε : Type}

/-- The mesh where the peers answer in an order, and then the deadline passes. -/
def GetMesh.arriving (cap : List UInt8) (peers : List PeerID)
    (arrivals : List (Except ε (List UInt8))) : GetMesh ε where
  cap := some cap
  peers := peers
  received := arrivals.map .result ++ [.done]

variable {c : Cid} {arrivals : List (Except ε (List UInt8))} {b : List UInt8}

lemma collect_eq_ok_iff {queried left : ℕ} {lastErr : Option ε} (hleft : arrivals.length ≤ left) :
    collect c queried left lastErr (arrivals.map .result ++ [.done]) = .ok b ↔
      arrivals.findSome? Except.toOption = some b := by
  induction arrivals generalizing left lastErr with
  | nil => cases left <;> simp [collect]
  | cons answer arrivals ih =>
    obtain ⟨left, rfl⟩ := Nat.exists_eq_add_of_lt (Nat.lt_of_lt_of_le (Nat.succ_pos _) hleft)
    rw [Nat.zero_add] at hleft ⊢
    cases answer with
    | error e =>
      rw [map_cons, cons_append, collect, ih (Nat.le_of_succ_le_succ hleft)]
      exact Iff.rfl
    | ok data =>
      rw [map_cons, cons_append, collect, Except.ok.injEq]
      exact Option.some.injEq data b ▸ Iff.rfl

lemma getShard_eq_ok_iff {localStore : ShardStore σ} {r : Scatter σ} {e : ShardStoreErr}
    {cap : List UInt8} {peers : List PeerID}
    (hmiss : (localStore.getShard c r.store).1 = .error e)
    (hlen : arrivals.length ≤ (peers.take getShardFanoutCap).length) :
    (r.getShard localStore (.arriving cap peers arrivals) c).1 = .ok b ↔
      arrivals.findSome? Except.toOption = some b := by
  have hlocal : localStore.getShard c r.store =
      (.error e, (localStore.getShard c r.store).2) := Prod.ext hmiss rfl
  unfold Scatter.getShard GetMesh.arriving GetMesh.queried
  rw [hlocal]
  simp only
  split_ifs with hpeers
  · -- nobody is asked, and nobody answers
    rw [hpeers, take_nil, length_nil, Nat.le_zero, length_eq_zero_iff] at hlen
    simp [hlen]
  · exact collect_eq_ok_iff hlen

/-- On a local miss the peers are asked, at most `getShardFanoutCap` of those that are known. Each
of them has an answer in time, an error or any bytes, or has none; one answers with bytes that hash
to the id. `GetShard` then returns such bytes, in whatever order the answers arrive, iff
every answer that is no error hashes to the id. -/
theorem good_peer_suffices_iff (H : Host) (localStore : ShardStore σ) (r : Scatter σ) (c : Cid)
    (e : ShardStoreErr) (hmiss : (localStore.getShard c r.store).1 = .error e) (cap : List UInt8)
    (peers : List PeerID) (answers : List (Option (Except ε (List UInt8))))
    (hanswers : answers.length = (peers.take getShardFanoutCap).length)
    (hgood : ∃ b, some (.ok b) ∈ answers ∧ shardCID H b = c) :
    (∀ arrivals : List (Except ε (List UInt8)), arrivals.Perm answers.reduceOption →
        ∃ b, (r.getShard localStore (.arriving cap peers arrivals) c).1 = .ok b ∧
          shardCID H b = c) ↔
      ∀ b, some (.ok b) ∈ answers → shardCID H b = c := by
  have hlen : ∀ arrivals : List (Except ε (List UInt8)), arrivals.Perm answers.reduceOption →
      arrivals.length ≤ (peers.take getShardFanoutCap).length := by
    intro arrivals hperm
    rw [hperm.length_eq, ← hanswers]
    exact reduceOption_length_le answers
  constructor
  · intro hall b hb
    -- let this answer arrive first
    obtain ⟨l, l', hl⟩ := append_of_mem (reduceOption_mem_iff.mpr hb)
    have hperm : (.ok b :: (l ++ l')).Perm answers.reduceOption := hl ▸ perm_middle.symm
    obtain ⟨b', hget, hhash⟩ := hall _ hperm
    have hfirst : some b = some b' := (getShard_eq_ok_iff hmiss (hlen _ hperm)).mp hget
    rw [Option.some.inj hfirst]
    exact hhash
  · intro hall arrivals hperm
    obtain ⟨b, hb, -⟩ := hgood
    have hmem : (.ok b) ∈ arrivals := hperm.mem_iff.mpr (reduceOption_mem_iff.mpr hb)
    obtain ⟨b', hfirst⟩ : ∃ b', arrivals.findSome? Except.toOption = some b' := by
      rw [← Option.isSome_iff_exists, List.findSome?_isSome_iff]
      exact ⟨.ok b, hmem, rfl⟩
    refine ⟨b', (getShard_eq_ok_iff hmiss (hlen _ hperm)).mpr hfirst, hall b' ?_⟩
    obtain ⟨answer, hanswer, heq⟩ := exists_of_findSome?_eq_some hfirst
    cases answer with
    | error e => cases heq
    | ok b'' =>
      obtain rfl := Option.some.inj heq
      exact reduceOption_mem_iff.mp (hperm.mem_iff.mp hanswer)

namespace Sample

def peers : List PeerID := [Vector.replicate 32 1, Vector.replicate 32 2, Vector.replicate 32 3]

end Sample

open Sample

/-- One peer is too late, one has an error, and one has the shard. -/
theorem good_peer_suffices_iff_sample :
    ∃ answers : List (Option (Except GoString (List UInt8))),
      answers = [none, some (.error streamReset), some (.ok [7])] ∧
      ∀ arrivals : List (Except GoString (List UInt8)), arrivals.Perm answers.reduceOption →
        ∃ b, ((⟨0, .empty⟩ : Scatter Blocks).getShard memShardStore
            (.arriving [1] peers arrivals) (shardCID host [7])).1 = .ok b ∧
          shardCID host b = shardCID host [7] :=
  ⟨_, rfl, (good_peer_suffices_iff host memShardStore ⟨0, .empty⟩ _ _ rfl [1] peers _
    rfl ⟨[7], by simp, rfl⟩).mpr (by simp)⟩

/-- A peer that answers at once with other bytes outruns the peer that has the shard. -/
theorem good_peer_outrun :
    ∃ arrivals : List (Except GoString (List UInt8)), .ok [7] ∈ arrivals ∧
      ((⟨0, .empty⟩ : Scatter Blocks).getShard memShardStore
          (.arriving [1] peers arrivals)
          (shardCID host [7])).1 = .ok [0] ∧
        shardCID host [0] ≠ shardCID host [7] :=
  ⟨[.ok [0], .ok [7]], by simp, rfl, by decide +kernel⟩

end Cerberus.System
