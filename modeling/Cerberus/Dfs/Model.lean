import Cerberus.Foundation.Erasure
import Cerberus.Foundation.GoString
import Cerberus.Foundation.Loop
import Cerberus.Foundation.OrderedMap
import Cerberus.Foundation.Input

/-!
# The distributed filesystem

The data path of `daemon/dfs` (`dfs.go`): a file is read in chunks, each chunk is cut into `k` data
shards and `m` parity shards, every shard is stored under its content id, and the list of ids is the
manifest of the file. `Get` asks the store for the shards, keeps those that hash to their id, and
reconstructs the rest.

SHA-256 and the Reed-Solomon library are parameters (`Host`). A shard store is any state with two
operations, which may answer what they like; `MemShardStore` is the one in memory. A Go `int` is a
natural number: a negative count is refused where zero is.
-/

namespace Cerberus.Dfs

open Foundation

/-! ### Content ids -/

/-- `cid.Cid`, its binary form, which is also its `KeyString`. -/
abbrev Cid := GoString

structure Host where
  sha256 : List UInt8 → Vector UInt8 32
  /-- `reedsolomon.New`; `none` is an error. -/
  newEncoder : (k m : ℕ) → Option (ErasureCode k m)

/-- `ShardCID`: version 1, raw codec, SHA-256 with 32 bytes. -/
def shardCID (H : Host) (shard : List UInt8) : Cid :=
  ⟨[0x01, 0x55, 0x12, 0x20] ++ (H.sha256 shard).toList⟩

/-! ### Manifests -/

structure ChunkManifest where
  shardCIDs : List Cid
  placement : List GoString
  chunkBytes : ℕ
  deriving DecidableEq

structure Manifest where
  rootID : Cid
  dataShards : ℕ
  parityShards : ℕ
  chunkSize : ℕ
  totalBytes : ℕ
  chunks : List ChunkManifest
  deriving DecidableEq

structure Config where
  chunkSize : ℕ
  dataShards : ℕ
  parityShards : ℕ
  deriving DecidableEq

inductive ShardStoreErr
  | notFound (c : Cid)
  | other (text : GoString)
  deriving DecidableEq

inductive Err
  | chunkSize
  | shardCounts
  | newEncoder
  | splitChunk
  | storeShard (c : Cid) (cause : ShardStoreErr)
  | read (cause : GoString)
  | invalidShardCounts
  | wrongCount (chunk found want : ℕ)
  | tooFewShards (chunk present need : ℕ)
  | reconstruct (chunk : ℕ)
  | parityMismatch (chunk : ℕ)
  | joinShards (chunk : ℕ)
  deriving DecidableEq

def Config.validate (c : Config) : Option Err :=
  if c.chunkSize = 0 then some .chunkSize
  else if c.dataShards = 0 ∨ c.parityShards = 0 then some .shardCounts
  else none

def defaultConfig : Config := ⟨1048576, 4, 2⟩

/-! ### Stores -/

/-- `ShardStore`, over a state `σ` that the operations may change. -/
structure ShardStore (σ : Type) where
  putShard : Cid → List UInt8 → σ → Except ShardStoreErr GoString × σ
  getShard : Cid → σ → Except ShardStoreErr (List UInt8) × σ

abbrev Blocks := OrdMap Cid (List UInt8)

def Blocks.find (b : Blocks) (c : Cid) : Except ShardStoreErr (List UInt8) :=
  match b.get? c with
  | none => .error (.notFound c)
  | some shard => .ok shard

def memShardStore : ShardStore Blocks where
  putShard c shard b := (.ok (.lit "mem"), b.put c shard)
  getShard c b := (b.find c, b)

/-- `MemShardStore.Drop` of several shards. -/
def Blocks.dropAll (b : Blocks) (ids : List Cid) : Blocks := ids.foldl OrdMap.delete b

section

variable {σ : Type} (H : Host) (store : ShardStore σ)

/-! ### Put -/

def putShards : List (List UInt8) → σ → Except Err (List (Cid × GoString)) × σ
  | [], s => (.ok [], s)
  | shard :: rest, s =>
    let c := shardCID H shard
    match store.putShard c shard s with
    | (.error e, s') => (.error (.storeShard c e), s')
    | (.ok placement, s') =>
      match putShards rest s' with
      | (.error e, s'') => (.error e, s'')
      | (.ok l, s'') => (.ok ((c, placement) :: l), s'')

def putChunk {k m : ℕ} (code : ErasureCode k m) (chunk : List UInt8) (s : σ) :
    Except Err ChunkManifest × σ :=
  if chunk = [] then (.error .splitChunk, s)
  else
    match putShards H store (code.shards chunk) s with
    | (.error e, s') => (.error e, s')
    | (.ok l, s') => (.ok ⟨l.map Prod.fst, l.map Prod.snd, chunk.length⟩, s')

structure PutState (σ : Type) where
  reader : Input GoString
  man : Manifest
  rootInput : List UInt8
  store : σ

def PutState.add (p : PutState σ) (cm : ChunkManifest) : Manifest × List UInt8 :=
  ({ p.man with
      chunks := p.man.chunks ++ [cm]
      totalBytes := p.man.totalBytes + cm.chunkBytes },
    p.rootInput ++ cm.shardCIDs.flatMap GoString.bytes)

def putRead {k m : ℕ} (code : ErasureCode k m) (p : PutState σ) (chunk : List UInt8) :
    Except Err (Manifest × List UInt8) × σ :=
  if chunk = [] then (.ok (p.man, p.rootInput), p.store)
  else
    match putChunk H store code chunk p.store with
    | (.error e, s) => (.error e, s)
    | (.ok cm, s) => (.ok (p.add cm), s)

def putBody {k m : ℕ} (code : ErasureCode k m) (chunkSize : ℕ) (p : PutState σ) :
    PutState σ ⊕ (Except Err Manifest × σ) :=
  let read := p.reader.readFull chunkSize
  match putRead H store code p read.1 with
  | (.error e, s) => .inr (.error e, s)
  | (.ok (man, rootInput), s) =>
    match read.2.1 with
    | none => .inl ⟨read.2.2, man, rootInput, s⟩
    | some (.fault e) => .inr (.error (.read e), s)
    | some .eof => .inr (.ok { man with rootID := shardCID H rootInput }, s)
    | some .unexpectedEOF => .inr (.ok { man with rootID := shardCID H rootInput }, s)

def Config.manifest (cfg : Config) : Manifest :=
  ⟨⟨[]⟩, cfg.dataShards, cfg.parityShards, cfg.chunkSize, 0, []⟩

/-- `Put`. Every round of the loop but the last reads a whole chunk, so there are not more rounds
than bytes, and one. -/
def put (cfg : Config) (r : Input GoString) (s : σ) : Option (Except Err Manifest × σ) :=
  match H.newEncoder cfg.dataShards cfg.parityShards with
  | none => some (.error .newEncoder, s)
  | some code =>
    loop (putBody H store code cfg.chunkSize) (r.bytes.length + 1) ⟨r, cfg.manifest, [], s⟩

/-! ### Get -/

abbrev Response := Except ShardStoreErr (List UInt8)

def responses : List Cid → σ → List Response × σ
  | [], s => ([], s)
  | c :: cs, s =>
    let answer := store.getShard c s
    let rest := responses cs answer.2
    (answer.1 :: rest.1, rest.2)

/-- What `getChunk` takes of an answer: bytes that hash to the id. -/
def accepted (c : Cid) : Response → Option (List UInt8)
  | .error _ => none
  | .ok b => if shardCID H b = c then some b else none

def assemble {k m : ℕ} (code : ErasureCode k m) (ci chunkBytes : ℕ)
    (shards : List (Option (List UInt8))) : Except Err (List UInt8) :=
  if shards.countP Option.isSome < k then
    .error (.tooFewShards ci (shards.countP Option.isSome) k)
  else
    match code.reconstruct shards with
    | none => .error (.reconstruct ci)
    | some full =>
      if code.verify full then
        match code.join full chunkBytes with
        | none => .error (.joinShards ci)
        | some chunk => .ok chunk
      else .error (.parityMismatch ci)

/-- `getChunk`; the number of the chunk is that of the error. -/
def getChunk {k m : ℕ} (code : ErasureCode k m) (ci : ℕ) (cm : ChunkManifest) (s : σ) :
    Except Err (List UInt8) × σ :=
  let rs := responses store cm.shardCIDs s
  (assemble code ci cm.chunkBytes (List.zipWith (accepted H) cm.shardCIDs rs.1), rs.2)

def getChunks {k m : ℕ} (code : ErasureCode k m) :
    ℕ → List ChunkManifest → σ → Except Err (List UInt8) × σ
  | _, [], s => (.ok [], s)
  | ci, cm :: cms, s =>
    if cm.shardCIDs.length ≠ k + m then
      (.error (.wrongCount ci cm.shardCIDs.length (k + m)), s)
    else
      match getChunk H store code ci cm s with
      | (.error e, s') => (.error e, s')
      | (.ok chunk, s') =>
        match getChunks code (ci + 1) cms s' with
        | (.error e, s'') => (.error e, s'')
        | (.ok rest, s'') => (.ok (chunk ++ rest), s'')

/-- `Get`, with the bytes that the returned reader gives. -/
def get (man : Manifest) (s : σ) : Except Err (List UInt8) × σ :=
  if man.dataShards = 0 ∨ man.parityShards = 0 then (.error .invalidShardCounts, s)
  else
    match H.newEncoder man.dataShards man.parityShards with
    | none => (.error .newEncoder, s)
    | some code => getChunks H store code 0 man.chunks s

end

/-! ### A host -/

namespace Sample

/-- A hash that takes the first bytes of a text and its length. -/
def digest (text : List UInt8) : Vector UInt8 32 :=
  Vector.ofFn fun i => if i.val = 31 then text.length.toUInt8 else text.getD i 0

/-- One data shard is copied, two have their exclusive or for parity. -/
def host : Host where
  sha256 := digest
  newEncoder
    | 1, m => some (.copies m)
    | 2, 1 => some .xor
    | _, _ => none

def reader (text : List UInt8) : Input GoString := ⟨[text], none⟩

def streamReset : GoString := .lit "stream reset"

end Sample

end Cerberus.Dfs
