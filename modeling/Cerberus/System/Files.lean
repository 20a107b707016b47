import Cerberus.Dataplane.Quota
import Cerberus.Dfs.Reading
import Cerberus.Foundation.Run

/-!
# Writing a file over the data plane

The writing side of `/cer/fs` in `daemon/system` (`fs.go`). `BeginWrite` registers a grant at the
data-plane server, and at the router of the sinks a handler that pipes the transfer into `Put` and
records the manifest under the path. The handler is used once; the grant stays. A transfer that
finds no handler is drained, and acknowledged like any other.

So a writer whose first transfer broke off can send the file again and be told that it was written,
and it is not (`retry_acknowledged`).

A handler is given by its path, and the metadata store by the manifests that it returns. Whether it
can record one is part of a transfer.
-/

namespace Cerberus.System

open Foundation Contract Dfs Dataplane

open QuotaReader (guard)

def fsWriteQuota : UInt64 := 268435456

/-- What takes part in a write: the server, the router, the metadata store and the shard store. -/
structure Files (σ : Type) where
  grants : UInt64 → Option Dataplane.Grant
  /-- `handlers` of the router; a handler is known by the path under which it records. -/
  handlers : UInt64 → Option GoString
  manifests : OrdMap GoString Manifest
  shards : σ

inductive SinkErr
  | put (cause : Dfs.Err)
  | record (cause : GoString)
  | copy (cause : GoString)
  deriving DecidableEq

/-- A stream, and the error of the metadata store if it cannot record a manifest. -/
structure Transfer where
  stream : Stream
  recordErr : Option GoString

section

variable {σ : Type} (H : Dfs.Host) (store : ShardStore σ) (cfg : Config)
  (unmarshal : List UInt8 → Option Header)

def beginWrite (path : GoString) (cap : CapHandle) (transferID : UInt64) (s : Files σ) : Files σ :=
  { s with
    grants := Function.update s.grants transferID (some ⟨cap, ⟨fsWriteQuota, 0, 0⟩⟩)
    handlers := Function.update s.handlers transferID (some path) }

def writeHandler (recordErr : Option GoString) (path : GoString) (r : Input GoString)
    (s : Files σ) : Option (Except SinkErr Unit × Files σ) :=
  (put H store cfg r s.shards).map fun
    | (.error e, shards) => (.error (.put e), { s with shards })
    | (.ok man, shards) =>
      match recordErr with
      | some e => (.error (.record e), { s with shards })
      | none => (.ok (), { s with shards, manifests := s.manifests.put path man })

/-- `route`: the handler is taken off before it is called; without one the transfer is drained. -/
def route (recordErr : Option GoString) : Sink SinkErr (Files σ) := fun transferID r s =>
  match s.handlers transferID with
  | some path =>
    writeHandler H store cfg recordErr path r
      { s with handlers := Function.update s.handlers transferID none }
  | none =>
    match r.fault with
    | some e => some (.error (.copy e), s)
    | none => some (.ok (), s)

def transfer (t : Transfer) (s : Files σ) : Option (Ack SinkErr × Files σ) :=
  handleStream s.grants t.stream unmarshal (route H store cfg t.recordErr) s

/-- What a transfer leaves behind. -/
def transferStep (s : Files σ) (t : Transfer) : Files σ :=
  ((transfer H store cfg unmarshal t s).map Prod.snd).getD s

/-- The bytes after the header. -/
def Transfer.payload (t : Transfer) : List UInt8 :=
  ((readHeader unmarshal t.stream.input).map fun p => p.2.bytes).getD []

/-- The header names the transfer id. -/
def Transfer.Presents (transferID : UInt64) (t : Transfer) : Prop :=
  ∀ p ∈ readHeader unmarshal t.stream.input, p.1.transferID = transferID

/-- The path has a manifest of the data. -/
def Files.Recorded (s : Files σ) (path : GoString) (data : List UInt8) : Prop :=
  ∃ code man, H.newEncoder cfg.dataShards cfg.parityShards = some code ∧
    s.manifests.get? path = some man ∧ man.Describes H code cfg.chunkSize data

/-- The transfer is answered, and if it is acknowledged, the path maps to a manifest of its bytes.
-/
def RecordedIfAcknowledged (path : GoString) (s : Files σ) (t : Transfer) : Prop :=
  ∃ ack s', transfer H store cfg unmarshal t s = some (ack, s') ∧
    (ack = .ok () → s'.Recorded H cfg path (t.payload unmarshal))

/-- The transfer is authorized and its guard reports no error. -/
def Transfer.Clean (s : Files σ) (t : Transfer) : Prop :=
  ∃ h payload g, readHeader unmarshal t.stream.input = some (h, payload) ∧
    authorize s.grants t.stream h = .ok g ∧
    (guard g.quota.bytes payload).toInput.fault = none

end

/-! ### One transfer -/

section

variable {σ : Type} {H : Dfs.Host} {store : ShardStore σ} {cfg : Config}
  {unmarshal : List UInt8 → Option Header} {path : GoString} {cap : CapHandle} {transferID : UInt64}
  {s : Files σ} {t : Transfer}

/-- The handler always returns. Without an error it has recorded a manifest of what it read, and
there was no error in reading. -/
lemma exists_writeHandler (H : Dfs.Host) (store : ShardStore σ) (hcfg : cfg.validate = none)
    (recordErr : Option GoString) (path : GoString) (r : Input GoString) (s : Files σ) :
    ∃ res s', writeHandler H store cfg recordErr path r s = some (res, s') ∧
      s'.grants = s.grants ∧ s'.handlers = s.handlers ∧
      (res = .ok () → r.fault = none ∧ s'.Recorded H cfg path r.bytes) := by
  obtain ⟨⟨_ | man, shards⟩, hput⟩ := exists_put_result H store hcfg r s.shards
  · unfold writeHandler
    rw [hput, Option.map_some]
    refine ⟨_, _, rfl, rfl, rfl, fun h => ?_⟩
    cases h
  · obtain ⟨code, hcode, hfault, hman, -⟩ := put_ok hcfg hput
    unfold writeHandler
    rw [hput, Option.map_some]
    cases recordErr with
    | some e =>
      refine ⟨_, _, rfl, rfl, rfl, fun h => ?_⟩
      cases h
    | none =>
      refine ⟨_, _, rfl, rfl, rfl, fun _ => ⟨hfault, code, man, hcode, ?_, hman⟩⟩
      rw [OrdMap.get?_put, if_pos rfl]

/-- What holds from `BeginWrite` on: the grant stays, and the handler until it is used. -/
structure Begun (path : GoString) (cap : CapHandle) (transferID : UInt64) (s : Files σ) : Prop where
  grant : s.grants transferID = some ⟨cap, ⟨fsWriteQuota, 0, 0⟩⟩
  handler : s.handlers transferID = some path ∨ s.handlers transferID = none

lemma begun_beginWrite (path : GoString) (cap : CapHandle) (transferID : UInt64) (s : Files σ) :
    Begun path cap transferID (beginWrite path cap transferID s) := by
  unfold beginWrite
  exact ⟨Function.update_self .., .inl (Function.update_self ..)⟩

lemma exists_route (H : Dfs.Host) (store : ShardStore σ) (hcfg : cfg.validate = none)
    (hs : Begun path cap transferID s) (hhandler : s.handlers transferID = some path)
    (recordErr : Option GoString) (r : Input GoString) :
    ∃ res s', route H store cfg recordErr transferID r s = some (res, s') ∧
      Begun path cap transferID s' ∧
      (res = .ok () → r.fault = none ∧ s'.Recorded H cfg path r.bytes) := by
  obtain ⟨res, s', hres, hgrants, hhandlers, hok⟩ := exists_writeHandler H store hcfg recordErr
    path r { s with handlers := Function.update s.handlers transferID none }
  refine ⟨res, s', ?_, ⟨?_, .inr ?_⟩, hok⟩
  · rw [route, hhandler]
    exact hres
  · rw [hgrants]
    exact hs.grant
  · rw [hhandlers]
    exact Function.update_self ..

lemma route_of_none (hhandler : s.handlers transferID = none) (recordErr : Option GoString)
    (r : Input GoString) :
    route H store cfg recordErr transferID r s =
      some (r.fault.elim (.ok ()) fun e => .error (.copy e), s) := by
  rw [route, hhandler]
  cases r.fault with
  | none => rfl
  | some e => rfl

/-- The acknowledgement of a transfer, and the state after it. If there is a handler, an
acknowledged transfer is recorded; if there is none, nothing is, and the transfer is acknowledged
iff it is clean. -/
structure Answered (H : Dfs.Host) (cfg : Config) (unmarshal : List UInt8 → Option Header)
    (path : GoString) (cap : CapHandle) (transferID : UInt64) (s : Files σ) (t : Transfer)
    (ack : Ack SinkErr) (s' : Files σ) : Prop where
  begun : Begun path cap transferID s'
  recorded : s.handlers transferID = some path → ack = .ok () →
    s'.Recorded H cfg path (t.payload unmarshal)
  drained : s.handlers transferID = none → s' = s ∧ (ack = .ok () ↔ t.Clean unmarshal s)

lemma Answered.rejected (hs : Begun path cap transferID s) {ack : Ack SinkErr} (hack : ack ≠ .ok ())
    (hclean : ¬ t.Clean unmarshal s) :
    Answered H cfg unmarshal path cap transferID s t ack s where
  begun := hs
  recorded _ h := absurd h hack
  drained _ := ⟨rfl, iff_of_false hack hclean⟩

variable {h : Header} {payload : Input GoString} {g : Dataplane.Grant}

lemma clean_iff (hread : readHeader unmarshal t.stream.input = some (h, payload)) :
    t.Clean unmarshal s ↔ ∃ g, authorize s.grants t.stream h = .ok g ∧
      (guard g.quota.bytes payload).toInput.fault = none := by
  constructor
  · rintro ⟨h', payload', g, hread', hg⟩
    rw [hread] at hread'
    cases hread'
    exact ⟨g, hg⟩
  · rintro ⟨g, hg⟩
    exact ⟨h, payload, g, hread, hg⟩

lemma bytes_toInput_of_authorize (hs : Begun path cap transferID s)
    (ht : t.Presents unmarshal transferID)
    (hread : readHeader unmarshal t.stream.input = some (h, payload))
    (hauth : authorize s.grants t.stream h = .ok g)
    (hfault : (guard g.quota.bytes payload).toInput.fault = none) :
    (guard g.quota.bytes payload).toInput.bytes = t.payload unmarshal := by
  have hgrant := (authorize_eq_ok_iff.mp hauth).grant
  rw [ht _ hread, hs.grant] at hgrant
  obtain rfl := Option.some.inj hgrant
  have hquota : fsWriteQuota.toNat + 1 < 2 ^ 63 := by decide
  rw [QuotaReader.bytes_toInput_guard hquota hfault, Transfer.payload, hread]
  rfl

lemma exists_consume_of_handler (H : Dfs.Host) (store : ShardStore σ) (hcfg : cfg.validate = none)
    (hs : Begun path cap transferID s) (ht : t.Presents unmarshal transferID)
    (hread : readHeader unmarshal t.stream.input = some (h, payload))
    (hauth : authorize s.grants t.stream h = .ok g) (hhandler : s.handlers transferID = some path) :
    ∃ ack s', consume (route H store cfg t.recordErr) transferID
        (guard g.quota.bytes payload) s = some (ack, s') ∧
      Answered H cfg unmarshal path cap transferID s t ack s' := by
  have hne : s.handlers transferID ≠ none := by simp [hhandler]
  obtain ⟨res, s', hroute, hs', hok⟩ := exists_route H store hcfg hs hhandler t.recordErr
    (guard g.quota.bytes payload).toInput
  unfold consume
  rw [hroute, Option.map_some]
  cases res with
  | error e => exact ⟨.error (.sink e), s', rfl, hs', by simp, fun hnone => absurd hnone hne⟩
  | ok =>
    obtain ⟨hfault, hrecorded⟩ := hok rfl
    rw [bytes_toInput_of_authorize hs ht hread hauth hfault] at hrecorded
    exact ⟨_, s', rfl, hs', fun _ _ => hrecorded, fun hnone => absurd hnone hne⟩

lemma exists_consume_of_drained (H : Dfs.Host) (store : ShardStore σ)
    (hs : Begun path cap transferID s)
    (hread : readHeader unmarshal t.stream.input = some (h, payload))
    (hauth : authorize s.grants t.stream h = .ok g) (hhandler : s.handlers transferID = none) :
    ∃ ack s', consume (route H store cfg t.recordErr) transferID
        (guard g.quota.bytes payload) s = some (ack, s') ∧
      Answered H cfg unmarshal path cap transferID s t ack s' := by
  have hclean : t.Clean unmarshal s ↔
      (guard g.quota.bytes payload).toInput.fault = none := by
    rw [clean_iff hread, hauth]
    simp
  unfold consume
  rw [route_of_none hhandler, Option.map_some]
  cases hfault : (guard g.quota.bytes payload).toInput.fault with
  | some e =>
    refine ⟨.error (.sink (.copy e)), s, rfl, .rejected hs (by simp) ?_⟩
    rw [hclean, hfault]
    simp
  | none =>
    have hne : s.handlers transferID ≠ some path := by simp [hhandler]
    have hover := QuotaReader.not_overrun rfl hfault
    refine ⟨.ok (), s, ?_, hs, fun hsome => absurd hsome hne, fun _ => ⟨rfl, ?_⟩⟩
    · rw [Option.elim_none]
      simp only [if_neg hover]
    · exact iff_of_true rfl (hclean.mpr hfault)

variable (H) (store) (hcfg : cfg.validate = none) (hs : Begun path cap transferID s)
  (ht : t.Presents unmarshal transferID)
include hcfg hs ht

lemma exists_transfer :
    ∃ ack s', transfer H store cfg unmarshal t s = some (ack, s') ∧
      Answered H cfg unmarshal path cap transferID s t ack s' := by
  unfold transfer handleStream
  cases hread : readHeader unmarshal t.stream.input with
  | none =>
    refine ⟨.error .badHeader, s, rfl, .rejected hs (by simp) ?_⟩
    rintro ⟨h, payload, g, hread', -⟩
    rw [hread] at hread'
    cases hread'
  | some p =>
    obtain ⟨h, payload⟩ := p
    cases hauth : authorize s.grants t.stream h with
    | error e =>
      simp only [hauth]
      refine ⟨.error (.denied e), s, rfl, .rejected hs (by simp) ?_⟩
      rw [clean_iff hread, hauth]
      simp
    | ok g =>
      simp only [hauth, show h.transferID = transferID from ht _ hread]
      rcases hs.handler with hsome | hnone
      · exact exists_consume_of_handler H store hcfg hs ht hread hauth hsome
      · exact exists_consume_of_drained H store hs hread hauth hnone

/-! ### Sequences of transfers -/

/-- A transfer of a run that presents the transfer id: it is recorded if acknowledged, iff it
is not a clean one that finds the handler used and the path without a manifest of its bytes. -/
lemma recordedIfAcknowledged_iff :
    RecordedIfAcknowledged H store cfg unmarshal path s t ↔
      (s.handlers transferID = none → t.Clean unmarshal s →
        s.Recorded H cfg path (t.payload unmarshal)) := by
  obtain ⟨ack, s', htransfer, hans⟩ := exists_transfer H store hcfg hs ht
  have hiff : RecordedIfAcknowledged H store cfg unmarshal path s t ↔
      (ack = .ok () → s'.Recorded H cfg path (t.payload unmarshal)) := by
    constructor
    · rintro ⟨ack', s'', htransfer', h⟩
      rw [htransfer] at htransfer'
      cases htransfer'
      exact h
    · exact fun h => ⟨ack, s', htransfer, h⟩
  rw [hiff]
  rcases hs.handler with hsome | hnone
  · refine iff_of_true (hans.recorded hsome) fun h => ?_
    rw [hsome] at h
    cases h
  · obtain ⟨rfl, hack⟩ := hans.drained hnone
    rw [hack]
    exact ⟨fun h _ => h, fun h => h hnone⟩

lemma begun_transferStep : Begun path cap transferID (transferStep H store cfg unmarshal s t) := by
  obtain ⟨ack, s', htransfer, hans⟩ := exists_transfer H store hcfg hs ht
  rw [transferStep, htransfer]
  exact hans.begun

end

/-- Any transfers that present the id of a write, after `BeginWrite` in any state: every
acknowledged one leaves the path with a manifest of its bytes iff the path has one already
whenever a clean transfer finds the handler used. -/
theorem acknowledged_recorded_iff {σ : Type} (H : Dfs.Host) (store : ShardStore σ) (cfg : Config)
    (hcfg : cfg.validate = none) (unmarshal : List UInt8 → Option Header) (path : GoString)
    (cap : CapHandle) (transferID : UInt64) (s : Files σ) (ts : List Transfer)
    (hts : ∀ t ∈ ts, t.Presents unmarshal transferID) :
    Along (transferStep H store cfg unmarshal) (RecordedIfAcknowledged H store cfg unmarshal path)
        (beginWrite path cap transferID s) ts ↔
      Along (transferStep H store cfg unmarshal)
        (fun s t => s.handlers transferID = none → t.Clean unmarshal s →
          s.Recorded H cfg path (t.payload unmarshal))
        (beginWrite path cap transferID s) ts :=
  along_congr_of_keeps (I := Begun path cap transferID)
    (N := fun _ t => t.Presents unmarshal transferID)
    (fun _ _ hs ht => begun_transferStep H store hcfg hs ht)
    (fun _ _ hs ht => recordedIfAcknowledged_iff H store hcfg hs ht)
    (begun_beginWrite path cap transferID s) (along_of_forall_mem fun t ht _ => hts t ht)

namespace Sample

def header (_ : List UInt8) : Option Header := some ⟨1, 7, 2, [], Vector.replicate 32 0⟩

def path : GoString := .lit "/cer/fs/a"

def begun : Files Blocks := beginWrite path 7 1 ⟨fun _ => none, fun _ => none, .empty, .empty⟩

def broken : Transfer where
  stream := ⟨⟨[[0, 0, 0, 1], [0], [5]], some Sample.streamReset⟩, by decide, none, fun _ => none⟩
  recordErr := none

def whole : Transfer where
  stream := ⟨⟨[[0, 0, 0, 1], [0], [5, 6]], none⟩, by decide, none, fun _ => none⟩
  recordErr := none

end Sample

open Sample

/-- A transfer that is not broken off is recorded at the first attempt, and still is after a second
one, which finds the handler used. -/
theorem acknowledged_recorded_iff_sample :
    ∃ s₁ s₂, transfer host memShardStore config header whole
        begun = some (.ok (), s₁) ∧
      transfer host memShardStore config header whole s₁ =
        some (.ok (), s₂) ∧
      s₁.handlers 1 = none ∧ s₂.Recorded host config path [5, 6] := by
  have hpresents : ∀ n, ∀ t ∈ List.replicate n whole, t.Presents header 1 := by
    intro n t ht p hp
    rw [List.eq_of_mem_replicate ht] at hp
    cases hp
    rfl
  have hiff := fun n => acknowledged_recorded_iff host memShardStore config rfl
    header path 7 1 ⟨fun _ => none, fun _ => none, .empty, .empty⟩ _ (hpresents n)
  have hfirst := (hiff 1).mpr ⟨fun hnone => absurd hnone (by decide), trivial⟩
  obtain ⟨ack, s₁, htransfer, hrecorded⟩ := hfirst.1
  cases htransfer
  have hboth := (hiff 2).mpr ⟨fun hnone => absurd hnone (by decide), fun _ _ => hrecorded rfl, trivial⟩
  obtain ⟨ack, s₂, htransfer, hrecorded'⟩ := hboth.2.1
  cases htransfer
  exact ⟨_, _, rfl, rfl, rfl, hrecorded' rfl⟩

/-- A transfer breaks off, and the retry is acknowledged, but the path has no manifest. -/
theorem retry_acknowledged :
    ∃ s₁ s₂, transfer host memShardStore config header broken
        begun = some (.error (.sink (.put (.read streamReset))), s₁) ∧
      transfer host memShardStore config header whole s₁ =
        some (.ok (), s₂) ∧
      s₂.manifests.get? path = none :=
  ⟨_, _, rfl, rfl, rfl⟩

end Cerberus.System
