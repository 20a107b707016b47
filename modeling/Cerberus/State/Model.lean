import Cerberus.Contract.Capability
import Cerberus.Foundation.Base64
import Cerberus.Foundation.Clock
import Cerberus.Foundation.Run
import Cerberus.Foundation.Sorting
import Cerberus.Foundation.Table

/-!
# The state engine of the daemon

The durable engine of `daemon/state` (`state.go`): documents of multi-value registers with vector
clocks, and the index of open belief conflicts that is kept beside them. `applyBeliefAssertion` is
the write path of the daemon (`rpc.go`) for beliefs.

A Go map is an ordered map. The order in which a map is iterated is not fixed by the language, so
where it can be seen (the loop of `apply`) it is part of the environment of the call, as are the
errors of the store; the copies in memory change whether or not the store accepts them. The sort
and the JSON library belong to the host: the sort need not be stable, and of the JSON library only
the round trip of a patch is known, which coerces strings to UTF-8.
-/

namespace Cerberus.State

open Foundation

open Contract (PeerID)

/-! ### Vector clocks -/

/-- `vclock` and `contract.VectorClock`; `get`, `tick` and `dominatedBy` are those of `Clock`. -/
abbrev VClock := Clock GoString

namespace VClock

def raise (c : VClock) (e : GoString × UInt64) : VClock :=
  if c.get e.1 < e.2 then c.put e.1 e.2 else c

def mergeMax (c other : VClock) : VClock := other.entries.foldl raise c

/-- `equal`: a counter that is missing in the other clock reads as zero. -/
def equal (c other : VClock) : Bool :=
  c.entries.length = other.entries.length && c.entries.all fun e => other.get e.1 = e.2

def happensBefore (c other : VClock) : Bool := c.dominatedBy other && !c.equal other

end VClock

/-! ### Multi-value registers -/

/-- `dot`: a write with the clock of its author. -/
@[ext]
structure Dot where
  actor : GoString
  value : GoString
  clock : VClock
  deriving DecidableEq

def Dot.sortKey (d : Dot) : GoString ×ₗ GoString := toLex (d.actor, d.value)

/-- `lwwKey`; `greater` is the order of these keys. -/
def Dot.lwwKey (d : Dot) : ℕ ×ₗ GoString ×ₗ GoString :=
  toLex (d.clock.count d.actor, toLex (d.value, d.actor))

abbrev Patch := OrdMap GoString GoString

/-- What a patch is after it went through JSON: the strings are coerced to UTF-8, and of keys that
become equal the last one counts. -/
def Patch.coerced (p : Patch) : Patch :=
  p.entries.foldl (fun m e => m.put e.1.coerce e.2.coerce) .empty

structure Host where
  /-- `sort.Slice` on the writes of a register. -/
  sorter : KeySort Dot.sortKey
  json : Marshaller Patch Patch.coerced
  marshal_ne_nil : ∀ p, json.marshal p ≠ []

structure MvEntry where
  dots : List Dot

namespace MvEntry

def absorb (host : Host) (m : MvEntry) (d : Dot) : MvEntry :=
  if m.dots.any fun ex => d.clock.happensBefore ex.clock ||
      (d.clock.equal ex.clock && d.actor = ex.actor && d.value = ex.value) then m
  else
    let kept := m.dots.filter fun ex => !ex.clock.happensBefore d.clock
    let dup := kept.any fun ex => ex.actor = d.actor && ex.value = d.value && ex.clock.equal d.clock
    ⟨host.sorter.sort (if dup then kept else kept ++ [d])⟩

def distinctValues (m : MvEntry) : List GoString :=
  m.dots.foldl (fun out d => if d.value ∈ out then out else out ++ [d.value]) []

def conflicted (m : MvEntry) : Bool := 1 < m.distinctValues.length

/-- The write that `lwwValue` has chosen so far. -/
def better (best d : Dot) : Dot := if best.lwwKey < d.lwwKey then d else best

def lwwValue (m : MvEntry) : Option GoString :=
  match m.dots with
  | [] => none
  | d :: ds => some (ds.foldl better d).value

end MvEntry

/-! ### Documents, ops and conflicts -/

structure Document where
  clock : VClock
  keys : OrdMap GoString MvEntry

def newDocument : Document := ⟨.empty, .empty⟩

def Document.entry (d : Document) (k : GoString) : MvEntry := (d.keys.get? k).getD ⟨[]⟩

/-- `contract.CrdtOp`, as far as the engine reads it. -/
structure CrdtOp where
  docId : List UInt8
  actor : PeerID
  clock : VClock
  domain : GoString
  delta : List UInt8
  deriving DecidableEq

structure BeliefCandidate where
  actor : PeerID
  value : List UInt8
  clock : VClock
  deriving DecidableEq

/-- `contract.BeliefConflict`, without the time, which the engine does not set. -/
structure BeliefConflict where
  docId : List UInt8
  subject : GoString
  candidates : List BeliefCandidate
  deriving DecidableEq

def domainBelief : GoString := .lit "agent.belief"

def peerOf (raw : List UInt8) : PeerID := Vector.ofFn fun i => raw.getD i 0

def actorHex (p : PeerID) : GoString := hexEncode p.toList

def docKey (docId : List UInt8) : GoString := hexEncode docId

def Dot.candidate (d : Dot) : BeliefCandidate where
  actor := peerOf ((hexDecode d.actor).getD [])
  value := d.value.bytes
  clock := d.clock

def conflictFor (docId : List UInt8) (subject : GoString) (ent : MvEntry) : BeliefConflict :=
  ⟨docId, subject, ent.dots.map Dot.candidate⟩

def CrdtOp.patch (host : Host) (op : CrdtOp) : Option Patch :=
  if op.delta = [] then some .empty else host.json.unmarshal op.delta

/-! ### The engine -/

inductive Err
  | json
  | store
  deriving DecidableEq

/-- What a call does not determine itself: the order of iteration and the answers of the store. -/
structure Env where
  order : Patch → List (GoString × GoString)
  order_perm : ∀ p, (order p).Perm p.entries
  putDoc : Option Err
  /-- The error of writing or deleting the conflicts. -/
  putConflicts : Option Err

structure Engine where
  docs : OrdMap GoString Document
  conflicts : OrdMap GoString (List BeliefConflict)

structure Outcome where
  engine : Engine
  surfaced : List BeliefConflict
  err : Option Err

namespace Engine

def new : Engine := ⟨.empty, .empty⟩

def docAt (e : Engine) (dk : GoString) : Document := (e.docs.get? dk).getD newDocument

def listAt (e : Engine) (dk : GoString) : List BeliefConflict := (e.conflicts.get? dk).getD []

def setDoc (e : Engine) (dk : GoString) (d : Document) : Engine :=
  { e with docs := e.docs.put dk d }

def upsertConflict (e : Engine) (dk : GoString) (bc : BeliefConflict) : Engine :=
  { e with conflicts := e.conflicts.put dk (Table.upsert BeliefConflict.subject bc (e.listAt dk)) }

def clearConflict (e : Engine) (dk subject : GoString) : Engine :=
  { e with
    conflicts := e.conflicts.put dk (Table.drop BeliefConflict.subject subject (e.listAt dk)) }

/-- `persistConflictsLocked`: an empty list is deleted, in memory too. -/
def persistConflicts (e : Engine) (env : Env) (dk : GoString) : Engine × Option Err :=
  if e.listAt dk = [] then ({ e with conflicts := e.conflicts.delete dk }, env.putConflicts)
  else (e, env.putConflicts)

def persist (e : Engine) (env : Env) (dk : GoString) : Engine × Option Err :=
  match env.putDoc with
  | some err => (e, some err)
  | none => e.persistConflicts env dk

/-- The clock of the writes of an op: its own, or a tick of its author if it has none. -/
def opClock (e : Engine) (op : CrdtOp) : VClock :=
  if op.clock.entries = [] then
    OrdMap.empty.put (actorHex op.actor)
      ((e.docAt (docKey op.docId)).clock.get (actorHex op.actor) + 1)
  else op.clock

/-- The body of the loop of `apply`: one key of the patch. -/
def applyKey (host : Host) (op : CrdtOp) (clock : VClock) (w : Engine × List BeliefConflict)
    (kv : GoString × GoString) : Engine × List BeliefConflict :=
  let dk := docKey op.docId
  let d := w.1.docAt dk
  let ent := (d.entry kv.1).absorb host ⟨actorHex op.actor, kv.2, clock⟩
  let e := w.1.setDoc dk { d with keys := d.keys.put kv.1 ent }
  if op.domain = domainBelief then
    if ent.conflicted then
      let bc := conflictFor op.docId kv.1 ent
      (e.upsertConflict dk bc, w.2 ++ [bc])
    else (e.clearConflict dk kv.1, w.2)
  else (e, w.2)

def apply (host : Host) (env : Env) (e : Engine) (op : CrdtOp) : Outcome :=
  match op.patch host with
  | none => ⟨e, [], some .json⟩
  | some patch =>
    let dk := docKey op.docId
    let d := e.docAt dk
    let clock := e.opClock op
    let e' := e.setDoc dk { d with clock := d.clock.mergeMax clock }
    let w := (env.order patch).foldl (applyKey host op clock) (e', [])
    let r := w.1.persist env dk
    ⟨r.1, w.2, r.2⟩

def applyOne (host : Host) (env : Env) (e : Engine) (op : CrdtOp) : Engine × Option Err :=
  ((e.apply host env op).engine, (e.apply host env op).err)

/-- `Merge`: the ops one after the other, up to the first error. -/
def merge (host : Host) (e : Engine) : List (CrdtOp × Env) → Outcome
  | [] => ⟨e, [], none⟩
  | (op, env) :: rest =>
    let r := e.apply host env op
    match r.err with
    | some err => ⟨r.engine, [], some err⟩
    | none =>
      let r' := r.engine.merge host rest
      ⟨r'.engine, r.surfaced ++ r'.surfaced, r'.err⟩

def conflictsOf (e : Engine) (docId : List UInt8) : List BeliefConflict := e.listAt (docKey docId)

/-- The clock that `Resolve` writes with: above the document and every write of the register. -/
def resClock (d : Document) (ent : MvEntry) (resolver : PeerID) : VClock :=
  let joined := ent.dots.foldl (fun c dt => VClock.mergeMax c dt.clock) d.clock
  joined.tick (actorHex resolver)

def resolve (host : Host) (env : Env) (e : Engine) (docId : List UInt8) (resolver : PeerID)
    (subject winning : GoString) : Engine × Bool × Option Err :=
  let dk := docKey docId
  match e.docs.get? dk with
  | none => (e, false, none)
  | some d =>
    match d.keys.get? subject with
    | none => (e, false, none)
    | some ent =>
      if ent.conflicted then
        let clock := resClock d ent resolver
        let ent' := ent.absorb host ⟨actorHex resolver, winning, clock⟩
        let e' := e.setDoc dk ⟨d.clock.mergeMax clock, d.keys.put subject ent'⟩
        let e'' :=
          if ent'.conflicted then e'.upsertConflict dk (conflictFor docId subject ent')
          else e'.clearConflict dk subject
        let r := e''.persist env dk
        (r.1, true, r.2)
      else (e, false, none)

def get (e : Engine) (docId : List UInt8) (key : GoString) : Option GoString := do
  let d ← e.docs.get? (docKey docId)
  let ent ← d.keys.get? key
  ent.lwwValue

end Engine

/-! ### Belief assertions -/

/-- The op that `applyBeliefAssertion` makes: the name of the agent is cut or padded to a `PeerID`,
and the clock is left to the engine. -/
def beliefOp (host : Host) (doc : List UInt8) (agent subject value : GoString) : CrdtOp where
  docId := doc
  actor := peerOf agent.bytes
  clock := .empty
  domain := domainBelief
  delta := host.json.marshal (OrdMap.empty.put subject value)

/-- `applyBeliefAssertion`: the engine, and whether the subject is in conflict and what its values
are, or the error. -/
def applyBeliefAssertion (host : Host) (env : Env) (eng : Engine) (doc : List UInt8)
    (agent subject value : GoString) : Engine × Except Err (Bool × List GoString) :=
  let r := eng.applyOne host env (beliefOp host doc agent subject value)
  match r.2 with
  | some err => (r.1, .error err)
  | none =>
    match (r.1.conflictsOf doc).find? fun c => c.subject = subject with
    | some c => (r.1, .ok (true, c.candidates.map fun cand => ⟨cand.value⟩))
    | none => (r.1, .ok (false, [value]))

/-! ### A host -/

lemma Patch.coerce_of_mem_coerced {p : Patch} {e : GoString × GoString}
    (h : e ∈ p.coerced.entries) : e.1.coerce = e.1 ∧ e.2.coerce = e.2 := by
  obtain ⟨k, v⟩ := e
  rw [OrdMap.mem_entries_iff] at h
  rcases OrdMap.get?_foldl_put_cases h with h | ⟨e, -, rfl, rfl⟩
  · cases h
  · exact ⟨GoString.coerce_coerce _, GoString.coerce_coerce _⟩

lemma Patch.coerced_coerced (p : Patch) : p.coerced.coerced = p.coerced := by
  conv_rhs => rw [← OrdMap.foldl_put_entries p.coerced]
  rw [coerced]
  refine List.foldl_ext _ _ _ fun m e he => ?_
  rw [(coerce_of_mem_coerced he).1, (coerce_of_mem_coerced he).2]

namespace Sample

def pairs : List GoString → List (GoString × GoString)
  | k :: v :: l => (k, v) :: pairs l
  | _ => []

lemma pairs_flatMap (l : List (GoString × GoString)) :
    pairs (l.flatMap fun e => [e.1, e.2]) = l := by
  induction l with
  | nil => rfl
  | cons e l ih =>
    rw [List.flatMap_cons]
    exact congrArg (e :: ·) ih

def host : Host where
  sorter := .insertion Dot.sortKey
  json := .hex (fun p => p.entries.flatMap fun e => [e.1, e.2])
    (fun l => (pairs l).foldl (fun m e => m.put e.1 e.2) .empty)
    (fun p => by rw [pairs_flatMap, OrdMap.foldl_put_entries]) Patch.coerced_coerced
  marshal_ne_nil _ := hexForm_ne_nil _

def env : Env where
  order := OrdMap.entries
  order_perm _ := .rfl
  putDoc := none
  putConflicts := none

/-- Names and texts that the samples of runs use. -/
def alice : GoString := .lit "alice"

def bob : GoString := .lit "bob"

def sky : GoString := .lit "sky"

def blue : GoString := .lit "blue"

def grey : GoString := .lit "grey"

def doc : List UInt8 := [1]

def kv : GoString := .lit "kv"

def skyOp (domain agent value : GoString) : CrdtOp where
  docId := doc
  actor := peerOf agent.bytes
  clock := OrdMap.empty.put (actorHex (peerOf agent.bytes)) 1
  domain := domain
  delta := host.json.marshal (OrdMap.empty.put sky value)

end Sample

end Cerberus.State
