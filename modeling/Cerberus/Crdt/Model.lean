import Cerberus.Foundation.Clock
import Cerberus.Foundation.Sorting
import Cerberus.Kernel.Contract

/-!
# Conflict-free replicated data types

The replicated data types of `core/crdt` (`lib.rs`): the multi-value register with vector clocks and
the belief document made of such registers, the key/value document, the positive-negative counter
and the observed-remove set.

A `HashMap` or `BTreeMap` is an ordered map; where the code iterates over a `HashMap`, the bindings
are handled independently, so that their order makes no difference. A `String` is a byte string
that is valid UTF-8. Arithmetic wraps around, as it does in a build without overflow checks.
-/

namespace Cerberus.Crdt

open Foundation

open Kernel (Text)

/-! ### Vector clocks -/

/-- `VectorClock`; `tick`, `get` and `dominated_by` are those of `Clock`. -/
abbrev VectorClock := Clock Text

namespace VectorClock

def raise (c : VectorClock) (e : Text × UInt64) : VectorClock :=
  c.put e.1 (if c.get e.1 < e.2 then e.2 else c.get e.1)

def merge (c other : VectorClock) : VectorClock := other.entries.foldl raise c

def happensBefore (c other : VectorClock) : Bool := c.dominatedBy other && c ≠ other

end VectorClock

/-! ### Multi-value registers -/

/-- `Dot`: a write with the clock of its author. -/
@[ext]
structure Dot where
  actor : Text
  value : Text
  clock : VectorClock
  deriving DecidableEq

def Dot.sortKey (d : Dot) : Text ×ₗ Text := toLex (d.actor, d.value)

/-- What `lww_value` compares the writes of a register by. -/
def Dot.lwwKey (d : Dot) : ℕ ×ₗ Text := toLex (d.clock.count d.actor, d.value)

structure MvRegister where
  dots : List Dot

namespace MvRegister

def new : MvRegister := ⟨[]⟩

def absorb (reg : MvRegister) (dot : Dot) : MvRegister :=
  if reg.dots.any fun e => dot.clock.happensBefore e.clock ||
      (dot.clock = e.clock && dot.actor = e.actor && dot.value = e.value) then reg
  else
    let kept := reg.dots.filter fun e => !e.clock.happensBefore dot.clock
    let pushed := if kept.any (· = dot) then kept else kept ++ [dot]
    ⟨(KeySort.insertion Dot.sortKey).sort pushed⟩

def write (reg : MvRegister) (actor value : Text) (clock : VectorClock) : MvRegister :=
  reg.absorb ⟨actor, value, clock⟩

def merge (reg other : MvRegister) : MvRegister := other.dots.foldl absorb reg

/-- `MvRegister::values`: neighbours with the same value count once. -/
def values (reg : MvRegister) : List Text := (reg.dots.map Dot.value).destutter (· ≠ ·)

def isConflicted (reg : MvRegister) : Bool := 1 < reg.values.length

/-- One step of `max_by`: of equal writes the later one is taken. -/
def later (best d : Dot) : Dot := if d.lwwKey < best.lwwKey then best else d

def lwwValue (reg : MvRegister) : Option Text :=
  match reg.dots with
  | [] => none
  | d :: ds => some (ds.foldl later d).value

end MvRegister

/-! ### Belief documents -/

structure BeliefConflict where
  subject : Text
  candidates : List (Text × Text)
  deriving DecidableEq

structure BeliefDoc where
  claims : OrdMap Text MvRegister
  clock : VectorClock

namespace BeliefDoc

def new : BeliefDoc := ⟨.empty, .empty⟩

def dots (d : BeliefDoc) (subject : Text) : List Dot :=
  ((d.claims.get? subject).getD .new).dots

/-- The clock that `assert` stamps on the new write. -/
def context (d : BeliefDoc) (actor subject : Text) : VectorClock :=
  let ctx := (d.dots subject).foldl (fun ctx dot => VectorClock.merge ctx dot.clock)
    (d.clock.tick actor)
  ctx.tick actor

def assert (d : BeliefDoc) (actor subject value : Text) : BeliefDoc where
  clock := VectorClock.merge (d.clock.tick actor) (d.context actor subject)
  claims := d.claims.put subject
    (((d.claims.get? subject).getD .new).write actor value (d.context actor subject))

def mergeClaim (claims : OrdMap Text MvRegister) (e : Text × MvRegister) : OrdMap Text MvRegister :=
  claims.put e.1 (((claims.get? e.1).getD .new).merge e.2)

def merge (d other : BeliefDoc) : BeliefDoc where
  clock := d.clock.merge other.clock
  claims := other.claims.entries.foldl mergeClaim d.claims

def consensus (d : BeliefDoc) (subject : Text) : Option Text := do
  let reg ← d.claims.get? subject
  let first ← reg.dots.head?
  if reg.dots.all (·.value = first.value) then some first.value else none

def conflicts (d : BeliefDoc) : List BeliefConflict :=
  d.claims.entries.filterMap fun (subject, reg) =>
    if reg.isConflicted then some ⟨subject, reg.dots.map fun d => (d.actor, d.value)⟩ else none

end BeliefDoc

/-! ### Key/value documents -/

/-- `KvDoc`; the entry of a key is its author, the clock of the write and the value. -/
structure KvDoc where
  clock : VectorClock
  values : OrdMap Text Dot

namespace KvDoc

def new : KvDoc := ⟨.empty, .empty⟩

def set (d : KvDoc) (actor key value : Text) : KvDoc where
  clock := d.clock.tick actor
  values := d.values.put key ⟨actor, value, d.clock.tick actor⟩

def get (d : KvDoc) (key : Text) : Option Text := (d.values.get? key).map Dot.value

/-- What concurrent writes are compared by: the author's counter, the value, the author. -/
def tiebreak (w : Dot) : ℕ ×ₗ (Text ×ₗ Text) :=
  toLex (w.clock.count w.actor, toLex (w.value, w.actor))

/-- Of two writes of a key, the own one and a received one, the one that is kept. -/
def winner (mine theirs : Dot) : Dot :=
  if mine.clock.happensBefore theirs.clock then theirs
  else if theirs.clock.happensBefore mine.clock then mine
  else if tiebreak mine < tiebreak theirs then theirs
  else mine

/-- Fold the entry of one key into the document. -/
def mergeValue (values : OrdMap Text Dot) (e : Text × Dot) : OrdMap Text Dot :=
  match values.get? e.1 with
  | some mine => values.put e.1 (winner mine e.2)
  | none => values.put e.1 e.2

def merge (d other : KvDoc) : KvDoc where
  clock := d.clock.merge other.clock
  values := other.values.entries.foldl mergeValue d.values

end KvDoc

/-! ### Counters -/

structure PnCounter where
  p : OrdMap Text UInt64
  n : OrdMap Text UInt64

namespace PnCounter

def new : PnCounter := ⟨.empty, .empty⟩

def bump (m : OrdMap Text UInt64) (actor : Text) (amount : UInt64) : OrdMap Text UInt64 :=
  m.put actor ((m.get? actor).getD 0 + amount)

def add (c : PnCounter) (actor : Text) (delta : Int64) : PnCounter :=
  if 0 ≤ delta then { c with p := bump c.p actor delta.toUInt64 }
  else { c with n := bump c.n actor (-delta).toUInt64 }

def sum (m : OrdMap Text UInt64) : UInt64 := m.entries.foldl (fun acc e => acc + e.2) 0

def value (c : PnCounter) : Int64 := (sum c.p).toInt64 - (sum c.n).toInt64

def raise (m : OrdMap Text UInt64) (e : Text × UInt64) : OrdMap Text UInt64 :=
  m.put e.1 (max ((m.get? e.1).getD 0) e.2)

def merge (c other : PnCounter) : PnCounter where
  p := other.p.entries.foldl raise c.p
  n := other.n.entries.foldl raise c.n

end PnCounter

/-! ### Observed-remove sets -/

/-- `OrSet`: the tags of the adds of each element. -/
structure OrSet where
  adds : OrdMap Text (Finset UInt64)

namespace OrSet

def new : OrSet := ⟨.empty⟩

def add (s : OrSet) (element : Text) (tag : UInt64) : OrSet :=
  ⟨s.adds.put element (insert tag ((s.adds.get? element).getD ∅))⟩

def remove (s : OrSet) (element : Text) : OrSet := ⟨s.adds.delete element⟩

def contains (s : OrSet) (element : Text) : Bool :=
  (s.adds.get? element).any fun tags => tags ≠ ∅

def mergeTags (adds : OrdMap Text (Finset UInt64)) (e : Text × Finset UInt64) :
    OrdMap Text (Finset UInt64) :=
  adds.put e.1 ((adds.get? e.1).getD ∅ ∪ e.2)

def merge (s other : OrSet) : OrSet := ⟨other.adds.entries.foldl mergeTags s.adds⟩

end OrSet

/-! ### Names for samples -/

namespace Sample

inductive Site
  | here
  | there
  deriving DecidableEq

def alice : Text := ⟨.lit "alice", by decide⟩

def bob : Text := ⟨.lit "bob", by decide⟩

def carol : Text := ⟨.lit "carol", by decide⟩

def sky : Text := ⟨.lit "sky", by decide⟩

def sea : Text := ⟨.lit "sea", by decide⟩

def blue : Text := ⟨.lit "blue", by decide⟩

def grey : Text := ⟨.lit "grey", by decide⟩

def green : Text := ⟨.lit "green", by decide⟩

end Sample

end Cerberus.Crdt
