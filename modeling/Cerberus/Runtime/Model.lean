import Cerberus.Foundation.GoString
import Cerberus.Foundation.Loop
import Cerberus.Foundation.Run

/-!
# The promise table

The promise table of the runtime (`core/runtime/src/lib.rs`). `dispatch` runs a task at once,
`dispatch_pipelined` stores a stage that waits for other promises, and `pump` runs the stages whose
promises are resolved until there is none left. The table is a pair of hash maps, and `pump` meets
the stages of a round in the order in which the map gives them, which here is any order (`Traversal`).

The state keeps, beside the fields of the table, what was dispatched under which handle, and the
handles in the order in which they were executed and resolved.
-/

namespace Cerberus.Runtime

open Foundation

structure Task where
  taskId : List UInt8
  component : List UInt8
  wasm : List UInt8
  entry : GoString
  input : List UInt8
  caps : List UInt64

structure TaskResult where
  taskId : List UInt8
  ok : Bool
  output : List UInt8
  error : GoString
  deriving DecidableEq

def TaskResult.err (taskId : List UInt8) (error : GoString) : TaskResult :=
  ⟨taskId, false, [], error⟩

abbrev Executor := Task → TaskResult

def echoExecutor : Executor := fun t => ⟨t.taskId, true, t.input, ⟨[]⟩⟩

abbrev PromiseHandle := UInt64

structure Stage where
  deps : List PromiseHandle
  task : Task
  combine : List (List UInt8) → List UInt8

inductive Job
  | direct (task : Task)
  | pipelined (stage : Stage)

structure PromiseTable where
  next : PromiseHandle
  results : Finmap fun _ : PromiseHandle => TaskResult
  pending : Finmap fun _ : PromiseHandle => Stage
  jobs : List (PromiseHandle × Job)
  /-- The history: the handles whose tasks the executor ran. -/
  executed : List PromiseHandle
  /-- The history: the handles that got a result. -/
  resolved : List PromiseHandle

def PromiseTable.new : PromiseTable := ⟨1, ∅, ∅, [], [], []⟩

def rejected (dep : PromiseHandle) (error : GoString) : GoString :=
  .lit "dependency promise " ++ .formatUint dep ++ .lit " rejected: " ++ error

def unresolved (dep : PromiseHandle) : GoString :=
  .lit "dependency promise " ++ .formatUint dep ++ .lit " unresolved"

/-- The loop of `run_stage`: the outputs of the dependencies, or the error of the first one that has
none. -/
def gather (results : Finmap fun _ : PromiseHandle => TaskResult) :
    List PromiseHandle → Except GoString (List (List UInt8))
  | [] => .ok []
  | dep :: deps =>
    match results.lookup dep with
    | some r =>
      if r.ok then (gather results deps).map (r.output :: ·) else .error (rejected dep r.error)
    | none => .error (unresolved dep)

variable (E : Executor)

def runStage (results : Finmap fun _ : PromiseHandle => TaskResult) (stage : Stage) : TaskResult :=
  match gather results stage.deps with
  | .ok outputs => E { stage.task with input := stage.combine outputs }
  | .error error => .err stage.task.taskId error

/-- Whether `run_stage` comes to the executor. -/
def executes (results : Finmap fun _ : PromiseHandle => TaskResult) (stage : Stage) : Bool :=
  (gather results stage.deps).isOk

namespace PromiseTable

/-- `dispatch`; the counter wraps around. -/
def dispatch (s : PromiseTable) (t : Task) : PromiseTable :=
  { s with
    next := s.next + 1
    results := s.results.insert s.next (E t)
    jobs := s.jobs ++ [(s.next, .direct t)]
    executed := s.executed ++ [s.next]
    resolved := s.resolved ++ [s.next] }

def dispatchPipelined (s : PromiseTable) (stage : Stage) : PromiseTable :=
  { s with
    next := s.next + 1
    pending := s.pending.insert s.next stage
    jobs := s.jobs ++ [(s.next, .pipelined stage)] }

def dispatchAfter (s : PromiseTable) (dep : PromiseHandle) (t : Task) : PromiseTable :=
  s.dispatchPipelined ⟨[dep], t, fun _ => []⟩

def ready (s : PromiseTable) : Finset PromiseHandle :=
  s.pending.keys.filter fun h =>
    (s.pending.lookup h).any fun stage => stage.deps.all (· ∈ s.results)

def take : List PromiseHandle → (Finmap fun _ : PromiseHandle => Stage) →
    List (PromiseHandle × Stage) × Finmap fun _ : PromiseHandle => Stage
  | [], pending => ([], pending)
  | h :: ids, pending =>
    match pending.lookup h with
    | some stage =>
      let rest := take ids (pending.erase h)
      ((h, stage) :: rest.1, rest.2)
    -- every handle that is ready is pending, so `unwrap` does not panic
    | none => take ids pending

def run (s : PromiseTable) (p : PromiseHandle × Stage) : PromiseTable :=
  { s with
    results := s.results.insert p.1 (runStage E s.results p.2)
    executed := if executes s.results p.2 then s.executed ++ [p.1] else s.executed
    resolved := s.resolved ++ [p.1] }

def pumpRound (o : Traversal PromiseHandle) (s : PromiseTable) : PromiseTable ⊕ PromiseTable :=
  let taken := take (o.enum s.ready) s.pending
  if taken.1.isEmpty then .inr s
  else .inl (taken.1.foldl (run E) { s with pending := taken.2 })

/-- `pump`. It ends after as many rounds as there are pending stages (`returns_pump`). -/
def pump (o : Traversal PromiseHandle) (s : PromiseTable) : PromiseTable :=
  (loop (pumpRound E o) (s.pending.keys.card + 1) s).getD s

def resolve (s : PromiseTable) (h : PromiseHandle) : Option TaskResult := s.results.lookup h

def isResolved (s : PromiseTable) (h : PromiseHandle) : Bool := h ∈ s.results

end PromiseTable

inductive Call
  | dispatch (t : Task)
  | dispatchPipelined (stage : Stage)
  | pump (o : Traversal PromiseHandle)

def Call.dispatches : Call → Bool
  | .dispatch _ => true
  | .dispatchPipelined _ => true
  | .pump _ => false

def step (s : PromiseTable) : Call → PromiseTable
  | .dispatch t => s.dispatch E t
  | .dispatchPipelined stage => s.dispatchPipelined stage
  | .pump o => s.pump E o

end Cerberus.Runtime
