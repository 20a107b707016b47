import Cerberus.Foundation.OrderedMap

/-!
# Programs over a durable key/value store

`StoreProg` is the type of programs that read and write a key/value store one operation at a time;
every write carries a label saying which part of the program performs it. An operation may report a
failure, and the rest of the program sees the report. `exec` runs a program on a store whose
operations do not fail, and `trace` lists the writes it performs on the way. A process that stops
after `n` writes leaves the store with the first `n` writes of the trace applied.

`Proc` adds a memory that is lost when the process stops, and an error result; a change made to
memory or store before an error stays. A `World` is a memory together with a store. The equations of
`run` and `writes` for sequencing and for the single operations are the simp set of such programs.
-/

namespace Foundation

/-- A program over a key/value store. `L` labels the writes, `E` are the store's failures. -/
inductive StoreProg (L E K V α : Type) : Type
  | ret (a : α)
  | get (k : K) (next : Except E (Option V) → StoreProg L E K V α)
  | keys (next : Except E (List K) → StoreProg L E K V α)
  | put (site : L) (k : K) (v : V) (next : Except E Unit → StoreProg L E K V α)
  | delete (site : L) (k : K) (next : Except E Unit → StoreProg L E K V α)

/-- A write a program has performed: by which part of it, on which key, and the value written
(`none` for a removal). -/
@[ext]
structure Write (L K V : Type) where
  /-- The part of the program that performs the write. -/
  site : L
  key : K
  /-- The value written, `none` for a removal. -/
  val : Option V

namespace Write

variable {L K V : Type} [LinearOrder K]

def apply (w : Write L K V) (m : OrdMap K V) : OrdMap K V :=
  match w.val with
  | some v => m.put w.key v
  | none => m.delete w.key

lemma get?_apply (x : Write L K V) (m : OrdMap K V) (k : K) :
    (x.apply m).get? k = if k = x.key then x.val else m.get? k := by
  unfold apply
  cases x.val <;> simp

/-- The effect of a sequence of writes, first to last. -/
def applyAll : List (Write L K V) → OrdMap K V → OrdMap K V
  | [], m => m
  | w :: ws, m => applyAll ws (w.apply m)

lemma applyAll_append (ws ws' : List (Write L K V)) (m : OrdMap K V) :
    applyAll (ws ++ ws') m = applyAll ws' (applyAll ws m) := by
  induction ws generalizing m with
  | nil => rfl
  | cons w ws ih => exact ih (w.apply m)

end Write

namespace StoreProg

variable {L E K V α β : Type}

def bind : StoreProg L E K V α → (α → StoreProg L E K V β) → StoreProg L E K V β
  | ret a, f => f a
  | get k next, f => get k fun r => (next r).bind f
  | keys next, f => keys fun r => (next r).bind f
  | put s k v next, f => put s k v fun r => (next r).bind f
  | delete s k next, f => delete s k fun r => (next r).bind f

variable [LinearOrder K]

/-- Run a program on a store whose operations do not fail. -/
def exec : StoreProg L E K V α → OrdMap K V → α × OrdMap K V
  | ret a, m => (a, m)
  | get k next, m => (next (.ok (m.get? k))).exec m
  | keys next, m => (next (.ok m.keys)).exec m
  | put _ k v next, m => (next (.ok ())).exec (m.put k v)
  | delete _ k next, m => (next (.ok ())).exec (m.delete k)

/-- The writes a program performs on a store whose operations do not fail. -/
def trace : StoreProg L E K V α → OrdMap K V → List (Write L K V)
  | ret _, _ => []
  | get k next, m => (next (.ok (m.get? k))).trace m
  | keys next, m => (next (.ok m.keys)).trace m
  | put s k v next, m => ⟨s, k, some v⟩ :: (next (.ok ())).trace (m.put k v)
  | delete s k next, m => ⟨s, k, none⟩ :: (next (.ok ())).trace (m.delete k)

variable (p : StoreProg L E K V α) (f : α → StoreProg L E K V β) (m : OrdMap K V)

lemma exec_bind : (p.bind f).exec m = (f (p.exec m).1).exec (p.exec m).2 := by
  induction p generalizing m with
  | ret a => rfl
  | get k next ih => exact ih _ m
  | keys next ih => exact ih _ m
  | put s k v next ih => exact ih _ (m.put k v)
  | delete s k next ih => exact ih _ (m.delete k)

lemma trace_bind : (p.bind f).trace m = p.trace m ++ (f (p.exec m).1).trace (p.exec m).2 := by
  induction p generalizing m with
  | ret a => rfl
  | get k next ih => exact ih _ m
  | keys next ih => exact ih _ m
  | put s k v next ih => exact congrArg (List.cons _) (ih _ (m.put k v))
  | delete s k next ih => exact congrArg (List.cons _) (ih _ (m.delete k))

/-- The final store is what the writes of the trace make of the initial one. -/
theorem applyAll_trace : Write.applyAll (p.trace m) m = (p.exec m).2 := by
  induction p generalizing m with
  | ret a => rfl
  | get k next ih => exact ih _ m
  | keys next ih => exact ih _ m
  | put s k v next ih => exact ih _ (m.put k v)
  | delete s k next ih => exact ih _ (m.delete k)

end StoreProg

/-- What a process works on: its memory, and the store that outlives it. -/
@[ext]
structure World (σ K V : Type) [LinearOrder K] where
  mem : σ
  store : OrdMap K V

/-- A procedure of a process with memory `σ`: a store program that ends with a result or an error
and the memory at that point. -/
def Proc (σ ε L E K V α : Type) : Type := σ → StoreProg L E K V (Except ε α × σ)

namespace Proc

variable {σ ε L E K V α β : Type}

/-- Go on with the result of a procedure; an error ends the sequence. -/
def andThen (p : Proc σ ε L E K V α) (f : α → Proc σ ε L E K V β) : Proc σ ε L E K V β :=
  fun s => (p s).bind fun r =>
    match r with
    | (.ok a, s') => f a s'
    | (.error e, s') => .ret (.error e, s')

instance : Monad (Proc σ ε L E K V) where
  pure a := fun s => .ret (.ok a, s)
  bind := andThen

def fail (e : ε) : Proc σ ε L E K V α := fun s => .ret (.error e, s)

/-- Run a procedure and, if it ends with an error, a handler. -/
def orElse (p : Proc σ ε L E K V α) (h : ε → Proc σ ε L E K V α) : Proc σ ε L E K V α :=
  fun s => (p s).bind fun r =>
    match r with
    | (.ok a, s') => .ret (.ok a, s')
    | (.error e, s') => h e s'

instance : MonadExceptOf ε (Proc σ ε L E K V) where
  throw := fail
  tryCatch := orElse

instance : MonadStateOf σ (Proc σ ε L E K V) where
  get := fun s => .ret (.ok s, s)
  set s := fun _ => .ret (.ok (), s)
  modifyGet f := fun s => .ret (.ok (f s).1, (f s).2)

section Operations

variable (inj : E → ε)

/-- Read the value of a key; a failure of the store becomes an error. -/
def getKey (k : K) : Proc σ ε L E K V (Option V) :=
  fun s => .get k fun r => .ret (r.mapError inj, s)

def listKeys : Proc σ ε L E K V (List K) := fun s => .keys fun r => .ret (r.mapError inj, s)

def putKey (site : L) (k : K) (v : V) : Proc σ ε L E K V Unit :=
  fun s => .put site k v fun r => .ret (r.mapError inj, s)

def deleteKey (site : L) (k : K) : Proc σ ε L E K V Unit :=
  fun s => .delete site k fun r => .ret (r.mapError inj, s)

end Operations

variable [LinearOrder K]

/-- Run a procedure in a world whose store does not fail. -/
def run (p : Proc σ ε L E K V α) (w : World σ K V) : Except ε α × World σ K V :=
  let r := (p w.mem).exec w.store
  (r.1.1, ⟨r.1.2, r.2⟩)

/-- The writes a procedure performs in a world whose store does not fail. -/
def writes (p : Proc σ ε L E K V α) (w : World σ K V) : List (Write L K V) :=
  (p w.mem).trace w.store

variable (p : Proc σ ε L E K V α)

/-- The store a procedure leaves is what its writes make of the store it found. -/
theorem applyAll_writes (w : World σ K V) :
    Write.applyAll (p.writes w) w.store = (p.run w).2.store :=
  StoreProg.applyAll_trace (p w.mem) w.store

variable (w : World σ K V)

@[simp] lemma run_pure (a : α) : (pure a : Proc σ ε L E K V α).run w = (.ok a, w) := rfl

@[simp] lemma writes_pure (a : α) : (pure a : Proc σ ε L E K V α).writes w = [] := rfl

@[simp] lemma run_throw (e : ε) : (throw e : Proc σ ε L E K V α).run w = (.error e, w) := rfl

@[simp] lemma writes_throw (e : ε) : (throw e : Proc σ ε L E K V α).writes w = [] := rfl

@[simp] lemma run_getMem : (get : Proc σ ε L E K V σ).run w = (.ok w.mem, w) := rfl

@[simp] lemma writes_getMem : (get : Proc σ ε L E K V σ).writes w = [] := rfl

@[simp] lemma run_modify (f : σ → σ) :
    (modify f : Proc σ ε L E K V PUnit).run w = (.ok (), ⟨f w.mem, w.store⟩) := rfl

@[simp] lemma writes_modify (f : σ → σ) : (modify f : Proc σ ε L E K V PUnit).writes w = [] := rfl

variable (inj : E → ε)

@[simp] lemma run_getKey (k : K) :
    (getKey inj k : Proc σ ε L E K V (Option V)).run w = (.ok (w.store.get? k), w) := rfl

@[simp] lemma writes_getKey (k : K) : (getKey inj k : Proc σ ε L E K V (Option V)).writes w = [] :=
  rfl

@[simp] lemma run_listKeys :
    (listKeys inj : Proc σ ε L E K V (List K)).run w = (.ok w.store.keys, w) := rfl

@[simp] lemma writes_listKeys : (listKeys inj : Proc σ ε L E K V (List K)).writes w = [] := rfl

@[simp] lemma run_putKey (site : L) (k : K) (v : V) :
    (putKey inj site k v : Proc σ ε L E K V Unit).run w =
      (.ok (), ⟨w.mem, w.store.put k v⟩) := rfl

@[simp] lemma writes_putKey (site : L) (k : K) (v : V) :
    (putKey inj site k v : Proc σ ε L E K V Unit).writes w = [⟨site, k, some v⟩] := rfl

@[simp] lemma run_deleteKey (site : L) (k : K) :
    (deleteKey inj site k : Proc σ ε L E K V Unit).run w =
      (.ok (), ⟨w.mem, w.store.delete k⟩) := rfl

@[simp] lemma writes_deleteKey (site : L) (k : K) :
    (deleteKey inj site k : Proc σ ε L E K V Unit).writes w = [⟨site, k, none⟩] := rfl

variable (f : α → Proc σ ε L E K V β)

lemma run_bind :
    (p >>= f).run w =
      match p.run w with
      | (.ok a, w') => (f a).run w'
      | (.error e, w') => (.error e, w') := by
  change run (andThen p f) w = _
  unfold andThen run
  rw [StoreProg.exec_bind]
  rcases h : (p w.mem).exec w.store with ⟨⟨e | a, s'⟩, m'⟩ <;> rfl

lemma writes_bind :
    (p >>= f).writes w =
      p.writes w ++
        match p.run w with
        | (.ok a, w') => (f a).writes w'
        | (.error _, _) => [] := by
  change (andThen p f w.mem).trace w.store = _
  unfold andThen run writes
  rw [StoreProg.trace_bind]
  rcases h : (p w.mem).exec w.store with ⟨⟨e | a, s'⟩, m'⟩ <;> rfl

variable (h : ε → Proc σ ε L E K V α)

lemma run_tryCatch :
    (tryCatch p h).run w =
      match p.run w with
      | (.ok a, w') => (.ok a, w')
      | (.error e, w') => (h e).run w' := by
  change run (orElse p h) w = _
  unfold orElse run
  rw [StoreProg.exec_bind]
  rcases hp : (p w.mem).exec w.store with ⟨⟨e | a, s'⟩, m'⟩ <;> rfl

lemma writes_tryCatch :
    (tryCatch p h).writes w =
      p.writes w ++
        match p.run w with
        | (.ok _, _) => []
        | (.error e, w') => (h e).writes w' := by
  change (orElse p h w.mem).trace w.store = _
  unfold orElse run writes
  rw [StoreProg.trace_bind]
  rcases hp : (p w.mem).exec w.store with ⟨⟨e | a, s'⟩, m'⟩ <;> rfl

variable {p : Proc σ ε L E K V α}

lemma run_bind_of_error {f : α → Proc σ ε L E K V β}
    {w w' : World σ K V} {e : ε} (h : p.run w = (.error e, w')) :
    (p >>= f).run w = (.error e, w') := by
  rw [run_bind, h]

/-- The procedure ends with an error before it has changed anything. -/
def Refuses (p : Proc σ ε L E K V α) (w : World σ K V) (e : ε) : Prop :=
  p.run w = (.error e, w) ∧ p.writes w = []

lemma Refuses.bind {w : World σ K V} {e : ε} (h : p.Refuses w e)
    (f : α → Proc σ ε L E K V β) : (p >>= f).Refuses w e := by
  refine ⟨run_bind_of_error h.1, ?_⟩
  rw [writes_bind, h.1, h.2]
  rfl

section Count

variable [DecidableEq L] (site : L)

def siteCount (p : Proc σ ε L E K V α) (w : World σ K V) : ℕ :=
  (p.writes w).countP fun x => x.site = site

@[simp] lemma siteCount_pure (a : α) : siteCount site (pure a : Proc σ ε L E K V α) w = 0 := rfl

@[simp] lemma siteCount_throw (e : ε) :
    siteCount site (throw e : Proc σ ε L E K V α) w = 0 := rfl

@[simp] lemma siteCount_getMem : siteCount site (get : Proc σ ε L E K V σ) w = 0 := rfl

@[simp] lemma siteCount_modify (f : σ → σ) :
    siteCount site (modify f : Proc σ ε L E K V PUnit) w = 0 := rfl

@[simp] lemma siteCount_getKey (k : K) :
    siteCount site (getKey inj k : Proc σ ε L E K V (Option V)) w = 0 := rfl

@[simp] lemma siteCount_listKeys :
    siteCount site (listKeys inj : Proc σ ε L E K V (List K)) w = 0 := rfl

@[simp] lemma siteCount_putKey (s : L) (k : K) (v : V) :
    siteCount site (putKey inj s k v : Proc σ ε L E K V Unit) w = if s = site then 1 else 0 := by
  by_cases h : s = site <;> simp [siteCount, h]

@[simp] lemma siteCount_deleteKey (s : L) (k : K) :
    siteCount site (deleteKey inj s k : Proc σ ε L E K V Unit) w = if s = site then 1 else 0 := by
  by_cases h : s = site <;> simp [siteCount, h]

lemma siteCount_bind :
    siteCount site (p >>= f) w =
      siteCount site p w +
        match p.run w with
        | (.ok a, w') => siteCount site (f a) w'
        | (.error _, _) => 0 := by
  unfold siteCount
  rw [writes_bind, List.countP_append]
  rcases p.run w with ⟨e | a, w'⟩ <;> rfl

@[simp] lemma siteCount_bind_pure (f : α → β) :
    siteCount site (p >>= fun a => pure (f a)) w = siteCount site p w := by
  rw [siteCount_bind]
  rcases p.run w with ⟨e | a, w'⟩ <;> rfl

lemma siteCount_tryCatch :
    siteCount site (tryCatch p h) w =
      siteCount site p w +
        match p.run w with
        | (.ok _, _) => 0
        | (.error e, w') => siteCount site (h e) w' := by
  unfold siteCount
  rw [writes_tryCatch, List.countP_append]
  rcases p.run w with ⟨e | a, w'⟩ <;> rfl

lemma Refuses.siteCount_eq_zero {w : World σ K V} {e : ε}
    (h : p.Refuses w e) : siteCount site p w = 0 := by
  rw [siteCount, h.2, List.countP_nil]

end Count

end Proc

/-- A relation between a world, the writes performed in it and the world they lead to that is closed
under sequencing. -/
structure TraceRel (σ L K V : Type) [LinearOrder K] where
  rel : World σ K V → List (Write L K V) → World σ K V → Prop
  nil : ∀ w, rel w [] w
  /-- Doing two allowed things one after the other is allowed. -/
  append : ∀ {w w' w'' T T'}, rel w T w' → rel w' T' w'' → rel w (T ++ T') w''

namespace Proc

variable {σ ε L E K V α β : Type} [LinearOrder K] {R : TraceRel σ L K V} {w : World σ K V}

def Obeys (R : TraceRel σ L K V) (p : Proc σ ε L E K V α) (w : World σ K V) : Prop :=
  R.rel w (p.writes w) (p.run w).2

lemma obeys_pure (a : α) : Obeys R (pure a : Proc σ ε L E K V α) w := R.nil w

lemma obeys_throw (e : ε) : Obeys R (throw e : Proc σ ε L E K V α) w := R.nil w

lemma obeys_getMem : Obeys R (get : Proc σ ε L E K V σ) w := R.nil w

lemma obeys_getKey (inj : E → ε) (k : K) :
    Obeys R (getKey inj k : Proc σ ε L E K V (Option V)) w := R.nil w

lemma obeys_listKeys (inj : E → ε) : Obeys R (listKeys inj : Proc σ ε L E K V (List K)) w :=
  R.nil w

lemma Obeys.bind {p : Proc σ ε L E K V α} {f : α → Proc σ ε L E K V β} (hp : Obeys R p w)
    (hf : ∀ a w', p.run w = (.ok a, w') → Obeys R (f a) w') : Obeys R (p >>= f) w := by
  unfold Obeys at *
  rw [writes_bind, run_bind]
  rcases hrun : p.run w with ⟨e | a, w'⟩
  · rw [hrun] at hp
    simpa using hp
  · rw [hrun] at hp
    exact R.append hp (hf a w' hrun)

end Proc

end Foundation
