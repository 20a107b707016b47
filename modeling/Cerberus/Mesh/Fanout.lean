import Cerberus.Foundation.Run
import Cerberus.Mesh.KeyExpr

/-!
# Fan-out to the local subscribers

`Fabric.dispatch` copies the matching subscriptions under the lock and sends to their channels after
it has given the lock back (`daemon/mesh/mesh.go`). `Fabric.Subscribe` starts a goroutine that waits
for the context, removes the subscription under the lock and closes the channel after it. Here these
steps happen in any order, for any number of calls at once.

Removing the subscription keeps later dispatches away from it, but not those that have copied it
before. A send on a closed channel panics in Go, in a `select` with a `default` too
(`no_crash_iff`).
-/

namespace Cerberus.Fanout

open Foundation Mesh List

/-- `contract.Sample`; the envelope of the bus has the same fields. -/
structure Sample where
  key : GoString
  payload : List UInt8
  deriving DecidableEq

/-- `subscription`; the identity stands for the pointer, and for the channel it holds. -/
structure Subscription where
  id : ℕ
  expr : GoString
  deriving DecidableEq

/-- A `dispatch` after its copy: the sample and the targets it has not sent to yet. -/
structure Flight where
  sample : Sample
  targets : List Subscription
  deriving DecidableEq

/-- The part of `Fabric` that the steps share, and where their goroutines are. -/
structure Fabric where
  subs : List Subscription := []
  next : ℕ := 0
  /-- Subscriptions that are removed, with the channel still open. -/
  removed : List ℕ := []
  closed : List ℕ := []
  queues : ℕ → List Sample := fun _ => []
  flights : List Flight := []
  crashed : Bool := false

inductive Event
  | subscribe (expr : GoString) (granted : Bool)
  /-- The context of a subscription is done: it is removed under the lock. -/
  | cancel (id : ℕ)
  /-- The channel of a removed subscription is closed. -/
  | close (id : ℕ)
  /-- `dispatch` copies the matching subscriptions under the lock. -/
  | dispatch (env : Sample)
  | send (i : ℕ)
  /-- A subscriber takes a sample from its channel. -/
  | receive (id : ℕ)

def capacity : ℕ := 64

/-- A send on an open channel that does not block: a full channel drops the sample. -/
def offer (queue : List Sample) (sample : Sample) : List Sample :=
  if queue.length < capacity then queue ++ [sample] else queue

namespace Fabric

def subscribe (s : Fabric) (expr : GoString) (granted : Bool) : Fabric :=
  if granted then { s with subs := s.subs ++ [⟨s.next, expr⟩], next := s.next + 1 } else s

def cancel (s : Fabric) (id : ℕ) : Fabric :=
  if s.subs.any (·.id == id) then
    { s with subs := s.subs.eraseP (·.id == id), removed := s.removed ++ [id] }
  else s

def close (s : Fabric) (id : ℕ) : Fabric :=
  if id ∈ s.removed then
    { s with removed := s.removed.erase id, closed := s.closed ++ [id] }
  else s

def dispatch (s : Fabric) (env : Sample) : Fabric :=
  { s with flights := s.flights ++ [⟨env, s.subs.filter fun sub => matchKey sub.expr env.key⟩] }

/-- The subscriber that a dispatch sends to next. -/
def target (s : Fabric) (i : ℕ) : Option (Sample × Subscription) :=
  s.flights[i]?.bind fun f => f.targets.head?.map fun sub => (f.sample, sub)

/-- `dispatch`, one send after the lock. -/
def send (s : Fabric) (i : ℕ) : Fabric :=
  match s.flights[i]? with
  | some ⟨sample, sub :: targets⟩ =>
    if sub.id ∈ s.closed then { s with crashed := true }
    else
      { s with
        flights := s.flights.set i ⟨sample, targets⟩
        queues := Function.update s.queues sub.id (offer (s.queues sub.id) sample) }
  | _ => s

/-- A subscriber reads its channel, closed or not. -/
def receive (s : Fabric) (id : ℕ) : Fabric :=
  { s with queues := Function.update s.queues id (s.queues id).tail }

end Fabric

/-- One step; nothing happens in a daemon that has crashed. -/
def step (s : Fabric) (e : Event) : Fabric :=
  if s.crashed then s else
    match e with
    | .subscribe expr granted => s.subscribe expr granted
    | .cancel id => s.cancel id
    | .close id => s.close id
    | .dispatch env => s.dispatch env
    | .send i => s.send i
    | .receive id => s.receive id

def init : Fabric := {}

/-- A dispatch offers its sample only to a subscription whose expression matches the key. -/
def OffersMatch (s : Fabric) : Event → Prop
  | .send i => ∀ sample sub, s.target i = some (sample, sub) →
      Matches (splitKey sub.expr) (splitKey sample.key)
  | _ => True

/-- No channel is closed while a dispatch still has to send to it. -/
def ClosesUnawaited (s : Fabric) : Event → Prop
  | .close id => id ∈ s.removed → ∀ f ∈ s.flights, ∀ sub ∈ f.targets, sub.id ≠ id
  | _ => True

/-! ### What holds in every run -/

/-- All subscriptions there have been. -/
def Fabric.ids (s : Fabric) : List ℕ := s.subs.map Subscription.id ++ (s.removed ++ s.closed)

/-- What the steps keep: no identity is used twice, and copied targets match the sample they wait
for. -/
structure Tidy (s : Fabric) : Prop where
  lt : ∀ id ∈ s.ids, id < s.next
  nodup : s.ids.Nodup
  matches_key : ∀ f ∈ s.flights, ∀ sub ∈ f.targets,
    Matches (splitKey sub.expr) (splitKey f.sample.key)

lemma tidy_init : Tidy init := by
  constructor <;> simp [init, Fabric.ids]

section Identities

open scoped List

variable {s : Fabric} {id : ℕ}

lemma ids_cancel_perm : (s.cancel id).ids ~ s.ids := by
  unfold Fabric.cancel
  split_ifs with hany
  · have herase : (s.subs.eraseP (·.id == id)).map Subscription.id =
        (s.subs.map Subscription.id).erase id := by
      rw [erase_eq_eraseP', eraseP_map]
      rfl
    have hmem : id ∈ s.subs.map Subscription.id := by
      obtain ⟨sub, hsub, hid⟩ := any_eq_true.mp hany
      exact mem_map.mpr ⟨sub, hsub, beq_iff_eq.mp hid⟩
    unfold Fabric.ids
    rw [herase, append_assoc]
    calc (s.subs.map Subscription.id).erase id ++ (s.removed ++ id :: s.closed)
        _ ~ (s.subs.map Subscription.id).erase id ++ id :: (s.removed ++ s.closed) :=
          perm_middle.append_left _
        _ ~ id :: (s.subs.map Subscription.id).erase id ++ (s.removed ++ s.closed) :=
          perm_middle
        _ ~ s.subs.map Subscription.id ++ (s.removed ++ s.closed) :=
          (perm_cons_erase hmem).symm.append_right _
  · exact .rfl

lemma ids_close_perm : (s.close id).ids ~ s.ids := by
  unfold Fabric.close
  split_ifs with hmem
  · refine List.Perm.append_left _ ?_
    calc s.removed.erase id ++ (s.closed ++ [id])
        _ = s.removed.erase id ++ s.closed ++ [id] := (append_assoc _ _ _).symm
        _ ~ id :: (s.removed.erase id ++ s.closed) := perm_append_singleton id _
        _ ~ s.removed ++ s.closed := (perm_cons_erase hmem).symm.append_right _
  · exact .rfl

end Identities

namespace Tidy

variable {s t : Fabric}

variable (h : Tidy s)
include h

lemma of_perm (hids : t.ids.Perm s.ids) (hnext : t.next = s.next)
    (hflights : t.flights = s.flights) : Tidy t := by
  refine ⟨?_, hids.nodup_iff.mpr h.nodup, ?_⟩
  · intro id hid
    rw [hnext]
    exact h.lt id (hids.mem_iff.mp hid)
  · rw [hflights]
    exact h.matches_key

lemma subscribe (expr : GoString) (granted : Bool) : Tidy (s.subscribe expr granted) := by
  unfold Fabric.subscribe
  split_ifs with hg
  · have hids : (⟨s.subs ++ [⟨s.next, expr⟩], s.next + 1, s.removed, s.closed, s.queues, s.flights,
        s.crashed⟩ : Fabric).ids.Perm (s.next :: s.ids) := by
      unfold Fabric.ids
      rw [map_append, append_assoc]
      exact perm_middle
    refine ⟨?_, ?_, h.matches_key⟩
    · intro id hid
      rcases mem_cons.mp (hids.mem_iff.mp hid) with rfl | hid
      · exact Nat.lt_succ_self _
      · exact Nat.lt_succ_of_lt (h.lt id hid)
    · refine hids.nodup_iff.mpr (nodup_cons.mpr ⟨?_, h.nodup⟩)
      intro hnext
      exact absurd (h.lt _ hnext) (Nat.lt_irrefl _)
  · exact h

lemma dispatch (env : Sample) : Tidy (s.dispatch env) := by
  refine ⟨h.lt, h.nodup, ?_⟩
  intro f hf sub hsub
  rcases mem_append.mp hf with hf | hf
  · exact h.matches_key f hf sub hsub
  · rw [mem_singleton.mp hf] at hsub ⊢
    exact (matchChunks_iff _ _).mp (mem_filter.mp hsub).2

lemma send (i : ℕ) : Tidy (s.send i) := by
  unfold Fabric.send
  split
  · rename_i sample sub targets hi
    split_ifs with hcl
    · exact ⟨h.lt, h.nodup, h.matches_key⟩
    · refine ⟨h.lt, h.nodup, ?_⟩
      intro f hf sub' hsub'
      rcases mem_or_eq_of_mem_set hf with hf | rfl
      · exact h.matches_key f hf sub' hsub'
      · exact h.matches_key ⟨sample, sub :: targets⟩ (mem_of_getElem? hi) sub'
          (mem_cons_of_mem _ hsub')
  · exact h

lemma step (e : Event) : Tidy (Fanout.step s e) := by
  unfold Fanout.step
  split_ifs with hc
  · exact h
  · cases e with
    | subscribe expr granted => exact h.subscribe expr granted
    | cancel id =>
      refine h.of_perm ids_cancel_perm ?_ ?_ <;> simp only [Fabric.cancel] <;> split <;> rfl
    | close id =>
      refine h.of_perm ids_close_perm ?_ ?_ <;> simp only [Fabric.close] <;> split <;> rfl
    | dispatch env => exact h.dispatch env
    | send i => exact h.send i
    | receive id => exact ⟨h.lt, h.nodup, h.matches_key⟩

lemma not_closed {sub : Subscription} (hsub : sub ∈ s.subs) : sub.id ∉ s.closed := by
  intro hcl
  have hdisj := disjoint_of_nodup_append h.nodup
  exact hdisj (mem_map_of_mem hsub) (mem_append_right _ hcl)

lemma offersMatch (e : Event) : OffersMatch s e := by
  cases e with
  | send i =>
    intro sample sub htarget
    obtain ⟨f, hf, hhead⟩ := Option.bind_eq_some_iff.mp htarget
    obtain ⟨sub', hsub', heq⟩ := Option.map_eq_some_iff.mp hhead
    cases heq
    exact h.matches_key f (mem_of_getElem? hf) sub (mem_of_head? hsub')
  | _ => trivial

end Tidy

/-! ### When a send meets a closed channel -/

/-- The daemon has crashed, or a dispatch in flight has to send to a closed channel. -/
def Doomed (s : Fabric) : Prop :=
  s.crashed = true ∨
    ∃ (i : ℕ) (f : Flight), s.flights[i]? = some f ∧ ∃ sub ∈ f.targets, sub.id ∈ s.closed

lemma not_doomed_init : ¬ Doomed init := by
  simp [Doomed, init]

section Doom

variable {s : Fabric}

lemma doomed_congr {t : Fabric} (hcrash : t.crashed = s.crashed) (hcl : t.closed = s.closed)
    (hfl : t.flights = s.flights) : Doomed t ↔ Doomed s := by
  unfold Doomed
  rw [hcrash, hcl, hfl]

lemma doomed_dispatch (h : Tidy s) (env : Sample) : Doomed (s.dispatch env) ↔ Doomed s := by
  refine or_congr Iff.rfl ?_
  constructor
  · rintro ⟨i, f, hf, sub, hsub, hcl⟩
    rcases mem_append.mp (mem_of_getElem? hf) with hmem | hmem
    · obtain ⟨j, hj⟩ := mem_iff_getElem?.mp hmem
      exact ⟨j, f, hj, sub, hsub, hcl⟩
    · rw [mem_singleton.mp hmem] at hsub
      exact absurd hcl (h.not_closed (mem_filter.mp hsub).1)
  · rintro ⟨i, f, hf, hsub⟩
    refine ⟨i, f, ?_, hsub⟩
    exact List.getElem?_append_left (List.getElem?_eq_some_iff.mp hf).1 |>.trans hf

lemma doomed_send (i : ℕ) : Doomed (s.send i) ↔ Doomed s := by
  unfold Fabric.send
  split
  · rename_i sample sub targets hi
    split_ifs with hcl
    · exact iff_of_true (.inl rfl) (.inr ⟨i, _, hi, sub, mem_cons_self, hcl⟩)
    · refine or_congr Iff.rfl ?_
      have hlt : i < s.flights.length := (List.getElem?_eq_some_iff.mp hi).1
      constructor
      · rintro ⟨j, f, hf, sub', hsub', hcl'⟩
        rw [List.getElem?_set] at hf
        split_ifs at hf with hij
        · cases hf
          exact ⟨i, _, hi, sub', mem_cons_of_mem _ hsub', hcl'⟩
        · exact ⟨j, f, hf, sub', hsub', hcl'⟩
      · rintro ⟨j, f, hf, sub', hsub', hcl'⟩
        by_cases hij : i = j
        · subst hij
          cases hi.symm.trans hf
          rcases mem_cons.mp hsub' with rfl | hsub'
          · exact absurd hcl' hcl
          · exact ⟨i, ⟨sample, targets⟩, List.getElem?_set_self hlt, sub', hsub', hcl'⟩
        · exact ⟨j, f, (List.getElem?_set_ne hij).trans hf, sub', hsub', hcl'⟩
  · exact Iff.rfl

lemma doomed_close (id : ℕ) :
    Doomed (s.close id) ↔ Doomed s ∨ ¬ ClosesUnawaited s (.close id) := by
  unfold Fabric.close ClosesUnawaited
  split_ifs with hmem
  · simp only [hmem, forall_true_left, Doomed, mem_append, mem_singleton]
    push Not
    constructor
    · rintro (hc | ⟨i, f, hf, sub, hsub, hcl | hcl⟩)
      · exact .inl (.inl hc)
      · exact .inl (.inr ⟨i, f, hf, sub, hsub, hcl⟩)
      · exact .inr ⟨f, mem_of_getElem? hf, sub, hsub, hcl⟩
    · rintro ((hc | ⟨i, f, hf, sub, hsub, hcl⟩) | ⟨f, hf, sub, hsub, hcl⟩)
      · exact .inl hc
      · exact .inr ⟨i, f, hf, sub, hsub, .inl hcl⟩
      · obtain ⟨i, hi⟩ := mem_iff_getElem?.mp hf
        exact .inr ⟨i, f, hi, sub, hsub, .inr hcl⟩
  · simp [hmem]

lemma doomed_step (h : Tidy s) (e : Event) :
    Doomed (step s e) ↔ Doomed s ∨ ¬ ClosesUnawaited s e := by
  unfold step
  split_ifs with hc
  · exact iff_of_true (.inl hc) (.inl (.inl hc))
  · cases e with
    | close id => exact doomed_close id
    | _ =>
      simp only [ClosesUnawaited, not_true, or_false]
      first
      | exact doomed_dispatch h _
      | exact doomed_send _
      | (refine doomed_congr ?_ ?_ ?_ <;>
          simp only [Fabric.subscribe, Fabric.cancel, Fabric.receive] <;> split <;> rfl)

lemma exists_crash_of_target {i : ℕ} {f : Flight} {sub : Subscription} (hf : s.flights[i]? = some f)
    (hsub : sub ∈ f.targets) (hcl : sub.id ∈ s.closed) :
    ∃ is : List ℕ, (runFrom step s (is.map .send)).crashed = true := by
  obtain ⟨sample, targets⟩ := f
  induction targets generalizing s with
  | nil => exact absurd hsub not_mem_nil
  | cons sub' targets ih =>
    by_cases hc : s.crashed = true
    · exact ⟨[], hc⟩
    have hstep : step s (.send i) = s.send i := by rw [step, if_neg hc]
    have hlt : i < s.flights.length := (List.getElem?_eq_some_iff.mp hf).1
    by_cases hcl' : sub'.id ∈ s.closed
    · refine ⟨[i], ?_⟩
      simp only [map_cons, map_nil, runFrom_cons, runFrom_nil, hstep, Fabric.send, hf,
        if_pos hcl']
    · have hrest : sub ∈ targets := by
        rcases mem_cons.mp hsub with rfl | hrest
        · exact absurd hcl hcl'
        · exact hrest
      have hsend : (s.send i).flights[i]? = some ⟨sample, targets⟩ ∧
          sub.id ∈ (s.send i).closed := by
        simp only [Fabric.send, hf, if_neg hcl']
        exact ⟨List.getElem?_set_self hlt, hcl⟩
      obtain ⟨is, his⟩ := ih hsend.2 hsend.1 hrest
      refine ⟨i :: is, ?_⟩
      rwa [map_cons, runFrom_cons, hstep]

lemma doomed_iff_exists_crash (h : Tidy s) :
    Doomed s ↔ ∃ is : List ℕ, (runFrom step s (is.map .send)).crashed = true := by
  constructor
  · rintro (hc | ⟨i, f, hf, sub, hsub, hcl⟩)
    · exact ⟨[], hc⟩
    · exact exists_crash_of_target hf hsub hcl
  · rintro ⟨is, his⟩
    induction is generalizing s with
    | nil => exact .inl his
    | cons i is ih => exact ((doomed_step h _).mp (ih (h.step _) his)).resolve_right (· trivial)

lemma not_doomed_run_iff (h : Tidy s) (hs : ¬ Doomed s) (es : List Event) :
    ¬ Doomed (runFrom step s es) ↔ Along step ClosesUnawaited s es := by
  have hstep : ∀ (s : Fabric) (e : Event), Tidy s →
      (¬ Doomed (step s e) ↔ ¬ Doomed s ∧ ClosesUnawaited s e) := by
    intro s e h
    rw [doomed_step h, not_or, not_not]
  have hrun := runFrom_iff_along (J := fun s => ¬ Doomed s) (fun _ e h => h.step e) hstep h es
  exact hrun.trans (and_iff_right hs)

end Doom

lemma tidy_run (es : List Event) : Tidy (runFrom step init es) :=
  runFrom_keeps (fun _ e h => h.step e) tidy_init es

/-- In every interleaving of subscriptions, cancellations and dispatches, samples are offered only
where the expression matches; and however the dispatches in flight go on, no send panics on a closed
channel, iff no channel is closed while a dispatch still has to send to it. -/
theorem no_crash_iff (es : List Event) :
    ((∀ is : List ℕ, (runFrom step init (es ++ is.map .send)).crashed = false) ∧
        Along step OffersMatch init es) ↔
      Along step ClosesUnawaited init es := by
  have hoffers : Along step OffersMatch init es :=
    along_of_keeps (fun _ e h => h.step e) (fun _ e h => h.offersMatch e) tidy_init es
  rw [and_iff_left hoffers, ← not_doomed_run_iff tidy_init not_doomed_init,
    doomed_iff_exists_crash (tidy_run es), not_exists]
  simp only [runFrom_append, Bool.not_eq_true]

/-- A subscription is cancelled and its channel closed between the copy and the send of a dispatch:
the send panics. -/
theorem cancelled_subscriber_crashes :
    (runFrom step init [.subscribe (.lit "site/**") true, .dispatch ⟨.lit "site/a", []⟩, .cancel 0,
      .close 0, .send 0]).crashed = true := by
  decide +kernel

end Cerberus.Fanout
