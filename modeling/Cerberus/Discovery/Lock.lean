import Cerberus.Foundation.Run

/-!
# The lock of the daemon

`AcquireLock` is the guard that only one daemon runs (`daemon/discovery/manifest.go`). A process
writes its PID into a temp file and links it to the lock path, which fails if there is a lock. Then
it reads the lock, and removes it if no process with that PID runs. These are separate steps of the
file system, and here any number of processes take them in any order, start and die.

But a process removes what stands at the lock path when it comes to it, not what it has read: the
slower of two that have read a stale lock removes the lock that the other one has linked since.
-/

namespace Cerberus.Discovery

open Foundation Function

/-- Where a process is in `AcquireLock`. -/
inductive Stage
  /-- Before the call, at `os.MkdirAll`. -/
  | idle
  /-- The top of the loop: the temp file is created, written and closed. -/
  | create
  | link
  | read
  /-- The lock was read; the PID is what `Sscanf` makes of the text. -/
  | check (pid : Option ℕ)
  | remove
  /-- The call has returned nil. -/
  | held
  /-- The call has returned `ErrAlreadyRunning`. -/
  | alreadyRunning
  /-- The call has returned an error of the file system. -/
  | failed
  deriving DecidableEq

/-- The machine. Processes are known by their PIDs. -/
structure World where
  alive : ℕ → Bool
  stage : ℕ → Stage
  /-- The lock file, if there is one, with the PID in it, if its text is one. -/
  lock : Option (Option ℕ)
  /-- The history: whose lock files were removed. -/
  evicted : List ℕ

inductive Event
  /-- A process takes its next step; `ok` is whether the operating system lets it. -/
  | step (p : ℕ) (ok : Bool)
  | die (p : ℕ)
  | spawn (p : ℕ)

def start (alive : ℕ → Bool) (lock : Option (Option ℕ)) : World := ⟨alive, fun _ => .idle, lock, []⟩

namespace World

def goto (s : World) (p : ℕ) (stage : Stage) : World :=
  { s with stage := Function.update s.stage p stage }

def isRunning (s : World) (pid : ℕ) : Bool := 0 < pid && s.alive pid

/-- The temp file of a process is linked to the lock path; the temp name is removed, and the call
returns nil. -/
def linked (s : World) (p : ℕ) : World := { s.goto p .held with lock := some (some p) }

/-- A process removes what stands at the lock path, and tries again. -/
def reclaimed (s : World) (p : ℕ) : World :=
  { s.goto p .create with lock := none, evicted := s.evicted ++ s.lock.join.toList }

/-- The next step of a process in `AcquireLock`. -/
def acquireLock (s : World) (p : ℕ) (ok : Bool) : World :=
  match s.stage p with
  | .idle => s.goto p (if ok then .create else .failed)
  | .create => s.goto p (if ok then .link else .failed)
  | .link =>
    match s.lock, ok with
    | none, true => s.linked p
    | some _, true => s.goto p .read
    -- an error that is not `IsExist`
    | _, false => s.goto p .failed
  | .read =>
    match s.lock, ok with
    | some pid, true => s.goto p (.check pid)
    | _, _ => s.goto p .create
  | .check pid => s.goto p (if pid.any s.isRunning then .alreadyRunning else .remove)
  -- the error is ignored
  | .remove => if ok then s.reclaimed p else s.goto p .create
  | .held | .alreadyRunning | .failed => s

end World

def step (s : World) : Event → World
  | .step p ok => if s.alive p then s.acquireLock p ok else s
  | .die p => { s with alive := Function.update s.alive p false }
  | .spawn p =>
    if s.alive p then s
    else { s.goto p .idle with alive := Function.update s.alive p true }

/-- `AcquireLock` has returned nil to a process that is still alive. -/
def Holds (s : World) (p : ℕ) : Prop := s.alive p = true ∧ s.stage p = .held

/-- No two processes hold the lock. -/
def AtMostOne (s : World) : Prop := ∀ p q, Holds s p → Holds s q → p = q

/-- The process gets the lock. -/
def Links (s : World) (e : Event) (p : ℕ) : Prop :=
  e = .step p true ∧ s.alive p = true ∧ s.stage p = .link ∧ s.lock = none

/-- The process removes what stands at the lock path. -/
def Reclaims (s : World) (e : Event) (p : ℕ) : Prop :=
  e = .step p true ∧ s.alive p = true ∧ s.stage p = .remove

/-- No process links while an owner whose lock was removed is alive. -/
def LinksAlone (s : World) (e : Event) : Prop :=
  ∀ p, Links s e p → ∀ q ∈ s.evicted, ¬ Holds s q

/-- No process removes the lock of a live owner. -/
def SparesOwner (s : World) (e : Event) : Prop :=
  ∀ p, Reclaims s e p → ∀ q, s.lock = some (some q) → ¬ Holds s q

/-! ### What a step can do -/

section Steps

variable {s t : World} {p q : ℕ}

/-- The step leaves the lock alone, and no process gets it. -/
structure Quiet (s t : World) : Prop where
  lock : t.lock = s.lock
  evicted : t.evicted = s.evicted
  holds : ∀ q, Holds t q → Holds s q

lemma Quiet.rfl : Quiet s s := ⟨Eq.refl _, Eq.refl _, fun _ h => h⟩

lemma quiet_goto {stage : Stage} (h : stage ≠ .held) : Quiet s (s.goto p stage) := by
  refine ⟨Eq.refl _, Eq.refl _, ?_⟩
  rintro q ⟨halive, hheld⟩
  refine ⟨halive, ?_⟩
  by_cases hq : q = p
  · subst hq
    exact absurd ((update_self _ _ _).symm.trans hheld) h
  · exact (update_of_ne hq _ _).symm.trans hheld

lemma acquireLock_cases (s : World) (p : ℕ) (ok : Bool) :
    Quiet s (s.acquireLock p ok) ∨
      (ok = true ∧ s.stage p = .link ∧ s.lock = none ∧ s.acquireLock p ok = s.linked p) ∨
      (ok = true ∧ s.stage p = .remove ∧ s.acquireLock p ok = s.reclaimed p) := by
  unfold World.acquireLock
  cases hstage : s.stage p with
  | idle => exact .inl (quiet_goto (by split <;> simp))
  | create => exact .inl (quiet_goto (by split <;> simp))
  | link =>
    cases hlock : s.lock with
    | none =>
      cases ok with
      | true => exact .inr (.inl ⟨Eq.refl _, Eq.refl _, Eq.refl _, Eq.refl _⟩)
      | false => exact .inl (quiet_goto (by simp))
    | some pid =>
      cases ok with
      | true => exact .inl (quiet_goto (by simp))
      | false => exact .inl (quiet_goto (by simp))
  | read =>
    refine .inl ?_
    cases hlock : s.lock with
    | none => exact quiet_goto (by simp)
    | some pid =>
      cases ok with
      | true => exact quiet_goto (by simp)
      | false => exact quiet_goto (by simp)
  | check pid => exact .inl (quiet_goto (by split <;> simp))
  | remove =>
    cases ok with
    | true => exact .inr (.inr ⟨Eq.refl _, Eq.refl _, Eq.refl _⟩)
    | false => exact .inl (quiet_goto (by simp))
  | held => exact .inl .rfl
  | alreadyRunning => exact .inl .rfl
  | failed => exact .inl .rfl

lemma step_cases (s : World) (e : Event) :
    Quiet s (step s e) ∨ (∃ p, Links s e p ∧ step s e = s.linked p) ∨
      ∃ p, Reclaims s e p ∧ step s e = s.reclaimed p := by
  cases e with
  | step p ok =>
    unfold step
    by_cases halive : s.alive p = true
    · simp only [if_pos halive]
      rcases acquireLock_cases s p ok with
        hquiet | ⟨rfl, hstage, hlock, heq⟩ | ⟨rfl, hstage, heq⟩
      · exact .inl hquiet
      · exact .inr (.inl ⟨p, ⟨Eq.refl _, halive, hstage, hlock⟩, heq⟩)
      · exact .inr (.inr ⟨p, ⟨Eq.refl _, halive, hstage⟩, heq⟩)
    · simp only [if_neg halive]
      exact .inl .rfl
  | die p =>
    refine .inl ⟨Eq.refl _, Eq.refl _, ?_⟩
    rintro q ⟨halive, hheld⟩
    refine ⟨?_, hheld⟩
    by_cases hq : q = p
    · subst hq
      exact absurd ((update_self _ _ _).symm.trans halive) Bool.false_ne_true
    · exact (update_of_ne hq _ _).symm.trans halive
  | spawn p =>
    unfold step
    by_cases halive : s.alive p = true
    · simp only [if_pos halive]
      exact .inl .rfl
    · simp only [if_neg halive]
      refine .inl ⟨Eq.refl _, Eq.refl _, ?_⟩
      rintro q ⟨halive', hheld⟩
      by_cases hq : q = p
      · subst hq
        exact absurd ((update_self _ _ _).symm.trans hheld) (by simp)
      · exact ⟨(update_of_ne hq _ _).symm.trans halive',
          (update_of_ne hq _ _).symm.trans hheld⟩

lemma step_of_links {e : Event} (h : Links s e p) : step s e = s.linked p := by
  obtain ⟨rfl, halive, hstage, hlock⟩ := h
  simp only [step, if_pos halive, World.acquireLock, hstage, hlock]

lemma holds_linked (hp : s.alive p = true) :
    Holds (s.linked p) q ↔ q = p ∨ Holds s q := by
  by_cases hq : q = p
  · subst hq
    exact iff_of_true ⟨hp, update_self _ _ _⟩ (.inl rfl)
  · have hstage : (s.linked p).stage q = s.stage q := update_of_ne hq _ _
    simp only [Holds, hstage, hq, false_or]
    exact Iff.rfl

lemma holds_of_reclaimed (h : Holds (s.reclaimed p) q) : Holds s q :=
  (quiet_goto (Stage.noConfusion : Stage.create ≠ .held)).holds q h

end Steps

/-! ### Who holds the lock -/

/-- A live holder owns the lock file, or its lock file was removed. -/
def Owned (s : World) : Prop := ∀ q, Holds s q → s.lock = some (some q) ∨ q ∈ s.evicted

variable {s : World}

lemma Owned.step (h : Owned s) (e : Event) : Owned (Discovery.step s e) := by
  rcases step_cases s e with hquiet | ⟨p, hlinks, heq⟩ | ⟨p, -, heq⟩
  · intro q hq
    rw [hquiet.lock, hquiet.evicted]
    exact h q (hquiet.holds q hq)
  · intro q hq
    rw [heq] at hq ⊢
    rcases (holds_linked hlinks.2.1).mp hq with rfl | hq
    · exact .inl rfl
    · rcases h q hq with hlock | hevicted
      · exact absurd (hlinks.2.2.2.symm.trans hlock) (by simp)
      · exact .inr hevicted
  · intro q hq
    rw [heq] at hq ⊢
    refine .inr (List.mem_append.mpr ?_)
    rcases h q (holds_of_reclaimed hq) with hlock | hevicted
    · exact .inr (by simp [hlock])
    · exact .inl hevicted

lemma atMostOne_step_iff (hown : Owned s) (h : AtMostOne s) (e : Event) :
    AtMostOne (step s e) ↔ LinksAlone s e := by
  constructor
  · intro hstep p hlinks q _ hq
    rw [step_of_links hlinks] at hstep
    have hpq : p = q := hstep p q ((holds_linked hlinks.2.1).mpr (.inl rfl))
      ((holds_linked hlinks.2.1).mpr (.inr hq))
    have hheld : s.stage p = .held := hpq ▸ hq.2
    exact absurd (hlinks.2.2.1.symm.trans hheld) (by simp)
  · intro halone p q hp hq
    rcases step_cases s e with hquiet | ⟨r, hlinks, heq⟩ | ⟨r, -, heq⟩
    · exact h p q (hquiet.holds p hp) (hquiet.holds q hq)
    · rw [heq] at hp hq
      have hnone : ∀ q, ¬ Holds s q := by
        intro q hq
        rcases hown q hq with hlock | hevicted
        · exact absurd (hlinks.2.2.2.symm.trans hlock) (by simp)
        · exact halone r hlinks q hevicted hq
      have hpr := ((holds_linked hlinks.2.1).mp hp).resolve_right (hnone p)
      have hqr := ((holds_linked hlinks.2.1).mp hq).resolve_right (hnone q)
      rw [hpr, hqr]
    · rw [heq] at hp hq
      exact h p q (holds_of_reclaimed hp) (holds_of_reclaimed hq)

/-- Every live holder owns the lock file. -/
def Safe (s : World) : Prop := ∀ q, Holds s q → s.lock = some (some q)

lemma Safe.step (h : Safe s) {e : Event} (hspares : SparesOwner s e) :
    Safe (Discovery.step s e) := by
  rcases step_cases s e with hquiet | ⟨p, hlinks, heq⟩ | ⟨p, hreclaims, heq⟩
  · intro q hq
    rw [hquiet.lock]
    exact h q (hquiet.holds q hq)
  · intro q hq
    rw [heq] at hq ⊢
    rcases (holds_linked hlinks.2.1).mp hq with rfl | hq
    · rfl
    · exact absurd (hlinks.2.2.2.symm.trans (h q hq)) (by simp)
  · intro q hq
    rw [heq] at hq
    have hold := holds_of_reclaimed hq
    exact absurd hold (hspares p hreclaims q (h q hold))

lemma Safe.linksAlone (h : Safe s) (e : Event) : LinksAlone s e := by
  intro p hlinks q _ hq
  exact absurd (hlinks.2.2.2.symm.trans (h q hq)) (by simp)

/-- For any processes, any lock file at the start and any interleaving of the steps of `AcquireLock`
with starts and deaths: in every state of the run at most one live process holds the lock iff
no process links while an owner whose lock was removed is alive, and in particular if no lock of a
live owner is removed. -/
theorem lock_exclusive_iff (alive : ℕ → Bool) (lock : Option (Option ℕ)) (es : List Event) :
    ((∀ pre, pre <+: es → AtMostOne (runFrom step (start alive lock) pre)) ↔
      Along step LinksAlone (start alive lock) es) ∧
    (Along step SparesOwner (start alive lock) es →
      Along step LinksAlone (start alive lock) es) := by
  have hnobody : ∀ p, ¬ Holds (start alive lock) p := by
    rintro p ⟨-, hheld⟩
    cases hheld
  constructor
  · refine forall_prefix_iff_along (I := Owned) (fun _ e h => h.step e)
      (fun _ e hown h => atMostOne_step_iff hown h e) ?_ ?_
    · intro q hq
      exact absurd hq (hnobody q)
    · intro p q hp
      exact absurd hp (hnobody p)
  · refine Along.imp_of_keeps (I := Safe) (fun _ _ h hspares => h.step hspares)
      (fun _ e h _ => h.linksAlone e) ?_
    intro q hq
    exact absurd hq (hnobody q)

/-- Two processes read the lock of a dead one. The first removes it and links; the second removes
the lock of the first, and links too. -/
theorem two_daemons_hold_lock :
    let s := runFrom step (start (fun p => p = 1 ∨ p = 2) (some (some 9)))
      ((List.replicate 5 [Event.step 1 true, .step 2 true]).flatten ++
        List.replicate 3 (.step 1 true) ++ List.replicate 3 (.step 2 true))
    Holds s 1 ∧ Holds s 2 := by
  refine ⟨⟨?_, ?_⟩, ⟨?_, ?_⟩⟩ <;> decide +kernel

end Cerberus.Discovery
