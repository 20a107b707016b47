import Cerberus.Ninep.Lookup

/-!
# The checks of a walk

Every path that a walk visits, and that is a device, lies under one or is a file of `/cer/fs`,
should be checked by the kernel. `Walk` lets structural directories pass without a check, and what
it takes for one may be a device with another device below it, or lie under a device. It also lets
the root of `/cer/fs` pass, and it checks a leaf against the device of its parent.

The checks that a walk makes are known from the table (`decision`), and a walk that returns a node
was granted all of them (`walk_logged`).
-/

namespace Cerberus.Ninep

open Foundation Contract List

variable {σ : Type}

/-- The server with a record of the checks that were granted. -/
def Server.logged (s : Server σ) : Server (σ × List Check) where
  kernel := s.kernel.logged
  devices := s.devices
  now := s.now
  nextStream := s.nextStream
  granter := s.granter.map fun granter cap ref id quota w =>
    let res := granter cap ref id quota w.1
    (res.1, res.2, w.2)
  fs := s.fs.map fun store =>
    { beginWrite := fun path cap id w =>
        let res := store.beginWrite path cap id w.1
        (res.1, res.2, w.2)
      beginRead := fun path cap recv w =>
        let res := store.beginRead path cap recv w.1
        (res.1, res.2, w.2) }

/-- The request that has to be granted for a path: for a file of `/cer/fs` the one for the file, and
for any other path the one for its device. -/
def Needs (devices : OrdMap GoString ResourceRef) (path : GoString) (req : Request) : Prop :=
  match fsSubPath path with
  | some sub => req = ⟨.lit "read", fsResource (fsRoot ++ .lit "/" ++ sub)⟩
  | none => ∃ dir ref, Owner devices path dir ref ∧ req = ⟨.lit "read", ref⟩

namespace Node

/-- The names of a walk, with the nodes that they are looked up from. -/
def hops : Node → List GoString → List (Node × GoString)
  | _, [] => []
  | n, name :: names => (n, name) :: hops (n.child name) names

def hopPath (hop : Node × GoString) : GoString := joinPath hop.1.path hop.2

/-- What a hop does by the table: it makes a request to the kernel, or it passes or fails without
one. -/
def decision (s : Server σ) (hop : Node × GoString) : Request ⊕ Option GoErr :=
  let device := fun path =>
    match s.deviceFor path with
    | none => .inr (some (noSuchPath path))
    | some (_, ref) => .inl ⟨.lit "read", ref⟩
  if isFSPath (hopPath hop) then
    if (hopPath hop).trimRightSlashes = fsRoot then .inr none
    else
      match fsSubPath (hopPath hop) with
      | none => .inr (some (errf ErrorCode.denied (.lit "not an fs path: " ++ hopPath hop)))
      | some sub => .inl ⟨.lit "read", fsResource (fsRoot ++ .lit "/" ++ sub)⟩
  else if isLeaf hop.2 then device hop.1.path
  else if s.isAncestorDir (hopPath hop) then .inr none
  else device (hopPath hop)

/-- A hop that is not checked against its own device: to the root of `/cer/fs`, to a leaf that is a
device itself, or to a structural directory. -/
def Unchecked (s : Server σ) (hop : Node × GoString) : Prop :=
  (hopPath hop).trimRightSlashes = fsRoot ∨
    isFSPath (hopPath hop) = false ∧
      if isLeaf hop.2 then s.deviceFor (hopPath hop) ≠ s.deviceFor hop.1.path
      else s.isAncestorDir (hopPath hop) = true

variable {s : Server σ} {n : Node} {name : GoString} {names : List GoString} {w : σ}
  {log : List Check}

/-! ### The record of a walk -/

lemma enter_eq (s : Server σ) (n : Node) (name : GoString) (w : σ) : enter s n name w =
    match decision s (n, name) with
    | .inl req => s.kernel.verify n.cap req s.now w
    | .inr res => (res, w) := by
  unfold decision enter hopPath
  simp only
  split_ifs with hfs hroot hleaf hanc
  · exact if_pos hroot
  · rw [Server.walkFS, if_neg hroot]
    cases fsSubPath (joinPath n.path name) with
    | none => rfl
    | some sub => rfl
  · rw [Server.walk]
    cases s.deviceFor n.path with
    | none => rfl
    | some d => rfl
  · rfl
  · rw [Server.walk]
    cases s.deviceFor (joinPath n.path name) with
    | none => rfl
    | some d => rfl

/-- The requests of a list of hops, as the kernel records them. -/
def checks (s : Server σ) (cap : CapHandle) (hops : List (Node × GoString)) : List Check :=
  hops.filterMap fun hop => (decision s hop).getLeft?.map fun req => ⟨cap, req, s.now⟩

lemma enter_logged (s : Server σ) (n : Node) (name : GoString) (w : σ) (log : List Check) :
    enter s.logged n name (w, log) =
      match enter s n name w with
      | (some e, w') => (some e, w', log)
      | (none, w') => (none, w', log ++ checks s n.cap [(n, name)]) := by
  have hsame : decision s.logged (n, name) = decision s (n, name) := rfl
  rw [enter_eq, enter_eq, hsame]
  cases hdec : decision s (n, name) with
  | inl req =>
    have hchecks : checks s n.cap [(n, name)] = [⟨n.cap, req, s.now⟩] := by
      simp [checks, hdec]
    rw [hchecks]
    rfl
  | inr res =>
    have hchecks : checks s n.cap [(n, name)] = [] := by simp [checks, hdec]
    rw [hchecks, append_nil]
    cases res with
    | none => rfl
    | some e => rfl

lemma child_cap (n : Node) (name : GoString) : (n.child name).cap = n.cap := by
  unfold child
  simp only
  split_ifs
  · rfl
  · rfl

section

variable (s) (n) (names) (w) (log)

/-- With a record, a walk does the same, and if it returns a node, the requests of all its hops are
recorded. -/
lemma walkFrom_logged :
    (walkFrom s.logged n names (w, log)).1 = (walkFrom s n names w).1 ∧
      (walkFrom s.logged n names (w, log)).2.1 = (walkFrom s n names w).2 ∧
      ∀ r, (walkFrom s n names w).1 = .ok r →
        (walkFrom s.logged n names (w, log)).2.2 = log ++ checks s n.cap (hops n names) := by
  induction names generalizing n w log with
  | nil => exact ⟨rfl, rfl, fun r _ => (append_nil log).symm⟩
  | cons name names ih =>
    unfold walkFrom
    split_ifs with hbad
    · exact ⟨rfl, rfl, nofun⟩
    · rw [enter_logged]
      rcases enter s n name w with ⟨_ | e, w'⟩
      · obtain ⟨hres, hstate, hlog⟩ := ih (n.child name) w' (log ++ checks s n.cap [(n, name)])
        simp only
        refine ⟨by rw [hres], hstate, fun r hr => ?_⟩
        cases hrest : (walkFrom s (n.child name) names w').1 with
        | error e =>
          rw [hrest] at hr
          cases hr
        | ok r' =>
          rw [hlog r' hrest, child_cap, append_assoc, checks, checks, checks,
            ← filterMap_append]
          rfl
      · exact ⟨rfl, rfl, nofun⟩

lemma walk_logged :
    (walk s.logged n names (w, log)).1 = (walk s n names w).1 ∧
      (walk s.logged n names (w, log)).2.1 = (walk s n names w).2 ∧
      ∀ r, (walk s n names w).1 = .ok r →
        (walk s.logged n names (w, log)).2.2 = log ++ checks s n.cap (hops n names) := by
  unfold walk
  split_ifs with hnil
  · subst hnil
    exact ⟨rfl, rfl, fun r _ => (append_nil log).symm⟩
  · exact walkFrom_logged s n names w log

end

/-! ### The hops of a walk -/

lemma passes_of_walkFrom {r : List QID × Node} (h : (walkFrom s n names w).1 = .ok r) :
    ∀ hop ∈ hops n names, ∃ w', (enter s hop.1 hop.2 w').1 = none := by
  induction names generalizing n w r with
  | nil => exact fun hop hhop => absurd hhop not_mem_nil
  | cons name names ih =>
    unfold walkFrom at h
    split_ifs at h
    rcases hent : enter s n name w with ⟨_ | e, w'⟩
    · rw [hent] at h
      simp only at h
      intro hop hhop
      rcases mem_cons.mp hhop with rfl | hhop
      · exact ⟨w, by rw [hent]⟩
      · cases hrest : (walkFrom s (n.child name) names w').1 with
        | error e =>
          rw [hrest] at h
          cases h
        | ok r' => exact ih hrest hop hhop
    · rw [hent] at h
      cases h

lemma fsSubPath_eq_none {path : GoString} (h : isFSPath path = false) : fsSubPath path = none := by
  unfold isFSPath at h
  simp only [Bool.or_eq_false_iff] at h
  unfold fsSubPath
  simp only
  rw [if_neg (by rw [h.2]; decide)]

lemma eq_of_needs {path dir : GoString} {ref : ResourceRef} {req : Request}
    (hfs : isFSPath path = false) (hfind : s.deviceFor path = some (dir, ref))
    (hneeds : Needs s.devices path req) : req = ⟨.lit "read", ref⟩ := by
  rw [Needs, fsSubPath_eq_none hfs] at hneeds
  obtain ⟨dir', ref', howner, rfl⟩ := hneeds
  rw [(howner.unique (deviceFor_eq_some_iff.mp hfind).1).2]

lemma decision_of_needs {hop : Node × GoString} {w' : σ}
    (hpass : (enter s hop.1 hop.2 w').1 = none) (hchecked : ¬ Unchecked s hop) {req : Request}
    (hneeds : Needs s.devices (hopPath hop) req) : decision s hop = .inl req := by
  have hok : ∀ e, decision s hop ≠ .inr (some e) := by
    intro e hdec
    rw [enter_eq, hdec] at hpass
    cases hpass
  obtain ⟨hroot, hother⟩ := not_or.mp hchecked
  unfold decision at hok ⊢
  simp only at hok ⊢
  cases hfs : isFSPath (hopPath hop) with
  | true =>
    simp only [hfs, if_true, if_neg hroot] at hok ⊢
    rw [Needs] at hneeds
    cases hsub : fsSubPath (hopPath hop) with
    | none =>
      rw [hsub] at hok
      exact absurd rfl (hok _)
    | some sub =>
      rw [hsub] at hneeds
      rw [hneeds]
  | false =>
    rw [not_and] at hother
    replace hother := hother hfs
    simp only [hfs, Bool.false_eq_true, if_false] at hok ⊢
    split_ifs at hok hother ⊢ with hleaf
    · rw [not_not] at hother
      cases hfind : s.deviceFor hop.1.path with
      | none =>
        rw [hfind] at hok
        exact absurd rfl (hok _)
      | some d => rw [eq_of_needs hfs (hother.trans hfind) hneeds]
    · cases hfind : s.deviceFor (hopPath hop) with
      | none =>
        rw [hfind] at hok
        exact absurd rfl (hok _)
      | some d => rw [eq_of_needs hfs hfind hneeds]

/-- A walk that returns a node: on every path that it visits, and that needs it, the kernel has
granted a read during the walk, iff what the unchecked hops need is asked for by another hop
of the walk. -/
theorem walk_mediated_iff (s : Server σ) (n : Node) (names : List GoString) (w : σ)
    (r : List QID × Node) (hwalk : (walk s n names w).1 = .ok r) :
    (∀ hop ∈ hops n names, ∀ req, Needs s.devices (hopPath hop) req →
      ⟨n.cap, req, s.now⟩ ∈ (walk s.logged n names (w, [])).2.2) ↔
    ∀ hop ∈ hops n names, Unchecked s hop → ∀ req, Needs s.devices (hopPath hop) req →
      ∃ hop' ∈ hops n names, decision s hop' = .inl req := by
  have hlog := (walk_logged s n names w []).2.2 r hwalk
  have hmem : ∀ req, (⟨n.cap, req, s.now⟩ : Check) ∈ (walk s.logged n names (w, [])).2.2 ↔
      ∃ hop' ∈ hops n names, decision s hop' = .inl req := by
    intro req
    rw [hlog, nil_append, checks, mem_filterMap]
    simp [Sum.getLeft?_eq_some_iff]
  simp only [hmem]
  refine ⟨fun h hop hhop _ => h hop hhop, fun h hop hhop req hneeds => ?_⟩
  by_cases hunchecked : Unchecked s hop
  · exact h hop hhop hunchecked req hneeds
  · have hpasses : ∀ hop ∈ hops n names, ∃ w', (enter s hop.1 hop.2 w').1 = none := by
      unfold walk at hwalk
      split_ifs at hwalk with hnil
      · subst hnil
        exact fun hop hhop => absurd hhop not_mem_nil
      · exact passes_of_walkFrom hwalk
    obtain ⟨w', hpass⟩ := hpasses hop hhop
    exact ⟨hop, hhop, decision_of_needs hpass hunchecked hneeds⟩

namespace Sample

def answering (res : Option GoErr) : CapKernel Unit := ⟨fun _ _ _ w => (res, w)⟩

def device : GoString := .lit "/cer/dev/a"

def vram (path : GoString) : ResourceRef := ⟨.lit "vram", Vector.replicate 32 0, path, none⟩

def granting : Server Unit := (Server.new (answering none)).register device (vram device)

/-- A namespace with a device below the device, and a kernel that denies everything. -/
def denying : Server Unit :=
  ((Server.new (answering (some (errf ErrorCode.denied (.lit "denied"))))).register device
    (vram device)).register (device ++ .lit "/b") (vram (device ++ .lit "/b"))

end Sample

open Sample

/-- A walk to the only device is granted a read on it. -/
theorem walk_mediated_iff_sample :
    ∃ r, (walk granting (attach 7) [.lit "dev", .lit "a"] ()).1 = .ok r ∧
      (⟨7, ⟨.lit "read", vram device⟩, 0⟩ : Check) ∈
        (walk granting.logged (attach 7) [.lit "dev", .lit "a"] ((), [])).2.2 := by
  refine ⟨_, rfl, ?_⟩
  have hmem : (device, vram device) ∈ granting.devices.entries :=
    mem_singleton_self _
  refine (walk_mediated_iff granting (attach 7) [.lit "dev", .lit "a"] () _ rfl).mpr ?_
    _ (mem_cons_of_mem _ mem_cons_self) _ ⟨_, _, owner_self hmem, rfl⟩
  intro hop hhop hunchecked req hneeds
  rcases mem_cons.mp hhop with rfl | hhop
  · obtain ⟨dir, ref, howner, -⟩ := hneeds
    obtain ⟨rfl, -⟩ := Prod.mk.inj (mem_singleton.mp howner.mem)
    exact absurd howner.covers (by decide)
  · obtain rfl := mem_singleton.mp hhop
    exact absurd hunchecked (by unfold Unchecked; decide)

/-- A walk to a device with another one below it returns a node without any request. -/
theorem nested_unmediated :
    ∃ r, (walk denying (attach 7) [.lit "dev", .lit "a"] ()).1 = .ok r ∧
      r.2.path = device ∧
      denying.devices.get? device = some (vram device) ∧
      (walk denying.logged (attach 7) [.lit "dev", .lit "a"] ((), [])).2.2 = [] :=
  ⟨_, rfl, rfl, rfl, rfl⟩

end Node

end Cerberus.Ninep
