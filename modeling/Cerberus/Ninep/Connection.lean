import Cerberus.Foundation.Run
import Cerberus.Ninep.Mediation

/-!
# What a connection is given

The files of the connections of a server, and the walks and opens on them in any order; what the
rest of the daemon does in between is arbitrary. A file has data to read only after an open, and
there the kernel has granted what the open needs: `alloc` on the device of a control file, `read` on
that of a descriptor, `write` on a file of `/cer/fs`.

The ids of the endpoints come from one counter that every open of a device or a file moves. So the
ids of the endpoints are a sublist of its values (`Issued`).
-/

namespace Cerberus.Ninep

open Foundation Contract List

variable {σ : Type}

/-- The request that the kernel has to grant for an open. -/
def OpenNeeds (devices : OrdMap GoString ResourceRef) (n : Node) (req : Request) : Prop :=
  if n.fsFile then
    ∃ sub, fsSubPath n.path = some sub ∧
      req = ⟨.lit "write", fsResource (fsRoot ++ .lit "/" ++ sub)⟩
  else
    ∃ dir ref, Owner devices n.path dir ref ∧
      (n.path.lastSegment = .lit "ctl" ∧ req = ⟨.lit "alloc", ref⟩ ∨
        n.path.lastSegment = .lit "info" ∧ req = ⟨.lit "read", ref⟩)

/-- Granter and store return the ids that they are given. -/
structure ReturnsId (s : Server σ) : Prop where
  granter : ∀ granter ∈ s.granter, ∀ cap ref id quota w ep,
    (granter cap ref id quota w).1 = .ok ep → ep.streamID = id
  store : ∀ store ∈ s.fs, ∀ path cap id w ep,
    (store.beginWrite path cap id w).1 = .ok ep → ep.streamID = id

/-- The endpoint that an open hands out. -/
def Node.endpoint (s : Server σ) (n : Node) (flags : UInt32) (w : σ) : Option DataEndpoint :=
  if n.dir then none
  else if n.fsFile then
    if openMode flags = 1 ∨ openMode flags = 2 then (s.openFSWrite n.path n.cap w).1.toOption
    else none
  else if n.path.lastSegment = .lit "ctl" then (s.openCtl n.path n.cap w).1.toOption
  else none

/-- The connections of a server: their files, the rest of the daemon, and the endpoints that were
handed out. -/
structure Conn (σ : Type) where
  server : Server σ
  nodes : List Node
  world : σ
  handed : List DataEndpoint

inductive Event (σ : Type)
  | attach (cap : CapHandle)
  | walk (i : ℕ) (names : List GoString)
  | openFile (i : ℕ) (flags : UInt32)
  | other (f : σ → σ)

def Event.isOpen : Event σ → Bool
  | .openFile _ _ => true
  | _ => false

namespace Conn

def start (s : Server σ) (w : σ) : Conn σ := ⟨s, [], w, []⟩

/-- A walk on a file; the file that it returns is a new one. -/
def walkNode (c : Conn σ) (n : Node) (names : List GoString) : Conn σ :=
  match n.walk c.server names c.world with
  | (.ok r, w) => { c with nodes := c.nodes ++ [r.2], world := w }
  | (.error _, w) => { c with world := w }

def openNode (J : Json) (c : Conn σ) (i : ℕ) (n : Node) (flags : UInt32) : Conn σ :=
  let res := n.openFile J c.server flags c.world
  ⟨res.2.2.1, c.nodes.set i res.2.1, res.2.2.2,
    c.handed ++ (n.endpoint c.server flags c.world).toList⟩

def onNode (c : Conn σ) (i : ℕ) (f : Node → Conn σ) : Conn σ :=
  match c.nodes[i]? with
  | none => c
  | some n => f n

def step (J : Json) (c : Conn σ) : Event σ → Conn σ
  | .attach cap => { c with nodes := c.nodes ++ [Ninep.attach cap] }
  | .walk i names => c.onNode i fun n => c.walkNode n names
  | .openFile i flags => c.onNode i fun n => c.openNode J i n flags
  | .other f => { c with world := f c.world }

/-- The kernel grants what the open needs. -/
def OpenGranted (J : Json) (c : Conn σ) (i : ℕ) (flags : UInt32) : Prop :=
  ∃ n req, c.nodes[i]? = some n ∧ OpenNeeds c.server.devices n req ∧
    ⟨n.cap, req, c.server.now⟩ ∈ (n.openFile J c.server.logged flags (c.world, [])).2.2.2.2

/-- An event that gives data to a file, or hands out an endpoint, is an open for which the kernel
grants what it needs. -/
def Authorised (J : Json) (c : Conn σ) (e : Event σ) : Prop :=
  (∀ i n', (c.step J e).nodes[i]? = some n' → n'.data ≠ [] →
    (∀ n, c.nodes[i]? = some n → n.data ≠ n'.data) →
      ∃ flags, e = .openFile i flags ∧ c.OpenGranted J i flags) ∧
  ((c.step J e).handed ≠ c.handed →
    ∃ i flags, e = .openFile i flags ∧ c.OpenGranted J i flags)

end Conn

/-! ### The record of an open -/

namespace Server

variable (s : Server σ) (path : GoString) (cap : CapHandle) (w : σ) (log : List Check)

lemma check_logged (op : GoString) (ref : ResourceRef) : s.logged.check cap op ref (w, log) =
    match s.check cap op ref w with
    | (some e, w') => (some e, w', log)
    | (none, w') => (none, w', log ++ [⟨cap, ⟨op, ref⟩, s.now⟩]) := rfl

lemma openCtl_logged : ∃ log', s.logged.openCtl path cap (w, log) =
      ((s.openCtl path cap w).1, (s.openCtl path cap w).2.1.logged,
        (s.openCtl path cap w).2.2, log') ∧
    ∀ ep, (s.openCtl path cap w).1 = .ok ep →
      ∃ dir ref, Owner s.devices path dir ref ∧ ⟨cap, ⟨.lit "alloc", ref⟩, s.now⟩ ∈ log' := by
  unfold openCtl
  have hsame : s.logged.deviceFor path = s.deviceFor path := rfl
  rw [hsame]
  cases hfind : s.deviceFor path with
  | none =>
    refine ⟨log, rfl, ?_⟩
    intro ep hep
    cases hep
  | some d =>
    obtain ⟨dir, ref⟩ := d
    have howner := (deviceFor_eq_some_iff.mp hfind).1
    simp only [check_logged]
    split_ifs with hctl
    · refine ⟨log, rfl, ?_⟩
      intro ep hep
      cases hep
    · rcases s.check cap (.lit "alloc") ref w with ⟨_ | e, w'⟩
      · refine ⟨log ++ [⟨cap, ⟨.lit "alloc", ref⟩, s.now⟩], ?_, fun ep _ =>
          ⟨dir, ref, howner, mem_append_right _ (mem_singleton_self _)⟩⟩
        obtain ⟨kernel, devices, now, next, _ | granter, fs⟩ := s
        · rfl
        · simp only [logged, Option.map_some]
          rcases granter cap ref (next + 1) (ref.quota.getD zeroQuota) w' with ⟨_ | ep, w''⟩
          · rfl
          · rfl
      · refine ⟨log, rfl, ?_⟩
        intro ep hep
        cases hep

lemma readInfo_logged (J : Json) : ∃ log', s.logged.readInfo J path cap (w, log) =
      ((s.readInfo J path cap w).1, (s.readInfo J path cap w).2, log') ∧
    ∀ b, (s.readInfo J path cap w).1 = .ok b →
      ∃ dir ref, Owner s.devices path dir ref ∧ ⟨cap, ⟨.lit "read", ref⟩, s.now⟩ ∈ log' := by
  unfold readInfo
  have hsame : s.logged.deviceFor path = s.deviceFor path := rfl
  rw [hsame]
  cases hfind : s.deviceFor path with
  | none =>
    refine ⟨log, rfl, ?_⟩
    intro b hb
    cases hb
  | some d =>
    obtain ⟨dir, ref⟩ := d
    have howner := (deviceFor_eq_some_iff.mp hfind).1
    simp only [check_logged]
    split_ifs with hinfo
    · refine ⟨log, rfl, ?_⟩
      intro b hb
      cases hb
    · rcases s.check cap (.lit "read") ref w with ⟨_ | e, w'⟩
      · exact ⟨_, rfl, fun b _ =>
          ⟨dir, ref, howner, mem_append_right _ (mem_singleton_self _)⟩⟩
      · refine ⟨log, rfl, ?_⟩
        intro b hb
        cases hb

lemma openFSWrite_logged : ∃ log', s.logged.openFSWrite path cap (w, log) =
      ((s.openFSWrite path cap w).1, (s.openFSWrite path cap w).2.1.logged,
        (s.openFSWrite path cap w).2.2, log') ∧
    ∀ ep, (s.openFSWrite path cap w).1 = .ok ep → ∃ sub, fsSubPath path = some sub ∧
      ⟨cap, ⟨.lit "write", fsResource (fsRoot ++ .lit "/" ++ sub)⟩, s.now⟩ ∈ log' := by
  unfold openFSWrite
  cases hsub : fsSubPath path with
  | none =>
    refine ⟨log, rfl, ?_⟩
    intro ep hep
    cases hep
  | some sub =>
    simp only [check_logged]
    generalize s.check cap (.lit "write") (fsResource (fsRoot ++ .lit "/" ++ sub)) w = res
    obtain ⟨_ | e, w'⟩ := res
    · refine ⟨log ++ [⟨cap, ⟨.lit "write", fsResource (fsRoot ++ .lit "/" ++ sub)⟩, s.now⟩], ?_,
        fun ep _ => ⟨sub, rfl, mem_append_right _ (mem_singleton_self _)⟩⟩
      obtain ⟨kernel, devices, now, next, granter, _ | store⟩ := s
      · rfl
      · rfl
    · refine ⟨log, rfl, ?_⟩
      intro ep hep
      cases hep

end Server

namespace Node

/-- With a record, an open does the same. If it gives data to the file, or gets an endpoint, what it
needs is recorded. -/
def OpenLogged (J : Json) (s : Server σ) (n : Node) (flags : UInt32) (w : σ) (log : List Check) :
    Prop :=
  ∃ log', n.openFile J s.logged flags (w, log) =
      ((n.openFile J s flags w).1, (n.openFile J s flags w).2.1,
        (n.openFile J s flags w).2.2.1.logged, (n.openFile J s flags w).2.2.2, log') ∧
    ((n.openFile J s flags w).2.1 ≠ n ∨ (n.endpoint s flags w).isSome = true →
      ∃ req, OpenNeeds s.devices n req ∧ ⟨n.cap, req, s.now⟩ ∈ log')

variable {J : Json} {s : Server σ} {n : Node} {flags : UInt32} {w : σ} {log : List Check}

lemma openLogged_of_file (hdir : ¬ n.dir = true) (hfile : n.fsFile = true)
    (hmode : openMode flags = 1 ∨ openMode flags = 2) : OpenLogged J s n flags w log := by
  obtain ⟨log', hsame, hgrant⟩ := s.openFSWrite_logged n.path n.cap w log
  unfold OpenLogged openFile endpoint
  simp only [if_neg hdir, if_pos hfile, if_pos hmode, hsame]
  refine ⟨log', ?_, ?_⟩
  · rcases s.openFSWrite n.path n.cap w with ⟨_ | ep, s', w'⟩
    · rfl
    · simp only
      cases J.endpoint ep with
      | none => rfl
      | some b => rfl
  · rcases hres : s.openFSWrite n.path n.cap w with ⟨_ | ep, s', w'⟩
    · simp [Except.toOption]
    · intro _
      obtain ⟨sub, hsub, hmem⟩ := hgrant ep (by rw [hres])
      refine ⟨_, ?_, hmem⟩
      rw [OpenNeeds, if_pos hfile]
      exact ⟨sub, hsub, rfl⟩

lemma openLogged_of_ctl (hdir : ¬ n.dir = true) (hfile : ¬ n.fsFile = true)
    (hctl : n.path.lastSegment = .lit "ctl") : OpenLogged J s n flags w log := by
  obtain ⟨log', hsame, hgrant⟩ := s.openCtl_logged n.path n.cap w log
  unfold OpenLogged openFile endpoint
  simp only [if_neg hdir, if_neg hfile, if_pos hctl, hsame]
  refine ⟨log', ?_, ?_⟩
  · rcases s.openCtl n.path n.cap w with ⟨_ | ep, s', w'⟩
    · rfl
    · simp only
      cases J.endpoint ep with
      | none => rfl
      | some b => rfl
  · rcases hres : s.openCtl n.path n.cap w with ⟨_ | ep, s', w'⟩
    · simp [Except.toOption]
    · intro _
      obtain ⟨dir, ref, howner, hmem⟩ := hgrant ep (by rw [hres])
      refine ⟨_, ?_, hmem⟩
      rw [OpenNeeds, if_neg hfile]
      exact ⟨dir, ref, howner, .inl ⟨hctl, rfl⟩⟩

lemma openLogged_of_info (hdir : ¬ n.dir = true) (hfile : ¬ n.fsFile = true)
    (hctl : ¬ n.path.lastSegment = .lit "ctl") (hinfo : n.path.lastSegment = .lit "info") :
    OpenLogged J s n flags w log := by
  obtain ⟨log', hsame, hgrant⟩ := s.readInfo_logged n.path n.cap w log J
  unfold OpenLogged openFile endpoint
  simp only [if_neg hdir, if_neg hfile, if_neg hctl, if_pos hinfo, hsame]
  refine ⟨log', ?_, ?_⟩
  · rcases s.readInfo J n.path n.cap w with ⟨_ | b, w'⟩
    · rfl
    · rfl
  · rcases hres : s.readInfo J n.path n.cap w with ⟨_ | b, w'⟩
    · simp
    · intro _
      obtain ⟨dir, ref, howner, hmem⟩ := hgrant b (by rw [hres])
      refine ⟨_, ?_, hmem⟩
      rw [OpenNeeds, if_neg hfile]
      exact ⟨dir, ref, howner, .inr ⟨hinfo, rfl⟩⟩

lemma openFile_logged (J : Json) (s : Server σ) (n : Node) (flags : UInt32) (w : σ)
    (log : List Check) : OpenLogged J s n flags w log := by
  by_cases hdir : n.dir = true
  · exact ⟨log, by simp [openFile, hdir], by simp [openFile, endpoint, hdir]⟩
  by_cases hfile : n.fsFile = true
  · by_cases hmode : openMode flags = 1 ∨ openMode flags = 2
    · exact openLogged_of_file hdir hfile hmode
    · exact ⟨log, by simp [openFile, hdir, hfile, hmode],
        by simp [openFile, endpoint, hdir, hfile, hmode]⟩
  by_cases hctl : n.path.lastSegment = .lit "ctl"
  · exact openLogged_of_ctl hdir hfile hctl
  by_cases hinfo : n.path.lastSegment = .lit "info"
  · exact openLogged_of_info hdir hfile hctl hinfo
  · exact ⟨log, by simp [openFile, hdir, hfile, hctl, hinfo],
      by simp [openFile, endpoint, hdir, hfile, hctl, hinfo]⟩

end Node

/-! ### The data of files -/

lemma Node.child_data (n : Node) (name : GoString) : (n.child name).data = [] := by
  unfold child
  simp only
  split_ifs
  · rfl
  · rfl

variable {s : Server σ} {n : Node} {names : List GoString} {w : σ} {r : List QID × Node}

lemma Node.data_walkFrom (hn : n.data = []) (h : (walkFrom s n names w).1 = .ok r) :
    r.2.data = [] := by
  induction names generalizing n w r with
  | nil =>
    cases h
    exact hn
  | cons name names ih =>
    unfold walkFrom at h
    split_ifs at h
    rcases hent : enter s n name w with ⟨_ | e, w'⟩
    · rw [hent] at h
      simp only at h
      cases hrest : (walkFrom s (n.child name) names w').1 with
      | error e =>
        rw [hrest] at h
        cases h
      | ok r' =>
        have hnext := ih (n.child_data name) hrest
        rw [hrest] at h
        cases h
        exact hnext
    · rw [hent] at h
      cases h

lemma Node.data_walk (h : (walk s n names w).1 = .ok r) : r.2.data = [] := by
  unfold walk at h
  split_ifs at h with hnil
  · cases h
    rfl
  · -- the first name leads away from the file, and what it leads to has no data
    have hsame : walkFrom s n names w = walkFrom s { n with data := [] } names w := by
      cases names with
      | nil => exact absurd rfl hnil
      | cons name names => rfl
    rw [hsame] at h
    exact Node.data_walkFrom rfl h

namespace Conn

variable {J : Json} {c : Conn σ} {e : Event σ}

lemma old_of_concat {nodes : List Node} {n n' : Node} {i : ℕ} (hn : n.data = [])
    (h : (nodes ++ [n])[i]? = some n') (hdata : n'.data ≠ []) : nodes[i]? = some n' := by
  rw [List.getElem?_append] at h
  split_ifs at h with hi
  · exact h
  · obtain rfl := mem_singleton.mp (mem_of_getElem? h)
    exact absurd hn hdata

lemma onNode_cases {P : Conn σ → Prop} {i : ℕ} {f : Node → Conn σ} (hc : P c)
    (hf : ∀ n, c.nodes[i]? = some n → P (f n)) : P (c.onNode i f) := by
  unfold onNode
  cases hi : c.nodes[i]? with
  | none => exact hc
  | some n => exact hf n hi

/-- A step that hands out nothing. -/
structure Quiet (c c' : Conn σ) : Prop where
  handed : c'.handed = c.handed
  old : ∀ (i : ℕ) (n' : Node), c'.nodes[i]? = some n' → n'.data ≠ [] → c.nodes[i]? = some n'

lemma quiet_refl (c : Conn σ) : Quiet c c := ⟨rfl, fun _ _ hn' _ => hn'⟩

lemma quiet_walkNode (c : Conn σ) (n : Node) (names : List GoString) :
    Quiet c (c.walkNode n names) := by
  unfold walkNode
  rcases hres : n.walk c.server names c.world with ⟨_ | r, w'⟩
  · exact ⟨rfl, fun _ _ hn' _ => hn'⟩
  · exact ⟨rfl, fun i n' hn' hdata =>
      old_of_concat (Node.data_walk (congrArg Prod.fst hres)) hn' hdata⟩

lemma authorised_of_quiet (h : Quiet c (c.step J e)) : c.Authorised J e := by
  refine ⟨fun i n' hn' hdata hnew => ?_, fun hhanded => absurd h.handed hhanded⟩
  exact absurd rfl (hnew n' (h.old i n' hn' hdata))

lemma authorised_openFile {n : Node} {i : ℕ} {flags : UInt32} (hi : c.nodes[i]? = some n) :
    c.Authorised J (.openFile i flags) := by
  have hstep : c.step J (.openFile i flags) = c.openNode J i n flags := by
    simp only [step, onNode, hi]
  obtain ⟨log, hsame, hgrant⟩ := n.openFile_logged J c.server flags c.world []
  have hgranted : (n.openFile J c.server flags c.world).2.1 ≠ n ∨
      (n.endpoint c.server flags c.world).isSome = true → c.OpenGranted J i flags := by
    intro h
    obtain ⟨req, hneeds, hmem⟩ := hgrant h
    refine ⟨n, req, hi, hneeds, ?_⟩
    rw [hsame]
    exact hmem
  refine ⟨fun j n' hn' hdata hnew => ?_, fun hhanded => ?_⟩
  · rw [hstep, openNode, List.getElem?_set] at hn'
    split_ifs at hn' with hj hlen
    · obtain rfl := hj
      refine ⟨flags, rfl, hgranted (.inl fun heq => hnew n hi ?_)⟩
      rw [← Option.some.inj hn', heq]
    · exact absurd rfl (hnew n' hn')
  · refine ⟨i, flags, rfl, hgranted (.inr ?_)⟩
    by_contra hnone
    rw [Option.not_isSome_iff_eq_none] at hnone
    rw [hstep, openNode, hnone] at hhanded
    exact hhanded (append_nil _)

lemma authorised (J : Json) (c : Conn σ) (e : Event σ) : c.Authorised J e := by
  cases e with
  | attach cap =>
    exact authorised_of_quiet ⟨rfl, fun i n' hn' hdata => old_of_concat rfl hn' hdata⟩
  | walk i names =>
    exact authorised_of_quiet (onNode_cases (quiet_refl c) fun n _ => quiet_walkNode c n names)
  | openFile i flags =>
    cases hi : c.nodes[i]? with
    | none =>
      have hstep : c.step J (.openFile i flags) = c := by simp only [step, onNode, hi]
      exact authorised_of_quiet (hstep.symm ▸ quiet_refl c)
    | some n => exact authorised_openFile hi
  | other f => exact authorised_of_quiet ⟨rfl, fun _ _ hn' _ => hn'⟩

/-! ### The ids of endpoints -/

end Conn

/-- An open leaves the server as it is, or it moves the counter; an endpoint has its new value. -/
def Moves (s s' : Server σ) (ep : Option DataEndpoint) : Prop :=
  s' = s ∧ ep = none ∨
    s' = { s with nextStream := s.nextStream + 1 } ∧ ∀ d ∈ ep, d.streamID = s.nextStream + 1

lemma streamID_fill {ep : DataEndpoint} {id : UInt64} (h : ep.streamID = id) (quota : Quota) :
    (Server.fill ep id quota).streamID = id := by
  unfold Server.fill
  simp only
  split_ifs
  · rfl
  · exact h

section Ids

variable {s : Server σ} (h : ReturnsId s)
include h

lemma moves_openCtl (path : GoString) (cap : CapHandle) (w : σ) :
    Moves s (s.openCtl path cap w).2.1 (s.openCtl path cap w).1.toOption := by
  unfold Server.openCtl
  cases s.deviceFor path with
  | none => exact .inl ⟨rfl, rfl⟩
  | some d =>
    simp only
    split_ifs
    · exact .inl ⟨rfl, rfl⟩
    · rcases s.check cap (.lit "alloc") d.2 w with ⟨_ | e, w'⟩
      · simp only
        cases hgranter : s.granter with
        | none =>
          refine .inr ⟨by rw [hgranter], fun d hd => ?_⟩
          obtain rfl := Option.some.inj hd
          rfl
        | some granter =>
          simp only
          rcases hres : granter cap d.2 (s.nextStream + 1) (d.2.quota.getD zeroQuota) w' with
            ⟨_ | ep, w''⟩
          · exact .inr ⟨by rw [hgranter], nofun⟩
          · refine .inr ⟨by rw [hgranter], fun d' hd => ?_⟩
            obtain rfl := Option.some.inj hd
            exact streamID_fill (h.granter granter hgranter _ _ _ _ _ _ (by rw [hres])) _
      · exact .inl ⟨rfl, rfl⟩

lemma moves_openFSWrite (path : GoString) (cap : CapHandle) (w : σ) :
    Moves s (s.openFSWrite path cap w).2.1 (s.openFSWrite path cap w).1.toOption := by
  unfold Server.openFSWrite
  cases fsSubPath path with
  | none => exact .inl ⟨rfl, rfl⟩
  | some sub =>
    simp only
    generalize s.check cap (.lit "write") (fsResource (fsRoot ++ .lit "/" ++ sub)) w = res
    obtain ⟨_ | e, w'⟩ := res
    · simp only
      cases hstore : s.fs with
      | none => exact .inr ⟨by rw [hstore], nofun⟩
      | some store =>
        simp only
        rcases hres : store.beginWrite (fsRoot ++ .lit "/" ++ sub) cap (s.nextStream + 1) w' with
          ⟨_ | ep, w''⟩
        · exact .inr ⟨by rw [hstore], nofun⟩
        · refine .inr ⟨by rw [hstore], fun d hd => ?_⟩
          obtain rfl := Option.some.inj hd
          exact h.store store hstore _ _ _ _ _ (by rw [hres])
    · exact .inl ⟨rfl, rfl⟩

lemma moves_openFile (J : Json) (n : Node) (flags : UInt32) (w : σ) :
    Moves s (n.openFile J s flags w).2.2.1 (n.endpoint s flags w) := by
  unfold Node.openFile Node.endpoint
  split_ifs
  · exact .inl ⟨rfl, rfl⟩
  · have hmoves := moves_openFSWrite h n.path n.cap w
    generalize s.openFSWrite n.path n.cap w = res at hmoves ⊢
    obtain ⟨_ | ep, s', w'⟩ := res
    · exact hmoves
    · simp only
      cases J.endpoint ep with
      | none => exact hmoves
      | some b => exact hmoves
  · exact .inl ⟨rfl, rfl⟩
  · have hmoves := moves_openCtl h n.path n.cap w
    generalize s.openCtl n.path n.cap w = res at hmoves ⊢
    obtain ⟨_ | ep, s', w'⟩ := res
    · exact hmoves
    · simp only
      cases J.endpoint ep with
      | none => exact hmoves
      | some b => exact hmoves
  · rcases s.readInfo J n.path n.cap w with ⟨_ | b, w'⟩
    · exact .inl ⟨rfl, rfl⟩
    · exact .inl ⟨rfl, rfl⟩
  · exact .inl ⟨rfl, rfl⟩

end Ids

namespace Conn

/-- The values of the counter after `first`. -/
def ids (first : UInt64) (k : ℕ) : List UInt64 :=
  (List.range k).map fun j => first + UInt64.ofNat (j + 1)

/-- The counter has moved `k` times, and the endpoints have some of its values. -/
structure Issued (first : UInt64) (k : ℕ) (c : Conn σ) : Prop where
  returns : ReturnsId c.server
  next : c.server.nextStream = first + UInt64.ofNat k
  handed : (c.handed.map DataEndpoint.streamID).Sublist (ids first k)

lemma nodup_ids (first : UInt64) {k : ℕ} (hk : k < 2 ^ 64) : (ids first k).Nodup := by
  refine List.Nodup.map_on (fun i hi j hj heq => ?_) nodup_range
  rw [mem_range] at hi hj
  have hnat := congrArg UInt64.toNat (add_left_cancel heq)
  rw [UInt64.toNat_ofNat', UInt64.toNat_ofNat', Nat.mod_eq_of_lt (by omega),
    Nat.mod_eq_of_lt (by omega)] at hnat
  omega

lemma ids_succ (first : UInt64) (k : ℕ) :
    ids first (k + 1) = ids first k ++ [first + UInt64.ofNat (k + 1)] := by
  rw [ids, range_succ, map_append]
  rfl

variable {J : Json} {c : Conn σ} {e : Event σ} {first : UInt64} {k : ℕ}

lemma Issued.openNode (h : Issued first k c) (i : ℕ) (n : Node) (flags : UInt32) :
    ∃ k' ≤ k + 1, Issued first k' (c.openNode J i n flags) := by
  rcases moves_openFile h.returns J n flags c.world with ⟨hserver, hnone⟩ | ⟨hserver, hid⟩
  · refine ⟨k, k.le_succ, ?_⟩
    have hsame : c.openNode J i n flags = ⟨c.server, (c.openNode J i n flags).nodes,
        (c.openNode J i n flags).world, c.handed⟩ := by
      rw [Conn.openNode, hserver, hnone, Option.toList_none, append_nil]
    rw [hsame]
    exact ⟨h.returns, h.next, h.handed⟩
  · refine ⟨k + 1, le_rfl, ?_, ?_, ?_⟩
    · rw [Conn.openNode, hserver]
      exact ⟨h.returns.granter, h.returns.store⟩
    · rw [Conn.openNode, hserver, UInt64.ofNat_add, ← add_assoc, ← h.next]
      rfl
    · rw [Conn.openNode, map_append, ids_succ]
      refine h.handed.append ?_
      have hvalue : c.server.nextStream + 1 = first + UInt64.ofNat (k + 1) := by
        rw [UInt64.ofNat_add, ← add_assoc, ← h.next]
        rfl
      cases hep : n.endpoint c.server flags c.world with
      | none => exact nil_sublist _
      | some ep =>
        rw [Option.toList_some, map_singleton, hid ep hep, hvalue]

lemma Issued.step (h : Issued first k c) (e : Event σ) :
    ∃ k' ≤ k + (if e.isOpen then 1 else 0), Issued first k' (c.step J e) := by
  cases e with
  | attach cap => exact ⟨k, le_rfl, h.returns, h.next, h.handed⟩
  | walk i names =>
    refine ⟨k, le_rfl, onNode_cases (P := Issued first k) h fun n _ => ?_⟩
    unfold walkNode
    rcases n.walk c.server names c.world with ⟨_ | r, w'⟩
    · exact ⟨h.returns, h.next, h.handed⟩
    · exact ⟨h.returns, h.next, h.handed⟩
  | openFile i flags =>
    exact onNode_cases (P := fun c => ∃ k' ≤ k + 1, Issued first k' c) ⟨k, k.le_succ, h⟩
      fun n _ => h.openNode i n flags
  | other f => exact ⟨k, le_rfl, h.returns, h.next, h.handed⟩

lemma Issued.run (h : Issued first k c) (es : List (Event σ)) :
    ∃ k' ≤ k + es.countP Event.isOpen, Issued first k' (runFrom (Conn.step J) c es) := by
  induction es generalizing c k with
  | nil => exact ⟨k, le_rfl, h⟩
  | cons e es ih =>
    obtain ⟨k₁, hk₁, h₁⟩ := h.step (J := J) e
    obtain ⟨k₂, hk₂, h₂⟩ := ih h₁
    refine ⟨k₂, ?_, h₂⟩
    rw [countP_cons]
    omega

/-- In every run, a file is given data, and an endpoint is handed out, only by an open during which the
kernel grants what it needs. If the granter and the store return the ids that they are given, the
endpoints of a run with fewer than `2 ^ 64` opens have different ids. -/
theorem data_authorised (J : Json) (s : Server σ) (w : σ) (es : List (Event σ)) :
    Along (step J) (Authorised J) (start s w) es ∧
    (ReturnsId s → es.countP Event.isOpen < 2 ^ 64 →
      ((runFrom (step J) (start s w) es).handed.map DataEndpoint.streamID).Nodup) := by
  refine ⟨along_of_forall_mem fun e _ c => authorised J c e, fun hreturns hopens => ?_⟩
  have hstart : Issued s.nextStream 0 (start s w) :=
    ⟨hreturns, (add_zero _).symm, List.nil_sublist _⟩
  obtain ⟨k, hk, hissued⟩ := hstart.run (J := J) es
  exact hissued.handed.nodup (nodup_ids _ (by omega))

namespace Sample

def encoding : Json := ⟨fun ep => some [ep.streamID.toUInt8], fun _ _ _ => .ok []⟩

def opening : List (Event Unit) :=
  [.attach 7, .walk 0 [.lit "dev", .lit "a", .lit "ctl"], .openFile 1 0, .openFile 1 0,
    .walk 1 [], .openFile 2 0]

def opened : Conn Unit := runFrom (step encoding) (start Node.Sample.granting ()) opening

end Sample

open Sample

/-- Three opens of a control file hand out three endpoints. -/
theorem data_authorised_sample : opened.handed.map DataEndpoint.streamID = [1, 2, 3] ∧
    opened.nodes.map Node.data = [[], [2], [3]] ∧
    (opened.handed.map DataEndpoint.streamID).Nodup :=
  ⟨by decide +kernel, by decide +kernel,
    (data_authorised encoding Node.Sample.granting () opening).2 ⟨nofun, nofun⟩
      (by decide)⟩

end Conn

end Cerberus.Ninep
