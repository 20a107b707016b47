import Cerberus.Dataplane.Client
import Cerberus.Dataplane.Quota
import Cerberus.Foundation.Run

/-!
# The transfers under one grant

A grant stays in the table of the server when a transfer has used it, and every stream gets a guard
of its own, with the whole quota. So the quota bounds a transfer and not the grant
(`passed_le_quota_iff`).

The server is a state machine: streams are accepted, and the sinks of the open ones read, in any
order.
-/

namespace Cerberus.Dataplane

open Foundation Contract List Function

/-- A server with its open streams and what was passed to sinks. -/
structure Plane where
  server : Server
  /-- The transfer ids and the guards of the streams, in the order in which they were accepted. -/
  streams : List (UInt64 × PayloadGuard)
  /-- How many bytes were passed to sinks, for every transfer id. -/
  passed : UInt64 → ℕ

inductive Plane.Event
  | register (transferID : UInt64) (cap : CapHandle) (quota : Quota) (envelope : List UInt8)
      (issuer : PeerID)
  | accept (st : Stream)
  /-- The sink of a stream reads, with a buffer of `len` bytes. -/
  | read (i len : ℕ)

namespace Plane

variable (unmarshal : List UInt8 → Option Header)

/-- The guard that an accepted stream gets, if it is authorized. -/
def guardOf (grants : UInt64 → Option Grant) (st : Stream) : Option (UInt64 × PayloadGuard) :=
  match readHeader unmarshal st.input with
  | none => none
  | some (h, payload) =>
    match authorize grants st h with
    | .error _ => none
    | .ok g => some (h.transferID, QuotaReader.guard g.quota.bytes payload)

/-- The sink of a stream reads once. -/
def readStream (i len : ℕ) (s : Plane) : Plane :=
  match s.streams[i]? with
  | none => s
  | some (transferID, q) =>
    { s with
      streams := s.streams.set i (transferID, (q.read len).2.2)
      passed := Function.update s.passed transferID (s.passed transferID + (q.read len).1.length) }

def step (s : Plane) : Event → Plane
  | .register transferID cap quota envelope issuer =>
    { s with server := (s.server.registerSignedGrant transferID cap quota envelope issuer).2 }
  | .accept st => { s with streams := s.streams ++ (guardOf unmarshal s.server.grants st).toList }
  | .read i len => s.readStream i len

def start (addr : GoString) (peerID : PeerID) : Plane :=
  ⟨⟨fun _ => none, addr, peerID⟩, [], fun _ => 0⟩

def Event.Registers (transferID : UInt64) : Event → Prop
  | .register id _ _ _ _ => id = transferID
  | _ => False

/-- The streams that a run accepts. -/
def accepted (es : List Event) : List Stream :=
  es.filterMap fun | .accept st => some st | _ => none

/-- How many bytes a transfer under the grant can pass to a sink: as many as it brings, up to the
quota. Nothing is passed if the limit of the reader below the guard overflows. -/
def share (transferID : UInt64) (g : Grant) (st : Stream) : ℕ :=
  match readHeader unmarshal st.input with
  | none => 0
  | some (h, payload) =>
    if h.transferID = transferID then
      match authorize (fun _ => some g) st h with
      | .error _ => 0
      | .ok _ =>
        if g.quota.bytes.toNat + 1 < 2 ^ 63 then min g.quota.bytes.toNat payload.bytes.length else 0
    else 0

/-! ### What is left to be passed -/

/-- What the open streams under a grant can still pass. -/
def left (transferID : UInt64) (streams : List (UInt64 × PayloadGuard)) : ℕ :=
  (streams.map fun x => if x.1 = transferID then x.2.toInput.bytes.length else 0).sum

variable {unmarshal} {s : Plane} {transferID : UInt64} {g : Grant} {st : Stream} {e : Event}
  {es : List Event} {streams : List (UInt64 × PayloadGuard)} {q q' : PayloadGuard} {i len : ℕ}

lemma left_append (l l' : List (UInt64 × PayloadGuard)) :
    left transferID (l ++ l') = left transferID l + left transferID l' := by
  rw [left, map_append, sum_append]
  rfl

lemma readStream_of_none (hget : s.streams[i]? = none) : s.readStream i len = s := by
  rw [readStream, hget]

variable {id : UInt64} {grants : UInt64 → Option Grant}

lemma readStream_of_some (hget : s.streams[i]? = some (id, q)) :
    s.readStream i len =
      { s with
        streams := s.streams.set i (id, (q.read len).2.2)
        passed := Function.update s.passed id (s.passed id + (q.read len).1.length) } := by
  rw [readStream, hget]

lemma left_set (transferID : UInt64) {n : ℕ} (hget : streams[i]? = some (id, q))
    (hn : n + q'.toInput.bytes.length = q.toInput.bytes.length) :
    (if id = transferID then n else 0) + left transferID (streams.set i (id, q')) =
      left transferID streams := by
  induction streams generalizing i with
  | nil => cases hget
  | cons x streams ih =>
    cases i with
    | zero =>
      cases hget
      simp only [left, set_cons_zero, map_cons, sum_cons]
      split_ifs
      · omega
      · omega
    | succ i =>
      have htail := ih hget
      simp only [left, set_cons_succ, map_cons, sum_cons] at htail ⊢
      omega

lemma length_read (hq : q.Sound) (len : ℕ) :
    (q.read len).1.length + (q.read len).2.2.toInput.bytes.length = q.toInput.bytes.length := by
  obtain ⟨hread, -⟩ := QuotaReader.read_toInput hq len
  have hbytes := congrArg List.length (q.toInput.fst_read_append_bytes len)
  rwa [hread, length_append] at hbytes

lemma length_toInput_guard (quota : UInt64) (payload : Input GoString) :
    (QuotaReader.guard quota payload).toInput.bytes.length =
      if quota.toNat + 1 < 2 ^ 63 then min quota.toNat payload.bytes.length else 0 := by
  split_ifs with hquota
  · have hpos : 0 < (quota.toInt64 + 1).toInt := by
      rw [QuotaReader.limit_of_lt hquota]
      omega
    rw [QuotaReader.toInput_guard hpos, Input.bytes, Input.flatten_cut, length_take]
    rfl
  · rw [QuotaReader.toInput_guard_of_overflow (Nat.not_lt.mp hquota)]
    rfl

lemma authorize_congr {grants' : UInt64 → Option Grant} {h : Header}
    (heq : grants h.transferID = grants' h.transferID) :
    authorize grants st h = authorize grants' st h := by
  unfold authorize
  rw [heq]

lemma left_guardOf (st : Stream) (hg : grants transferID = some g) :
    left transferID (guardOf unmarshal grants st).toList = share unmarshal transferID g st := by
  unfold guardOf share
  cases readHeader unmarshal st.input with
  | none => rfl
  | some hp =>
    obtain ⟨h, payload⟩ := hp
    simp only
    by_cases hid : h.transferID = transferID
    · have hauth : authorize grants st h = authorize (fun _ => some g) st h :=
        authorize_congr (hid ▸ hg)
      rw [hauth, if_pos hid]
      cases hok : authorize (fun _ => some g) st h with
      | error e => rfl
      | ok g' =>
        obtain rfl : g = g' := Option.some.inj (authorize_eq_ok_iff.mp hok).grant
        simp only [Option.toList_some, left, map_singleton, sum_singleton, if_pos hid]
        exact length_toInput_guard _ _
    · rw [if_neg hid]
      cases authorize grants st h with
      | error e => rfl
      | ok g' => simp [left, hid]

lemma of_guardOf {x : UInt64 × PayloadGuard} (hx : x ∈ guardOf unmarshal grants st) :
    grants x.1 ≠ none ∧ x.2.Sound := by
  unfold guardOf at hx
  cases hread : readHeader unmarshal st.input with
  | none =>
    rw [hread] at hx
    cases hx
  | some hp =>
    obtain ⟨h, payload⟩ := hp
    rw [hread] at hx
    simp only at hx
    cases hauth : authorize grants st h with
    | error e =>
      rw [hauth] at hx
      cases hx
    | ok g =>
      rw [hauth] at hx
      cases hx
      refine ⟨?_, QuotaReader.sound_guard _ (pieces_ne_payload hread)⟩
      rw [(authorize_eq_ok_iff.mp hauth).grant]
      exact Option.some_ne_none g

/-! ### Runs -/

/-- The grant is registered, and the guards are in order. -/
structure Holds (transferID : UInt64) (g : Grant) (s : Plane) : Prop where
  grant : s.server.grants transferID = some g
  sound : ∀ x ∈ s.streams, x.2.Sound

variable (unmarshal) in
lemma Holds.step (h : Holds transferID g s) (he : ¬ e.Registers transferID) :
    Holds transferID g (step unmarshal s e) := by
  cases e with
  | register id cap quota envelope issuer =>
    exact ⟨(update_of_ne (Ne.symm he) _ _).trans h.grant, h.sound⟩
  | accept st =>
    refine ⟨h.grant, fun x hx => ?_⟩
    rcases mem_append.mp hx with hx | hx
    · exact h.sound x hx
    · exact (of_guardOf (Option.mem_toList.mp hx)).2
  | read i len =>
    rw [Plane.step]
    cases hget : s.streams[i]? with
    | none =>
      rw [readStream_of_none hget]
      exact h
    | some y =>
      rw [readStream_of_some hget]
      refine ⟨h.grant, fun x hx => ?_⟩
      rcases mem_or_eq_of_mem_set hx with hx | rfl
      · exact h.sound x hx
      · exact (QuotaReader.read_toInput (h.sound y (mem_of_getElem? hget)) len).2

/-- What was passed and what is left to be passed grow by the shares of the streams that are
accepted, and by nothing else. -/
lemma Holds.passed_step (h : Holds transferID g s) :
    (Plane.step unmarshal s e).passed transferID +
        left transferID (Plane.step unmarshal s e).streams =
      s.passed transferID + left transferID s.streams +
        ((accepted [e]).map (share unmarshal transferID g)).sum := by
  cases e with
  | register id cap quota envelope issuer => rfl
  | accept st =>
    have haccepted : accepted [.accept st] = [st] := rfl
    simp only [Plane.step, haccepted, left_append, left_guardOf st h.grant, map_singleton,
      sum_singleton]
    omega
  | read i len =>
    have haccepted : accepted [.read i len] = [] := rfl
    rw [Plane.step, haccepted, map_nil, sum_nil, Nat.add_zero]
    cases hget : s.streams[i]? with
    | none => rw [readStream_of_none hget]
    | some y =>
      obtain ⟨id, q⟩ := y
      have hq : q.Sound := h.sound _ (mem_of_getElem? hget)
      have hset := left_set transferID hget (length_read hq len)
      simp only [readStream_of_some hget]
      by_cases hid : id = transferID
      · subst hid
        rw [if_pos rfl] at hset
        rw [update_self]
        omega
      · rw [if_neg hid] at hset
        rw [update_of_ne (Ne.symm hid)]
        omega

lemma accepted_cons (e : Event) (es : List Event) :
    accepted (e :: es) = accepted [e] ++ accepted es := by
  cases e <;> rfl

lemma Holds.passed_run (h : Holds transferID g s) (hes : ∀ e ∈ es, ¬ e.Registers transferID) :
    Holds transferID g (runFrom (Plane.step unmarshal) s es) ∧
      (runFrom (Plane.step unmarshal) s es).passed transferID +
          left transferID (runFrom (Plane.step unmarshal) s es).streams =
        s.passed transferID + left transferID s.streams +
          ((accepted es).map (share unmarshal transferID g)).sum := by
  induction es generalizing s with
  | nil => exact ⟨h, rfl⟩
  | cons e es ih =>
    have hstep := h.step unmarshal (hes e mem_cons_self)
    obtain ⟨hholds, hrun⟩ := ih hstep fun e' he' => hes e' (mem_cons_of_mem _ he')
    refine ⟨hholds, ?_⟩
    rw [runFrom_cons, hrun, h.passed_step, accepted_cons e es, map_append, sum_append,
      Nat.add_assoc]

/-- Before the grant is registered, nothing is authorized for the transfer id. -/
structure Fresh (transferID : UInt64) (s : Plane) : Prop where
  grant : s.server.grants transferID = none
  streams : ∀ x ∈ s.streams, x.1 ≠ transferID ∧ x.2.Sound
  passed : s.passed transferID = 0

variable (unmarshal)

lemma Fresh.step (h : Fresh transferID s) (he : ¬ e.Registers transferID) :
    Fresh transferID (step unmarshal s e) := by
  cases e with
  | register id cap quota envelope issuer =>
    exact ⟨(update_of_ne (Ne.symm he) _ _).trans h.grant, h.streams, h.passed⟩
  | accept st =>
    refine ⟨h.grant, fun x hx => ?_, h.passed⟩
    rcases mem_append.mp hx with hx | hx
    · exact h.streams x hx
    · obtain ⟨hgrant, hsound⟩ := of_guardOf (Option.mem_toList.mp hx)
      exact ⟨fun hid => hgrant (hid ▸ h.grant), hsound⟩
  | read i len =>
    rw [Plane.step]
    cases hget : s.streams[i]? with
    | none =>
      rw [readStream_of_none hget]
      exact h
    | some y =>
      obtain ⟨hid, hsound⟩ := h.streams y (mem_of_getElem? hget)
      rw [readStream_of_some hget]
      refine ⟨h.grant, fun x hx => ?_, (update_of_ne (Ne.symm hid) _ _).trans h.passed⟩
      rcases mem_or_eq_of_mem_set hx with hx | rfl
      · exact h.streams x hx
      · exact ⟨hid, (QuotaReader.read_toInput hsound len).2⟩

lemma Fresh.holds (h : Fresh transferID s)
    (cap : CapHandle) (quota : Quota) (envelope : List UInt8) (issuer : PeerID) :
    Holds transferID ⟨cap, quota⟩
      (Plane.step unmarshal s (.register transferID cap quota envelope issuer)) :=
  ⟨update_self _ _ _, fun x hx => (h.streams x hx).2⟩

/-- What is passed after the grant is registered is what the streams bring that are accepted from
then on. -/
lemma Fresh.passed_run (h : Fresh transferID s)
    (cap : CapHandle) (quota : Quota) (envelope : List UInt8) (issuer : PeerID)
    (hes : ∀ e ∈ es, ¬ e.Registers transferID) :
    (runFrom (Plane.step unmarshal) s
        (.register transferID cap quota envelope issuer :: es)).passed transferID +
      left transferID (runFrom (Plane.step unmarshal) s
        (.register transferID cap quota envelope issuer :: es)).streams =
      ((accepted es).map (share unmarshal transferID ⟨cap, quota⟩)).sum := by
  have hholds := h.holds unmarshal cap quota envelope issuer
  have hpassed : (Plane.step unmarshal s
      (.register transferID cap quota envelope issuer)).passed transferID = 0 := h.passed
  have hleft : left transferID (Plane.step unmarshal s
      (.register transferID cap quota envelope issuer)).streams = 0 := by
    refine sum_eq_zero fun n hn => ?_
    obtain ⟨x, hx, rfl⟩ := mem_map.mp hn
    exact if_neg (h.streams x hx).1
  rw [runFrom_cons, (hholds.passed_run hes).2, hpassed, hleft, Nat.zero_add]

lemma Holds.exists_read (h : Holds transferID g s) (hleft : left transferID s.streams ≠ 0) :
    ∃ i, left transferID (s.readStream i 1).streams < left transferID s.streams := by
  obtain ⟨n, hn, hpos⟩ : ∃ n ∈ s.streams.map fun x =>
      if x.1 = transferID then x.2.toInput.bytes.length else 0, n ≠ 0 := by
    by_contra hall
    push Not at hall
    exact hleft (sum_eq_zero hall)
  obtain ⟨⟨id, q⟩, hx, rfl⟩ := mem_map.mp hn
  obtain ⟨i, hget⟩ := mem_iff_getElem?.mp hx
  have hid : id = transferID := by
    by_contra hne
    exact hpos (if_neg hne)
  rw [if_pos hid] at hpos
  have hq : q.Sound := h.sound _ hx
  have hone : (q.read 1).1.length = 1 := by
    have hread := (QuotaReader.read_toInput hq 1).1
    have hgot := q.toInput.length_read_one (QuotaReader.pieces_toInput_ne hq)
      (fun hnil => hpos (congrArg List.length hnil))
    rwa [hread] at hgot
  have hset := left_set transferID hget (length_read hq 1)
  rw [if_pos hid, hone] at hset
  refine ⟨i, ?_⟩
  rw [readStream_of_some hget]
  exact Nat.lt_of_lt_of_eq (Nat.lt_add_of_pos_left Nat.one_pos) hset

lemma Holds.exists_reads (h : Holds transferID g s) :
    ∃ es, accepted es = [] ∧ (∀ e ∈ es, ¬ e.Registers transferID) ∧
      left transferID (runFrom (Plane.step unmarshal) s es).streams = 0 := by
  induction hn : left transferID s.streams using Nat.strong_induction_on generalizing s with
  | _ n ih =>
    by_cases hzero : left transferID s.streams = 0
    · exact ⟨[], rfl, fun e he => absurd he not_mem_nil, hzero⟩
    · obtain ⟨i, hlt⟩ := h.exists_read hzero
      obtain ⟨es, hes, hreg, hleft⟩ := ih _ (hn ▸ hlt) (h.step unmarshal (e := .read i 1) id) rfl
      refine ⟨.read i 1 :: es, hes, fun e he => ?_, hleft⟩
      rcases mem_cons.mp he with rfl | he
      · exact id
      · exact hreg e he

lemma Holds.exists_events (h : Holds transferID g s) (sts : List Stream) :
    ∃ es, accepted es = sts ∧ (∀ e ∈ es, ¬ e.Registers transferID) ∧
      left transferID (runFrom (Plane.step unmarshal) s es).streams = 0 := by
  have haccepted : accepted (sts.map Event.accept) = sts := by
    rw [accepted, filterMap_map]
    exact filterMap_some
  have hregisters : ∀ e ∈ sts.map Event.accept, ¬ e.Registers transferID := by
    intro e he
    obtain ⟨st, -, rfl⟩ := mem_map.mp he
    exact id
  obtain ⟨es, hes, hreads, hleft⟩ := (h.passed_run hregisters).1.exists_reads unmarshal
  refine ⟨sts.map Event.accept ++ es, ?_, fun e he => ?_, ?_⟩
  · rw [accepted, filterMap_append]
    exact (congrArg₂ (· ++ ·) haccepted hes).trans (append_nil sts)
  · rcases mem_append.mp he with he | he
    · exact hregisters e he
    · exact hreads e he
  · rw [runFrom_append]
    exact hleft

/-- A grant that is registered once, and any transfers that are accepted from then on: what is
passed to sinks under the grant stays within its quota, in whatever order the sinks read, iff
the shares of the transfers together do. -/
theorem passed_le_quota_iff (unmarshal : List UInt8 → Option Header) (addr : GoString)
    (peerID : PeerID) (before : List Event) (transferID : UInt64) (cap : CapHandle) (quota : Quota)
    (envelope : List UInt8) (issuer : PeerID) (hbefore : ∀ e ∈ before, ¬ e.Registers transferID)
    (sts : List Stream) :
    (∀ es, accepted es = sts → (∀ e ∈ es, ¬ e.Registers transferID) →
      (runFrom (step unmarshal) (start addr peerID)
        (before ++ .register transferID cap quota envelope issuer :: es)).passed transferID ≤
          quota.bytes.toNat) ↔
      (sts.map (share unmarshal transferID ⟨cap, quota⟩)).sum ≤ quota.bytes.toNat := by
  have hfresh : Fresh transferID (runFrom (step unmarshal) (start addr peerID) before) :=
    Along.keeps (fun s e h he => h.step unmarshal he)
      ⟨rfl, fun x hx => absurd hx not_mem_nil, rfl⟩
      (along_of_forall_mem fun e he _ => hbefore e he)
  simp only [runFrom_append]
  constructor
  · intro hall
    have hholds := hfresh.holds unmarshal cap quota envelope issuer
    obtain ⟨es, hes, hreg, hleft⟩ := hholds.exists_events unmarshal sts
    have htotal := hfresh.passed_run unmarshal cap quota envelope issuer hreg
    rw [runFrom_cons, hleft, Nat.add_zero, hes] at htotal
    rw [← htotal]
    exact hall es hes hreg
  · rintro hsum es rfl hes
    have htotal := hfresh.passed_run unmarshal cap quota envelope issuer hes
    omega

namespace Sample

def decoded (_ : List UInt8) : Option Header := some ⟨1, 7, 0, [], Vector.replicate 32 0⟩

def stream : Stream where
  input := ⟨[putBytes [1] ++ [5]], none⟩
  pieces_ne := by decide
  verifyCap := none
  kernelVerify _ := none

def register : Event := .register 1 7 ⟨1, 0, 0⟩ [] (Vector.replicate 32 0)

end Sample

open Sample

/-- One transfer of one byte stays within a quota of one byte. -/
theorem passed_le_quota_iff_sample :
    share decoded 1 ⟨7, ⟨1, 0, 0⟩⟩ stream = 1 ∧
      (runFrom (step decoded) (start (.lit "") (Vector.replicate 32 0))
        ([] ++ register :: [.accept stream, .read 0 8, .read 0 8])).passed 1 ≤ 1 := by
  have hshare : share decoded 1 ⟨7, ⟨1, 0, 0⟩⟩ stream = 1 := by decide +kernel
  refine ⟨hshare, ?_⟩
  refine (passed_le_quota_iff decoded (.lit "") (Vector.replicate 32 0) [] 1 7 ⟨1, 0, 0⟩ []
    (Vector.replicate 32 0) (fun e he => absurd he not_mem_nil) [stream]).mpr ?_ _ rfl ?_
  · rw [map_singleton, sum_singleton, hshare]
    exact le_rfl
  · intro e he
    simp only [mem_cons, not_mem_nil, or_false] at he
    rcases he with rfl | rfl | rfl
    · exact id
    · exact id
    · exact id

/-- Two transfers of one byte each pass two bytes under a grant of one byte. -/
theorem quota_exceeded :
    (runFrom (step decoded) (start (.lit "") (Vector.replicate 32 0))
      [register, .accept stream, .accept stream, .read 0 8,
        .read 1 8]).passed 1 = 2 := by
  decide +kernel

end Plane

end Cerberus.Dataplane
