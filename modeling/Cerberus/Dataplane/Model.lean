import Cerberus.Contract.Capability
import Cerberus.Foundation.ByteReader
import Cerberus.Foundation.Wire

/-!
# The data plane

The receiving side of `daemon/dataplane` (`server.go`, `frame.go`): a stream brings one transfer, a
framed header and then the payload. The header is checked against the grant that was registered for
the transfer id, and the payload goes through a guard that enforces the quota of the grant to the
sink of the server. The answer is one acknowledgement.

The guard is modelled read by read (`QuotaReader.read`), over the `io.LimitReader` below it and any
stream below that. A transfer brings an input (`PayloadGuard`); for a sink, which reads until there
is nothing left, its guard is an input of its own (`QuotaReader.toInput`, `reads_guard`). Decoding
the header from JSON is a parameter; what the kernel and the verifier of signed capabilities say is
part of the stream.
-/

namespace Cerberus.Dataplane

open Foundation Contract

structure Header where
  transferID : UInt64
  cap : CapHandle
  length : UInt64
  signedCap : List UInt8
  issuer : PeerID
  deriving DecidableEq

structure Grant where
  cap : CapHandle
  quota : Quota

def maxHeaderLen : ℕ := 64 * 1024

def errQuotaExceeded : GoString := .lit "QUOTA_EXCEEDED: transfer exceeds byte quota"

structure Stream where
  input : Input GoString
  /-- A read of a stream that is no error gives something. -/
  pieces_ne : ∀ p ∈ input.pieces, p ≠ []
  /-- The verifier of signed capabilities, if one is set; it may return an error. -/
  verifyCap : Option (List UInt8 → PeerID → Option GoString)
  kernelVerify : CapHandle → Option GoString

/-- Why a transfer is rejected before its payload is read. -/
inductive Denial
  | unauthorized
  | noSignedCap
  | signedCapDenied (cause : GoString)
  | kernel (cause : GoString)
  | quotaExceeded
  deriving DecidableEq

/-- The errors that are acknowledged; `ε` are those of the sink. -/
inductive Err (ε : Type)
  | badHeader
  | denied (cause : Denial)
  | sink (cause : ε)
  | overrun
  deriving DecidableEq

/-- The acknowledgement of a transfer; `ackOK` is the result without an error. -/
abbrev Ack (ε : Type) := Except (Err ε) Unit

/-- `Sink`, over a state `τ`; `none` means that it does not return. -/
abbrev Sink (ε τ : Type) := UInt64 → Input GoString → τ → Option (Except ε Unit × τ)

/-! ### The guard -/

variable {R : ByteReader GoString}

/-- `io.LimitedReader`; `n` bytes may still be read. -/
structure LimitedReader (R : ByteReader GoString) where
  src : R.State
  n : ℤ

def LimitedReader.read (len : ℕ) (l : LimitedReader R) :
    List UInt8 × Option (ReadErr GoString) × LimitedReader R :=
  if l.n ≤ 0 then ([], some .eof, l)
  else
    let res := R.read (min len l.n.toNat) l.src
    (res.1, res.2.1, ⟨res.2.2, l.n - res.1.length⟩)

/-- `quotaReader`: the guard of a transfer, over any stream. -/
structure QuotaReader (R : ByteReader GoString) where
  src : LimitedReader R
  limit : ℕ
  count : ℕ
  err : Option GoString

def QuotaReader.read (len : ℕ) (q : QuotaReader R) :
    List UInt8 × Option (ReadErr GoString) × QuotaReader R :=
  match q.err with
  | some e => ([], some (.fault e), q)
  | none =>
    if q.limit ≤ q.count then
      -- one byte more, to see whether there is one; an error of this read is dropped
      let one := q.src.read 1
      if one.1 = [] then ([], some .eof, { q with src := one.2.2 })
      else
        ([], some (.fault errQuotaExceeded),
          { q with src := one.2.2, err := some errQuotaExceeded })
    else
      let res := q.src.read (min len (q.limit - q.count))
      (res.1, res.2.1, { q with src := res.2.2, count := q.count + res.1.length })

def QuotaReader.reads : List ℕ → QuotaReader R → List (List UInt8 × Option (ReadErr GoString))
  | [], _ => []
  | len :: lens, q => ((q.read len).1, (q.read len).2.1) :: reads lens (q.read len).2.2

/-- The guard of `handleStream`, over a limit of one byte more than the quota. -/
def QuotaReader.guard (quota : UInt64) (payload : R.State) : QuotaReader R :=
  ⟨⟨payload, (quota.toInt64 + 1).toInt⟩, quota.toNat, 0, none⟩

/-- The guard over the input that a transfer brings. -/
abbrev PayloadGuard := QuotaReader (.ofInput GoString)

/-- What the guard has still to read, as an input. -/
def QuotaReader.rest (q : PayloadGuard) : Input GoString := q.src.src

/-- There is more than the quota, and the reader below the guard gives it. -/
def QuotaReader.Overrun (q : PayloadGuard) : Prop :=
  0 < q.src.n ∧ q.limit - q.count < q.rest.bytes.length

instance (q : PayloadGuard) : Decidable q.Overrun := inferInstanceAs (Decidable (_ ∧ _))

/-- The guard as an input of its own. -/
def QuotaReader.toInput (q : PayloadGuard) : Input GoString :=
  match q.err with
  | some e => ⟨[], some e⟩
  | none =>
    if q.src.n ≤ 0 then ⟨[], none⟩
    else
      { pieces := Input.cut (q.limit - q.count) q.rest.pieces
        fault :=
          if q.limit - q.count < q.rest.bytes.length then some errQuotaExceeded
          else if q.rest.bytes.length = q.limit - q.count then none
          else q.rest.fault }

/-! ### Transfers -/

/-- `readHeader`, with what follows the header; `none` is an error. -/
def readHeader (unmarshal : List UInt8 → Option Header) (r : Input GoString) :
    Option (Header × Input GoString) :=
  let lp := r.readFull 4
  let n := (uint32 lp.1).toNat
  let buf := lp.2.2.readFull n
  if lp.2.1.isSome then none
  else if n = 0 ∨ maxHeaderLen < n then none
  else if buf.2.1.isSome then none
  else (unmarshal buf.1).map (·, buf.2.2)

section

variable {ε τ : Type} (grants : UInt64 → Option Grant) (st : Stream)

def checkSigned (h : Header) : Except Denial Unit :=
  match st.verifyCap with
  | none => .ok ()
  | some verify =>
    if h.signedCap = [] then .error .noSignedCap
    else
      match verify h.signedCap h.issuer with
      | some e => .error (.signedCapDenied e)
      | none => .ok ()

/-- The checks of `handleStream` before the payload is read. -/
def authorize (h : Header) : Except Denial Grant :=
  match grants h.transferID with
  | none => .error .unauthorized
  | some g =>
    if g.cap ≠ h.cap then .error .unauthorized
    else
      match checkSigned st h with
      | .error e => .error e
      | .ok () =>
        match st.kernelVerify g.cap with
        | some e => .error (.kernel e)
        | none => if g.quota.bytes < h.length then .error .quotaExceeded else .ok g

structure Authorized (h : Header) (g : Grant) : Prop where
  grant : grants h.transferID = some g
  cap : g.cap = h.cap
  signed : ∀ verify, st.verifyCap = some verify →
    h.signedCap ≠ [] ∧ verify h.signedCap h.issuer = none
  kernel : st.kernelVerify g.cap = none
  length : h.length ≤ g.quota.bytes

section

variable {grants st} {h : Header} {g : Grant}

lemma checkSigned_eq_ok_iff : checkSigned st h = .ok () ↔ ∀ verify, st.verifyCap = some verify →
    h.signedCap ≠ [] ∧ verify h.signedCap h.issuer = none := by
  unfold checkSigned
  cases st.verifyCap with
  | none => simp
  | some verify =>
    simp only [Option.some.injEq, forall_eq']
    by_cases hnil : h.signedCap = []
    · simp [hnil]
    · cases verify h.signedCap h.issuer with
      | none => simp [hnil]
      | some e => simp [hnil]

lemma authorize_eq_ok_iff : authorize grants st h = .ok g ↔ Authorized grants st h g := by
  constructor
  · intro hg
    unfold authorize at hg
    cases hgrant : grants h.transferID with
    | none => simp [hgrant] at hg
    | some g' =>
      have hcap : g'.cap = h.cap := by
        by_contra hne
        simp [hgrant, hne] at hg
      simp only [hgrant] at hg
      rw [if_neg (not_not.mpr hcap)] at hg
      cases hsigned : checkSigned st h with
      | error e => simp [hsigned] at hg
      | ok =>
        cases hkernel : st.kernelVerify g'.cap with
        | some e => simp [hsigned, hkernel] at hg
        | none =>
          simp only [hsigned, hkernel] at hg
          split_ifs at hg with hlength
          cases hg
          exact ⟨hgrant, hcap, checkSigned_eq_ok_iff.mp hsigned, hkernel,
            UInt64.not_lt.mp hlength⟩
  · intro hg
    unfold authorize
    simp only [hg.grant, hg.cap, ne_eq, not_true_eq_false, if_false,
      checkSigned_eq_ok_iff.mpr hg.signed]
    rw [← hg.cap, hg.kernel]
    exact if_neg (UInt64.not_lt.mpr hg.length)

end

/-- `handleStream` from the guard on. The sink reads to the end or returns an error, so when it
returns none, the guard has an error of its own iff there was more than the quota. -/
def consume (sink : Sink ε τ) (transferID : UInt64) (guard : PayloadGuard) (t : τ) :
    Option (Ack ε × τ) :=
  (sink transferID guard.toInput t).map fun
    | (.error e, t') => (.error (.sink e), t')
    | (.ok (), t') => (if guard.Overrun then .error .overrun else .ok (), t')

def handleStream (unmarshal : List UInt8 → Option Header) (sink : Sink ε τ) (t : τ) :
    Option (Ack ε × τ) :=
  match readHeader unmarshal st.input with
  | none => some (.error .badHeader, t)
  | some (h, payload) =>
    match authorize grants st h with
    | .error e => some (.error (.denied e), t)
    | .ok g => consume sink h.transferID (QuotaReader.guard g.quota.bytes payload) t

end

end Cerberus.Dataplane
