import Cerberus.Dataplane.Copy
import Cerberus.Dataplane.Quota

/-!
# What a transfer delivers

A transfer should be delivered whole, or reported as failed. `Send` copies its source up to the
quota and not up to the length that it declares, the server does not look at the declared length
once it is within the quota, and the stream is closed in the same way when the source failed. So a
source of another length is acknowledged, and one that fails looks complete to the sink.

`delivered_iff` says when neither can happen.
-/

namespace Cerberus.Dataplane

open Foundation Contract List

open QuotaReader (guard)

/-- What a sink has read of a transfer, and whether it ended as a file does. -/
structure Consumed where
  bytes : List UInt8
  complete : Bool
  deriving DecidableEq

/-- A sink that records what it reads. -/
def drain : Sink GoString (List Consumed) := fun _ r seen =>
  some (match r.fault with | none => .ok () | some e => .error e,
    seen ++ [⟨r.bytes, r.fault.isNone⟩])

/-- What the server has besides its grants: the verifier of signed capabilities, and the answers of
the kernel. -/
structure Checks where
  verifyCap : Option (List UInt8 → PeerID → Option GoString)
  kernelVerify : CapHandle → Option GoString

def Network.stream (net : Network) (chk : Checks) : Stream :=
  ⟨net.input, net.pieces_ne, chk.verifyCap, chk.kernelVerify⟩

/-- A transfer under a grant: the endpoint and the server after `RegisterSignedGrant`, and the
arguments of `Send`. -/
structure Sending where
  codec : HeaderCodec
  server : Server
  checks : Checks
  transferID : UInt64
  cap : CapHandle
  quota : Quota
  envelope : List UInt8
  issuer : PeerID
  src : Input GoString
  n : UInt64

namespace Sending

variable (x : Sending) (net : Network) (k : ℕ)

def endpoint : Endpoint :=
  (x.server.registerSignedGrant x.transferID x.cap x.quota x.envelope x.issuer).1

def grants : UInt64 → Option Grant :=
  (x.server.registerSignedGrant x.transferID x.cap x.quota x.envelope x.issuer).2.grants

/-- The side of the sender: what it writes, and what it returns. -/
def sent : Option Outgoing × Option (Except GoErr Unit) :=
  send x.codec.marshal net x.endpoint x.src x.n k

/-- The side of the server, if there is a stream: the acknowledgement, and what the sink consumed. -/
def received : Option (Ack GoString × List Consumed) :=
  (x.sent net k).1.bind fun _ =>
    handleStream x.grants (net.stream x.checks) x.codec.unmarshal drain []

/-- Both directions of the stream carry what was written. -/
structure Carried : Prop where
  stream : ∀ out, (x.sent net k).1 = some out → Carries out.bytes out.closed net.input
  reply : ∀ ack seen, x.received net k = some (ack, seen) → Carries (ackBytes ack) true net.reply

/-- The transfer is delivered whole or reported as failed, and a source that fails does not look
complete to the sink. -/
def Delivered : Prop :=
  ∀ ack seen, x.received net k = some (ack, seen) →
    (ack = .ok () → (x.sent net k).2 = some (.ok ()) →
      seen = [⟨x.src.bytes, true⟩] ∧ x.src.bytes.length = x.n.toNat) ∧
    (x.src.fault ≠ none → ∀ p ∈ seen, p.complete = false)

/-- The header can be sent, and the server accepts it. -/
structure Admitted : Prop where
  length : x.n ≤ x.quota.bytes
  header : ∃ b, x.codec.marshal (x.endpoint.header x.n) = .ok b ∧ b.length ≤ maxHeaderLen
  signed : ∀ verify, x.checks.verifyCap = some verify →
    x.envelope ≠ [] ∧ verify x.envelope x.issuer = none
  kernel : x.checks.kernelVerify x.cap = none

variable {x net k}

lemma authorize_endpoint_iff {g : Grant} :
    authorize x.grants (net.stream x.checks) (x.endpoint.header x.n) = .ok g ↔
      g = ⟨x.cap, x.quota⟩ ∧ x.n ≤ x.quota.bytes ∧ (∀ verify, x.checks.verifyCap = some verify →
        x.envelope ≠ [] ∧ verify x.envelope x.issuer = none) ∧
        x.checks.kernelVerify x.cap = none := by
  have hgrant : x.grants (x.endpoint.header x.n).transferID = some ⟨x.cap, x.quota⟩ :=
    Function.update_self _ _ _
  rw [authorize_eq_ok_iff]
  constructor
  · intro hg
    obtain rfl := Option.some.inj (hg.grant.symm.trans hgrant)
    exact ⟨rfl, hg.length, hg.signed, hg.kernel⟩
  · rintro ⟨rfl, hlength, hsigned, hkernel⟩
    exact ⟨hgrant, rfl, hsigned, hkernel, hlength⟩

lemma consume_drain (transferID : UInt64) (q : PayloadGuard) (hq : q.err = none) :
    ∃ ack, consume drain transferID q [] =
        some (ack, [⟨q.toInput.bytes, q.toInput.fault.isNone⟩]) ∧
      (ack = .ok () ↔ q.toInput.fault = none) := by
  unfold consume drain
  cases hfault : q.toInput.fault with
  | none =>
    refine ⟨.ok (), ?_, by simp⟩
    simp [QuotaReader.not_overrun hq hfault]
  | some e => exact ⟨.error (.sink e), by simp, by simp⟩

/-! ### The sender -/

/-- How far a transfer gets before its payload. -/
inductive Start (x : Sending) (net : Network) (k : ℕ) : Prop
  | refused (e : GoErr) (hsent : x.sent net k = (none, some (.error e)))
  | silent (e : GoErr) (hlen : x.n ≤ x.quota.bytes)
    (hsent : x.sent net k = (some ⟨[], false⟩, some (.error e)))
  | broken (b bs : List UInt8) (e : GoErr) (hlen : x.n ≤ x.quota.bytes)
    (hmarshal : x.codec.marshal (x.endpoint.header x.n) = .ok b) (hb : b.length ≤ maxHeaderLen)
    (hbs : bs <+: putBytes b) (hsent : x.sent net k = (some ⟨bs, false⟩, some (.error e)))
  | copies (b : List UInt8) (copy : Copying (.ofInput GoString) ⊕ Copied)
    (hlen : x.n ≤ x.quota.bytes) (hmarshal : x.codec.marshal (x.endpoint.header x.n) = .ok b)
    (hb : b.length ≤ maxHeaderLen)
    (hcopy : rounds (copyRound net.write x.quota.bytes) k ⟨0, x.src, []⟩ = copy)
    (hsent : x.sent net k =
      (some ⟨putBytes b ++ writtenSoFar copy, (net.outcome copy).1⟩, (net.outcome copy).2))

lemma start (x : Sending) (net : Network) (k : ℕ) : x.Start net k := by
  obtain ⟨res, hres⟩ : ∃ res, x.sent net k = res := ⟨_, rfl⟩
  have hsend := hres
  have hquic : x.endpoint.kind = endpointQUIC := rfl
  have hquota : x.endpoint.quota = x.quota := rfl
  unfold sent send at hsend
  rw [if_neg (not_not.mpr hquic), hquota] at hsend
  split_ifs at hsend with hlen
  · exact .refused _ (hres.trans hsend.symm)
  have hlen' : x.n ≤ x.quota.bytes := UInt64.not_lt.mp hlen
  cases hdial : net.dial with
  | some e =>
    simp only [hdial] at hsend
    exact .refused _ (hres.trans hsend.symm)
  | none =>
    cases hopen : net.openStream with
    | some e =>
      simp only [hdial, hopen] at hsend
      exact .refused _ (hres.trans hsend.symm)
    | none =>
      simp only [hdial, hopen, writeHeader] at hsend
      cases hmarshal : x.codec.marshal (x.endpoint.header x.n) with
      | error e =>
        simp only [hmarshal] at hsend
        exact .silent _ hlen' (hres.trans hsend.symm)
      | ok b =>
        simp only [hmarshal] at hsend
        by_cases hb : maxHeaderLen < b.length
        · rw [if_pos hb] at hsend
          exact .silent _ hlen' (hres.trans hsend.symm)
        · rw [if_neg hb] at hsend
          have hb' := Nat.not_lt.mp hb
          cases hzero : net.write 0 with
          | some e =>
            simp only [hzero] at hsend
            exact .broken b _ _ hlen' hmarshal hb' (prefix_append _ _)
              (hres.trans hsend.symm)
          | none =>
            cases hone : net.write 1 with
            | some e =>
              simp only [hzero, hone] at hsend
              exact .broken b _ _ hlen' hmarshal hb' (prefix_refl _) (hres.trans hsend.symm)
            | none =>
              simp only [hzero, hone] at hsend
              exact .copies b _ hlen' hmarshal hb' rfl (hres.trans hsend.symm)

/-- What the sink and the server have of a transfer that was let through. -/
structure Served (x : Sending) (net : Network) (b : List UInt8) (payload : Input GoString)
    (ack : Ack GoString) (seen : List Consumed) : Prop where
  admitted : x.Admitted
  marshal : x.codec.marshal (x.endpoint.header x.n) = .ok b
  le : 4 + b.length ≤ net.input.bytes.length
  bytes : payload.bytes = net.input.bytes.drop (4 + b.length)
  fault : payload.fault = net.input.fault
  seen : seen = [⟨(guard x.quota.bytes payload).toInput.bytes,
    (guard x.quota.bytes payload).toInput.fault.isNone⟩]
  ack : ack = .ok () ↔ (guard x.quota.bytes payload).toInput.fault = none

variable {b w data : List UInt8} {ack : Ack GoString} {seen : List Consumed}
  {payload : Input GoString} {closed : Bool}

section

variable (hmarshal : x.codec.marshal (x.endpoint.header x.n) = .ok b) (hb : b.length ≤ maxHeaderLen)
  (hpre : net.input.bytes <+: putBytes b ++ w)
include hmarshal hb hpre

lemma handleStream_of_le
    (hle : 4 + b.length ≤ net.input.bytes.length) :
    ∃ payload : Input GoString, payload.bytes = net.input.bytes.drop (4 + b.length) ∧
      payload.fault = net.input.fault ∧
      handleStream x.grants (net.stream x.checks) x.codec.unmarshal drain [] =
        match authorize x.grants (net.stream x.checks) (x.endpoint.header x.n) with
        | .error e => some (.error (.denied e), [])
        | .ok g => consume drain x.transferID (guard g.quota.bytes payload) [] := by
  obtain ⟨payload, hread, hbytes, hfault⟩ :=
    readHeader_of_le x.codec.unmarshal (x.codec.marshal_ne _ b hmarshal) hb hpre hle
  rw [x.codec.unmarshal_marshal _ b hmarshal] at hread
  have hread' : readHeader x.codec.unmarshal (net.stream x.checks).input =
      some (x.endpoint.header x.n, payload) := hread
  refine ⟨payload, hbytes, hfault, ?_⟩
  rw [handleStream, hread']
  rfl

lemma handleStream_cases
    (h : handleStream x.grants (net.stream x.checks) x.codec.unmarshal drain [] =
      some (ack, seen)) :
    (seen = [] ∧ ack ≠ .ok ()) ∨ ∃ payload, x.Served net b payload ack seen := by
  cases hread : readHeader x.codec.unmarshal (net.stream x.checks).input with
  | none =>
    rw [handleStream, hread] at h
    cases h
    exact .inl ⟨rfl, nofun⟩
  | some hp =>
    have hle := le_of_readHeader hb hpre (hread.trans_ne (Option.some_ne_none hp))
    obtain ⟨payload, hbytes, hfault, heq⟩ := handleStream_of_le hmarshal hb hpre hle
    rw [heq] at h
    cases hauth : authorize x.grants (net.stream x.checks) (x.endpoint.header x.n) with
    | error e =>
      rw [hauth] at h
      cases h
      exact .inl ⟨rfl, nofun⟩
    | ok g =>
      obtain ⟨rfl, hlen, hsigned, hkernel⟩ := authorize_endpoint_iff.mp hauth
      rw [hauth] at h
      obtain ⟨ack', hconsume, hack⟩ := consume_drain x.transferID
        (guard x.quota.bytes payload) rfl
      obtain ⟨rfl, rfl⟩ := Prod.mk.inj (Option.some.inj (hconsume.symm.trans h))
      exact .inr ⟨payload, ⟨hlen, ⟨b, hmarshal, hb⟩, hsigned, hkernel⟩, hmarshal, hle, hbytes,
        hfault, rfl, hack⟩

end

lemma received_cases (hcar : x.Carried net k) (h : x.received net k = some (ack, seen)) :
    (seen = [] ∧ ack ≠ .ok ()) ∨ ∃ b payload, x.Served net b payload ack seen := by
  obtain ⟨out, hout, hhandle⟩ := Option.bind_eq_some_iff.mp h
  have hpre := (hcar.stream out hout).isPrefix
  cases x.start net k with
  | refused e hsent =>
    rw [hsent] at hout
    cases hout
  | silent e hlen hsent =>
    rw [hsent] at hout
    cases hout
    have hnil : net.input.bytes = [] := prefix_nil.mp hpre
    have hread : readHeader x.codec.unmarshal (net.stream x.checks).input = none := by
      have herr : ((net.stream x.checks).input.readFull 4).2.1.isSome = true := by
        rw [Input.isSome_err_readFull_iff]
        exact lt_of_eq_of_lt (congrArg List.length hnil) (by decide)
      unfold readHeader
      exact if_pos herr
    rw [handleStream, hread] at hhandle
    cases hhandle
    exact .inl ⟨rfl, nofun⟩
  | broken b bs e hlen hmarshal hb hbs hsent =>
    rw [hsent] at hout
    cases hout
    have hpre' : net.input.bytes <+: putBytes b ++ [] := by
      rw [append_nil]
      exact hpre.trans hbs
    exact (handleStream_cases hmarshal hb hpre' hhandle).imp_right fun hp => ⟨b, hp⟩
  | copies b copy hlen hmarshal hb hcopy hsent =>
    rw [hsent] at hout
    cases hout
    exact (handleStream_cases hmarshal hb hpre hhandle).imp_right fun hp => ⟨b, hp⟩

/-! ### When it is delivered -/

lemma exists_of_result_ok (hres : (x.sent net k).2 = some (.ok ())) :
    ∃ (b : List UInt8) (d : Copied), x.codec.marshal (x.endpoint.header x.n) = .ok b ∧
      d.Spec net.write x.src.bytes x.src.ending x.quota.bytes ∧ d.err = none ∧
      (x.sent net k).1 = some ⟨putBytes b ++ d.written.flatten, d.closes net.close⟩ := by
  cases x.start net k with
  | refused e hsent =>
    rw [hsent] at hres
    cases hres
  | silent e hlen hsent =>
    rw [hsent] at hres
    cases hres
  | broken b bs e hlen hmarshal hb hbs hsent =>
    rw [hsent] at hres
    cases hres
  | copies b copy hlen hmarshal hb hcopy hsent =>
    have hspec := sound_rounds (R := .ofInput GoString) net.write x.src x.quota.bytes k
    rw [hcopy] at hspec
    rw [hsent] at hres ⊢
    cases copy with
    | inl c => cases hres
    | inr d =>
      refine ⟨b, d, hmarshal, hspec, ?_, rfl⟩
      cases herr : d.err with
      | none => rfl
      | some e =>
        simp only [Network.outcome, Copied.writeErr, herr] at hres
        cases hack : readAck net.reply with
        | none =>
          rw [hack] at hres
          cases hres
        | some e =>
          rw [hack] at hres
          cases hres

lemma Served.isPrefix (h : x.Served net b payload ack seen)
    (hpre : net.input.bytes <+: putBytes b ++ data) : payload.bytes <+: data := by
  have hdrop := hpre.drop (4 + b.length)
  rwa [← h.bytes, drop_left' length_putBytes] at hdrop

/-- What was acknowledged was consumed as a whole, if the length was declared right and the limit of
the reader below the guard does not overflow. -/
lemma Served.eq_of_ack (h : x.Served net b payload ack seen) (hack : ack = .ok ())
    (hcar : Carries (putBytes b ++ data) closed net.input)
    (hlen : data.length ≤ x.quota.bytes.toNat)
    (hquota : data = [] ∨ x.quota.bytes.toNat + 1 < 2 ^ 63) : seen = [⟨data, true⟩] := by
  have hpre := h.isPrefix hcar.isPrefix
  have hfault := h.ack.mp hack
  have hbytes : (guard x.quota.bytes payload).toInput.bytes = data := by
    rcases hquota with rfl | hquota
    · exact prefix_nil.mp
        ((QuotaReader.bytes_toInput_guard_prefix x.quota.bytes payload).trans hpre)
    · rw [QuotaReader.bytes_toInput_guard hquota hfault]
      by_cases hclean : payload.fault = none
      · have hwhole := (hcar.whole (h.fault ▸ hclean)).2
        rw [h.bytes, hwhole, drop_left' length_putBytes]
      · have hfull := QuotaReader.length_of_fault_toInput hquota hclean hfault
        exact hpre.eq_of_length (le_antisymm hpre.length_le (hfull ▸ hlen))
  rw [h.seen, hbytes, hfault]
  rfl

/-! ### When it is not -/

/-- A network that loses nothing. -/
def clear (data : List UInt8) (hne : data ≠ []) (fault : Option GoString) : Network where
  dial := none
  openStream := none
  write _ := none
  close := none
  input := ⟨[data], fault⟩
  pieces_ne _ hp := mem_singleton.mp hp ▸ hne
  reply := ⟨[[ackOK]], none⟩

variable {data w b : List UInt8} (hne : data ≠ []) (fault : Option GoString)

section

variable (hadm : x.Admitted) (hmarshal : x.codec.marshal (x.endpoint.header x.n) = .ok b)
include hadm hmarshal

lemma sent_clear {copy : Copying (.ofInput GoString) ⊕ Copied}
    (hcopy : rounds (copyRound (fun _ => none) x.quota.bytes) k ⟨0, x.src, []⟩ = copy) :
    x.sent (clear data hne fault) k = (some ⟨putBytes b ++ writtenSoFar copy,
      ((clear data hne fault).outcome copy).1⟩, ((clear data hne fault).outcome copy).2) := by
  obtain ⟨b', hmarshal', hb⟩ := hadm.header
  obtain rfl := Except.ok.inj (hmarshal'.symm.trans hmarshal)
  have hquic : x.endpoint.kind = endpointQUIC := rfl
  have hlen : ¬ x.endpoint.quota.bytes < x.n := UInt64.not_lt.mpr hadm.length
  unfold sent send writeHeader
  simp only [hquic, ne_eq, not_true_eq_false, if_false, hlen, clear, hmarshal',
    Nat.not_lt.mpr hb]
  subst hcopy
  rfl

lemma received_clear (hdata : data = putBytes b ++ w)
    {out : Outgoing} (hout : (x.sent (clear data hne fault) k).1 = some out) :
    ∃ payload : Input GoString, payload.bytes = w ∧ payload.fault = fault ∧
      ((guard x.quota.bytes payload).toInput.fault = none →
        x.received (clear data hne fault) k =
          some (.ok (), [⟨(guard x.quota.bytes payload).toInput.bytes, true⟩])) := by
  obtain ⟨b', hmarshal', hb⟩ := hadm.header
  obtain rfl := Except.ok.inj (hmarshal'.symm.trans hmarshal)
  have hbytes : (clear data hne fault).input.bytes = putBytes b' ++ w := by
    rw [← hdata]
    exact flatten_singleton
  have hle : 4 + b'.length ≤ (clear data hne fault).input.bytes.length := by
    rw [hbytes, length_append, length_putBytes]
    exact Nat.le_add_right _ _
  have hpre : (clear data hne fault).input.bytes <+: putBytes b' ++ w := by rw [hbytes]
  obtain ⟨payload, hpayload, hfault, heq⟩ := handleStream_of_le hmarshal' hb hpre hle
  rw [hbytes, drop_left' length_putBytes] at hpayload
  refine ⟨payload, hpayload, hfault, fun hclean => ?_⟩
  rw [authorize_endpoint_iff.mpr ⟨rfl, hadm.length, hadm.signed, hadm.kernel⟩] at heq
  obtain ⟨ack, hconsume, hack⟩ := consume_drain x.transferID
    (guard x.quota.bytes payload) rfl
  rw [hack.mpr hclean, hclean] at hconsume
  rw [received, hout]
  exact heq.trans hconsume

end

lemma carries_clear (h : fault = none → closed = true) :
    Carries data closed (clear data hne fault).input := by
  have hbytes : (clear data hne fault).input.bytes = data := flatten_singleton
  refine ⟨by rw [hbytes], fun hfault => ⟨h hfault, hbytes⟩⟩

lemma carries_reply : Carries (ackBytes (.ok ())) true (clear data hne fault).reply :=
  ⟨prefix_refl _, fun _ => ⟨rfl, rfl⟩⟩

lemma putBytes_append_ne_nil (b w : List UInt8) : putBytes b ++ w ≠ [] := by
  rw [← length_pos_iff, length_append, length_putBytes]
  omega

section

variable (hadm : x.Admitted) (hall : ∀ net k, x.Carried net k → x.Delivered net k)
include hadm hall

lemma of_copied {d : Copied}
    (hk : rounds (copyRound (R := .ofInput GoString) (fun _ => none) x.quota.bytes) k
      ⟨0, x.src, []⟩ = .inr d) : x.src.fault = none ∧ (Copies x.quota.bytes x.src.bytes.length →
      x.src.bytes.length = x.n.toNat ∧
        (x.src.bytes = [] ∨ x.quota.bytes.toNat + 1 < 2 ^ 63)) := by
  obtain ⟨b, hmarshal, -⟩ := hadm.header
  have hspec := sound_rounds (R := .ofInput GoString) (fun _ => none) x.src x.quota.bytes k
  rw [hk] at hspec
  have hne := putBytes_append_ne_nil b d.written.flatten
  have hsent := sent_clear hne none hadm hmarshal hk
  obtain ⟨payload, hpayload, hpfault, hrec⟩ :=
    received_clear hne none hadm hmarshal rfl (congrArg Prod.fst hsent)
  replace hrec := hrec (QuotaReader.fault_toInput_guard (hpayload ▸ hspec.length_le) hpfault)
  have hcar : x.Carried (clear _ hne none) k := by
    refine ⟨fun out hout => ?_, fun ack seen h => ?_⟩
    · obtain rfl := Option.some.inj ((congrArg Prod.fst hsent).symm.trans hout)
      exact carries_clear hne none fun _ => hspec.closes_none
    · obtain ⟨rfl, -⟩ := Prod.mk.inj (Option.some.inj (hrec.symm.trans h))
      exact carries_reply hne none
  obtain ⟨hwhole, hfails⟩ := hall _ k hcar _ _ hrec
  have hfault : x.src.fault = none := by
    by_contra hfault
    exact Bool.noConfusion (hfails hfault _ (mem_singleton_self _))
  refine ⟨hfault, fun hcopies => ?_⟩
  have hres : (x.sent (clear _ hne none) k).2 = some (.ok ()) := by
    rw [hsent]
    have herr := hspec.err_none (Input.ending_eq_eof_iff.mpr hfault) hcopies.1
    simp only [Network.outcome, Copied.writeErr, herr]
    rfl
  obtain ⟨hseen, hn⟩ := hwhole rfl hres
  refine ⟨hn, ?_⟩
  by_contra hno
  rw [not_or, Nat.not_lt] at hno
  rw [QuotaReader.toInput_guard_of_overflow hno.2] at hseen
  exact hno.1 (Consumed.mk.inj (singleton_inj.mp hseen)).1.symm

lemma fault_of_stuck (hstuck : 2 ^ 64 ≤ x.quota.bytes.toNat + 1) : x.src.fault = none := by
  obtain ⟨b, hmarshal, -⟩ := hadm.header
  have hne := putBytes_append_ne_nil b []
  have hsent := sent_clear hne (some (.lit "timeout")) hadm hmarshal (k := 0) rfl
  obtain ⟨payload, -, -, hrec⟩ :=
    received_clear hne (some (.lit "timeout")) hadm hmarshal rfl (congrArg Prod.fst hsent)
  rw [QuotaReader.toInput_guard_of_overflow ((by decide : 2 ^ 63 ≤ 2 ^ 64).trans hstuck)] at hrec
  replace hrec := hrec rfl
  have hcar : x.Carried (clear _ hne (some (.lit "timeout"))) 0 := by
    refine ⟨fun out hout => ?_, fun ack seen h => ?_⟩
    · obtain rfl := Option.some.inj ((congrArg Prod.fst hsent).symm.trans hout)
      exact carries_clear hne _ nofun
    · obtain ⟨rfl, -⟩ := Prod.mk.inj (Option.some.inj (hrec.symm.trans h))
      exact carries_reply hne _
  by_contra hfault
  exact Bool.noConfusion ((hall _ 0 hcar _ _ hrec).2 hfault _ (mem_singleton_self _))

end

/-- A transfer under a grant is delivered whole or reported as failed, whatever the network does,
and a source that fails does not look complete to the sink, iff the transfer is not let
through, or if the source does not fail, has the length that is declared unless the copy ends with an
error, and the limit of the reader below the guard does not overflow. -/
theorem delivered_iff (x : Sending) : (∀ net k, x.Carried net k → x.Delivered net k) ↔
    (x.Admitted → x.src.fault = none ∧ (Copies x.quota.bytes x.src.bytes.length →
      x.src.bytes.length = x.n.toNat ∧
        (x.src.bytes = [] ∨ x.quota.bytes.toNat + 1 < 2 ^ 63))) := by
  constructor
  · intro hall hadm
    by_cases hmoves : x.quota.bytes.toNat + 1 < 2 ^ 64 ∨ x.src.bytes = []
    · obtain ⟨k, d, hk⟩ := exists_copied (fun _ => none) hmoves
      exact of_copied hadm hall hk
    · rw [not_or, Nat.not_lt] at hmoves
      refine ⟨fault_of_stuck hadm hall hmoves.1, fun hcopies => absurd hcopies.2 ?_⟩
      rw [not_or, Nat.not_lt, List.length_eq_zero_iff]
      exact hmoves
  · intro hcond net k hcar ack seen hrec
    rcases received_cases hcar hrec with ⟨rfl, hack⟩ | ⟨b, payload, hserved⟩
    · exact ⟨fun h => absurd h hack, fun _ p hp => absurd hp List.not_mem_nil⟩
    · obtain ⟨hfault, hcopies⟩ := hcond hserved.admitted
      refine ⟨fun hack hres => ?_, fun hne => absurd hfault hne⟩
      obtain ⟨b', d, hmarshal, hspec, herr, hout⟩ := exists_of_result_ok hres
      obtain rfl := Except.ok.inj (hserved.marshal.symm.trans hmarshal)
      rw [Copied.Spec, herr] at hspec
      obtain ⟨hwritten, -, -, hcopy⟩ := hspec
      obtain ⟨hn, hquota⟩ := hcopies hcopy
      have hcarries := hcar.stream _ hout
      rw [hwritten] at hcarries
      exact ⟨hserved.eq_of_ack hack hcarries hcopy.1 hquota, hn⟩

namespace Sample

def header : Header := ⟨1, 7, 2, [], Vector.replicate 32 0⟩

def codec : HeaderCodec where
  marshal h := if h = header then .ok [1] else .error (.lit "unsupported")
  unmarshal _ := some header
  marshal_ne h b hm := by
    split_ifs at hm
    cases hm
    exact cons_ne_nil 1 []
  unmarshal_marshal h b hm := by
    split_ifs at hm with hh
    rw [hh]

def short (fault : Option GoString) : Sending where
  codec := codec
  server := ⟨fun _ => none, .lit "", Vector.replicate 32 0⟩
  checks := ⟨none, fun _ => none⟩
  transferID := 1
  cap := 7
  quota := ⟨2, 0, 0⟩
  envelope := []
  issuer := Vector.replicate 32 0
  src := ⟨[[5]], fault⟩
  n := 2

def network : Network := clear (putBytes [1] ++ [5]) (putBytes_append_ne_nil _ _) none

end Sample

open Sample

/-- A source that fails after the first of two bytes looks complete to the sink, and is acknowledged.
A source that ends there is acknowledged, and `Send` returns no error. -/
theorem truncated_delivered :
    ((short (some (.lit "disk"))).Carried network 2 ∧
      (short (some (.lit "disk"))).received network 2 =
        some (.ok (), [⟨[5], true⟩])) ∧
    ((short none).Carried network 2 ∧
      ((short none).sent network 2).2 = some (.ok ()) ∧
      (short none).received network 2 = some (.ok (), [⟨[5], true⟩])) := by
  have hcar : ∀ fault, ((short fault).sent network 2).1 =
      some ⟨putBytes [1] ++ [5], true⟩ → (short fault).Carried network 2 ∧
        (short fault).received network 2 = some (.ok (), [⟨[5], true⟩]) := by
    intro fault hsent
    have hrec : (short fault).received network 2 =
        some (.ok (), [⟨[5], true⟩]) := by
      rw [received, hsent]
      rfl
    refine ⟨⟨fun out hout => ?_, fun ack seen h => ?_⟩, hrec⟩
    · obtain rfl := Option.some.inj (hsent.symm.trans hout)
      exact carries_clear _ none fun _ => rfl
    · obtain ⟨rfl, -⟩ := Prod.mk.inj (Option.some.inj (hrec.symm.trans h))
      exact carries_reply _ none
  obtain ⟨hcarried, hrec⟩ := hcar none rfl
  exact ⟨hcar (some (.lit "disk")) rfl, hcarried, rfl, hrec⟩

end Sending

end Cerberus.Dataplane
