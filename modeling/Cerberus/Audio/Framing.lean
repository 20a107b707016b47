import Cerberus.Audio.Packet
import Cerberus.Foundation.ByteReader

/-!
# Audio packets on a byte stream

`SendTransport` and `RecvTransport` (`streamtransport.go`) carry packets over a byte stream: each
packet has its length in front. `recv` reads one packet from any reader; how the reader cuts the
stream into reads makes no difference (`recvAll_eq`).

What is received of a stream that is cut anywhere is said by `recvTransport_sent_prefix`.
-/

namespace Cerberus.Audio

open Foundation List

variable {ε τ : Type}

def maxFramedPacket : ℕ := headerSize + maxPCMValues * 2

inductive RecvErr (ε : Type)
  | ctx (e : ε)
  | read (e : ReadErr ε)
  | frameTooLarge
  deriving DecidableEq

/-- `SendTransport.Send`, over a writer with state `τ`. -/
def send (write : List UInt8 → τ → Option ε × τ) (ctx : Option ε) (pkt : List UInt8) (t : τ) :
    Option ε × τ :=
  match ctx with
  | some e => (some e, t)
  | none =>
    match write (putUint32 (len32 pkt)) t with
    | (some e, t') => (some e, t')
    | (none, t') => write pkt t'

/-- What a sender puts on the stream. -/
def sent (ps : List Packet) : List UInt8 :=
  ps.foldl (fun t p => (send (fun b t => (none, t ++ b)) (none : Option Unit) p.encode t).2) []

lemma sent_eq (ps : List Packet) : sent ps = ps.flatMap fun p => putBytes p.encode := by
  have happend : ∀ t : List UInt8,
      ps.foldl (fun t p => (send (fun b t => (none, t ++ b)) (none : Option Unit) p.encode t).2) t =
        t ++ ps.flatMap fun p => putBytes p.encode := by
    induction ps with
    | nil => exact fun t => (append_nil t).symm
    | cons p ps ih =>
      intro t
      rw [foldl_cons, ih, flatMap_cons, ← append_assoc]
      simp only [send, putBytes, append_assoc]
  exact happend []

/-! ### Receiving -/

/-- The end of the file inside a packet is not expected. -/
def inPacket : ReadErr ε → ReadErr ε
  | .eof => .unexpectedEOF
  | e => e

def recv (R : ByteReader ε) (ctx : Option ε) (s : R.State) :
    Except (RecvErr ε) (List UInt8) × R.State :=
  match ctx with
  | some e => (.error (.ctx e), s)
  | none =>
    let hdr := R.readFull 4 s
    match hdr.2.1 with
    | some e => (.error (.read e), hdr.2.2)
    | none =>
      let n := (uint32 hdr.1).toNat
      if maxFramedPacket < n then (.error .frameTooLarge, hdr.2.2)
      else
        let buf := R.readFull n hdr.2.2
        match buf.2.1 with
        | some e => (.error (.read (inPacket e)), buf.2.2)
        | none => (.ok buf.1, buf.2.2)

/-- The first packet of some bytes that end like this, and what follows it. -/
def unframe (e : ReadErr ε) (b : List UInt8) : Except (RecvErr ε) (List UInt8 × List UInt8) :=
  if b.length < 4 then .error (.read (ByteReader.cutShort b e))
  else
    let n := (uint32 (b.take 4)).toNat
    let rest := b.drop 4
    if maxFramedPacket < n then .error .frameTooLarge
    else if rest.length < n then .error (.read (inPacket (ByteReader.cutShort rest e)))
    else .ok (rest.take n, rest.drop n)

lemma recv_spec (R : ByteReader ε) (s : R.State) :
    match unframe (R.ending s) (R.content s) with
    | .error e => (recv R none s).1 = .error e
    | .ok (pkt, rest) => (recv R none s).1 = .ok pkt ∧
      R.content (recv R none s).2 = rest ∧ R.ending (recv R none s).2 = R.ending s := by
  have hhdr := R.filled_readFull 4 s
  have hbuf := R.filled_readFull (uint32 ((R.content s).take 4)).toNat (R.readFull 4 s).2.2
  rw [hhdr.content_eq, hhdr.ending_eq] at hbuf
  unfold unframe recv
  by_cases hlen : (R.content s).length < 4
  · have herr : (R.readFull 4 s).2.1 = some (ByteReader.cutShort (R.content s) (R.ending s)) :=
      hhdr.err_eq.trans (if_neg (Nat.not_le.mpr hlen))
    simp only [if_pos hlen, herr]
  · have herr : (R.readFull 4 s).2.1 = none := hhdr.err_eq.trans (if_pos (Nat.not_lt.mp hlen))
    simp only [if_neg hlen, herr, hhdr.got_eq]
    by_cases hmax : maxFramedPacket < (uint32 ((R.content s).take 4)).toNat
    · simp only [if_pos hmax]
    simp only [if_neg hmax]
    by_cases hshort : ((R.content s).drop 4).length < (uint32 ((R.content s).take 4)).toNat
    · have herr' := hbuf.err_eq.trans (if_neg (Nat.not_le.mpr hshort))
      simp only [if_pos hshort, herr']
    · have herr' := hbuf.err_eq.trans (if_pos (Nat.not_lt.mp hshort))
      simp only [if_neg hshort, herr']
      exact ⟨congrArg _ hbuf.got_eq, hbuf.content_eq, hbuf.ending_eq⟩

variable {b pkt rest : List UInt8} {R : ByteReader ε} {s : R.State} {n : ℕ} {e : ReadErr ε}

lemma length_lt_of_unframe (h : unframe e b = .ok (pkt, rest)) : rest.length < b.length := by
  unfold unframe at h
  simp only at h
  split_ifs at h
  cases h
  rw [length_drop, length_drop]
  omega

lemma recv_of_error {e : RecvErr ε} (h : unframe (R.ending s) (R.content s) = .error e) :
    (recv R none s).1 = .error e := by
  have hspec := recv_spec R s
  rwa [h] at hspec

lemma recv_of_ok (h : unframe (R.ending s) (R.content s) = .ok (pkt, rest)) :
    (recv R none s).1 = .ok pkt ∧ R.content (recv R none s).2 = rest ∧
      R.ending (recv R none s).2 = R.ending s := by
  have hspec := recv_spec R s
  rwa [h] at hspec

lemma length_content_recv_lt {ctx : Option ε} {s' : R.State} (h : recv R ctx s = (.ok pkt, s')) :
    (R.content s').length < (R.content s).length := by
  rcases ctx with _ | e
  · rcases hun : unframe (R.ending s) (R.content s) with e | ⟨pkt', rest⟩
    · have herr := recv_of_error hun
      rw [h] at herr
      cases herr
    · obtain ⟨-, hrest, -⟩ := recv_of_ok hun
      rw [h] at hrest
      rw [hrest]
      exact length_lt_of_unframe hun
  · cases h

def recvAll (R : ByteReader ε) (s : R.State) : List (List UInt8) × RecvErr ε :=
  match hrecv : recv R none s with
  | (.error e, _) => ([], e)
  | (.ok pkt, s') =>
    have := length_content_recv_lt hrecv
    let rest := recvAll R s'
    (pkt :: rest.1, rest.2)
termination_by (R.content s).length

section RecvAll

variable {R : ByteReader ε} {s s' : R.State}

lemma recv_none_of_ok {ctx : Option ε} {pkt : List UInt8} (h : recv R ctx s = (.ok pkt, s')) :
    recv R none s = (.ok pkt, s') := by
  rcases ctx with _ | e
  · exact h
  · cases h

lemma recvAll_of_error {e : RecvErr ε} (h : recv R none s = (.error e, s')) :
    recvAll R s = ([], e) := by
  rw [recvAll]
  split
  · rename_i heq
    cases h.symm.trans heq
    rfl
  · rename_i heq
    cases h.symm.trans heq

lemma recvAll_of_ok {pkt : List UInt8} (h : recv R none s = (.ok pkt, s')) :
    recvAll R s = (pkt :: (recvAll R s').1, (recvAll R s').2) := by
  rw [recvAll]
  split
  · rename_i heq
    cases h.symm.trans heq
  · rename_i heq
    cases h.symm.trans heq
    rfl

end RecvAll

/-- All packets of some bytes that end like this, and the error after them. -/
def unframeAll (e : ReadErr ε) (b : List UInt8) : List (List UInt8) × RecvErr ε :=
  match hun : unframe e b with
  | .error err => ([], err)
  | .ok (pkt, rest) =>
    have := length_lt_of_unframe hun
    let packets := unframeAll e rest
    (pkt :: packets.1, packets.2)
termination_by b.length

lemma unframeAll_of_error {err : RecvErr ε} (h : unframe e b = .error err) :
    unframeAll e b = ([], err) := by
  rw [unframeAll]
  split
  · rename_i heq
    cases h.symm.trans heq
    rfl
  · rename_i heq
    cases h.symm.trans heq

lemma unframeAll_of_ok (h : unframe e b = .ok (pkt, rest)) :
    unframeAll e b = (pkt :: (unframeAll e rest).1, (unframeAll e rest).2) := by
  rw [unframeAll]
  split
  · rename_i heq
    cases h.symm.trans heq
  · rename_i heq
    cases h.symm.trans heq
    rfl

/-- What is received depends only on the bytes and the end of the stream. -/
theorem recvAll_eq (R : ByteReader ε) (s : R.State) :
    recvAll R s = unframeAll (R.ending s) (R.content s) := by
  induction hn : (R.content s).length using Nat.strong_induction_on generalizing s with
  | _ n ih =>
    subst hn
    rcases hrecv : recv R none s with ⟨e | pkt, s'⟩
    · rw [recvAll_of_error hrecv]
      rcases hun : unframe (R.ending s) (R.content s) with e' | ⟨pkt, rest⟩
      · have herr := recv_of_error hun
        rw [hrecv] at herr
        cases herr
        rw [unframeAll_of_error hun]
      · have hok := (recv_of_ok hun).1
        rw [hrecv] at hok
        cases hok
    · rw [recvAll_of_ok hrecv, ih _ (length_content_recv_lt hrecv) s' rfl]
      rcases hun : unframe (R.ending s) (R.content s) with e' | ⟨pkt', rest⟩
      · have herr := recv_of_error hun
        rw [hrecv] at herr
        cases herr
      · obtain ⟨hpkt, hrest, hend⟩ := recv_of_ok hun
        rw [hrecv] at hpkt hrest hend
        cases hpkt
        rw [unframeAll_of_ok hun, hrest, hend]

/-! ### Cutting the stream -/

/-- What is received of the packets `ps` when the stream is cut after `len` bytes: the packets in
front of the cut, and whether it is between two packets. -/
def ReceivedUpTo (ps : List Packet) (len : ℕ) (out : List (List UInt8) × RecvErr ε) : Prop :=
  ∃ k ≤ ps.length,
    (sent (ps.take k)).length ≤ len ∧ (k < ps.length → len < (sent (ps.take (k + 1))).length) ∧
      out.1.map decodePacket = (ps.take k).map some ∧
      out.2 = .read (if len = (sent (ps.take k)).length then .eof else .unexpectedEOF)

variable {p : Packet} {ps : List Packet} {b rest : List UInt8}

@[simp] lemma sent_nil : sent [] = [] := rfl

lemma sent_cons (p : Packet) (ps : List Packet) :
    sent (p :: ps) = putBytes p.encode ++ sent ps := by
  rw [sent_eq, sent_eq, flatMap_cons]

lemma toNat_len32_encode (hp : p.frame.samples.length ≤ maxPCMValues) :
    (len32 p.encode).toNat = p.encode.length ∧ p.encode.length ≤ maxFramedPacket := by
  have hle : p.encode.length ≤ maxFramedPacket := by
    rw [length_encode]
    exact Nat.add_le_add_left (Nat.mul_le_mul_right 2 hp) headerSize
  exact ⟨toNat_len32 (lt_of_le_of_lt hle (by decide)), hle⟩

lemma unframe_putBytes (e : ReadErr ε) (hp : p.frame.samples.length ≤ maxPCMValues) :
    unframe e (putBytes p.encode ++ rest) = .ok (p.encode, rest) := by
  obtain ⟨hlen, hle⟩ := toNat_len32_encode hp
  have hcount : (putBytes p.encode ++ rest).take 4 = putUint32 (len32 p.encode) := rfl
  have hdrop : (putBytes p.encode ++ rest).drop 4 = p.encode ++ rest := rfl
  have hfour : ¬ (putBytes p.encode ++ rest).length < 4 := by
    rw [length_append, length_putBytes]
    omega
  have hmax : ¬ maxFramedPacket < p.encode.length := Nat.not_lt.mpr hle
  have hfits : ¬ (p.encode ++ rest).length < p.encode.length := by
    rw [length_append]
    omega
  unfold unframe
  rw [if_neg hfour, hcount, hdrop, uint32_putUint32, hlen]
  simp only [if_neg hmax, if_neg hfits, take_left, drop_left]

lemma unframe_take (hp : p.frame.samples.length ≤ maxPCMValues)
    (hn : n < (putBytes p.encode).length) :
    unframe (.eof : ReadErr ε) ((putBytes p.encode).take n) =
      .error (.read (if n = 0 then .eof else .unexpectedEOF)) := by
  obtain ⟨hlen, hle⟩ := toNat_len32_encode hp
  have hlength : ((putBytes p.encode).take n).length = n := by
    rw [length_take]
    exact min_eq_left hn.le
  unfold unframe
  rw [hlength]
  by_cases hfour : n < 4
  · rw [if_pos hfour, ByteReader.cutShort]
    have hnil : (putBytes p.encode).take n = [] ↔ n = 0 := by
      rw [← length_eq_zero_iff, hlength]
    simp only [hnil]
  · have hzero : n ≠ 0 := by omega
    have hcount : ((putBytes p.encode).take n).take 4 = putUint32 (len32 p.encode) := by
      rw [take_take, min_eq_left (Nat.not_lt.mp hfour)]
      rfl
    have hmax : ¬ maxFramedPacket < p.encode.length := Nat.not_lt.mpr hle
    have hshort : (((putBytes p.encode).take n).drop 4).length < p.encode.length := by
      rw [length_putBytes] at hn
      rw [length_drop, hlength]
      omega
    rw [if_neg hfour, hcount, uint32_putUint32, hlen]
    simp only [if_neg hmax, if_pos hshort, if_neg hzero]
    congr 2
    rw [ByteReader.cutShort]
    split_ifs
    · rfl
    · rfl

lemma receivedUpTo_unframeAll (hps : ∀ p ∈ ps, p.frame.samples.length ≤ maxPCMValues)
    (hn : n ≤ (sent ps).length) :
    ReceivedUpTo ps n (unframeAll (.eof : ReadErr ε) ((sent ps).take n)) := by
  induction ps generalizing n with
  | nil =>
    obtain rfl : n = 0 := Nat.le_zero.mp hn
    have hun : unframe (.eof : ReadErr ε) [] = .error (.read .eof) := rfl
    rw [sent_nil, take_nil, unframeAll_of_error hun]
    exact ⟨0, le_rfl, le_rfl, fun h => absurd h (Nat.lt_irrefl 0), rfl, rfl⟩
  | cons p ps ih =>
    have hp := hps p mem_cons_self
    rw [sent_cons] at hn ⊢
    by_cases hcut : n < (putBytes p.encode).length
    · -- the cut is in the first packet
      rw [take_append_of_le_length hcut.le, unframeAll_of_error (unframe_take hp hcut)]
      refine ⟨0, Nat.zero_le _, Nat.zero_le _, fun _ => ?_, rfl, ?_⟩
      · rw [Nat.zero_add, take_succ_cons, take_zero, sent_cons, sent_nil, append_nil]
        exact hcut
      · rfl
    · have htake : (putBytes p.encode ++ sent ps).take n =
          putBytes p.encode ++ (sent ps).take (n - (putBytes p.encode).length) := by
        rw [take_append, take_of_length_le (Nat.not_lt.mp hcut)]
      rw [length_append] at hn
      obtain ⟨k, hk, hle, hlt, hpackets, herr⟩ := ih (fun q hq => hps q (mem_cons_of_mem p hq))
        (n := n - (putBytes p.encode).length) (by omega)
      rw [htake, unframeAll_of_ok (unframe_putBytes _ hp)]
      refine ⟨k + 1, Nat.succ_le_succ hk, ?_, fun hlen => ?_, ?_, ?_⟩
      · rw [take_succ_cons, sent_cons, length_append]
        omega
      · have := hlt (Nat.lt_of_succ_lt_succ hlen)
        rw [take_succ_cons, sent_cons, length_append]
        omega
      · rw [map_cons, decodePacket_encode hp, take_succ_cons, map_cons, hpackets]
      · rw [herr, take_succ_cons, sent_cons, length_append]
        congr 2
        exact propext (by omega)

/-- `RecvTransport`: all packets from a reader, through a `bufio.Reader` of the default size. -/
def recvTransport (R : ByteReader ε) (s : R.State) : List (List UInt8) × RecvErr ε :=
  recvAll (R.buffered 4096) (ByteReader.newBuffered 4096 s)

lemma recvTransport_eq (R : ByteReader ε) (s : R.State) :
    recvTransport R s = unframeAll (R.ending s) (R.content s) := by
  rw [recvTransport, recvAll_eq, ByteReader.ending_newBuffered, ByteReader.content_newBuffered]

lemma recvTransport_sent (hps : ∀ p ∈ ps, p.frame.samples.length ≤ maxPCMValues)
    (hcontent : R.content s = sent ps) (hend : R.ending s = .eof) :
    recvTransport R s = (ps.map Packet.encode, .read .eof) := by
  rw [recvTransport_eq, hend, hcontent]
  clear hcontent
  induction ps with
  | nil => exact unframeAll_of_error rfl
  | cons p ps ih =>
    have hall := ih fun q hq => hps q (mem_cons_of_mem p hq)
    rw [sent_cons, unframeAll_of_ok (unframe_putBytes _ (hps p mem_cons_self)), hall]
    rfl

/-- Of the stream that `SendTransport` writes, cut anywhere and read in any pieces, `RecvTransport`
gives the whole packets; then `io.EOF` if the cut is between two packets, and
`io.ErrUnexpectedEOF` if it is not. -/
theorem recvTransport_sent_prefix (ps : List Packet)
    (hps : ∀ p ∈ ps, p.frame.samples.length ≤ 2 ^ 20) (R : ByteReader ε) (s : R.State)
    (hpre : R.content s <+: sent ps) (hend : R.ending s = .eof) :
    ReceivedUpTo ps (R.content s).length (recvTransport R s) := by
  rw [recvTransport_eq, hend, List.prefix_iff_eq_take.mp hpre, List.length_take,
    min_eq_left hpre.length_le]
  exact receivedUpTo_unframeAll hps hpre.length_le

namespace Sample

def packets : List Packet :=
  [⟨⟨48000, 1⟩, 7, 0, ⟨[1, -2]⟩⟩, ⟨⟨48000, 1⟩, 8, 10000000, ⟨[3, 4]⟩⟩]

/-- The two packets in two reads, cut before the last sample. -/
def cut : Input Unit := ⟨[(sent packets).take 20, ((sent packets).drop 20).take 54], none⟩

end Sample

theorem recvTransport_cut_packet :
    ReceivedUpTo Sample.packets 74 (recvTransport (.ofInput Unit) Sample.cut) :=
  recvTransport_sent_prefix Sample.packets (by decide) (.ofInput Unit) Sample.cut
    (by decide +kernel) rfl

end Cerberus.Audio
