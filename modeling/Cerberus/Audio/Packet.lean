import Cerberus.Foundation.Wire

/-!
# Audio packets

The wire format of `daemon/audio` (`audio.go`, `transport.go`): a packet is a header of thirty bytes
and the samples of a frame, two bytes each. Every packet carries the format of the stream, its
sequence number and the number of its samples.
-/

namespace Cerberus.Audio

open Foundation List

structure Format where
  sampleRate : UInt32
  channels : UInt16
  deriving DecidableEq

def samplesPerFrame : ℕ := 480

def Format.samplesPerPacket (f : Format) : ℕ :=
  samplesPerFrame * if f.channels = 0 then 1 else f.channels.toNat

structure Frame where
  samples : List Int16
  deriving DecidableEq

def silentFrame (f : Format) : Frame := ⟨List.replicate f.samplesPerPacket 0⟩

structure Packet where
  format : Format
  sequence : UInt64
  timestamp : UInt64
  frame : Frame
  deriving DecidableEq

def packetMagic : List UInt8 := [0x43, 0x41, 0x55, 0x31]

def headerSize : ℕ := 30

def maxPCMValues : ℕ := 2 ^ 20

/-! ### Encoding -/

/-- `binary.LittleEndian.PutUint16`, of a sample. -/
def putSample (s : Int16) : List UInt8 := (putUint16 s.toUInt16).reverse

/-- `binary.LittleEndian.Uint16`, as a sample. -/
def sample (b : List UInt8) : Int16 := (uint16 b.reverse).toInt16

def Packet.encode (p : Packet) : List UInt8 :=
  packetMagic ++ putUint16 p.format.channels ++ putUint32 p.format.sampleRate ++
    putUint64 p.sequence ++ putUint64 p.timestamp ++ putUint32 (len32 p.frame.samples) ++
    p.frame.samples.flatMap putSample

/-! ### Decoding -/

/-- The slice `buf[lo:hi]`, inside the buffer. -/
def field (buf : List UInt8) (lo hi : ℕ) : List UInt8 := (buf.drop lo).take (hi - lo)

def decodeSamples : ℕ → List UInt8 → List Int16
  | 0, _ => []
  | n + 1, b => sample (field b 0 2) :: decodeSamples n (b.drop 2)

/-- `decodePacket`; `none` is `ErrMalformedPacket`. -/
def decodePacket (buf : List UInt8) : Option Packet :=
  if buf.length < headerSize ∨ field buf 0 4 ≠ packetMagic then none
  else
    let count := (uint32 (field buf 26 30)).toNat
    if maxPCMValues < count then none
    else if buf.length < headerSize + count * 2 then none
    else
      some
        { format := ⟨uint32 (field buf 6 10), uint16 (field buf 4 6)⟩
          sequence := uint64 (field buf 10 18)
          timestamp := uint64 (field buf 18 26)
          frame := ⟨decodeSamples count (buf.drop headerSize)⟩ }

/-! ### Round trip -/

@[simp] lemma sample_putSample (s : Int16) : sample (putSample s) = s := by
  rw [sample, putSample, reverse_reverse, uint16_putUint16, Int16.toInt16_toUInt16]

lemma length_flatMap_putSample (l : List Int16) : (l.flatMap putSample).length = l.length * 2 := by
  induction l with
  | nil => rfl
  | cons s l ih =>
    rw [flatMap_cons, length_append, ih, length_cons, Nat.succ_mul, Nat.add_comm]
    rfl

lemma decodeSamples_flatMap (l : List Int16) :
    decodeSamples l.length (l.flatMap putSample) = l := by
  induction l with
  | nil => rfl
  | cons s l ih =>
    have hsample : field ((s :: l).flatMap putSample) 0 2 = putSample s := rfl
    have hrest : ((s :: l).flatMap putSample).drop 2 = l.flatMap putSample := rfl
    rw [length_cons, decodeSamples, hsample, hrest, sample_putSample, ih]

@[simp] lemma length_encode (p : Packet) :
    p.encode.length = headerSize + p.frame.samples.length * 2 := by
  simp only [Packet.encode, length_append, length_flatMap_putSample, length_putUint32,
    length_putUint64]
  rfl

/-- A packet reads back, if its samples are not too many. -/
theorem decodePacket_encode {p : Packet} (h : p.frame.samples.length ≤ maxPCMValues) :
    decodePacket p.encode = some p := by
  have hmagic : field p.encode 0 4 = packetMagic := rfl
  have hcount : field p.encode 26 30 = putUint32 (len32 p.frame.samples) := rfl
  have hchannels : field p.encode 4 6 = putUint16 p.format.channels := rfl
  have hrate : field p.encode 6 10 = putUint32 p.format.sampleRate := rfl
  have hsequence : field p.encode 10 18 = putUint64 p.sequence := rfl
  have htimestamp : field p.encode 18 26 = putUint64 p.timestamp := rfl
  have hsamples : p.encode.drop headerSize = p.frame.samples.flatMap putSample := rfl
  have hlen : (len32 p.frame.samples).toNat = p.frame.samples.length :=
    toNat_len32 (lt_of_le_of_lt h (by decide))
  unfold decodePacket
  rw [hmagic, hcount, hchannels, hrate, hsequence, htimestamp, hsamples, uint32_putUint32, hlen,
    length_encode]
  simp only [ne_eq, not_true_eq_false, or_false, uint16_putUint16, uint32_putUint32,
    uint64_putUint64, decodeSamples_flatMap]
  rw [if_neg (by omega), if_neg (Nat.not_lt.mpr h), if_neg (Nat.lt_irrefl _)]

end Cerberus.Audio
