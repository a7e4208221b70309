/-
  LimitlessOS.Net.Checksum — the checksums of the packets that are sent
  (`arch/x86_64/virtio_net.c`).

  The header of a packet is summed in words, with 0 in place of the checksum; the carries are
  folded in after every word. The checksum of a TCP segment is over a pseudo-header too.

  Proved: `checksums_pass`: every IPv4 header and every TCP segment with its pseudo-header
  that the driver builds sums to 0xFFFF.
-/
import LimitlessOS.Lib.OnesComplement

namespace LimitlessOS.Net

open Lib List UInt16

/-- The `while` of `virtio_net64_checksum_add_word`. -/
def foldCarries (sum : Nat) : Nat := if sum / 0x10000 ≠ 0 then foldCarries (sum % 0x10000 + sum / 0x10000) else sum
termination_by sum
decreasing_by omega

/-- `virtio_net64_checksum_add_word` -/
def checksumAddWord (sum word : Nat) : Nat := foldCarries ((sum + word) % 0x100000000)

/-- `virtio_net64_checksum_add_bytes` -/
def checksumAddBytes (sum : Nat) : List UInt8 → Nat
  | [] => sum
  | [a] => checksumAddWord sum (a.toNat * 256)
  | a :: b :: rest => checksumAddBytes (checksumAddWord sum (a.toNat * 256 + b.toNat)) rest

/-- `(u16)(~sum & 0xFFFFu)` -/
def complement (sum : Nat) : UInt16 := UInt16.ofNat (0xFFFF - sum % 0x10000)

/-- `virtio_net64_ipv4_checksum`: the same loop from 0, with the addition of a word written out. -/
def ipv4Checksum (bytes : List UInt8) : UInt16 := complement (checksumAddBytes 0 bytes)

/-- `virtio_net64_transport_checksum` -/
def transportChecksum (sourceIp destIp : UInt32) (protocol : UInt8) (payload : List UInt8) (payloadBytes : UInt16) : UInt16 :=
  let sum := checksumAddWord 0 (sourceIp >>> 16).toUInt16.toNat
  let sum := checksumAddWord sum sourceIp.toUInt16.toNat
  let sum := checksumAddWord sum (destIp >>> 16).toUInt16.toNat
  let sum := checksumAddWord sum destIp.toUInt16.toNat
  let sum := checksumAddWord sum protocol.toNat
  let sum := checksumAddWord sum payloadBytes.toNat
  complement (checksumAddBytes sum (payload.take payloadBytes.toNat))

/-- `virtio_net64_put16be` -/
def put16be (value : UInt16) : List UInt8 := [(value >>> 8).toUInt8, value.toUInt8]

/-- `virtio_net64_put32be` -/
def put32be (value : UInt32) : List UInt8 :=
  [(value >>> 24).toUInt8, (value >>> 16).toUInt8, (value >>> 8).toUInt8, value.toUInt8]

/-- `VIRTIO_NET64_TX_BUFFER_BYTES` less `VIRTIO_NET64_HEADER_BYTES` -/
def frameBytes : Nat := 2048 - 12

/-- The IPv4 header, its fields in their order. -/
def ipv4Header (ipId : UInt16) (sourceIp destIp : UInt32) (payloadBytes : Nat) (checksum : UInt16) : List UInt8 :=
  ([0x45, 0] ++ put16be (UInt16.ofNat (20 + 20 + payloadBytes)) ++ put16be ipId ++ put16be 0x4000 ++ [64, 6]) ++
    (put16be checksum ++ (put32be sourceIp ++ put32be destIp))

/-- The TCP header and the data behind it. -/
def tcpSegment (sourcePort destPort : UInt16) (seq ack : UInt32) (flags : UInt8) (payload : List UInt8) (checksum : UInt16) :
    List UInt8 :=
  (put16be sourcePort ++ put16be destPort ++ put32be seq ++ put32be ack ++ [0x50, flags] ++ put16be 8192) ++
    (put16be checksum ++ (put16be 0 ++ payload))

/-- `virtio_net64_build_ipv4_tcp_header`: both headers are written byte for byte, first with 0 for the checksum. -/
def buildIpv4TcpHeader (ipId : UInt16) (sourceIp destIp : UInt32) (sourcePort destPort : UInt16) (seq ack : UInt32)
    (flags : UInt8) (payload : List UInt8) : List UInt8 × List UInt8 :=
  let ip := ipv4Header ipId sourceIp destIp payload.length
  let tcp := tcpSegment sourcePort destPort seq ack flags payload
  (ip (ipv4Checksum (ip 0)), tcp (transportChecksum sourceIp destIp 6 (tcp 0) (UInt16.ofNat (20 + payload.length))))

/-- The pseudo-header of a TCP segment. -/
def pseudoHeader (sourceIp destIp : UInt32) (segmentBytes : Nat) : List UInt8 :=
  put32be sourceIp ++ put32be destIp ++ [0, 6] ++ put16be (UInt16.ofNat segmentBytes)

theorem checksumAddWord_eq (sum word : Nat) (hs : sum ≤ 0xFFFF) (hw : word ≤ 0xFFFF) :
    checksumAddWord sum word = onesAdd sum word := by
  rw [checksumAddWord, Nat.mod_eq_of_lt (by omega), onesAdd, foldCarries]
  split_ifs with hcarry
  · omega
  · rw [foldCarries, if_neg (by omega)]
    omega
  · rfl
  · omega

theorem checksumAddBytes_eq (sum : Nat) (bytes : List UInt8) :
    checksumAddBytes sum bytes = (beWords bytes).foldl checksumAddWord sum := by
  fun_induction checksumAddBytes sum bytes with
  | case1 => rfl
  | case2 => rfl
  | case3 sum a b rest ih => exact ih

theorem beWords_put16be (value : UInt16) (rest : List UInt8) : beWords (put16be value ++ rest) = value.toNat :: beWords rest := by
  have hvalue := value.toNat_lt
  simp only [put16be, cons_append, nil_append, beWords, UInt16.toNat_toUInt8, UInt16.toNat_shiftRight, Nat.shiftRight_eq_div_pow]
  congr 1
  show value.toNat / 256 % 256 * 256 + value.toNat % 256 = value.toNat
  omega

theorem put32be_eq (value : UInt32) : put32be value = put16be (value >>> 16).toUInt16 ++ put16be value.toUInt16 := by
  simp [put32be, put16be, ← UInt8.toNat_inj, Nat.shiftRight_eq_div_pow]
  omega

theorem beWords_pseudoHeader (sourceIp destIp : UInt32) (n : Nat) (rest : List UInt8) :
    beWords (pseudoHeader sourceIp destIp n ++ rest) =
      [(sourceIp >>> 16).toUInt16.toNat, sourceIp.toUInt16.toNat, (destIp >>> 16).toUInt16.toNat, destIp.toUInt16.toNat,
        (6 : UInt8).toNat, (ofNat n).toNat] ++ beWords rest := by
  simp only [pseudoHeader, put32be_eq, append_assoc, beWords_put16be, cons_append, nil_append, beWords]
  rfl

/-- One word is the complement of the sum with 0 in its place. -/
theorem passes {front back : List UInt8} {sum : Nat} (heven : front.length % 2 = 0)
    (hsum : sum = (beWords (front ++ (put16be 0 ++ back))).foldl checksumAddWord 0) :
    onesSum (front ++ (put16be (complement sum) ++ back)) = 0xFFFF := by
  have htotal : ∀ c, 0 + (beWords (front ++ (put16be c ++ back))).sum = (beWords front).sum + (beWords back).sum + c.toNat := by
    intro c
    rw [beWords_append heven, beWords_put16be, sum_append, sum_cons]
    omega
  have hzero : sum = reduced ((beWords front).sum + (beWords back).sum) := by
    rw [hsum]
    exact (foldl_beWords checksumAddWord_eq _ 0).trans (by rw [htotal]; rfl)
  have hcomplement : (complement sum).toNat = 0xFFFF - sum := by
    have hle := hzero ▸ reduced_le _
    rw [complement, toNat_ofNat']
    omega
  have hones := @foldl_beWords onesAdd (fun _ _ _ _ => rfl) (front ++ (put16be (complement sum) ++ back)) 0
  rwa [htotal, hcomplement, hzero, reduced_complement, ← hzero] at hones

theorem checksums_pass (ipId : UInt16) (sourceIp destIp : UInt32) (sourcePort destPort : UInt16) (seq ack : UInt32)
    (flags : UInt8) (payload : List UInt8) (h : 14 + 20 + 20 + payload.length ≤ frameBytes) :
    let packet := buildIpv4TcpHeader ipId sourceIp destIp sourcePort destPort seq ack flags payload
    onesSum packet.1 = 0xFFFF ∧ onesSum (pseudoHeader sourceIp destIp packet.2.length ++ packet.2) = 0xFFFF := by
  have hlength : ∀ c, (tcpSegment sourcePort destPort seq ack flags payload c).length = 20 + payload.length := by
    simp only [tcpSegment, put16be, put32be, length_append, length_cons, length_nil]
    omega
  have hfits : (ofNat (20 + payload.length)).toNat = 20 + payload.length := by
    have hframe : frameBytes < 0x10000 := by decide
    rw [toNat_ofNat', Nat.mod_eq_of_lt (by omega)]
  constructor
  · exact passes (by simp [put16be]) (checksumAddBytes_eq 0 _)
  · simp only [buildIpv4TcpHeader, hlength]
    rw [tcpSegment, ← append_assoc]
    refine passes (by simp [pseudoHeader, put16be, put32be]) ?_
    rw [append_assoc, ← tcpSegment, beWords_pseudoHeader, foldl_append, checksumAddBytes_eq,
      take_of_length_le (Nat.le_of_eq ((hlength 0).trans hfits.symm))]
    rfl

/-- A payload of three bytes. -/
theorem checksums_pass_odd :
    let packet := buildIpv4TcpHeader 0x4801 0x0A00020F 0x0A000202 49152 80 1 1 0x18 [71, 69, 84]
    onesSum packet.1 = 0xFFFF ∧ onesSum (pseudoHeader 0x0A00020F 0x0A000202 packet.2.length ++ packet.2) = 0xFFFF :=
  checksums_pass 0x4801 0x0A00020F 0x0A000202 49152 80 1 1 0x18 [71, 69, 84] (by decide)

end LimitlessOS.Net
