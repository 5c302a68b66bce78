import YckjAcu.Common
import YckjAcu.Lib.Buffers

/-!
# The Ymodem receiver

`Receive_Packet` and `Ymodem_Receive` of `ymodem.c`.  The serial line is a list
of events, one for each call of `Receive_Byte` that finds a byte or times out;
after the last event nothing more arrives.
-/

namespace YckjAcu

abbrev SerialLine := List (Option UInt8)

/-- `packet_data`: a packet of 1024 bytes with its header and trailer. -/
abbrev PacketData := Vector UInt8 1029

/-- Addresses of the serial flash. -/
abbrev Flash := ℕ → UInt8

/-- `sf_WriteBuffer(buf, addr, size)`: the flag it returns and the flash after it. -/
abbrev SfWriteBuffer := Vector UInt8 1024 → UInt32 → UInt16 → Flash → Bool × Flash

def receiveByte : SerialLine → Option UInt8 × SerialLine
  | [] => (none, [])
  | c :: line => (c, line)

/-- Receive `k` bytes to `data[i]`, `data[i + 1]`, and so on. -/
def receiveBytes : ℕ → ℕ → PacketData → SerialLine → Bool × PacketData × SerialLine
  | 0, _, data, line => (true, data, line)
  | k + 1, i, data, line =>
      match receiveByte line with
      | (none, line) => (false, data, line)
      | (some c, line) => receiveBytes k (i + 1) (data.setIfInBounds i c) line

structure PacketResult where
  status : ℤ
  length : ℤ
  data : PacketData
  line : SerialLine

/-- The part of `Receive_Packet` for `SOH` and `STX`; the trailer is not checked. -/
def receiveBody (c : UInt8) (packetSize : ℕ) (data : PacketData) (line : SerialLine) :
    PacketResult :=
  let (ok, data, line) := receiveBytes (packetSize + 4) 1 (data.setIfInBounds 0 c) line
  if ok = false then ⟨-1, 0, data, line⟩
  else if data.get 1 ≠ data.get 2 ^^^ 0xFF then ⟨-1, 0, data, line⟩
  else ⟨0, packetSize, data, line⟩

def receivePacket (data : PacketData) (line : SerialLine) : PacketResult :=
  match receiveByte line with
  | (none, line) => ⟨-1, 0, data, line⟩
  | (some c, line) =>
      if c = 0x01 then receiveBody c 128 data line
      else if c = 0x02 then receiveBody c 1024 data line
      else if c = 0x04 then ⟨0, 0, data, line⟩
      else if c = 0x18 then
        match receiveByte line with
        | (some c, line) => if c = 0x18 then ⟨0, -1, data, line⟩ else ⟨-1, 0, data, line⟩
        | (none, line) => ⟨-1, 0, data, line⟩
      else if c = 0x41 ∨ c = 0x61 then ⟨1, 0, data, line⟩
      else ⟨-1, 0, data, line⟩

/-- The variables of `Ymodem_Receive` with the serial line, the bytes sent on it
and the flash.  `buf_ptr` is always `buf`. -/
structure Receiver where
  packetData : PacketData
  buf : Vector UInt8 1024
  fileName : List UInt8
  size : ℤ
  flashDestination : UInt32
  flash : Flash
  line : SerialLine
  sent : List UInt8
  packetsReceived : ℕ
  errors : ℕ
  sessionBegin : Bool

/-- What one turn of the inner loop comes to. -/
inductive Turn
  | next (s : Receiver)
  | fileDone (s : Receiver)
  | sessionDone (s : Receiver)
  | exit (r : ℤ) (s : Receiver)

def headerName (data : PacketData) : List UInt8 :=
  ((data.toList.drop 3).take 256).takeWhile (· ≠ 0)

/-- The string copied to `file_size`. -/
def headerSize (data : PacketData) : List UInt8 :=
  ((data.toList.drop (3 + (headerName data).length + 1)).take 16).takeWhile (· ≠ 0x20) ++ [0]

def sendBytes (bytes : List UInt8) (s : Receiver) : Receiver :=
  { s with sent := s.sent ++ bytes }

def accept (s : Receiver) : Turn :=
  .next { s with packetsReceived := s.packetsReceived + 1, sessionBegin := true }

/-- The file name packet; `FLASH_SIZE` is `0x80000`. -/
def namePacket (s : Receiver) : Turn :=
  if s.packetData.get 3 ≠ 0 then
    let s := { s with
      fileName := headerName s.packetData
      size := (str2Int (headerSize s.packetData) s.size).2 }
    if s.size > 0x80000 - 1 then .exit (-1) (sendBytes [0x18, 0x18] s)
    else accept (sendBytes [0x06, 0x43] s)
  else .sessionDone (sendBytes [0x06] s)

/-- `memcpy(buf, packet_data + PACKET_HEADER, packet_length)`. -/
def copyPacket (length : ℕ) (data : PacketData) (buf : Vector UInt8 1024) : Vector UInt8 1024 :=
  Vector.ofFn fun i => if i.val < length then data[i.val + 3] else buf.get i

section Receive

variable (sfWriteBuffer : SfWriteBuffer)

def filePacket (length : ℕ) (s : Receiver) : Turn :=
  let s := { s with buf := copyPacket length s.packetData s.buf }
  let (written, flash) := sfWriteBuffer s.buf s.flashDestination 8 s.flash
  let s := { s with flash := flash }
  if written = false then .exit (-2) (sendBytes [0x18, 0x18] s)
  else accept (sendBytes [0x06]
    { s with flashDestination := s.flashDestination + UInt32.ofNat length })

/-- The switch over the packet length. -/
def goodPacket (length : ℤ) (s : Receiver) : Turn :=
  if length = -1 then .exit 0 (sendBytes [0x06] s)
  else if length = 0 then .fileDone (sendBytes [0x06] s)
  else if (s.packetData.get 1).toNat ≠ s.packetsReceived % 256 then .next (sendBytes [0x15] s)
  else if s.packetsReceived = 0 then namePacket s
  else filePacket sfWriteBuffer length.toNat s

/-- `MAX_ERRORS` is 5. -/
def badPacket (s : Receiver) : Turn :=
  let s := if s.sessionBegin then { s with errors := s.errors + 1 } else s
  if s.errors > 5 then .exit 0 (sendBytes [0x18, 0x18] s)
  else .next (sendBytes [0x43] s)

/-- One turn of the inner loop. -/
def receiveTurn (s : Receiver) : Turn :=
  let p := receivePacket s.packetData s.line
  let s := { s with packetData := p.data, line := p.line }
  if p.status = 0 then goodPacket sfWriteBuffer p.length { s with errors := 0 }
  else if p.status = 1 then .exit (-3) (sendBytes [0x18, 0x18] s)
  else badPacket s

/-- The two loops, for at most `k` calls of `Receive_Packet`. -/
def receiveLoop : ℕ → Receiver → Option (ℤ × Receiver)
  | 0, _ => none
  | k + 1, s =>
      match receiveTurn sfWriteBuffer s with
      | .next s => receiveLoop k s
      | .fileDone s => receiveLoop k { s with packetsReceived := 0 }
      | .sessionDone s => some (s.size, s)
      | .exit r s => some (r, s)

/-- `Ymodem_Receive(buf)`, with what its array holds at the call. -/
def ymodemReceive (k : ℕ) (buf : Vector UInt8 1024) (packetData : PacketData) (flash : Flash)
    (line : SerialLine) : Option (ℤ × Receiver) :=
  receiveLoop sfWriteBuffer k
    { packetData, buf, fileName := [], size := 0, flashDestination := 0, flash, line, sent := []
      packetsReceived := 0, errors := 0, sessionBegin := false }

theorem receiveLoop_mono {j k : ℕ} (hjk : j ≤ k) {s : Receiver} {r : ℤ × Receiver}
    (h : receiveLoop sfWriteBuffer j s = some r) : receiveLoop sfWriteBuffer k s = some r := by
  induction j generalizing k s with
  | zero => cases h
  | succ j ih =>
      obtain ⟨k, rfl⟩ : ∃ k', k = k' + 1 := ⟨k - 1, by omega⟩
      rw [receiveLoop] at h ⊢
      cases ht : receiveTurn sfWriteBuffer s with
      | next t =>
          rw [ht] at h
          exact ih (by omega) h
      | fileDone t =>
          rw [ht] at h
          exact ih (by omega) h
      | sessionDone t =>
          rw [ht] at h
          exact h
      | exit r t =>
          rw [ht] at h
          exact h

theorem receiveLoop_unique {j k : ℕ} {s : Receiver} {r r' : ℤ × Receiver}
    (h : receiveLoop sfWriteBuffer j s = some r) (h' : receiveLoop sfWriteBuffer k s = some r') :
    r = r' := by
  have hj := receiveLoop_mono sfWriteBuffer (Nat.le_max_left j k) h
  have hk := receiveLoop_mono sfWriteBuffer (Nat.le_max_right j k) h'
  exact Option.some.inj (hj.symm.trans hk)

end Receive

end YckjAcu
