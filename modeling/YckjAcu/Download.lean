import YckjAcu.Lib.Chunks
import YckjAcu.Ymodem

/-!
# Downloads over a loss-free session

The receiver passes 8 bytes of every packet to `sf_WriteBuffer`, so a session
that transmits a file stores the head of each packet and reports success.
-/

namespace YckjAcu

open Chunks

/-- `sf_WriteBuffer` on a working flash. -/
def Working (sfWriteBuffer : SfWriteBuffer) : Prop :=
  ∀ (buf : Vector UInt8 1024) (addr : UInt32) (size : UInt16) (flash : Flash),
    size.toNat ≤ 1024 →
      sfWriteBuffer buf addr size flash =
        (true, store flash addr.toNat (buf.toList.take size.toNat))

/-! ### Packets on the line -/

structure Packet where
  long : Bool
  payload : List UInt8
  trailer : UInt8 × UInt8
  length_payload : payload.length = if long then 1024 else 128

def Packet.bytes (p : Packet) (seq : UInt8) : List UInt8 :=
  (if p.long then 0x02 else 0x01) :: seq :: (seq ^^^ 0xFF) ::
    (p.payload ++ [p.trailer.1, p.trailer.2])

theorem Packet.length_bytes (p : Packet) (seq : UInt8) :
    (p.bytes seq).length = p.payload.length + 5 := by
  simp [Packet.bytes]

theorem Packet.length_eq (p : Packet) : p.payload.length = 128 ∨ p.payload.length = 1024 := by
  rw [p.length_payload]
  cases p.long
  · exact Or.inl rfl
  · exact Or.inr rfl

/-- The file `F` on the line: timeouts before each packet, at most `MAX_ERRORS`
of them once the header has arrived. -/
structure Transmission (F : List UInt8) where
  name : List UInt8
  header : Packet
  file : List (ℕ × Packet)
  last : Packet
  headerWait : ℕ
  eotWait : ℕ
  lastWait : ℕ
  name_ne_nil : name ≠ []
  name_bytes : 0 ∉ name
  name_length : name.length < 256
  header_payload : ∃ c rest, (c = 0 ∨ c = 0x20) ∧
    header.payload = name ++ 0 :: (decimal F.length ++ c :: rest)
  file_payload : F <+: (file.map fun q => q.2.payload).flatten
  file_length : (file.dropLast.map fun q => q.2.payload).flatten.length < F.length
  last_payload : last.payload.head? = some 0
  fileWait_le : ∀ q ∈ file, q.1 ≤ 5
  eotWait_le : eotWait ≤ 5
  lastWait_le : lastWait ≤ 5

def packetLine (wait : ℕ) (bytes : List UInt8) (line : SerialLine) : SerialLine :=
  List.replicate wait none ++ (bytes.map some ++ line)

/-- The file packets with their numbers from `i` on. -/
def fileLine (i : ℕ) : List (ℕ × Packet) → SerialLine → SerialLine
  | [], line => line
  | q :: qs, line => packetLine q.1 (q.2.bytes (UInt8.ofNat i)) (fileLine (i + 1) qs line)

namespace Transmission

variable {F : List UInt8} (T : Transmission F)

def chunks : List (List UInt8) := T.file.map fun q => q.2.payload

/-- The length of the file rounded up to the end of the last packet. -/
def total : ℕ := T.chunks.flatten.length

def line (after : SerialLine) : SerialLine :=
  packetLine T.headerWait (T.header.bytes 0) <| fileLine 1 T.file <|
    packetLine T.eotWait [0x04] <| packetLine T.lastWait (T.last.bytes 0) after

theorem length_le_total : F.length ≤ T.total := T.file_payload.length_le

theorem total_le : T.total ≤ F.length + 1024 := by
  have hlen := T.file_length
  rw [total, chunks]
  rcases List.eq_nil_or_concat T.file with h | ⟨qs, q, h⟩
  · rw [h]
    simp
  · rw [h, List.concat_eq_append, List.dropLast_concat] at hlen
    have hlast := q.2.length_eq
    rw [h, List.concat_eq_append, List.map_append, List.flatten_append, List.length_append]
    simp only [List.map_cons, List.map_nil, List.flatten_cons, List.flatten_nil, List.append_nil]
    omega

end Transmission

/-- The download returns the length of the file and stores the file, and
nothing beyond its last packet. -/
def Stores (F : List UInt8) (total : ℕ) (flash₀ : Flash) (r : ℤ) (flash : Flash) : Prop :=
  r = F.length ∧ (∀ k (h : k < F.length), flash k = F[k]) ∧ ∀ k, total ≤ k → flash k = flash₀ k

/-! ### Receiving one packet -/

theorem receiveBytes_spec {bs : List UInt8} {data : PacketData} {pre old : List UInt8}
    (hdata : data.toList = pre ++ old) (hlen : bs.length ≤ old.length) (line : SerialLine) :
    ∃ data' : PacketData,
      receiveBytes bs.length pre.length data (bs.map some ++ line) = (true, data', line) ∧
        data'.toList = pre ++ (bs ++ old.drop bs.length) := by
  induction bs generalizing data pre old with
  | nil => exact ⟨data, rfl, by simpa using hdata⟩
  | cons b bs ih =>
      cases old with
      | nil => simp at hlen
      | cons o old =>
          have hset : (data.setIfInBounds pre.length b).toList = (pre ++ [b]) ++ old := by
            rw [Vector.toList_setIfInBounds, hdata]
            simp
          have hle : bs.length ≤ old.length := by simpa using hlen
          obtain ⟨data', hrun, hdata'⟩ := ih hset hle
          refine ⟨data', ?_, ?_⟩
          · rw [List.length_append] at hrun
            simpa [receiveBytes, receiveByte] using hrun
          · simpa using hdata'

theorem get_of_toList {data : PacketData} {l old : List UInt8} (h : data.toList = l ++ old)
    {i : Fin 1029} (hil : i.val < l.length) : data.get i = l[i.val] := by
  have hget : data.toList[i.val]? = some l[i.val] := by
    rw [h, List.getElem?_append_left hil, List.getElem?_eq_getElem hil]
  rw [Vector.getElem?_toList, Vector.getElem?_eq_getElem i.isLt] at hget
  exact Option.some.inj hget

theorem receivePacket_timeout (data : PacketData) (line : SerialLine) :
    receivePacket data (none :: line) = ⟨-1, 0, data, line⟩ := rfl

/-- A packet is received whole, over the bytes of the one before. -/
theorem receivePacket_over (p : Packet) (seq : UInt8) (data : PacketData) (line : SerialLine) :
    ∃ data' : PacketData, receivePacket data ((p.bytes seq).map some ++ line) =
        ⟨0, p.payload.length, data', line⟩ ∧
      data'.toList = p.bytes seq ++ data.toList.drop (p.bytes seq).length := by
  set c : UInt8 := if p.long then 0x02 else 0x01 with hc
  have hbody : receivePacket data ((p.bytes seq).map some ++ line) =
      receiveBody c p.payload.length data ((p.bytes seq).tail.map some ++ line) := by
    rw [p.length_payload, hc]
    cases h : p.long <;> simp [Packet.bytes, receivePacket, receiveByte, h]
  have hset : (data.setIfInBounds 0 c).toList = [c] ++ data.toList.tail := by
    rw [Vector.toList_setIfInBounds]
    have hlen := data.length_toList
    cases h : data.toList with
    | nil => simp [h] at hlen
    | cons d ds => simp
  have hlen : (p.bytes seq).tail.length ≤ data.toList.tail.length := by
    rw [List.length_tail, List.length_tail, p.length_bytes, Vector.length_toList]
    rcases p.length_eq with h | h <;> omega
  obtain ⟨data', hrun, hdata'⟩ := receiveBytes_spec hset hlen line
  have hcons : [c] ++ ((p.bytes seq).tail ++ data.toList.tail.drop (p.bytes seq).tail.length) =
      p.bytes seq ++ data.toList.drop (p.bytes seq).length := by
    simp [Packet.bytes, hc]
  rw [hcons] at hdata'
  refine ⟨data', ?_, hdata'⟩
  have h1 : data'.get 1 = seq := get_of_toList hdata' (by simp [Packet.bytes])
  have h2 : data'.get 2 = seq ^^^ 0xFF :=
    get_of_toList hdata' (by simp [Packet.bytes])
  have hcount : (p.bytes seq).tail.length = p.payload.length + 4 := by
    rw [List.length_tail, p.length_bytes]
    omega
  rw [hcount] at hrun
  rw [hbody, receiveBody]
  simp only [List.length_singleton] at hrun
  rw [hrun]
  simp [h1, h2]

theorem receivePacket_packet (p : Packet) (seq : UInt8) (data : PacketData) (line : SerialLine) :
    ∃ data' old, receivePacket data ((p.bytes seq).map some ++ line) =
        ⟨0, p.payload.length, data', line⟩ ∧
      Vector.toList data' = p.bytes seq ++ old := by
  obtain ⟨data', hrun, hdata⟩ := receivePacket_over p seq data line
  exact ⟨data', _, hrun, hdata⟩

/-! ### Receiving the session -/

section Session

variable {sfWriteBuffer : SfWriteBuffer}

variable (sfWriteBuffer) in
/-- The loop gets from `s` to `t` in some number of turns. -/
def Reaches (s t : Receiver) : Prop :=
  ∃ j, ∀ k, receiveLoop sfWriteBuffer (j + k) s = receiveLoop sfWriteBuffer k t

theorem Reaches.trans {s t u : Receiver} (hst : Reaches sfWriteBuffer s t)
    (htu : Reaches sfWriteBuffer t u) : Reaches sfWriteBuffer s u := by
  obtain ⟨i, hi⟩ := hst
  obtain ⟨j, hj⟩ := htu
  refine ⟨i + j, fun k => ?_⟩
  rw [Nat.add_assoc, hi, hj]

theorem reaches_next {s t : Receiver} (h : receiveTurn sfWriteBuffer s = .next t) :
    Reaches sfWriteBuffer s t := by
  refine ⟨1, fun k => ?_⟩
  rw [Nat.add_comm, receiveLoop, h]

theorem reaches_fileDone {s t : Receiver} (h : receiveTurn sfWriteBuffer s = .fileDone t) :
    Reaches sfWriteBuffer s { t with packetsReceived := 0 } := by
  refine ⟨1, fun k => ?_⟩
  rw [Nat.add_comm, receiveLoop, h]

variable (sfWriteBuffer) in
/-- A timeout within the error limit is answered with `C`. -/
theorem receiveTurn_timeout {line : SerialLine} {s : Receiver} (hline : s.line = none :: line)
    (herr : s.errors + (if s.sessionBegin then 1 else 0) ≤ 5) :
    receiveTurn sfWriteBuffer s = .next { s with
      line
      errors := s.errors + if s.sessionBegin then 1 else 0
      sent := s.sent ++ [0x43] } := by
  rw [receiveTurn, hline, receivePacket_timeout]
  cases hb : s.sessionBegin with
  | false =>
      have hle : ¬ s.errors > 5 := by
        rw [hb] at herr
        simpa using herr
      simp [badPacket, hle, sendBytes]
  | true =>
      have hle : ¬ s.errors + 1 > 5 := by
        rw [hb, if_pos rfl] at herr
        omega
      simp [badPacket, hle, sendBytes]

variable (sfWriteBuffer) in
/-- Timeouts within the error limit change the error count and what is sent. -/
theorem reaches_timeouts {w : ℕ} {line : SerialLine} {s : Receiver}
    (hline : s.line = List.replicate w none ++ line)
    (herr : s.errors + (if s.sessionBegin then w else 0) ≤ 5) :
    ∃ errors sent, Reaches sfWriteBuffer s { s with line, errors, sent } := by
  induction w generalizing s with
  | zero =>
      have hs : s = { s with line, errors := s.errors, sent := s.sent } := by
        rw [List.replicate_zero, List.nil_append] at hline
        rw [← hline]
      exact ⟨s.errors, s.sent, 0, fun k => by rw [Nat.zero_add, ← hs]⟩
  | succ w ih =>
      have hturn := receiveTurn_timeout sfWriteBuffer (s := s) hline
        (by split_ifs at herr ⊢ <;> omega)
      obtain ⟨errors, sent, h⟩ := ih (s := { s with
          line := List.replicate w none ++ line
          errors := s.errors + if s.sessionBegin then 1 else 0
          sent := s.sent ++ [0x43] }) rfl (by
        dsimp only
        split_ifs at herr ⊢ <;> omega)
      exact ⟨errors, sent, (reaches_next hturn).trans h⟩

/-- Between two packets: `i` packets of the file have arrived, the next one goes
to `addr`, and `line` is still to come. -/
structure Receiving (n i addr : ℕ) (flash : Flash) (line : SerialLine) (s : Receiver) : Prop where
  size : s.size = n
  received : s.packetsReceived = i
  began : s.sessionBegin = true
  errors : s.errors = 0
  address : s.flashDestination = UInt32.ofNat addr
  flash : s.flash = flash
  line : s.line = line

variable (sfWriteBuffer) in
theorem receiveTurn_packet (p : Packet) (seq : UInt8) (line : SerialLine) {s : Receiver}
    (hline : s.line = (p.bytes seq).map some ++ line) :
    ∃ data old, Vector.toList data = p.bytes seq ++ old ∧
      receiveTurn sfWriteBuffer s = goodPacket sfWriteBuffer p.payload.length
        { s with packetData := data, line, errors := 0 } := by
  obtain ⟨data, old, hrun, hdata⟩ := receivePacket_packet p seq s.packetData line
  refine ⟨data, old, hdata, ?_⟩
  rw [receiveTurn, hline, hrun]
  rfl

theorem getElem_copyPacket {length : ℕ} {data : PacketData} {buf : Vector UInt8 1024} {i : ℕ}
    (hi : i < 1024) (hlen : i < length) : (copyPacket length data buf)[i] = data[i + 3] := by
  have h := Vector.getElem_ofFn (f := fun i : Fin 1024 =>
    if i.val < length then data[i.val + 3] else buf.get i) hi
  exact h.trans (if_pos hlen)

/-- The bytes of the packet that are passed to `sf_WriteBuffer`. -/
theorem take_copyPacket {data : PacketData} {p : Packet} {seq : UInt8} {old : List UInt8}
    (h : data.toList = p.bytes seq ++ old) (buf : Vector UInt8 1024) :
    (copyPacket p.payload.length data buf).toList.take 8 = p.payload.take 8 := by
  have hlen : 8 ≤ p.payload.length := by
    rcases p.length_eq with h | h <;> omega
  apply List.ext_getElem
  · rw [List.length_take, List.length_take, Vector.length_toList]
    omega
  · intro i h1 h2
    have hi : i < 8 := by
      rw [List.length_take] at h1
      omega
    have hpay : i < p.payload.length := by omega
    have hdata : data[i + 3] = p.payload[i] := by
      have hil : i + 3 < (p.bytes seq).length := by
        rw [p.length_bytes]
        omega
      have hget : data[i + 3] = (p.bytes seq)[i + 3] :=
        get_of_toList h (i := ⟨i + 3, by omega⟩) hil
      rw [hget]
      simp [Packet.bytes, hpay]
    rw [List.getElem_take, List.getElem_take, Vector.getElem_toList,
      getElem_copyPacket (by omega) hpay, hdata]

theorem filePacket_of_written {length : ℕ} {s : Receiver} {flash : Flash}
    (h : sfWriteBuffer (copyPacket length s.packetData s.buf) s.flashDestination 8 s.flash =
      (true, flash)) :
    filePacket sfWriteBuffer length s = accept (sendBytes [0x06] { s with
      buf := copyPacket length s.packetData s.buf
      flash
      flashDestination := s.flashDestination + UInt32.ofNat length }) := by
  rw [filePacket]
  simp only [h]
  rfl

theorem reaches_filePacket (hsf : Working sfWriteBuffer) {n i addr w : ℕ} {flash : Flash}
    {line : SerialLine} {p : Packet} (hi : 0 < i) (haddr : addr < 2 ^ 32) (hw : w ≤ 5)
    {s : Receiver}
    (hs : Receiving n i addr flash (packetLine w (p.bytes (UInt8.ofNat i)) line) s) :
    ∃ t, Reaches sfWriteBuffer s t ∧
      Receiving n (i + 1) (addr + p.payload.length)
        (store flash addr (p.payload.take 8)) line t := by
  obtain ⟨errors, sent, hwait⟩ := reaches_timeouts sfWriteBuffer
    (hs.line.trans rfl) (by rw [hs.errors, hs.began, if_pos rfl]; omega)
  obtain ⟨data, old, hdata, hturn⟩ := receiveTurn_packet sfWriteBuffer p
    (UInt8.ofNat i) line (s := { s with line := _, errors, sent }) rfl
  have hseq : ¬ (data.get 1).toNat ≠ s.packetsReceived % 256 := by
    rw [get_of_toList hdata (by simp [Packet.bytes]), hs.received]
    simp [Packet.bytes]
  have hlen : p.payload.length ≠ 0 := by
    rcases p.length_eq with h | h <;> omega
  have hnotAbort : ¬ (p.payload.length : ℤ) = -1 := by omega
  have hnotEot : ¬ (p.payload.length : ℤ) = 0 := by omega
  have hfirst : ¬ s.packetsReceived = 0 := by
    rw [hs.received]
    omega
  have hwrite := hsf (copyPacket p.payload.length data s.buf) s.flashDestination 8 s.flash
    (by decide)
  have haddr' : (UInt32.ofNat addr).toNat = addr := UInt32.toNat_ofNat_of_lt' haddr
  rw [show (8 : UInt16).toNat = 8 from rfl, take_copyPacket hdata] at hwrite
  have hfile := filePacket_of_written
    (s := { s with packetData := data, line, errors := 0, sent }) hwrite
  rw [goodPacket, if_neg hnotAbort, if_neg hnotEot, if_neg hseq, if_neg hfirst,
    Int.toNat_natCast, hfile] at hturn
  refine ⟨_, hwait.trans (reaches_next hturn), ?_⟩
  exact {
    size := hs.size
    received := congrArg (· + 1) hs.received
    began := rfl
    errors := rfl
    address := by
      simp only [sendBytes]
      rw [hs.address, ← UInt32.ofNat_add]
    flash := by
      simp only [sendBytes]
      rw [hs.address, haddr', hs.flash]
    line := rfl }

theorem reaches_file (hsf : Working sfWriteBuffer) {n : ℕ} {line : SerialLine}
    {qs : List (ℕ × Packet)} (hqs : ∀ q ∈ qs, q.1 ≤ 5) {i addr : ℕ} {flash : Flash}
    (hi : 0 < i) (haddr : addr + (qs.map fun q => q.2.payload).flatten.length < 2 ^ 32)
    {s : Receiver} (hs : Receiving n i addr flash (fileLine i qs line) s) :
    ∃ t j, Reaches sfWriteBuffer s t ∧
      Receiving n (i + qs.length) j
        (storeHeads 8 flash addr (qs.map fun q => q.2.payload)) line t := by
  induction qs generalizing i addr flash s with
  | nil => exact ⟨s, addr, ⟨0, fun k => by rw [Nat.zero_add]⟩, hs⟩
  | cons q qs ih =>
      rw [List.map_cons, List.flatten_cons, List.length_append] at haddr
      obtain ⟨t, hst, ht⟩ := reaches_filePacket hsf hi (by omega) (hqs q (by simp)) hs
      obtain ⟨u, j, htu, hu⟩ := ih (fun q hq => hqs q (List.mem_cons_of_mem _ hq)) (by omega)
        (by omega) ht
      refine ⟨u, j, hst.trans htu, ?_⟩
      rw [List.length_cons, Nat.add_comm qs.length 1, ← Nat.add_assoc]
      exact hu

variable (sfWriteBuffer) in
theorem reaches_eot {n i addr w : ℕ} {flash : Flash} {line : SerialLine} (hw : w ≤ 5)
    {s : Receiver} (hs : Receiving n i addr flash (packetLine w [0x04] line) s) :
    ∃ t, Reaches sfWriteBuffer s t ∧ Receiving n 0 addr flash line t := by
  obtain ⟨errors, sent, hwait⟩ := reaches_timeouts sfWriteBuffer
    (hs.line.trans rfl) (by rw [hs.errors, hs.began, if_pos rfl]; omega)
  have hturn : receiveTurn sfWriteBuffer
      { s with line := [0x04].map some ++ line, errors, sent } =
        .fileDone { s with line, errors := 0, sent := sent ++ [0x06] } := rfl
  exact ⟨_, hwait.trans (reaches_fileDone hturn),
    { size := hs.size
      received := rfl
      began := hs.began
      errors := rfl
      address := hs.address
      flash := hs.flash
      line := rfl }⟩

variable (sfWriteBuffer) in
theorem receiveLoop_last {n addr w : ℕ} {flash : Flash} {line : SerialLine} {p : Packet}
    (hp : p.payload.head? = some 0) (hw : w ≤ 5) {s : Receiver}
    (hs : Receiving n 0 addr flash (packetLine w (p.bytes 0) line) s) :
    ∃ k t, receiveLoop sfWriteBuffer k s = some ((n : ℤ), t) ∧ t.flash = flash := by
  obtain ⟨errors, sent, j, hwait⟩ := reaches_timeouts sfWriteBuffer
    (hs.line.trans rfl) (by rw [hs.errors, hs.began, if_pos rfl]; omega)
  obtain ⟨data, old, hdata, hturn⟩ := receiveTurn_packet sfWriteBuffer p 0 line
    (s := { s with line := _, errors, sent }) rfl
  obtain ⟨bs, hbs⟩ : ∃ bs, p.payload = 0 :: bs := by
    cases h : p.payload with
    | nil => simp [h] at hp
    | cons b bs =>
        rw [h, List.head?_cons, Option.some.injEq] at hp
        exact ⟨bs, by rw [hp]⟩
  have hseq : ¬ (data.get 1).toNat ≠ s.packetsReceived % 256 := by
    rw [get_of_toList hdata (by simp [Packet.bytes]), hs.received]
    simp [Packet.bytes]
  have hempty : ¬ data.get 3 ≠ 0 := by
    rw [get_of_toList hdata (by simp [Packet.bytes, hbs])]
    simp [Packet.bytes, hbs]
  have hlen : p.payload.length ≠ 0 := by
    rcases p.length_eq with h | h <;> omega
  have hnotAbort : ¬ (p.payload.length : ℤ) = -1 := by omega
  have hnotEot : ¬ (p.payload.length : ℤ) = 0 := by omega
  rw [goodPacket, if_neg hnotAbort, if_neg hnotEot, if_neg hseq, if_pos hs.received, namePacket,
    if_neg hempty] at hturn
  refine ⟨j + 1, sendBytes [0x06] { s with packetData := data, line, errors := 0, sent }, ?_,
    hs.flash⟩
  rw [hwait, receiveLoop, hturn]
  exact congrArg (fun size => some (size, _)) hs.size

/-! ### The header -/

theorem takeWhile_take_of_stop {l : List UInt8} (rest : List UInt8) (c stop : UInt8) {m : ℕ}
    (hl : ∀ b ∈ l, b ≠ stop) (hlen : l.length < m) :
    ∃ rest', ((l ++ c :: rest).take m).takeWhile (· ≠ stop) =
      if c = stop then l else l ++ c :: rest' := by
  obtain ⟨j, hj⟩ : ∃ j, m = l.length + (j + 1) := ⟨m - l.length - 1, by omega⟩
  have htake : (l ++ c :: rest).take m = l ++ c :: rest.take j := by
    rw [hj, List.take_length_add_append, List.take_succ_cons]
  have hall : ∀ b ∈ l, decide (b ≠ stop) = true := fun b hb => decide_eq_true (hl b hb)
  refine ⟨(rest.take j).takeWhile (· ≠ stop), ?_⟩
  rw [htake, List.takeWhile_append_of_pos hall, List.takeWhile_cons]
  by_cases hc : c = stop <;> simp [hc]

variable {F : List UInt8} (T : Transmission F)

theorem header_read (hF : F.length < 10 ^ 6) {data : PacketData} {old : List UInt8}
    (hdata : data.toList = T.header.bytes 0 ++ old) :
    headerName data = T.name ∧ ∃ rest, headerSize data = decimal F.length ++ 0 :: rest := by
  obtain ⟨c, rest, hc, hpay⟩ := T.header_payload
  obtain ⟨tail, htail⟩ : ∃ tail, data.toList.drop 3 =
      T.name ++ 0 :: (decimal F.length ++ c :: tail) := by
    refine ⟨rest ++ [T.header.trailer.1, T.header.trailer.2] ++ old, ?_⟩
    rw [hdata, Packet.bytes, hpay]
    simp
  have hname : headerName data = T.name := by
    obtain ⟨_, h⟩ := takeWhile_take_of_stop (decimal F.length ++ c :: tail) 0 0
      (fun b hb => ne_of_mem_of_not_mem hb T.name_bytes) T.name_length
    rw [headerName, htail, h, if_pos rfl]
  refine ⟨hname, ?_⟩
  have hdrop : data.toList.drop (3 + (headerName data).length + 1) =
      decimal F.length ++ c :: tail := by
    rw [hname, Nat.add_assoc, ← List.drop_drop, htail, ← List.drop_drop]
    simp
  have hdigits : ∀ b ∈ decimal F.length, b ≠ 0x20 := by
    intro b hb
    obtain ⟨d, hd, rfl⟩ := mem_decimal hb
    exact (digitByte_spec hd).2.1
  have hlen := decimal_length_le hF
  obtain ⟨rest', h⟩ := takeWhile_take_of_stop tail c 0x20 (m := 16) hdigits (by omega)
  rw [headerSize, hdrop, h]
  rcases hc with rfl | rfl
  · exact ⟨rest' ++ [0], by simp⟩
  · exact ⟨[], by simp⟩

variable (sfWriteBuffer) in
theorem reaches_header (hF : 0 < F.length) (hlt : F.length ≤ 0x80000 - 1) {line : SerialLine}
    {s : Receiver} (hline : s.line = packetLine T.headerWait (T.header.bytes 0) line)
    (hbegin : s.sessionBegin = false) (herr : s.errors = 0) (hfirst : s.packetsReceived = 0)
    (haddr : s.flashDestination = 0) :
    ∃ t, Reaches sfWriteBuffer s t ∧ Receiving F.length 1 0 s.flash line t := by
  obtain ⟨errors, sent, hwait⟩ := reaches_timeouts sfWriteBuffer
    (hline.trans rfl) (by rw [herr, hbegin]; simp)
  obtain ⟨data, old, hdata, hturn⟩ := receiveTurn_packet sfWriteBuffer T.header
    0 line (s := { s with line := _, errors, sent }) rfl
  obtain ⟨hname, rest, hsize⟩ := header_read T (by omega) hdata
  have hseq : ¬ (data.get 1).toNat ≠ s.packetsReceived % 256 := by
    rw [get_of_toList hdata (by simp [Packet.bytes]), hfirst]
    simp [Packet.bytes]
  have hnamed : data.get 3 ≠ 0 := by
    obtain ⟨c, rest, -, hpay⟩ := T.header_payload
    obtain ⟨b, name, hb⟩ := List.exists_cons_of_ne_nil T.name_ne_nil
    have hne : b ≠ 0 := by
      intro h
      apply T.name_bytes
      rw [hb, h]
      exact List.mem_cons_self
    rw [get_of_toList hdata (by simp [Packet.bytes, hpay])]
    simpa [Packet.bytes, hpay, hb] using hne
  have hint : (str2Int (headerSize data) s.size).2 = (F.length : ℤ) := by
    rw [hsize, str2Int_decimal hF (by omega)]
  have hfits : ¬ (F.length : ℤ) > 0x80000 - 1 := by omega
  have hlen : T.header.payload.length ≠ 0 := by
    rcases T.header.length_eq with h | h <;> omega
  have hnotAbort : ¬ (T.header.payload.length : ℤ) = -1 := by omega
  have hnotEot : ¬ (T.header.payload.length : ℤ) = 0 := by omega
  rw [goodPacket, if_neg hnotAbort, if_neg hnotEot, if_neg hseq, if_pos hfirst, namePacket,
    if_pos hnamed] at hturn
  simp only [hint] at hturn
  rw [if_neg hfits] at hturn
  refine ⟨_, hwait.trans (reaches_next hturn), ?_⟩
  exact {
    size := rfl
    received := congrArg (· + 1) hfirst
    began := rfl
    errors := rfl
    address := haddr
    flash := rfl
    line := rfl }

/-! ### The whole session -/

/-- The download comes to an end, reports the file and has stored it. -/
def Downloads (sfWriteBuffer : SfWriteBuffer) (T : Transmission F) (buf : Vector UInt8 1024)
    (packetData : PacketData) (flash : Flash) (after : SerialLine) : Prop :=
  ∃ k r t, ymodemReceive sfWriteBuffer k buf packetData flash (T.line after) = some (r, t) ∧
    Stores F T.total flash r t.flash

theorem ymodemReceive_session (hsf : Working sfWriteBuffer) (hF : 0 < F.length)
    (hlt : F.length ≤ 0x80000 - 1) (buf : Vector UInt8 1024) (packetData : PacketData)
    (flash : Flash) (after : SerialLine) :
    ∃ k t, ymodemReceive sfWriteBuffer k buf packetData flash (T.line after) =
        some ((F.length : ℤ), t) ∧
      t.flash = storeHeads 8 flash 0 T.chunks := by
  have htotal : 0 + (T.file.map fun q => q.2.payload).flatten.length < 2 ^ 32 := by
    have h := T.total_le
    rw [Transmission.total, Transmission.chunks] at h
    omega
  obtain ⟨t, ⟨a, hst⟩, ht⟩ := reaches_header sfWriteBuffer T hF hlt
    (s := { packetData, buf, fileName := [], size := 0, flashDestination := 0, flash
            line := T.line after, sent := [], packetsReceived := 0, errors := 0
            sessionBegin := false }) rfl rfl rfl rfl rfl
  obtain ⟨u, i, ⟨b, htu⟩, hu⟩ := reaches_file hsf T.fileWait_le Nat.one_pos htotal ht
  obtain ⟨v, ⟨c, huv⟩, hv⟩ := reaches_eot sfWriteBuffer T.eotWait_le hu
  obtain ⟨d, w, hrun, hw⟩ := receiveLoop_last sfWriteBuffer T.last_payload
    T.lastWait_le hv
  refine ⟨a + (b + (c + d)), w, ?_, hw⟩
  rw [ymodemReceive, hst, htu, huv, hrun]

/-- What one call of the flash driver stores for each packet is its head. -/
theorem stores_iff (flash : Flash) :
    Stores F T.total flash F.length (storeHeads 8 flash 0 T.chunks) ↔
      ∀ k (h : k < F.length), 8 ≤ offset T.chunks k → flash k = F[k] := by
  have hinside : ∀ k (h : k < F.length), storeHeads 8 flash 0 T.chunks k =
      if offset T.chunks k < 8 then F[k] else flash k := by
    intro k h
    have hk : k < T.chunks.flatten.length := lt_of_lt_of_le h T.length_le_total
    have hget : T.chunks.flatten[k] = F[k] := (T.file_payload.getElem h).symm
    have hheads := storeHeads_inside 8 flash 0 hk
    rwa [Nat.zero_add, hget] at hheads
  constructor
  · rintro ⟨-, hstored, -⟩ k h hoff
    have hk := hstored k h
    rwa [hinside k h, if_neg (by omega)] at hk
  · intro hrest
    refine ⟨rfl, fun k h => ?_, fun k hk => storeHeads_beyond 8 ?_⟩
    · rw [hinside k h]
      split
      · rfl
      · exact hrest k h (by omega)
    · rw [Nat.zero_add]
      exact hk

/-- A download stores the file exactly when the flash already held every byte
of it that is not among the first 8 of its packet. -/
theorem downloads_iff (hsf : Working sfWriteBuffer) (hF : 0 < F.length)
    (hlt : F.length ≤ 0x80000 - 1) (buf : Vector UInt8 1024) (packetData : PacketData)
    (flash : Flash) (after : SerialLine) :
    Downloads sfWriteBuffer T buf packetData flash after ↔
      ∀ k (h : k < F.length), 8 ≤ offset T.chunks k → flash k = F[k] := by
  obtain ⟨k, t, hrun, ht⟩ := ymodemReceive_session T hsf hF hlt buf packetData flash after
  rw [← stores_iff T flash, ← ht]
  constructor
  · rintro ⟨k', r, t', hrun', hstores⟩
    have hsame : (r, t') = ((F.length : ℤ), t) := receiveLoop_unique sfWriteBuffer hrun' hrun
    obtain ⟨rfl, rfl⟩ := Prod.mk.inj hsame
    exact hstores
  · intro hstores
    exact ⟨k, _, t, hrun, hstores⟩

end Session

/-! ### A session of one packet -/

/-- `sf_WriteBuffer` as the driver describes it. -/
def flashWrite : SfWriteBuffer := fun buf addr size flash =>
  (true, store flash addr.toNat (buf.toList.take size.toNat))

theorem working_flashWrite : Working flashWrite := fun _ _ _ _ _ => rfl

/-- A packet of 128 bytes, padded with `0x1A`. -/
def shortPacket (bytes : List UInt8) (h : bytes.length ≤ 128) : Packet where
  long := false
  payload := bytes ++ List.replicate (128 - bytes.length) 0x1A
  trailer := (0, 0)
  length_payload := by
    rw [List.length_append, List.length_replicate]
    simp only [Bool.false_eq_true, if_false]
    omega

/-- Nine bytes sent under the name `a`. -/
def nineBytes : List UInt8 := List.replicate 9 0x5A

def nineBytesSent : Transmission nineBytes where
  name := [0x61]
  header := shortPacket [0x61, 0, 0x39, 0] (by decide)
  file := [(1, shortPacket nineBytes (by decide))]
  last := shortPacket [0] (by decide)
  headerWait := 2
  eotWait := 0
  lastWait := 1
  name_ne_nil := by decide
  name_bytes := by decide
  name_length := by decide
  header_payload := ⟨0, List.replicate 124 0x1A, Or.inl rfl, by decide⟩
  file_payload := ⟨List.replicate 119 0x1A, by decide⟩
  file_length := by decide
  last_payload := by decide
  fileWait_le := by decide
  eotWait_le := by decide
  lastWait_le := by decide

def erased : Flash := fun _ => 0xFF

theorem downloads_iff_nineBytes : 0 < nineBytes.length ∧ nineBytes.length ≤ 0x80000 - 1 ∧
    (Downloads flashWrite nineBytesSent (Vector.replicate 1024 0) (Vector.replicate 1029 0)
        erased [] ↔
      ∀ k (h : k < nineBytes.length), 8 ≤ offset nineBytesSent.chunks k →
        erased k = nineBytes[k]) :=
  ⟨by decide, by decide, downloads_iff nineBytesSent working_flashWrite (by decide) (by decide)
    (Vector.replicate 1024 0) (Vector.replicate 1029 0) erased []⟩

/-- The download of nine bytes reports success and leaves the last one erased. -/
theorem nineBytes_not_stored :
    (∃ k t, ymodemReceive flashWrite k (Vector.replicate 1024 0) (Vector.replicate 1029 0) erased
        (nineBytesSent.line []) = some (9, t) ∧ t.flash 8 = 0xFF) ∧
      ¬ Downloads flashWrite nineBytesSent (Vector.replicate 1024 0) (Vector.replicate 1029 0)
        erased [] := by
  obtain ⟨k, t, hrun, ht⟩ := ymodemReceive_session nineBytesSent working_flashWrite (by decide)
    (by decide) (Vector.replicate 1024 0) (Vector.replicate 1029 0) erased []
  have hoff : offset nineBytesSent.chunks 8 = 8 := by
    have hlen := (shortPacket nineBytes (by decide)).length_payload
    apply if_pos
    rw [hlen]
    decide
  have hlost : t.flash 8 = 0xFF := by
    have htotal : 8 < nineBytesSent.chunks.flatten.length :=
      lt_of_lt_of_le (by decide) nineBytesSent.length_le_total
    have h := storeHeads_inside 8 erased 0 htotal
    rw [ht]
    exact h.trans (if_neg (by rw [hoff]; decide))
  refine ⟨⟨k, t, hrun, hlost⟩, ?_⟩
  rintro ⟨k', r, t', hrun', -, hstored, -⟩
  have hsame : (r, t') = ((nineBytes.length : ℤ), t) :=
    receiveLoop_unique flashWrite hrun' hrun
  obtain ⟨rfl, rfl⟩ := Prod.mk.inj hsame
  have h8 := hstored 8 (by decide)
  rw [hlost] at h8
  exact absurd h8 (by decide)

end YckjAcu
