import YckjAcu.TcpClient

/-!
# Gathering a received netbuf

The copy loop of `tcp_client_thread` with its counter of 32 bits: what it writes,
where, and from which values it computes the room that is left.
-/

namespace YckjAcu

/-- A segment of the chain, with the 16-bit length of what its payload holds. -/
structure Pbuf where
  payload : List UInt8
  len : UInt16
  length_payload : payload.length = len.toNat

/-- The buffer and `data_len`.  `writes` are the offsets and lengths given to
`memcpy`, and `subtracted` the values that were taken from
`TCP_CLIENT_RX_BUFSIZE`. -/
structure RecvLoop where
  recvbuf : RecvBuf
  dataLen : UInt32
  writes : List (ℕ × ℕ)
  subtracted : List UInt32

/-- `memcpy(tcp_client_recvbuf+off, payload, n)`, as far as it is inside. -/
def copyIn (off n : ℕ) (payload : List UInt8) (buf : RecvBuf) : RecvBuf :=
  Vector.ofFn fun i =>
    if off ≤ i.val ∧ i.val < off + n then payload[i.val - off]?.getD 0 else buf.get i

/-- One pass of the loop, up to the test that ends it. -/
def copySegment (q : Pbuf) (s : RecvLoop) : RecvLoop :=
  let room := 1024 - s.dataLen
  let n := if q.len.toUInt32 > room then room else q.len.toUInt32
  { recvbuf := copyIn s.dataLen.toNat n.toNat q.payload s.recvbuf
    dataLen := s.dataLen + q.len.toUInt32
    writes := s.writes ++ [(s.dataLen.toNat, n.toNat)]
    subtracted := s.subtracted ++ [s.dataLen] }

def copyLoop : List Pbuf → RecvLoop → RecvLoop
  | [], s => s
  | q :: chain, s =>
      let s := copySegment q s
      if s.dataLen > 1024 then s else copyLoop chain s

/-- `memset`, the loop and `data_len=0`. -/
def copyNetbuf (chain : List Pbuf) (recvbuf : RecvBuf) (dataLen : UInt32) : RecvLoop :=
  let s := copyLoop chain ⟨recvbuf.map fun _ => 0, dataLen, [], []⟩
  { s with dataLen := 0 }

def payloads (chain : List Pbuf) : List UInt8 := (chain.map Pbuf.payload).flatten

structure RecvLoop.InBounds (s : RecvLoop) : Prop where
  writes : ∀ w ∈ s.writes, w.1 + w.2 ≤ 1024
  subtracted : ∀ d ∈ s.subtracted, d.toNat ≤ 1024

/-- The loop has taken the bytes `xs` and goes on. -/
structure RecvLoop.Holds (xs : List UInt8) (s : RecvLoop) : Prop extends s.InBounds where
  recvbuf : s.recvbuf = received xs
  dataLen : s.dataLen.toNat = xs.length
  room : xs.length ≤ 1024

section Segment

variable {xs : List UInt8} {s : RecvLoop} {q : Pbuf}

theorem copied_toNat (h : s.Holds xs) (q : Pbuf) :
    (if q.len.toUInt32 > 1024 - s.dataLen then 1024 - s.dataLen else q.len.toUInt32).toNat =
      if q.payload.length > 1024 - xs.length then 1024 - xs.length else q.payload.length := by
  have hle : s.dataLen ≤ 1024 := by
    rw [UInt32.le_iff_toNat_le, h.dataLen]
    exact h.room
  have hroom : (1024 - s.dataLen).toNat = 1024 - xs.length := by
    rw [UInt32.toNat_sub_of_le _ _ hle, h.dataLen]
    rfl
  have hlen : q.len.toUInt32.toNat = q.payload.length := by
    rw [UInt16.toNat_toUInt32, q.length_payload]
  rw [apply_ite UInt32.toNat, hroom, hlen]
  refine if_congr ?_ rfl rfl
  rw [gt_iff_lt, UInt32.lt_iff_toNat_lt, hroom, hlen]

theorem copyIn_received {n : ℕ} {payload : List UInt8} (hroom : xs.length ≤ 1024)
    (hn : n = if payload.length > 1024 - xs.length then 1024 - xs.length else payload.length) :
    copyIn xs.length n payload (received xs) = received (xs ++ payload) := by
  have hcopy := @memcpyRecv_received xs payload hroom
  rw [← hn, memcpyRecv] at hcopy
  split_ifs at hcopy
  exact Option.some.inj hcopy

theorem dataLen_copySegment (h : s.Holds xs) :
    (copySegment q s).dataLen.toNat = (xs ++ q.payload).length := by
  have hlen := q.len.toNat_lt
  have hroom := h.room
  rw [copySegment, UInt32.toNat_add, UInt16.toNat_toUInt32, h.dataLen, List.length_append,
    q.length_payload]
  exact Nat.mod_eq_of_lt (by omega)

theorem recvbuf_copySegment (h : s.Holds xs) :
    (copySegment q s).recvbuf = received (xs ++ q.payload) := by
  have hn := copied_toNat h q
  rw [copySegment]
  dsimp only
  rw [h.dataLen, h.recvbuf]
  exact copyIn_received h.room hn

theorem inBounds_copySegment (h : s.Holds xs) : (copySegment q s).InBounds := by
  have hroom := h.room
  have hn := copied_toNat h q
  constructor
  · intro w hw
    rcases List.mem_append.mp hw with hw | hw
    · exact h.writes w hw
    · rw [List.mem_singleton.mp hw, h.dataLen, hn]
      split_ifs <;> omega
  · intro d hd
    rcases List.mem_append.mp hd with hd | hd
    · exact h.subtracted d hd
    · rw [List.mem_singleton.mp hd, h.dataLen]
      exact hroom

end Segment

/-- The whole loop: behind the segment that fills the buffer nothing is copied. -/
theorem copyLoop_received {xs : List UInt8} {s : RecvLoop} (h : s.Holds xs)
    (chain : List Pbuf) :
    (copyLoop chain s).recvbuf = received (xs ++ payloads chain) ∧
      (copyLoop chain s).InBounds := by
  induction chain generalizing xs s with
  | nil =>
      rw [payloads, List.map_nil, List.flatten_nil, List.append_nil]
      exact ⟨h.recvbuf, h.toInBounds⟩
  | cons q chain ih =>
      have hbuf := recvbuf_copySegment (q := q) h
      have hlen := dataLen_copySegment (q := q) h
      have hin := inBounds_copySegment (q := q) h
      have hflat : xs ++ payloads (q :: chain) = xs ++ q.payload ++ payloads chain := by
        rw [payloads, List.map_cons, List.flatten_cons, List.append_assoc, payloads]
      rw [copyLoop]
      split_ifs with hfull
      · have hlong : 1024 ≤ (xs ++ q.payload).length := by
          rw [gt_iff_lt, UInt32.lt_iff_toNat_lt, hlen] at hfull
          exact hfull.le
        rw [hflat, received_append_of_full hlong]
        exact ⟨hbuf, hin⟩
      · have hshort : (xs ++ q.payload).length ≤ 1024 := by
          rw [gt_iff_lt, UInt32.lt_iff_toNat_lt, hlen, not_lt] at hfull
          exact hfull
        rw [hflat]
        exact ih { toInBounds := hin, recvbuf := hbuf, dataLen := hlen, room := hshort }

theorem copyNetbuf_received (chain : List Pbuf) (recvbuf : RecvBuf) :
    (copyNetbuf chain recvbuf 0).recvbuf = received (payloads chain) ∧
      (copyNetbuf chain recvbuf 0).InBounds := by
  have hzero : recvbuf.map (fun _ => 0) = received [] := by
    apply Vector.ext
    intro i hi
    rw [received_nil, Vector.getElem_map, Vector.getElem_replicate]
  have hstart : (RecvLoop.mk (recvbuf.map fun _ => 0) 0 [] []).Holds [] :=
    { writes := List.forall_mem_nil _
      subtracted := List.forall_mem_nil _
      recvbuf := hzero
      dataLen := rfl
      room := Nat.zero_le _ }
  obtain ⟨hbuf, hin⟩ := copyLoop_received hstart chain
  exact ⟨hbuf, ⟨hin.writes, hin.subtracted⟩⟩

/-- The loop of the connection's model gathers the same bytes. -/
theorem copyNetbuf_eq_recvNetbuf (chain : List Pbuf) (recvbuf : RecvBuf) :
    recvNetbuf (chain.map Pbuf.payload) = some (copyNetbuf chain recvbuf 0).recvbuf := by
  rw [recvNetbuf_eq, (copyNetbuf_received chain recvbuf).1, payloads]

/-- The front of the chain, filled up with zeros; no write and no difference leaves
its range, and the counter is 0 again. -/
theorem copyNetbuf_gathers (chain : List Pbuf) (recvbuf : RecvBuf) :
    (∀ i : Fin 1024, (copyNetbuf chain recvbuf 0).recvbuf.get i =
        if i.val < min (payloads chain).length 1024 then (payloads chain).getD i 0 else 0) ∧
      (∀ w ∈ (copyNetbuf chain recvbuf 0).writes, w.1 + w.2 ≤ 1024) ∧
      (∀ d ∈ (copyNetbuf chain recvbuf 0).subtracted, d.toNat ≤ 1024) ∧
      (copyNetbuf chain recvbuf 0).dataLen = 0 := by
  obtain ⟨hbuf, hin⟩ := copyNetbuf_received chain recvbuf
  refine ⟨fun i => ?_, hin.writes, hin.subtracted, rfl⟩
  rw [hbuf, received_get, List.getD_eq_getElem?_getD]
  split_ifs with hi
  · rfl
  · have hi1024 := i.isLt
    rw [List.getElem?_eq_none (by omega), Option.getD_none]

end YckjAcu
