import YckjAcu.Segmentation

/-!
# From a server frame to the bus

A reply of the server passes through `ser_Date` and `WriteRFIDData` before it is
sent to its reader.  The fields are followed through the three layouts, up to
the reader that joins the two halves of a card reply again.
-/

namespace YckjAcu

/-- The answer of `led_task` to all that a netbuf makes `tcp_client_thread` post. -/
def answerNetbuf (chain : List (List UInt8)) (s : ServerLink) (bus : PowerBus) :
    Option (ServerLink × PowerBus) := do
  let t ← receive chain s
  let bus ← (t.posted.drop s.posted.length).foldlM (fun bus m => writeRFIDData m bus) bus
  return (t, bus)

theorem IsServerFrame.answerNetbuf_eq {f : List UInt8} (h : IsServerFrame f)
    {chain : List (List UInt8)} (hchain : chain.flatten = f) (s : ServerLink) (bus : PowerBus) :
    answerNetbuf chain s bus =
      (writeRFIDData (overwrite (frameReply f) s.serDate) bus).map (afterFrame f s, ·) := by
  have hrecv := h.receive_eq_afterFrame (hchain.trans (List.append_nil f).symm) s
  have hposted : (afterFrame f s).posted.drop s.posted.length =
      [overwrite (frameReply f) s.serDate] := by
    simp [afterFrame, ServerLink.post]
  rw [answerNetbuf, hrecv]
  simp only [Option.bind_eq_bind, Option.bind_some, hposted, List.foldlM_cons, List.foldlM_nil]
  cases writeRFIDData (overwrite (frameReply f) s.serDate) bus <;> rfl

theorem IsServerFrame.answerNetbuf_of_write {f : List UInt8} (h : IsServerFrame f)
    {chain : List (List UInt8)} (hchain : chain.flatten = f) {s : ServerLink} {bus bus' : PowerBus}
    (hbus : writeRFIDData (overwrite (frameReply f) s.serDate) bus = some bus') :
    answerNetbuf chain s bus = some (afterFrame f s, bus') := by
  rw [h.answerNetbuf_eq hchain, hbus, Option.map_some]

/-- What a reader collects from the two halves of a card reply: serial number,
code, amount, check byte and code. -/
def joinHalves (part1 part2 : Vector UInt8 8) : List UInt8 :=
  [part1.get 2, part1.get 3, part1.get 4, part1.get 5, part1.get 6, part2.get 2, part2.get 3,
    part2.get 4, part2.get 5, part2.get 6]

section Kinds

variable {n : UInt8} (hn : n.toNat ∈ logicNos) (ser : SerDate) (bus : PowerBus)
include hn

theorem storeStatus_of_mem (status : UInt8) (s : PowerBus) :
    s.storeStatus n.toNat status =
      some { s with g_RUNDate := s.g_RUNDate.setStatus n.toNat status } := by
  have hle : n.toNat ≤ busnumSize := (mem_logicNos.mp hn).2
  rw [PowerBus.storeStatus, if_pos hle]

theorem writeRFIDData_card (s1 s2 s3 s4 k a1 a2 a3 c : UInt8) : ∃ bus',
    writeRFIDData (overwrite [0xAA, s1, s2, s3, s4, k, a1, a2, a3, n, c] ser) bus = some bus' ∧
      bus'.can.tx = bus.can.tx ++ [canTxMsg #v[0x08, n, s1, s2, s3, s4, c, 0],
        canTxMsg #v[0x09, n, a1, a2, a3, k, c,
          crc8Table [s1, s2, s3, s4, c, a1, a2, a3, k, c]]] := by
  simp [writeRFIDData, writeByKind, writeCardReply, overwrite, storeStatus_of_mem hn,
    PowerBus.packageSend, packageSendBuf]

omit hn in
theorem writeRFIDData_cardError (c1 c2 c3 c4 code c : UInt8) : ∃ bus',
    writeRFIDData (overwrite [0xBB, n, c1, c2, c3, c4, code, c] ser) bus = some bus' ∧
      bus'.can.tx = bus.can.tx ++ [canTxMsg #v[0x13, n, c1, c2, c3, c4, code, c]] := by
  simp [writeRFIDData, writeByKind, writeCardError, overwrite, PowerBus.packageSend, packageSendBuf]

theorem writeRFIDData_heartbeatError (e1 e2 e3 e4 : UInt8) : ∃ bus',
    writeRFIDData (overwrite [0x55, n, e1, e2, e3, e4] ser) bus = some bus' ∧
      bus'.can.tx = bus.can.tx ++ [canTxMsg #v[0x11, n, e1, e2, e3, e4, 0, 0]] := by
  simp [writeRFIDData, writeByKind, writeHeartbeatError, overwrite, storeStatus_of_mem hn,
    PowerBus.packageSend, packageSendBuf]

theorem writeRFIDData_heartbeat (s1 s2 s3 s4 cost num : UInt8) : ∃ bus',
    writeRFIDData (overwrite [0xCC, s1, s2, s3, s4, cost, num, n] ser) bus = some bus' ∧
      bus'.can.tx = bus.can.tx ∧ bus'.g_WaterCost = cost ∧ bus'.g_CostNum = num := by
  simp [writeRFIDData, writeByKind, writeHeartbeat, overwrite, storeStatus_of_mem hn]

end Kinds

/-- Handling the netbuf sends exactly these frames. -/
def Emits (chain : List (List UInt8)) (s : ServerLink) (bus : PowerBus)
    (frames : List (Vector UInt8 8)) : Prop :=
  ∃ t bus', answerNetbuf chain s bus = some (t, bus') ∧
    bus'.can.tx = bus.can.tx ++ frames.map canTxMsg

/-- Every field of a reply for reader `n` reaches the bus. -/
theorem downlink_fidelity {n : UInt8} (hn : n.toNat ∈ logicNos) (chain : List (List UInt8))
    (s : ServerLink) (bus : PowerBus) :
    (∀ e1 e2 e3 e4 s1 s2 s3 s4 k a1 a2 a3 c, chain.flatten =
        [0xF3, 0x12, 0x12, 0xAA, e1, e2, e3, e4, s1, s2, s3, s4, k, a1, a2, a3, n, c] →
      ∃ part1 part2, Emits chain s bus [part1, part2] ∧
        part1 = #v[0x08, n, s1, s2, s3, s4, c, 0] ∧
        part2 = #v[0x09, n, a1, a2, a3, k, c, crc8Table [s1, s2, s3, s4, c, a1, a2, a3, k, c]] ∧
        joinHalves part1 part2 = [s1, s2, s3, s4, c, a1, a2, a3, k, c] ∧
        crc8Table (joinHalves part1 part2) = part2.get 7) ∧
    (∀ e1 e2 e3 e4 s1 s2 s3 s4 c1 c2 c3 c4 c, chain.flatten =
        [0xF3, 0x12, 0x12, 0x00, e1, e2, e3, e4, s1, s2, s3, s4, c1, c2, c3, c4, n, c] →
      Emits chain s bus
        [#v[0x13, n, c1, c2, c3, c4, 10 * (e2 - 0x30) + (e4 - 0x30), c]]) ∧
    (∀ len e1 e2 e3 e4 mid, chain.flatten =
        [0xF3, len, 0x02, 0x00, e1, e2, e3, e4] ++ mid ++ [n] → len.toNat = mid.length + 9 →
      Emits chain s bus [#v[0x11, n, e1, e2, e3, e4, 0, 0]]) ∧
    (∀ s1 s2 s3 s4 cost num, chain.flatten =
        [0xF3, 0x0C, 0x02, 0xAA, 0xAA, s1, s2, s3, s4, cost, num, n] →
      Emits chain s bus [] ∧ ∃ t bus', answerNetbuf chain s bus = some (t, bus') ∧
        bus'.g_WaterCost = cost ∧ bus'.g_CostNum = num) := by
  refine ⟨?_, ?_, ?_, ?_⟩
  · intro e1 e2 e3 e4 s1 s2 s3 s4 k a1 a2 a3 c hchain
    have hframe : IsServerFrame
        [0xF3, 0x12, 0x12, 0xAA, e1, e2, e3, e4, s1, s2, s3, s4, k, a1, a2, a3, n, c] :=
      ⟨rfl, rfl, by simp⟩
    obtain ⟨bus', hbus, htx⟩ := writeRFIDData_card hn s.serDate bus s1 s2 s3 s4 k a1 a2 a3 c
    have heq := hframe.answerNetbuf_of_write hchain (s := s)
      (by simpa [frameReply, byteAt] using hbus)
    exact ⟨_, _, ⟨_, bus', heq, htx⟩, rfl, rfl, rfl, rfl⟩
  · intro e1 e2 e3 e4 s1 s2 s3 s4 c1 c2 c3 c4 c hchain
    have hframe : IsServerFrame
        [0xF3, 0x12, 0x12, 0x00, e1, e2, e3, e4, s1, s2, s3, s4, c1, c2, c3, c4, n, c] :=
      ⟨rfl, rfl, by simp⟩
    obtain ⟨bus', hbus, htx⟩ := writeRFIDData_cardError (n := n) s.serDate bus c1 c2 c3 c4
      (errorCode e2 e4) c
    have hcode : errorCode e2 e4 = 10 * (e2 - 0x30) + (e4 - 0x30) := by
      rw [errorCode, UInt8.mul_comm]
    rw [hcode] at htx
    exact ⟨_, bus', hframe.answerNetbuf_of_write hchain
      (by simpa [frameReply, byteAt] using hbus), htx⟩
  · intro len e1 e2 e3 e4 mid hchain hlen
    have hframe : IsServerFrame ([0xF3, len, 0x02, 0x00, e1, e2, e3, e4] ++ mid ++ [n]) :=
      ⟨rfl, by simp [hlen], by simp⟩
    obtain ⟨bus', hbus, htx⟩ := writeRFIDData_heartbeatError hn s.serDate bus e1 e2 e3 e4
    exact ⟨_, bus', hframe.answerNetbuf_of_write hchain
      (by simpa [frameReply, byteAt] using hbus), htx⟩
  · intro s1 s2 s3 s4 cost num hchain
    have hframe : IsServerFrame
        [0xF3, 0x0C, 0x02, 0xAA, 0xAA, s1, s2, s3, s4, cost, num, n] :=
      ⟨rfl, rfl, by simp⟩
    obtain ⟨bus', hbus, htx, hcosts⟩ :=
      writeRFIDData_heartbeat hn s.serDate bus s1 s2 s3 s4 cost num
    have heq := hframe.answerNetbuf_of_write hchain (s := s)
      (by simpa [frameReply, byteAt] using hbus)
    exact ⟨⟨_, bus', heq, by simpa using htx⟩, _, bus', heq, hcosts⟩

/-- Reader 7 and a card reply in two pbufs. -/
theorem downlink_fidelity_seven :
    ∃ part1 part2,
      Emits [[0xF3, 0x12, 0x12, 0xAA, 0, 0, 0, 0, 1, 2], [3, 4, 9, 0, 0x27, 0x10, 7, 0x5A]]
        ⟨Vector.replicate 11 0, 0, []⟩
        ⟨fun _ => Vector.replicate 14 0, ⟨[], []⟩, 5, 29⟩ [part1, part2] ∧
      part1 = #v[0x08, 7, 1, 2, 3, 4, 0x5A, 0] ∧
      part2 = #v[0x09, 7, 0, 0x27, 0x10, 9, 0x5A,
        crc8Table [1, 2, 3, 4, 0x5A, 0, 0x27, 0x10, 9, 0x5A]] ∧
      joinHalves part1 part2 = [1, 2, 3, 4, 0x5A, 0, 0x27, 0x10, 9, 0x5A] ∧
      crc8Table (joinHalves part1 part2) = part2.get 7 :=
  (downlink_fidelity (n := 7) (by decide)
    [[0xF3, 0x12, 0x12, 0xAA, 0, 0, 0, 0, 1, 2], [3, 4, 9, 0, 0x27, 0x10, 7, 0x5A]]
    ⟨Vector.replicate 11 0, 0, []⟩ ⟨fun _ => Vector.replicate 14 0, ⟨[], []⟩, 5, 29⟩).1
    0 0 0 0 1 2 3 4 9 0 0x27 0x10 0x5A rfl

end YckjAcu
