import YckjAcu.CardEvents
import YckjAcu.TcpClient

/-!
# From a reader's event to the server

A card event comes from the reader in two frames, is kept in the reader's row,
becomes a message of sixteen bytes one iteration later and then a frame of
thirty-three bytes to the server.
-/

namespace YckjAcu

open Writes

inductive EventKind
  | insertion
  | removal
deriving DecidableEq

namespace EventKind

/-- First byte of the first frame. -/
def part1 : EventKind → UInt8
  | .insertion => 0x03
  | .removal => 0x05

/-- First byte of the second frame. -/
def part2 : EventKind → UInt8
  | .insertion => 0x04
  | .removal => 0x06

/-- Last byte of the acknowledgement. -/
def ack : EventKind → UInt8
  | .insertion => 0xAA
  | .removal => 0x55

/-- Third byte of the frame to the server. -/
def report : EventKind → UInt8
  | .insertion => 0x11
  | .removal => 0x13

/-- The kind byte of the receive buffer, and the event bit of the row. -/
def mark : EventKind → UInt8
  | .insertion => 0x05
  | .removal => 0x06

def bit : EventKind → UInt8
  | .insertion => 0x01
  | .removal => 0x02

end EventKind

structure CardEvent where
  kind : EventKind
  card : Vector UInt8 4
  amount : Vector UInt8 3
  check : UInt8
  code : UInt8

namespace CardEvent

/-- The first frame of the event of reader `n`, with any two last bytes. -/
def IsPart1 (ev : CardEvent) (n : UInt8) (m : CanRxMsg) : Prop :=
  m.dlc ≠ 0 ∧ ∃ x y, m.data =
    #v[ev.kind.part1, n, ev.card.get 0, ev.card.get 1, ev.card.get 2, ev.card.get 3, x, y]

/-- The second frame, with any last byte. -/
def IsPart2 (ev : CardEvent) (n : UInt8) (m : CanRxMsg) : Prop :=
  m.dlc ≠ 0 ∧ ∃ x, m.data =
    #v[ev.kind.part2, n, ev.amount.get 0, ev.amount.get 1, ev.amount.get 2, ev.check, ev.code, x]

def collected (ev : CardEvent) : Vector UInt8 10 :=
  #v[ev.kind.mark, ev.card.get 0, ev.card.get 1, ev.card.get 2, ev.card.get 3, ev.amount.get 0,
    ev.amount.get 1, ev.amount.get 2, ev.check, ev.code]

/-- The event of reader `n` arrives in order, with at most nine empty results
before each frame. -/
def Traffic (ev : CardEvent) (n : UInt8) (rx : List (Option CanRxMsg)) : Prop :=
  ∃ i j m1 m2 rest, i ≤ 9 ∧ j ≤ 9 ∧ ev.IsPart1 n m1 ∧ ev.IsPart2 n m2 ∧
    rx = List.replicate i none ++ some m1 :: (List.replicate j none ++ some m2 :: rest)

/-- The frame to the server for the reader with serial number `sn`. -/
def report (ev : CardEvent) (n : UInt8) (sn : Vector UInt8 4) (acuAdd : Vector UInt8 16) :
    List UInt8 :=
  [0xF3, 0x21, ev.kind.report, acuAdd.get 0, acuAdd.get 1, acuAdd.get 2, acuAdd.get 3, acuAdd.get 4,
    acuAdd.get 5, acuAdd.get 6, acuAdd.get 7, acuAdd.get 8, acuAdd.get 9, acuAdd.get 10,
    acuAdd.get 11, acuAdd.get 12, acuAdd.get 13, acuAdd.get 14, acuAdd.get 15, sn.get 0, sn.get 1,
    sn.get 2, sn.get 3, ev.card.get 0, ev.card.get 1, ev.card.get 2, ev.card.get 3, ev.check,
    ev.amount.get 0, ev.amount.get 1, ev.amount.get 2, n, ev.code]

end CardEvent

/-! ### The poll -/

section Poll

variable {ev : CardEvent} {n : UInt8}

theorem receivePart2_insertion (recebuf : Vector UInt8 8) (uBuff : Vector UInt8 10)
    {bus : CanBus} {j : ℕ} {m : CanRxMsg} {rest : List (Option CanRxMsg)} (hj : j ≤ 9)
    (hm : ev.IsPart2 n m) (hrx : bus.rx = List.replicate j none ++ some m :: rest) :
    receivePart2 ev.kind.part2 n 0 recebuf uBuff bus =
      some (0xAA, secondHalf m.data uBuff, { bus with rx := rest }) := by
  obtain ⟨hdlc, x, hdata⟩ := hm
  have hn : m.data.get 1 = n := by rw [hdata]; rfl
  have h0 : m.data.get 0 = ev.kind.part2 := by rw [hdata]; rfl
  have hrecv : receiveFor 1 n (List.replicate j none ++ some m :: rest) 0 recebuf 10 =
      some (m.dlc, m.data, rest) := receiveFor_skip 1 m hn hdlc rest (by omega)
  simp [receivePart2, hrx, hrecv, hdlc, hn, h0]

/-- The poll frame goes out before the answer is read. -/
theorem canSendPBusCom_of_receive {uBuff : Vector UInt8 10} {bus : CanBus} {res : UInt8}
    {recebuf : Vector UInt8 8} {rx : List (Option CanRxMsg)}
    (h : receiveFor 1 n bus.rx 0 (Vector.replicate 8 0) 10 = some (res, recebuf, rx)) :
    canSendPBusCom n uBuff bus = pollAnswer n res recebuf uBuff
      ⟨rx, bus.tx ++ [canTxMsg #v[0x01, n, 0, 0, 0, 0, 0, 0]]⟩ := by
  simp [canSendPBusCom, h, packageSendBuf]

theorem secondHalf_firstHalf {m1 m2 : CanRxMsg} (uBuff : Vector UInt8 10) (h1 : ev.IsPart1 n m1)
    (h2 : ev.IsPart2 n m2) :
    secondHalf m2.data (firstHalf ev.kind.mark m1.data uBuff) = ev.collected := by
  obtain ⟨_, x, y, hdata1⟩ := h1
  obtain ⟨_, z, hdata2⟩ := h2
  simp [secondHalf, firstHalf, hdata1, hdata2, CardEvent.collected]

theorem pollAnswer_insertion (uBuff : Vector UInt8 10) {bus : CanBus}
    (hev : ev.kind = .insertion) {j : ℕ} {m1 m2 : CanRxMsg} {rest : List (Option CanRxMsg)}
    (hj : j ≤ 9) (h1 : ev.IsPart1 n m1) (h2 : ev.IsPart2 n m2)
    (hrx : bus.rx = List.replicate j none ++ some m2 :: rest) :
    pollAnswer n m1.dlc m1.data uBuff bus = some (0xAA, ev.collected, { bus with rx := rest }) := by
  have hcollected := secondHalf_firstHalf uBuff h1 h2
  have hpart := receivePart2_insertion m1.data (firstHalf 0x05 m1.data uBuff) hj h2 hrx
  obtain ⟨hdlc, x, y, hdata⟩ := h1
  have hn : m1.data.get 1 = n := by rw [hdata]; rfl
  have h0 : m1.data.get 0 = 0x03 := by rw [hdata, hev]; rfl
  simp only [hev, EventKind.mark, EventKind.part2] at hcollected hpart
  simp [pollAnswer, hdlc, hn, h0, hpart, hcollected]

/-- The first poll of a removal leaves half of it in the buffer and fails. -/
theorem pollAnswer_removal_part1 (uBuff : Vector UInt8 10) (bus : CanBus)
    (hev : ev.kind = .removal) {m1 : CanRxMsg} (h1 : ev.IsPart1 n m1) :
    pollAnswer n m1.dlc m1.data uBuff bus = some (0x00, firstHalf 0x06 m1.data uBuff, bus) := by
  obtain ⟨hdlc, x, y, hdata⟩ := h1
  have hn : m1.data.get 1 = n := by rw [hdata]; rfl
  have h0 : m1.data.get 0 = 0x05 := by rw [hdata, hev]; rfl
  simp [pollAnswer, receivePart2, receiveFor_of_res, hdlc, hn, h0]

theorem pollAnswer_removal_part2 (uBuff : Vector UInt8 10) (bus : CanBus)
    (hev : ev.kind = .removal) {m2 : CanRxMsg} (h2 : ev.IsPart2 n m2) :
    pollAnswer n m2.dlc m2.data uBuff bus = some (0xAA, secondHalf m2.data uBuff, bus) := by
  obtain ⟨hdlc, x, hdata⟩ := h2
  have hn : m2.data.get 1 = n := by rw [hdata]; rfl
  have h0 : m2.data.get 0 = 0x06 := by rw [hdata, hev]; rfl
  simp [pollAnswer, hdlc, hn, h0]

theorem receiveFor_part {m : CanRxMsg} {i : ℕ} (hn : m.data.get 1 = n) (hdlc : m.dlc ≠ 0)
    (hi : i ≤ 9) (rest : List (Option CanRxMsg)) :
    receiveFor 1 n (List.replicate i none ++ some m :: rest) 0 (Vector.replicate 8 0) 10 =
      some (m.dlc, m.data, rest) :=
  receiveFor_skip 1 m hn hdlc rest (by omega)

end Poll

/-- Either kind of event is collected whole, with one or two poll frames sent. -/
theorem pollTwice_event {ev : CardEvent} {no : ℕ} {can : CanBus}
    (h : ev.Traffic (UInt8.ofNat no) can.rx) (tempBuff : Vector UInt8 10) : ∃ k rest,
    pollTwice no tempBuff can = some (0xAA, ev.collected, ⟨rest, can.tx ++
      List.replicate k (canTxMsg #v[0x01, UInt8.ofNat no, 0, 0, 0, 0, 0, 0])⟩) := by
  obtain ⟨i, j, m1, m2, rest, hi, hj, h1, h2, hrx⟩ := h
  have hn1 : m1.data.get 1 = UInt8.ofNat no := by
    obtain ⟨_, x, y, hdata⟩ := h1
    rw [hdata]
    rfl
  have hn2 : m2.data.get 1 = UInt8.ofNat no := by
    obtain ⟨_, x, hdata⟩ := h2
    rw [hdata]
    rfl
  have hfirst := receiveFor_part hn1 h1.1 hi (List.replicate j none ++ some m2 :: rest)
  rw [← hrx] at hfirst
  cases hev : ev.kind with
  | insertion =>
      refine ⟨1, rest, ?_⟩
      rw [pollTwice, canSendPBusCom_of_receive hfirst, pollAnswer_insertion _ hev hj h1 h2 rfl]
      simp
  | removal =>
      refine ⟨2, rest, ?_⟩
      have hsecond := receiveFor_part hn2 h2.1 hj rest
      have hcollected := secondHalf_firstHalf tempBuff h1 h2
      rw [hev, EventKind.mark] at hcollected
      rw [pollTwice, canSendPBusCom_of_receive hfirst, pollAnswer_removal_part1 _ _ hev h1]
      simp only [Option.bind_eq_bind, Option.bind_some, if_true]
      rw [canSendPBusCom_of_receive hsecond, pollAnswer_removal_part2 _ _ hev h2, hcollected]
      simp [List.replicate_succ]

/-! ### The row -/

/-- The row has the event pending, under the serial number `sn`. -/
structure RowHolds (ev : CardEvent) (sn : Vector UInt8 4) (r : Row) : Prop where
  bits : r.get 0 &&& 0x03 = ev.kind.bit
  fields : r = #v[r.get 0, sn.get 0, sn.get 1, sn.get 2, sn.get 3, ev.card.get 0, ev.card.get 1,
    ev.card.get 2, ev.card.get 3, ev.amount.get 0, ev.amount.get 1, ev.amount.get 2, ev.check,
    ev.code]

theorem RowHolds.pending {ev : CardEvent} {sn : Vector UInt8 4} {r : Row} (h : RowHolds ev sn r) :
    r.Pending := by
  rw [Row.Pending, h.bits]
  cases ev.kind <;> decide

theorem mark_status (kind : EventKind) {status : UInt8} (h : status &&& 0x03 = 0) :
    (if kind.mark = 0x05 then status ||| 0x01 else if kind.mark = 0x06 then status ||| 0x02
      else status) &&& 0x03 = kind.bit := by
  revert h
  cases kind <;> revert status <;> decide +kernel

theorem rowHolds_eventRow (ev : CardEvent) {r : Row} (h : ¬ r.Pending) :
    RowHolds ev r.serial (eventRow ev.collected r) := by
  refine ⟨?_, rfl⟩
  exact mark_status ev.kind (not_not.mp h)

theorem dropUnnumbered_self (no : ℕ) (t : RunTable) :
    (dropUnnumbered no t no).serial = (t no).serial ∧
      (¬ (t no).Pending → ¬ (dropUnnumbered no t no).Pending) := by
  unfold dropUnnumbered
  split
  · simp [Row.serial, Row.Pending, Buffers.get_setIfInBounds_of_ne]
  · exact ⟨rfl, id⟩

theorem readRunningData_event {ev : CardEvent} {no : ℕ} {s : PowerBus}
    (huse : (s.g_RUNDate no).InUse) (hidle : ¬ (s.g_RUNDate no).Pending)
    (h : ev.Traffic (UInt8.ofNat no) s.can.rx) (tempBuff : Vector UInt8 10)
    (uBuff : Vector UInt8 8) : ∃ t k, readRunningData no tempBuff uBuff s = some t ∧
      t.can.tx = s.can.tx ++
        List.replicate k (canTxMsg #v[0x01, UInt8.ofNat no, 0, 0, 0, 0, 0, 0]) ++
        [canTxMsg #v[0x07, UInt8.ofNat no, ev.card.get 0, ev.card.get 1, ev.card.get 2,
          ev.card.get 3, ev.kind.ack, 0]] ∧
      RowHolds ev (s.g_RUNDate no).serial (t.g_RUNDate no) := by
  obtain ⟨k, rest, hpoll⟩ := pollTwice_event h tempBuff
  obtain ⟨hserial, hdrop⟩ := dropUnnumbered_self no s.g_RUNDate
  have hrow := rowHolds_eventRow ev (hdrop hidle)
  rw [hserial] at hrow
  have hread : readRunningData no tempBuff uBuff s = some (storeAnswer no uBuff
      { s with g_RUNDate := dropUnnumbered no s.g_RUNDate } (0xAA, ev.collected, ⟨rest, s.can.tx ++
        List.replicate k (canTxMsg #v[0x01, UInt8.ofNat no, 0, 0, 0, 0, 0, 0])⟩)) := by
    rw [readRunningData, if_pos huse, hpoll]
    rfl
  refine ⟨_, k, hread, ?_, ?_⟩
  · have hkind : (if ev.kind.bit = 0x01 then (0xAA : UInt8) else if ev.kind.bit = 0x02 then 0x55
        else uBuff.get 5) = ev.kind.ack := by
      cases ev.kind <;> rfl
    have hack : ackBuff no ev.collected uBuff
        (eventRow ev.collected (dropUnnumbered no s.g_RUNDate no)) =
        #v[UInt8.ofNat no, ev.card.get 0, ev.card.get 1, ev.card.get 2, ev.card.get 3, ev.kind.ack,
          uBuff.get 6, uBuff.get 7] := by
      rw [ackBuff, hrow.bits, hkind]
      rfl
    simp [storeAnswer, canReadPBusSucceed, packageSendBuf, hack]
  · simpa [storeAnswer] using hrow

/-! ### Between the poll and the forwarding -/

/-- A normal heartbeat reply for reader `n`, which clears its event bits. -/
def Wipes (n : ℕ) (server : Option (Vector UInt8 11)) : Prop :=
  ∃ m ∈ server, m.get 0 = 0xCC ∧ (m.get 7).toNat = n

theorem status_reply (status : UInt8) :
    ((status &&& 0x3F) ||| 0x80) &&& 0x03 = status &&& 0x03 := by
  revert status
  decide +kernel

theorem status_replyError (status : UInt8) :
    ((status &&& 0x3F) ||| 0x40) &&& 0x03 = status &&& 0x03 := by
  revert status
  decide +kernel

theorem setStatus_apply (t : RunTable) (i n : ℕ) (status : UInt8) :
    t.setStatus i status n = (t n).setIfInBounds 0 (if n = i then status else (t n).get 0) := by
  by_cases hn : n = i
  · subst hn
    simp
  · simp [hn, t.setStatus_of_ne]

theorem writeRFIDData_row {m : Vector UInt8 11} {s t : PowerBus} (h : writeRFIDData m s = some t)
    (n : ℕ) : ∃ status, t.g_RUNDate n = (s.g_RUNDate n).setIfInBounds 0 status ∧
      status &&& (0x03 : UInt8) =
        if m.get 0 = 0xCC ∧ (m.get 7).toNat = n then (0 : UInt8)
        else (s.g_RUNDate n).get 0 &&& (0x03 : UInt8) := by
  have hstore : ∀ {i status} {u : PowerBus}, s.storeStatus i status = some u →
      u.g_RUNDate n = (s.g_RUNDate n).setIfInBounds 0
        (if n = i then status else (s.g_RUNDate n).get 0) := by
    intro i status u hu
    rw [PowerBus.storeStatus] at hu
    split_ifs at hu
    cases hu
    exact setStatus_apply _ _ _ _
  rw [writeRFIDData, Option.map_eq_some_iff] at h
  obtain ⟨u, hu, rfl⟩ := h
  unfold writeByKind at hu
  split_ifs at hu with hAA hBB h55 hCC
  · obtain ⟨v, hv, rfl⟩ := Option.map_eq_some_iff.mp hu
    have hrow := hstore hv
    refine ⟨_, hrow, ?_⟩
    split_ifs <;> simp_all [status_reply]
  · cases hu
    exact ⟨(s.g_RUNDate n).get 0, by simp [PowerBus.packageSend], by simp [hBB]⟩
  · obtain ⟨v, hv, rfl⟩ := Option.map_eq_some_iff.mp hu
    have hrow := hstore hv
    refine ⟨_, hrow, ?_⟩
    split_ifs <;> simp_all [status_replyError]
  · obtain ⟨v, hv, rfl⟩ := Option.map_eq_some_iff.mp hu
    have hrow := hstore hv
    refine ⟨_, hrow, ?_⟩
    by_cases hn : n = (m.get 7).toNat
    · rw [if_pos hn, if_pos ⟨hCC, hn.symm⟩]
      rfl
    · rw [if_neg hn, if_neg fun h => hn h.2.symm]
  · cases hu
    exact ⟨(s.g_RUNDate n).get 0, by simp, by simp [hCC]⟩

theorem RowHolds.set_status {ev : CardEvent} {sn : Vector UInt8 4} {r : Row} {status : UInt8}
    (h : RowHolds ev sn r) (hstatus : status &&& (0x03 : UInt8) = r.get 0 &&& (0x03 : UInt8)) :
    RowHolds ev sn (r.setIfInBounds 0 status) := by
  refine ⟨?_, ?_⟩
  · rw [← h.bits, ← hstatus]
    simp
  · rw [h.fields]
    simp

theorem answerServer_row {server : Option (Vector UInt8 11)} {s t : LedState} {n : ℕ}
    (h : s.answerServer server = some t) :
    (Wipes n server → ¬ (t.row n).Pending) ∧
      (¬ Wipes n server → ∀ ev sn, RowHolds ev sn (s.row n) → RowHolds ev sn (t.row n)) := by
  cases server with
  | none =>
      cases h
      exact ⟨by simp [Wipes], fun _ _ _ hrow => hrow⟩
  | some m =>
      obtain ⟨bus, hbus, rfl⟩ := Option.map_eq_some_iff.mp h
      obtain ⟨status, hrow, hstatus⟩ := writeRFIDData_row hbus n
      have hwipes : Wipes n (some m) ↔ m.get 0 = 0xCC ∧ (m.get 7).toNat = n := by simp [Wipes]
      have hrow' : ({ s with bus := bus } : LedState).row n =
        (s.row n).setIfInBounds 0 status := hrow
      rw [hwipes, hrow']
      constructor
      · intro hw
        rw [if_pos hw] at hstatus
        simp [Row.Pending, hstatus]
      · intro hw ev sn hholds
        rw [if_neg hw] at hstatus
        exact hholds.set_status hstatus

theorem answerServer_keeps {server : Option (Vector UInt8 11)} {s t : LedState}
    (h : s.answerServer server = some t) : t.posted = s.posted ∧ t.vars = s.vars := by
  cases server with
  | none =>
      cases h
      exact ⟨rfl, rfl⟩
  | some m =>
      obtain ⟨bus, _, rfl⟩ := Option.map_eq_some_iff.mp h
      exact ⟨rfl, rfl⟩

/-! ### Two iterations -/

/-- The end of an iteration does not touch rows and messages. -/
theorem ledIteration_parts {a : LedInput} {s t : LedState} (h : ledIteration a s = some t) :
    ∃ u v, (s.atPoll a).pollScan a = some u ∧ u.answerServer a.server = some v ∧
      (∀ n, t.row n = v.row n) ∧ t.posted = u.posted ∧
      t.vars.ledTaskCount = LedState.nextCount u.vars.ledTaskCount := by
  obtain ⟨u, hu, h⟩ := Option.bind_eq_some_iff.mp h
  obtain ⟨v, hv, h⟩ := Option.bind_eq_some_iff.mp h
  cases h
  have htimer := LedState.sameScan_broadcastTimer v.advance
  have hadv : v.advance.bus = v.bus ∧ v.advance.posted = v.posted := by
    unfold LedState.advance
    split_ifs <;> exact ⟨rfl, rfl⟩
  obtain ⟨hposted, hvars⟩ := answerServer_keeps hv
  refine ⟨u, v, hu, hv, fun n => ?_, ?_, ?_⟩
  · rw [LedState.row, htimer.table, hadv.1]
    rfl
  · rw [htimer.posted, hadv.2, hposted]
  · rw [LedState.advance_timer, hvars]

theorem atPoll_rx (a : LedInput) (s : LedState) :
    (s.atPoll a).bus.can.rx = s.bus.can.rx ++ a.rx := by
  have hcost : ∀ u : LedState, u.broadcastCost.bus.can.rx = u.bus.can.rx := by
    intro u
    unfold LedState.broadcastCost
    split_ifs
    · dsimp only
      split <;> rfl
    · rfl
  have hkey : ∀ u : LedState, (u.broadcastKey a.fm1702Key a.fm1702KeyCRC).bus.can.rx =
      u.bus.can.rx := by
    intro u
    unfold LedState.broadcastKey
    split_ifs
    · dsimp only
      split <;> rfl
    · rfl
  rw [LedState.atPoll, hkey, hcost]
  rfl

/-- The poll in one iteration fills the row for the next one. -/
theorem ledIteration_collects {ev : CardEvent} {a : LedInput} {s t : LedState} {n : ℕ}
    (hn : s.vars.ledTaskCount + 1 = n) (hlt : s.vars.ledTaskCount < busnumSize)
    (huse : (s.row n).InUse) (hidle : ¬ (s.row n).Pending)
    (htraffic : ev.Traffic (UInt8.ofNat n) (s.bus.can.rx ++ a.rx))
    (h : ledIteration a s = some t) :
    t.vars.ledTaskCount = n ∧ (Wipes n a.server → ¬ (t.row n).Pending) ∧
      (¬ Wipes n a.server → RowHolds ev (s.row n).serial (t.row n)) := by
  subst hn
  obtain ⟨u, v, hu, hv, hrows, _, hcount⟩ := ledIteration_parts h
  have hsame := LedState.sameScan_atPoll a s
  have hrow : ∀ n, (s.atPoll a).row n = s.row n := fun n => congrFun hsame.table n
  have hlt80 : s.vars.ledTaskCount < 80 := hlt
  rw [LedState.pollScan, hsame.count, if_pos hlt, Option.map_eq_some_iff] at hu
  obtain ⟨bus, hbus, rfl⟩ := hu
  obtain ⟨b, k, hb, _, hholds⟩ := readRunningData_event (s := (s.atPoll a).bus)
    (by rw [hsame.table]; exact huse) (by rw [hsame.table]; exact hidle)
    (by rw [atPoll_rx]; exact htraffic) a.tempBuff a.uBuff
  obtain rfl : bus = b := Option.some.inj (hbus.symm.trans hb)
  have hfwd := forwardEffect a.postOk { s.atPoll a with bus := bus }
  have hne : s.vars.ledTaskCount + 1 ≠ (s.atPoll a).vars.ledTaskCount := by
    rw [hsame.count]
    omega
  have hholds' : RowHolds ev (s.row (s.vars.ledTaskCount + 1)).serial
      (({ s.atPoll a with bus := bus } : LedState).forward a.postOk |>.row
        (s.vars.ledTaskCount + 1)) := by
    rw [hfwd.others _ hne, ← hrow]
    exact hholds
  obtain ⟨hwiped, hkept⟩ := answerServer_row (n := s.vars.ledTaskCount + 1) hv
  refine ⟨?_, fun hw => ?_, fun hw => ?_⟩
  · rw [hcount, hfwd.vars, hsame.count, LedState.nextCount, if_neg (by omega)]
  · rw [hrows]
    exact hwiped hw
  · rw [hrows]
    exact hkept hw _ _ hholds'

theorem ledIteration_forwards {a : LedInput} {s t : LedState} (hpost : a.postOk = true)
    (h : ledIteration a s = some t) :
    (s.vars.ledTaskCount < busnumSize →
      Forwarded s.vars.ledTaskCount (s.row s.vars.ledTaskCount) s.posted t.posted) ∧
    (¬ s.vars.ledTaskCount < busnumSize → t.posted = s.posted) := by
  obtain ⟨u, v, hu, _, _, hposted, _⟩ := ledIteration_parts h
  have hsame := LedState.sameScan_atPoll a s
  rw [hposted, ← hsame.posted, ← hsame.count]
  constructor
  · intro hlt
    obtain ⟨o, _, hscan, _⟩ := pollScan_spec hpost hlt hu
    have hrow : ∀ n, (s.atPoll a).row n = s.row n := fun n => congrFun hsame.table n
    rw [← hrow]
    exact hscan.posted
  · intro hge
    rw [LedState.pollScan, if_neg hge] at hu
    cases hu
    rfl

/-! ### The frame to the server -/

/-- Messages never change the address part of the card buffer. -/
def CardHeader (acuAdd : Vector UInt8 16) (buf : CardSendBuf) : Prop :=
  ∀ i (hi : i < 19), i ≠ 2 → buf[i] = (cardSendBuf acuAdd)[i]

theorem cardHeader_fillCard {acuAdd : Vector UInt8 16} {buf : CardSendBuf}
    (h : CardHeader acuAdd buf) (p : Vector UInt8 16) : CardHeader acuAdd (fillCard p buf) := by
  intro i hi hne
  rw [← h i hi hne]
  apply getElem_applyWrites_of_not_mem (by omega)
  simp [cardWrites, Fin.ext_iff]
  omega

theorem cardHeader_foldl {acuAdd : Vector UInt8 16} {buf : CardSendBuf}
    (earlier : List (Vector UInt8 16)) (h : CardHeader acuAdd buf) :
    CardHeader acuAdd (earlier.foldl (fun buf p => fillCard p buf) buf) := by
  induction earlier generalizing buf with
  | nil => exact h
  | cons p earlier ih =>
      rw [List.foldl_cons]
      exact ih (cardHeader_fillCard h p)

/-- A card frame for the fields of the message `p`. -/
def cardFrame (acuAdd : Vector UInt8 16) (p : Vector UInt8 16) : List UInt8 :=
  [0xF3, 0x21, p.get 1, acuAdd.get 0, acuAdd.get 1, acuAdd.get 2, acuAdd.get 3, acuAdd.get 4,
    acuAdd.get 5, acuAdd.get 6, acuAdd.get 7, acuAdd.get 8, acuAdd.get 9, acuAdd.get 10,
    acuAdd.get 11, acuAdd.get 12, acuAdd.get 13, acuAdd.get 14, acuAdd.get 15, p.get 2, p.get 3,
    p.get 4, p.get 5, p.get 6, p.get 7, p.get 8, p.get 9, p.get 13, p.get 10, p.get 11, p.get 12,
    p.get 14, p.get 15]

theorem cardSendBuf_eq (acuAdd : Vector UInt8 16) : cardSendBuf acuAdd =
    ⟨⟨[(0xF3 : UInt8), 0x21, 0x11, acuAdd.get 0, acuAdd.get 1, acuAdd.get 2, acuAdd.get 3,
      acuAdd.get 4, acuAdd.get 5, acuAdd.get 6, acuAdd.get 7, acuAdd.get 8, acuAdd.get 9,
      acuAdd.get 10, acuAdd.get 11, acuAdd.get 12, acuAdd.get 13, acuAdd.get 14, acuAdd.get 15,
      (0xD1 : UInt8), (0xD2 : UInt8), 0xD3, 0xD4, 0xC1, 0xC2, 0xC3, 0xC4, 0xD9, 0x4E, 0x20, 0x00,
      0x00, 0x00]⟩, rfl⟩ := by
  refine Vector.ext fun i hi => ?_
  rw [cardSendBuf, Vector.getElem_ofFn]
  interval_cases i <;> rfl

theorem writeCard_fillCard {acuAdd : Vector UInt8 16} {buf : CardSendBuf}
    (h : CardHeader acuAdd buf) (p : Vector UInt8 16) :
    writeCard (fillCard p buf) = cardFrame acuAdd p := by
  have hinit : fillCard p buf = fillCard p (cardSendBuf acuAdd) := by
    apply applyWrites_congr
    intro i hi hmem
    simp only [cardWrites, List.map_cons, List.map_nil, List.mem_cons, not_or, Fin.ext_iff] at hmem
    exact h i (by omega) (by omega)
  rw [hinit, cardSendBuf_eq]
  simp [writeCard, fillCard, cardWrites, cardFrame]

theorem RowHolds.cardFrame_eq {ev : CardEvent} {sn : Vector UInt8 4} {r : Row}
    (h : RowHolds ev sn r) (n : ℕ) (buf : Vector UInt8 16) (acuAdd : Vector UInt8 16) :
    cardFrame acuAdd (applyWrites (eventWrites n r) buf) =
      ev.report (UInt8.ofNat n) sn acuAdd := by
  have hkind : (if ev.kind.bit = 0x01 then (0x11 : UInt8) else if ev.kind.bit = 0x02 then 0x13
      else buf.get 1) = ev.kind.report := by
    cases ev.kind <;> rfl
  have hget : ∀ i, r.get i =
      (#v[r.get 0, sn.get 0, sn.get 1, sn.get 2, sn.get 3, ev.card.get 0, ev.card.get 1,
        ev.card.get 2, ev.card.get 3, ev.amount.get 0, ev.amount.get 1, ev.amount.get 2, ev.check,
        ev.code]).get i :=
    fun i => congrArg (fun v : Row => v.get i) h.fields
  rw [applyWrites_eventWrites, h.bits, hkind]
  simp [cardFrame, CardEvent.report, hget 1, hget 2, hget 3, hget 4, hget 5, hget 6, hget 7, hget 8,
    hget 9, hget 10, hget 11, hget 12, hget 13]

/-! ### The whole way -/

/-- In the iteration with input `a` the event reaches the poll of its reader,
which is in use and has nothing pending. -/
structure EventArrives (ev : CardEvent) (n : ℕ) (s : LedState) (a : LedInput) : Prop where
  count : s.vars.ledTaskCount + 1 = n
  reader : n ∈ logicNos
  used : (s.row n).InUse
  idle : ¬ (s.row n).Pending
  traffic : ev.Traffic (UInt8.ofNat n) (s.bus.can.rx ++ a.rx)

/-- The poll sends the acknowledgement after its poll frames. -/
def Acknowledged (ev : CardEvent) (n : ℕ) (s : LedState) (a : LedInput) : Prop :=
  ∃ b k, readRunningData n a.tempBuff a.uBuff (s.atPoll a).bus = some b ∧
    b.can.tx = (s.atPoll a).bus.can.tx ++
      List.replicate k (canTxMsg #v[0x01, UInt8.ofNat n, 0, 0, 0, 0, 0, 0]) ++
      [canTxMsg #v[0x07, UInt8.ofNat n, ev.card.get 0, ev.card.get 1, ev.card.get 2, ev.card.get 3,
        ev.kind.ack, 0]]

/-- The iteration from `t` to `u` posts the message that becomes the frame of the
event, whatever messages were sent before. -/
def Reported (ev : CardEvent) (n : ℕ) (sn : Vector UInt8 4) (t u : LedState) : Prop :=
  ∃ msg, u.posted = t.posted ++ [msg] ∧ ∀ acuAdd (earlier : List (Vector UInt8 16)),
    writeCard (fillCard msg (earlier.foldl (fun buf p => fillCard p buf) (cardSendBuf acuAdd))) =
      ev.report (UInt8.ofNat n) sn acuAdd

theorem EventArrives.acknowledged {ev : CardEvent} {n : ℕ} {s : LedState} {a : LedInput}
    (h : EventArrives ev n s a) : Acknowledged ev n s a := by
  have hsame := LedState.sameScan_atPoll a s
  obtain ⟨b, k, hb, htx, _⟩ := readRunningData_event (s := (s.atPoll a).bus)
    (by rw [hsame.table]; exact h.used) (by rw [hsame.table]; exact h.idle)
    (by rw [atPoll_rx]; exact h.traffic) a.tempBuff a.uBuff
  exact ⟨b, k, hb, htx⟩

theorem EventArrives.collects {ev : CardEvent} {n : ℕ} {s t : LedState} {a : LedInput}
    (h : EventArrives ev n s a) (ht : ledIteration a s = some t) :
    t.vars.ledTaskCount = n ∧ (Wipes n a.server → ¬ (t.row n).Pending) ∧
      (¬ Wipes n a.server → RowHolds ev (s.row n).serial (t.row n)) := by
  have hlt : s.vars.ledTaskCount < busnumSize := by
    have hn := (mem_logicNos.mp h.reader).2
    have hcount := h.count
    rw [busnumSize]
    omega
  exact ledIteration_collects h.count hlt h.used h.idle h.traffic ht

theorem not_reported {ev : CardEvent} {n : ℕ} {sn : Vector UInt8 4} {t u : LedState}
    (h : u.posted = t.posted) : ¬ Reported ev n sn t u := by
  rintro ⟨msg, hposted, _⟩
  rw [h] at hposted
  simpa using congrArg List.length hposted

/-- The event is acknowledged, and reported in the next iteration exactly when
the reader is not the last one and no heartbeat reply clears its row before. -/
theorem uplink_iff {ev : CardEvent} {n : ℕ} {s t u : LedState} {a a' : LedInput}
    (harr : EventArrives ev n s a) (hpost : a'.postOk = true) (ht : ledIteration a s = some t)
    (hu : ledIteration a' t = some u) :
    (Acknowledged ev n s a ∧ Reported ev n (s.row n).serial t u) ↔
      n ≠ 80 ∧ ¬ Wipes n a.server := by
  obtain ⟨hcount, hwiped, hkept⟩ := harr.collects ht
  obtain ⟨hforward, hskip⟩ := ledIteration_forwards hpost hu
  rw [hcount] at hforward hskip
  constructor
  · rintro ⟨_, hrep⟩
    refine ⟨?_, fun hw => ?_⟩
    · rintro rfl
      exact not_reported (hskip (by simp [busnumSize])) hrep
    · by_cases hlt : n < busnumSize
      · exact not_reported ((hforward hlt).idle (hwiped hw)) hrep
      · exact not_reported (hskip hlt) hrep
  · rintro ⟨hne, hw⟩
    have hlt : n < busnumSize := by
      have hn := (mem_logicNos.mp harr.reader).2
      rw [busnumSize]
      omega
    have hholds := hkept hw
    obtain ⟨buf, hposted⟩ := (hforward hlt).pending hholds.pending
    refine ⟨harr.acknowledged, _, hposted, fun acuAdd earlier => ?_⟩
    have hheader : CardHeader acuAdd (cardSendBuf acuAdd) := fun _ _ _ => rfl
    rw [writeCard_fillCard (cardHeader_foldl earlier hheader)]
    exact hholds.cardFrame_eq n buf acuAdd

/-- An insertion that reader `n` reports, and its traffic. -/
def insertedCard : CardEvent := ⟨.insertion, #v[0xC1, 0xC2, 0xC3, 0xC4], #v[0, 0x27, 0x10], 9, 0x5A⟩

def insertedCardInput (n : UInt8) : LedInput where
  rx := [some ⟨#v[0x03, n, 0xC1, 0xC2, 0xC3, 0xC4, 0, 0], 8⟩,
    some ⟨#v[0x04, n, 0, 0x27, 0x10, 9, 0x5A, 0], 8⟩]
  fm1702Key := Vector.replicate 7 0
  fm1702KeyCRC := 0
  tempBuff := Vector.replicate 10 0
  uBuff := Vector.replicate 8 0
  postOk := true
  server := none

def silentLedInput : LedInput := { insertedCardInput 0 with rx := [] }

/-- The loop before the poll of reader `n`, with every reader in use. -/
def beforePoll (n : ℕ) : LedState where
  bus := ⟨fun _ => #v[0x80, 1, 2, 3, 4, 0, 0, 0, 0, 0, 0, 0, 0, 0], ⟨[], []⟩, 5, 29⟩
  vars := ⟨29, 5, 0, 0, n - 1, 0, 0⟩
  g_SendDate := Vector.replicate 16 0
  posted := []

theorem eventArrives_insertedCard {n : ℕ} (hn : n ∈ logicNos) :
    EventArrives insertedCard n (beforePoll n) (insertedCardInput (UInt8.ofNat n)) where
  count := by
    have h1 := (mem_logicNos.mp hn).1
    simp only [beforePoll]
    omega
  reader := hn
  used := by
    simp only [LedState.row, beforePoll]
    decide
  idle := by
    simp only [LedState.row, beforePoll]
    decide
  traffic := ⟨0, 0, _, _, [], Nat.zero_le _, Nat.zero_le _, ⟨by simp, 0, 0, rfl⟩,
    ⟨by simp, 0, rfl⟩, rfl⟩

theorem uplink_iff_seven : ∃ t u,
    ledIteration (insertedCardInput 7) (beforePoll 7) = some t ∧
      ledIteration silentLedInput t = some u ∧
      ((Acknowledged insertedCard 7 (beforePoll 7) (insertedCardInput 7) ∧
          Reported insertedCard 7 ((beforePoll 7).row 7).serial t u) ↔
        7 ≠ 80 ∧ ¬ Wipes 7 (insertedCardInput 7).server) := by
  have hdef : ((ledIteration (insertedCardInput 7) (beforePoll 7)).bind
      (ledIteration silentLedInput)).isSome := by decide +kernel
  obtain ⟨u, hu⟩ := Option.isSome_iff_exists.mp hdef
  obtain ⟨t, ht, hu⟩ := Option.bind_eq_some_iff.mp hu
  exact ⟨t, u, ht, hu, uplink_iff (eventArrives_insertedCard (n := 7) (by decide)) rfl ht hu⟩

/-- The event of reader 80 is acknowledged but not reported. -/
theorem reader80_not_reported : ∃ t u,
    EventArrives insertedCard 80 (beforePoll 80) (insertedCardInput 80) ∧
      ledIteration (insertedCardInput 80) (beforePoll 80) = some t ∧
      ledIteration silentLedInput t = some u ∧
      Acknowledged insertedCard 80 (beforePoll 80) (insertedCardInput 80) ∧
      ¬ Reported insertedCard 80 ((beforePoll 80).row 80).serial t u := by
  have hdef : ((ledIteration (insertedCardInput 80) (beforePoll 80)).bind
      (ledIteration silentLedInput)).isSome := by decide +kernel
  obtain ⟨u, hu⟩ := Option.isSome_iff_exists.mp hdef
  obtain ⟨t, ht, hu⟩ := Option.bind_eq_some_iff.mp hu
  have harr := eventArrives_insertedCard (n := 80) (by decide)
  refine ⟨t, u, harr, ht, hu, harr.acknowledged, not_reported ?_⟩
  apply (ledIteration_forwards rfl hu).2
  rw [(harr.collects ht).1]
  decide

end YckjAcu
