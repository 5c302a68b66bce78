import YckjAcu.Lib.Ring
import YckjAcu.Lib.Runs
import YckjAcu.Lib.Turns
import YckjAcu.Common

/-!
# The transmit FIFO of a port

`UartSend` puts bytes into the FIFO and enables the interrupt that takes them out.
The interrupt, and the USART itself, may come between any two of its accesses that no
critical section joins, and also between the read and the write of `CR1` in
`USART_ITConfig`.
-/

namespace YckjAcu

/-- The transmit part of `UART_T`. -/
structure UartTx where
  pTxBuf : ℕ → UInt8
  usTxBufSize : UInt16
  usTxWrite : UInt16
  usTxRead : UInt16
  usTxCount : UInt16

namespace UartTx

def full (u : UartTx) : Bool := ¬ u.usTxCount < u.usTxBufSize

def store (byte : UInt8) (u : UartTx) : UartTx :=
  { u with pTxBuf := Function.update u.pTxBuf u.usTxWrite.toNat byte }

def advance (u : UartTx) : UartTx :=
  { u with
    usTxWrite := if u.usTxWrite + 1 ≥ u.usTxBufSize then 0 else u.usTxWrite + 1
    usTxCount := u.usTxCount + 1 }

def front (u : UartTx) : UInt8 := u.pTxBuf u.usTxRead.toNat

def drop (u : UartTx) : UartTx :=
  { u with
    usTxRead := if u.usTxRead + 1 ≥ u.usTxBufSize then 0 else u.usTxRead + 1
    usTxCount := u.usTxCount - 1 }

def queue (u : UartTx) : List UInt8 :=
  (List.range u.usTxCount.toNat).map fun k =>
    u.pTxBuf (Ring.place u.usTxBufSize.toNat u.usTxRead.toNat k)

end UartTx

/-- The enable bits of the transmit interrupts in `CR1`. -/
structure Cr1 where
  txeie : Bool
  tcie : Bool
deriving DecidableEq

/-- The transmitter: the data register, empty while `TXE` is set, the shift register,
and the flag `TC`. -/
structure Usart where
  dr : Option UInt8
  shift : Option UInt8
  tc : Bool
  cr1 : Cr1

namespace Usart

/-- A write to the data register after a read of the status register clears `TC`. -/
def sendData (byte : UInt8) (p : Usart) : Usart := { p with dr := some byte, tc := false }

/-- `USART_GetITStatus` for `USART_IT_TXE`. -/
def txeStatus (p : Usart) : Bool := p.cr1.txeie && p.dr.isNone

/-- `USART_GetITStatus` for `USART_IT_TC`. -/
def tcStatus (p : Usart) : Bool := p.cr1.tcie && p.tc

end Usart

/-- How far a call of `UartSend` has come: not begun, at the test of the count, with
room for the byte, with the byte in its cell, before `USART_ITConfig`, and with `CR1`
read. -/
inductive UartSend
  | idle
  | test (rest : List UInt8)
  | store (byte : UInt8) (rest : List UInt8)
  | stored (byte : UInt8) (rest : List UInt8)
  | config (cr1 : Cr1)

/-- The port with its RS485 transceiver.  All bytes that calls were given and all that
have left the shift register are kept for comparison. -/
structure SendSystem where
  tx : UartTx
  usart : Usart
  call : UartSend
  transmitMode : Bool
  given : List UInt8
  line : List UInt8

/-- Who is next: the call, the USART with a byte to load or with a byte at its end, or
the interrupt. -/
inductive SendTurn
  | go
  | load
  | sent
  | irq

inductive SendOp
  | comSendBuf (_ucaBuf : List UInt8)
  | turn (t : SendTurn)

namespace SendSystem

/-- `SendBefor`, which is `RS485_SendBefor`, and the call begins.  The code tests the
callback for 0; only UART4, which `UART4_FIFO_EN` leaves out, has one. -/
def comSendBuf (_ucaBuf : List UInt8) (s : SendSystem) : SendSystem :=
  { s with
    transmitMode := true
    call := .test _ucaBuf
    given := s.given ++ _ucaBuf }

def uartSend (s : SendSystem) : SendSystem :=
  match s.call with
  | .idle => s
  | .test [] => { s with call := .config s.usart.cr1 }
  | .test (byte :: rest) => if s.tx.full then s else { s with call := .store byte rest }
  | .store byte rest => { s with tx := s.tx.store byte, call := .stored byte rest }
  | .stored _ rest => { s with tx := s.tx.advance, call := .test rest }
  | .config cr1 =>
      { s with usart := { s.usart with cr1 := { cr1 with txeie := true } }, call := .idle }

def sendFront (s : SendSystem) : SendSystem :=
  { s with usart := s.usart.sendData s.tx.front, tx := s.tx.drop }

/-- The transmit part of `UartIRQ`, with `RS485_SendOver`. -/
def uartIRQ (s : SendSystem) : SendSystem :=
  if s.usart.txeStatus then
    if s.tx.usTxCount = 0 then
      { s with usart := { s.usart with cr1 := { txeie := false, tcie := true } } }
    else s.sendFront
  else if s.usart.tcStatus then
    if s.tx.usTxCount = 0 then
      { s with
        usart := { s.usart with cr1 := { s.usart.cr1 with tcie := false } }
        transmitMode := false }
    else s.sendFront
  else s

/-- An empty shift register takes the byte of the data register. -/
def load (s : SendSystem) : SendSystem :=
  match s.usart.shift, s.usart.dr with
  | none, some byte => { s with usart := { s.usart with shift := some byte, dr := none } }
  | _, _ => s

/-- A byte has left the shift register; without a next one `TC` is set. -/
def sent (s : SendSystem) : SendSystem :=
  match s.usart.shift with
  | none => s
  | some byte =>
      { s with
        usart := { s.usart with shift := none, tc := s.usart.tc || s.usart.dr.isNone }
        line := s.line ++ [byte] }

def turn : SendTurn → SendSystem → SendSystem
  | .go => uartSend
  | .load => load
  | .sent => sent
  | .irq => uartIRQ

/-- Calls of one port follow one another. -/
def step : SendOp → SendSystem → Option SendSystem
  | .comSendBuf _ucaBuf, s =>
      match s.call with
      | .idle => some (s.comSendBuf _ucaBuf)
      | _ => none
  | .turn t, s => some (turn t s)

/-- After `UartVarInit` and `InitHardUart`: `TC` is cleared, and no transmit interrupt
is enabled. -/
def start (pTxBuf : ℕ → UInt8) (usTxBufSize : UInt16) : SendSystem where
  tx := ⟨pTxBuf, usTxBufSize, 0, 0, 0⟩
  usart := ⟨none, none, false, ⟨false, false⟩⟩
  call := .idle
  transmitMode := false
  given := []
  line := []

/-- The bytes of the call that are not in the FIFO yet. -/
def inHand (s : SendSystem) : List UInt8 :=
  match s.call with
  | .idle | .config _ => []
  | .test rest => rest
  | .store byte rest | .stored byte rest => byte :: rest

def inUsart (s : SendSystem) : List UInt8 := s.usart.shift.toList ++ s.usart.dr.toList

end SendSystem

/-! ### The FIFO as a queue -/

theorem toNat_wrap {i size : UInt16} (hi : i.toNat < size.toNat) :
    (if i + 1 ≥ size then 0 else i + 1).toNat = Ring.next size.toNat i.toNat := by
  have hone : UInt16.toNat 1 = 1 := rfl
  have hlt := size.toNat_lt
  have hsucc : (i + 1).toNat = i.toNat + 1 := by
    rw [UInt16.toNat_add, hone]
    exact Nat.mod_eq_of_lt (by omega)
  have hiff : i + 1 ≥ size ↔ size.toNat ≤ i.toNat + 1 := by
    rw [ge_iff_le, UInt16.le_iff_toNat_le, hsucc]
  rw [Ring.next, apply_ite UInt16.toNat, hsucc]
  exact if_congr hiff rfl rfl

namespace UartTx

structure Holds (queue : List UInt8) (u : UartTx) : Prop where
  ring : Ring.Holds u.usTxBufSize.toNat u.pTxBuf u.usTxRead.toNat u.usTxWrite.toNat queue
  count : u.usTxCount.toNat = queue.length

variable {u : UartTx} {queue : List UInt8} {byte : UInt8}

theorem Holds.queue_eq (h : u.Holds queue) : u.queue = queue := by
  rw [UartTx.queue, h.count]
  exact h.ring.eq_map

theorem Holds.length_le (h : u.Holds queue) : queue.length ≤ u.usTxBufSize.toNat :=
  h.ring.length_le

theorem Holds.count_eq_zero_iff (h : u.Holds queue) : u.usTxCount = 0 ↔ queue = [] := by
  rw [← UInt16.toNat_inj, h.count]
  exact List.length_eq_zero_iff

theorem Holds.full_iff (h : u.Holds queue) :
    u.full = true ↔ queue.length = u.usTxBufSize.toNat := by
  have hle := h.length_le
  rw [full, decide_eq_true_iff, UInt16.lt_iff_toNat_lt, h.count]
  omega

theorem Holds.store (h : u.Holds queue) (hroom : queue.length < u.usTxBufSize.toNat) :
    (u.store byte).Holds queue :=
  ⟨h.ring.store hroom byte, h.count⟩

theorem Holds.advance (h : u.Holds queue) (hroom : queue.length < u.usTxBufSize.toNat)
    (hcell : u.pTxBuf u.usTxWrite.toNat = byte) : u.advance.Holds (queue ++ [byte]) := by
  constructor
  · have hpush := h.ring.push hroom byte
    rw [← hcell, Function.update_eq_self, hcell] at hpush
    rw [UartTx.advance, toNat_wrap h.ring.write_lt]
    exact hpush
  · have hlt := u.usTxBufSize.toNat_lt
    have hone : UInt16.toNat 1 = 1 := rfl
    rw [UartTx.advance, List.length_append, List.length_singleton, UInt16.toNat_add, h.count, hone]
    exact Nat.mod_eq_of_lt (by omega)

theorem Holds.front_eq (h : u.Holds (byte :: queue)) : u.front = byte := h.ring.pop.1

theorem Holds.drop (h : u.Holds (byte :: queue)) : u.drop.Holds queue := by
  constructor
  · rw [UartTx.drop, toNat_wrap h.ring.read_lt]
    exact h.ring.pop.2
  · have hcount : u.usTxCount.toNat = queue.length + 1 := h.count
    have hone : UInt16.toNat 1 = 1 := rfl
    have hle : (1 : UInt16) ≤ u.usTxCount := by
      rw [UInt16.le_iff_toNat_le, hone, hcount]
      omega
    rw [UartTx.drop, UInt16.toNat_sub_of_le _ _ hle, hone, hcount, Nat.add_sub_cancel]

end UartTx

/-! ### Every byte in its place -/

namespace SendSystem

/-- What a call relies on; after a call the interrupt is enabled until the FIFO is
empty. -/
def Ready (queue : List UInt8) (tx : UartTx) (txeie : Bool) : UartSend → Prop
  | .idle => txeie = false → queue = []
  | .store _ _ => queue.length < tx.usTxBufSize.toNat
  | .stored byte _ =>
      queue.length < tx.usTxBufSize.toNat ∧ tx.pTxBuf tx.usTxWrite.toNat = byte
  | .test _ | .config _ => True

/-- The bytes of `queue` are in the FIFO, between those in the USART and those in the
call's hands. -/
structure Holds (queue : List UInt8) (s : SendSystem) : Prop where
  tx : s.tx.Holds queue
  given : s.given = s.line ++ (s.inUsart ++ (queue ++ s.inHand))
  complete : s.usart.tc = true → s.inUsart = []
  ready : Ready queue s.tx s.usart.cr1.txeie s.call

def Sound (s : SendSystem) : Prop := ∃ queue, s.Holds queue

variable {s t : SendSystem} {queue : List UInt8} {byte : UInt8}

theorem Ready.of_nil {tx : UartTx} {b c : Bool} {call : UartSend} (h : Ready [] tx b call) :
    Ready [] tx c call := by
  cases call with
  | idle => exact fun _ => rfl
  | test rest => trivial
  | store byte rest => exact h
  | stored byte rest => exact h
  | config cr1 => trivial

theorem Ready.drop {tx : UartTx} {b : Bool} {call : UartSend}
    (h : Ready (byte :: queue) tx b call) : Ready queue tx.drop b call := by
  cases call with
  | idle => exact fun hb => absurd (h hb) (List.cons_ne_nil byte queue)
  | test rest => trivial
  | store byte rest => exact (Nat.lt_succ_self _).trans h
  | stored byte rest => exact ⟨(Nat.lt_succ_self _).trans h.1, h.2⟩
  | config cr1 => trivial

theorem Holds.queue_eq (h : s.Holds queue) : s.tx.queue = queue := h.tx.queue_eq

theorem sound_start (pTxBuf : ℕ → UInt8) {usTxBufSize : UInt16} (hpos : 0 < usTxBufSize) :
    (start pTxBuf usTxBufSize).Sound :=
  ⟨[], ⟨Ring.holds_nil (UInt16.lt_iff_toNat_lt.mp hpos), rfl⟩, rfl, fun h => absurd h Bool.false_ne_true,
    fun _ => rfl⟩

theorem Sound.comSendBuf (h : s.Sound) (hidle : s.call = .idle) (_ucaBuf : List UInt8) :
    (s.comSendBuf _ucaBuf).Sound := by
  obtain ⟨queue, h⟩ := h
  refine ⟨queue, h.tx, ?_, h.complete, trivial⟩
  have hhand : s.inHand = [] := by rw [inHand, hidle]
  have hgiven := h.given
  rw [hhand, List.append_nil] at hgiven
  change s.given ++ _ucaBuf = s.line ++ (s.inUsart ++ (queue ++ _ucaBuf))
  rw [hgiven, List.append_assoc, List.append_assoc]

theorem Holds.uartSend (h : s.Holds queue) : s.uartSend.Sound := by
  have hgiven := h.given
  have hready := h.ready
  unfold SendSystem.uartSend
  cases hcall : s.call with
  | idle => exact ⟨queue, h⟩
  | test rest =>
      rw [inHand, hcall] at hgiven
      cases rest with
      | nil => exact ⟨queue, h.tx, hgiven, h.complete, trivial⟩
      | cons byte rest =>
          dsimp only
          split_ifs with hfull
          · exact ⟨queue, h⟩
          · have hle := h.tx.length_le
            have hne := mt h.tx.full_iff.mpr hfull
            exact ⟨queue, h.tx, hgiven, h.complete, Nat.lt_of_le_of_ne hle hne⟩
  | store byte rest =>
      rw [inHand, hcall] at hgiven
      rw [hcall] at hready
      exact ⟨queue, h.tx.store hready, hgiven, h.complete, hready, Function.update_self _ _ _⟩
  | stored byte rest =>
      rw [inHand, hcall] at hgiven
      rw [hcall] at hready
      refine ⟨queue ++ [byte], h.tx.advance hready.1 hready.2, ?_, h.complete, trivial⟩
      rw [hgiven]
      change _ = s.line ++ (s.inUsart ++ (queue ++ [byte] ++ rest))
      rw [List.append_assoc queue]
      rfl
  | config cr1 =>
      rw [inHand, hcall] at hgiven
      exact ⟨queue, h.tx, hgiven, h.complete, fun hoff => absurd hoff.symm Bool.false_ne_true⟩

theorem Holds.sendFront (h : s.Holds (byte :: queue)) (hdr : s.usart.dr = none) :
    s.sendFront.Holds queue := by
  refine ⟨h.tx.drop, ?_, fun htc => absurd htc Bool.false_ne_true, h.ready.drop⟩
  have hgiven := h.given
  rw [inUsart, hdr] at hgiven
  rw [SendSystem.sendFront, Usart.sendData, h.tx.front_eq]
  change s.given = s.line ++ (s.usart.shift.toList ++ [byte] ++ (queue ++ s.inHand))
  rw [hgiven, List.append_assoc s.usart.shift.toList]
  simp

theorem txeStatus_iff {p : Usart} : p.txeStatus = true ↔ p.cr1.txeie = true ∧ p.dr = none := by
  simp [Usart.txeStatus]

theorem tcStatus_iff {p : Usart} : p.tcStatus = true ↔ p.cr1.tcie = true ∧ p.tc = true := by
  simp [Usart.tcStatus]

theorem Holds.dr_of_tc (h : s.Holds queue) (htc : s.usart.tc = true) : s.usart.dr = none := by
  have hnil := (List.append_eq_nil_iff.mp (h.complete htc)).2
  exact Option.toList_eq_nil_iff.mp hnil

theorem Holds.uartIRQ (h : s.Holds queue) : s.uartIRQ.Sound := by
  have hcons : ∀ hne : s.tx.usTxCount ≠ 0, s.usart.dr = none → s.sendFront.Sound := by
    intro hne hdr
    obtain ⟨byte, rest, rfl⟩ := List.exists_cons_of_ne_nil (mt h.tx.count_eq_zero_iff.mpr hne)
    exact ⟨rest, h.sendFront hdr⟩
  unfold SendSystem.uartIRQ
  split_ifs with htxe hzero htc hzero
  · obtain rfl := h.tx.count_eq_zero_iff.mp hzero
    exact ⟨[], h.tx, h.given, h.complete, h.ready.of_nil⟩
  · exact hcons hzero (txeStatus_iff.mp htxe).2
  · exact ⟨queue, h.tx, h.given, h.complete, h.ready⟩
  · exact hcons hzero (h.dr_of_tc (tcStatus_iff.mp htc).2)
  · exact ⟨queue, h⟩

theorem Holds.load (h : s.Holds queue) : s.load.Holds queue := by
  unfold SendSystem.load
  split
  · rename_i byte hshift hdr
    have hheld : s.inUsart = [byte] := by rw [inUsart, hshift, hdr]; rfl
    refine ⟨h.tx, ?_, fun htc => ?_, h.ready⟩
    · rw [h.given, hheld]
      rfl
    · have hnil := h.complete htc
      rw [hheld] at hnil
      cases hnil
  · exact h

theorem Holds.sent (h : s.Holds queue) : s.sent.Holds queue := by
  unfold SendSystem.sent
  split
  · exact h
  · rename_i byte hshift
    have hgiven := h.given
    have hheld : s.inUsart = byte :: s.usart.dr.toList := by rw [inUsart, hshift]; rfl
    refine ⟨h.tx, ?_, fun htc => ?_, h.ready⟩
    · rw [hgiven, hheld]
      change _ = s.line ++ [byte] ++ (s.usart.dr.toList ++ (queue ++ s.inHand))
      rw [List.append_assoc s.line]
      rfl
    · rcases Bool.or_eq_true_iff.mp htc with hold | hnone
      · have hnil := h.complete hold
        rw [hheld] at hnil
        cases hnil
      · exact Option.toList_eq_nil_iff.mpr (Option.isNone_iff_eq_none.mp hnone)

theorem Sound.turn (h : s.Sound) (t : SendTurn) : (turn t s).Sound := by
  obtain ⟨queue, h⟩ := h
  cases t with
  | go => exact h.uartSend
  | load => exact ⟨queue, h.load⟩
  | sent => exact ⟨queue, h.sent⟩
  | irq => exact h.uartIRQ

theorem Sound.step {op : SendOp} (h : s.Sound) (hstep : step op s = some t) : t.Sound := by
  cases op with
  | comSendBuf _ucaBuf =>
      rw [SendSystem.step] at hstep
      split at hstep
      · rename_i hidle
        cases hstep
        exact h.comSendBuf hidle _ucaBuf
      · cases hstep
  | turn t =>
      cases hstep
      exact h.turn t

/-! ### Runs -/

def bytesOf : SendOp → List UInt8
  | .comSendBuf _ucaBuf => _ucaBuf
  | .turn _ => []

/-- What a part of a call and a load leave as it is. -/
structure Kept (s t : SendSystem) : Prop where
  given : t.given = s.given
  size : t.tx.usTxBufSize = s.tx.usTxBufSize
  line : t.line = s.line
  transmitMode : t.transmitMode = s.transmitMode

theorem uartSend_kept (s : SendSystem) : Kept s s.uartSend := by
  unfold SendSystem.uartSend
  split
  · exact ⟨rfl, rfl, rfl, rfl⟩
  · exact ⟨rfl, rfl, rfl, rfl⟩
  · split_ifs <;> exact ⟨rfl, rfl, rfl, rfl⟩
  · exact ⟨rfl, rfl, rfl, rfl⟩
  · exact ⟨rfl, rfl, rfl, rfl⟩
  · exact ⟨rfl, rfl, rfl, rfl⟩

theorem load_kept (s : SendSystem) : Kept s s.load := by
  unfold SendSystem.load
  split <;> exact ⟨rfl, rfl, rfl, rfl⟩

theorem sent_kept (s : SendSystem) : s.sent.given = s.given ∧
    s.sent.tx.usTxBufSize = s.tx.usTxBufSize ∧ s.sent.transmitMode = s.transmitMode := by
  unfold SendSystem.sent
  split <;> exact ⟨rfl, rfl, rfl⟩

theorem uartIRQ_kept (s : SendSystem) : s.uartIRQ.given = s.given ∧
    s.uartIRQ.tx.usTxBufSize = s.tx.usTxBufSize ∧ s.uartIRQ.line = s.line := by
  unfold SendSystem.uartIRQ
  split_ifs <;> exact ⟨rfl, rfl, rfl⟩

/-- A turn takes nothing from the calls, and the FIFO keeps its size. -/
theorem kept_turn (t : SendTurn) (s : SendSystem) :
    (turn t s).given = s.given ∧ (turn t s).tx.usTxBufSize = s.tx.usTxBufSize := by
  cases t with
  | go => exact ⟨(uartSend_kept s).given, (uartSend_kept s).size⟩
  | load => exact ⟨(load_kept s).given, (load_kept s).size⟩
  | sent => exact ⟨(sent_kept s).1, (sent_kept s).2.1⟩
  | irq => exact ⟨(uartIRQ_kept s).1, (uartIRQ_kept s).2.1⟩

theorem kept_step {op : SendOp} (hstep : step op s = some t) :
    t.given = s.given ++ bytesOf op ∧ t.tx.usTxBufSize = s.tx.usTxBufSize := by
  cases op with
  | comSendBuf _ucaBuf =>
      rw [SendSystem.step] at hstep
      split at hstep
      · cases hstep
        exact ⟨rfl, rfl⟩
      · cases hstep
  | turn t =>
      cases hstep
      rw [bytesOf, List.append_nil]
      exact kept_turn t s

theorem kept_run {ops : List SendOp} (hrun : Runs.run step s ops = some t) :
    t.given = s.given ++ ops.flatMap bytesOf ∧ t.tx.usTxBufSize = s.tx.usTxBufSize := by
  induction ops generalizing s with
  | nil =>
      cases hrun
      exact ⟨by rw [List.flatMap_nil, List.append_nil], rfl⟩
  | cons op ops ih =>
      obtain ⟨u, hstep, hrest⟩ := Runs.run_cons_eq_some.mp hrun
      obtain ⟨hgiven, hsize⟩ := kept_step hstep
      obtain ⟨hgiven', hsize'⟩ := ih hrest
      rw [hgiven', hgiven, List.flatMap_cons, List.append_assoc]
      exact ⟨rfl, hsize'.trans hsize⟩

theorem Sound.run {ops : List SendOp} (h : s.Sound)
    (hrun : Runs.run SendSystem.step s ops = some t) : t.Sound :=
  Runs.invariant (I := Sound) (fun _ _ _ h hstep => h.step hstep) h hrun

end SendSystem

/-- In every interleaving of calls, USART and interrupt, the bytes that the calls were
given are, in order, those on the line, those in the USART, those in the FIFO and those
the call has still in its hands; the FIFO never holds more than its size. -/
theorem transmitted_in_order (pTxBuf : ℕ → UInt8) {usTxBufSize : UInt16} (hpos : 0 < usTxBufSize)
    {ops : List SendOp} {t : SendSystem}
    (hrun : Runs.run SendSystem.step (SendSystem.start pTxBuf usTxBufSize) ops = some t) :
    ops.flatMap SendSystem.bytesOf = t.line ++ (t.inUsart ++ (t.tx.queue ++ t.inHand)) ∧
      t.tx.usTxCount.toNat = t.tx.queue.length ∧ t.tx.queue.length ≤ usTxBufSize.toNat := by
  have hsound : (SendSystem.start pTxBuf usTxBufSize).Sound := SendSystem.sound_start pTxBuf hpos
  obtain ⟨queue, h⟩ := hsound.run hrun
  obtain ⟨hgiven, hsize⟩ : t.given = ops.flatMap SendSystem.bytesOf ∧
      t.tx.usTxBufSize = usTxBufSize := SendSystem.kept_run hrun
  rw [h.queue_eq, ← hgiven, ← hsize]
  exact ⟨h.given, h.tx.count, h.tx.length_le⟩

/-- Two bytes through a FIFO of one: the second call finds it full at first. -/
def oneByOne : List SendOp :=
  [.comSendBuf [7], .turn .go, .turn .go, .turn .go, .turn .go, .turn .go, .comSendBuf [9],
    .turn .go, .turn .irq, .turn .go, .turn .go, .turn .load, .turn .go, .turn .sent]

theorem transmitted_in_order_two :
    ∃ t, Runs.run SendSystem.step (SendSystem.start (fun _ => 0) 1) oneByOne = some t ∧
      t.line = [7] ∧ [7, 9] = t.line ++ (t.inUsart ++ (t.tx.queue ++ t.inHand)) := by
  obtain ⟨t, hrun, hline⟩ := Option.map_eq_some_iff.mp
    (show (Runs.run SendSystem.step (SendSystem.start (fun _ => 0) 1) oneByOne).map
      SendSystem.line = some [7] by decide +kernel)
  exact ⟨t, hrun, hline, (transmitted_in_order (fun _ => 0) (by decide) hrun).1⟩

end YckjAcu
