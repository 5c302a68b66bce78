import YckjAcu.Lib.Ring
import YckjAcu.Lib.Runs
import YckjAcu.Common

/-!
# The receive FIFO of the download port

`UartIRQ` stores received bytes and `UartGetChar` takes them out, with the
interrupt possible between any two of its accesses that no critical section joins.
When the FIFO is full the count stays, but the write index goes on over the oldest
byte.
-/

namespace YckjAcu

/-- The receive part of `UART_T` for `COM3`, with `UART3_RX_BUF_SIZE` bytes. -/
structure UartRx where
  pRxBuf : Vector UInt8 512
  usRxWrite : UInt16
  usRxRead : UInt16
  usRxCount : UInt16

/-- The receive interrupt. -/
def uartIRQ (ch : UInt8) (u : UartRx) : UartRx :=
  let u := { u with pRxBuf := u.pRxBuf.setIfInBounds u.usRxWrite.toNat ch }
  let u := { u with usRxWrite := if u.usRxWrite + 1 ≥ 512 then 0 else u.usRxWrite + 1 }
  if u.usRxCount < 512 then { u with usRxCount := u.usRxCount + 1 } else u

/-- How far a call of `UartGetChar` has come: not begun, past the test of the count,
with the byte in hand. -/
inductive GetChar
  | idle
  | counted
  | loaded (byte : UInt8)

/-- The bytes that came in and those that were returned are kept for comparison. -/
structure FifoSystem where
  uart : UartRx
  getChar : GetChar
  received : List UInt8
  returned : List UInt8

/-- The next indivisible part of a call; a call that finds no data is over at once. -/
def uartGetChar (s : FifoSystem) : FifoSystem :=
  match s.getChar with
  | .idle => if s.uart.usRxCount = 0 then s else { s with getChar := .counted }
  | .counted => { s with getChar := .loaded (s.uart.pRxBuf.toList.getD s.uart.usRxRead.toNat 0) }
  | .loaded byte =>
      { s with
        uart := { s.uart with
          usRxRead := if s.uart.usRxRead + 1 ≥ 512 then 0 else s.uart.usRxRead + 1
          usRxCount := s.uart.usRxCount - 1 }
        getChar := .idle
        returned := s.returned ++ [byte] }

inductive FifoOp
  | irq (ch : UInt8)
  | read

namespace FifoSystem

def step : FifoOp → FifoSystem → Option FifoSystem
  | .irq ch, s => some { s with uart := uartIRQ ch s.uart, received := s.received ++ [ch] }
  | .read, s => some (uartGetChar s)

/-- An empty FIFO with its indices anywhere. -/
def empty (pRxBuf : Vector UInt8 512) (i : Fin 512) : FifoSystem where
  uart := ⟨pRxBuf, UInt16.ofNat i, UInt16.ofNat i, 0⟩
  getChar := .idle
  received := []
  returned := []

/-- The bytes received and not yet returned. -/
def unread (s : FifoSystem) : ℕ := s.received.length - s.returned.length

/-- The returned bytes are in order, and the count is that of the unread ones. -/
structure InOrder (s : FifoSystem) : Prop where
  order : s.returned.Sublist s.received
  count : s.uart.usRxCount.toNat = s.unread
  bound : s.uart.usRxCount.toNat ≤ 512

/-- No byte comes in while `UART3_RX_BUF_SIZE` bytes are unread. -/
def HasRoom (s : FifoSystem) : FifoOp → Prop
  | .irq _ => s.unread < 512
  | .read => True

/-! ### The queue -/

def cells (s : FifoSystem) (i : ℕ) : UInt8 := s.uart.pRxBuf.toList.getD i 0

/-- What the byte in hand is, in the middle of a call. -/
def Ready (queue : List UInt8) : GetChar → Prop
  | .idle => True
  | .counted => queue ≠ []
  | .loaded byte => queue.head? = some byte

/-- The ring holds the bytes that are not yet returned. -/
structure Holds (queue : List UInt8) (s : FifoSystem) : Prop where
  ring : Ring.Holds 512 s.cells s.uart.usRxRead.toNat s.uart.usRxWrite.toNat queue
  received : s.received = s.returned ++ queue
  count : s.uart.usRxCount.toNat = queue.length
  ready : Ready queue s.getChar

def Sound (s : FifoSystem) : Prop := ∃ queue, s.Holds queue

theorem Holds.unread {queue : List UInt8} {s : FifoSystem} (h : s.Holds queue) :
    s.unread = queue.length := by
  rw [FifoSystem.unread, h.received, List.length_append, Nat.add_sub_cancel_left]

theorem Sound.inOrder {s : FifoSystem} (h : s.Sound) : s.InOrder := by
  obtain ⟨queue, h⟩ := h
  refine ⟨?_, ?_, ?_⟩
  · rw [h.received]
    exact List.sublist_append_left _ _
  · rw [h.unread]
    exact h.count
  · rw [h.count]
    exact h.ring.length_le

theorem Sound.returned_first {s : FifoSystem} (h : s.Sound) : s.returned <+: s.received := by
  obtain ⟨queue, h⟩ := h
  exact ⟨queue, h.received.symm⟩

theorem holds_empty (pRxBuf : Vector UInt8 512) (i : Fin 512) : (empty pRxBuf i).Holds [] := by
  have hi : (UInt16.ofNat i).toNat = i := UInt16.toNat_ofNat_of_lt' (i.isLt.trans (by decide))
  refine ⟨?_, rfl, rfl, trivial⟩
  rw [empty, hi]
  exact Ring.holds_nil i.isLt

theorem toNat_advance {i : UInt16} (hi : i.toNat < 512) :
    (if i + 1 ≥ 512 then 0 else i + 1).toNat = Ring.next 512 i.toNat := by
  have hone : UInt16.toNat 1 = 1 := rfl
  have hsucc : (i + 1).toNat = i.toNat + 1 := by
    rw [UInt16.toNat_add, hone]
    exact Nat.mod_eq_of_lt (by omega)
  have hiff : i + 1 ≥ 512 ↔ 512 ≤ i.toNat + 1 := by
    rw [ge_iff_le, UInt16.le_iff_toNat_le, hsucc]
    rfl
  rw [Ring.next, apply_ite UInt16.toNat, hsucc]
  exact if_congr hiff rfl rfl

theorem cells_uartIRQ {s : FifoSystem} (ch : UInt8) (received : List UInt8)
    (h : s.uart.usRxWrite.toNat < 512) :
    cells { s with uart := uartIRQ ch s.uart, received } =
      Function.update s.cells s.uart.usRxWrite.toNat ch := by
  have hbuf : (uartIRQ ch s.uart).pRxBuf =
      s.uart.pRxBuf.setIfInBounds s.uart.usRxWrite.toNat ch := by
    unfold uartIRQ
    dsimp only
    split_ifs <;> rfl
  funext j
  rw [cells, hbuf, Vector.toList_setIfInBounds, List.getD_eq_getElem?_getD, Function.update_apply,
    cells, List.getD_eq_getElem?_getD]
  split_ifs with hj
  · subst hj
    rw [List.getElem?_set_self (by rwa [Vector.length_toList]), Option.getD_some]
  · rw [List.getElem?_set_ne (Ne.symm hj)]

/-! ### One step -/

theorem usRxCount_uartIRQ (ch : UInt8) (u : UartRx) :
    (uartIRQ ch u).usRxCount.toNat =
      if u.usRxCount.toNat < 512 then u.usRxCount.toNat + 1 else u.usRxCount.toNat := by
  have hiff : u.usRxCount < 512 ↔ u.usRxCount.toNat < 512 := UInt16.lt_iff_toNat_lt
  have hcount : (uartIRQ ch u).usRxCount =
      if u.usRxCount < 512 then u.usRxCount + 1 else u.usRxCount := apply_ite _ _ _ _
  rw [hcount, apply_ite UInt16.toNat]
  split_ifs with hlt hlt' hlt'
  · have hone : UInt16.toNat 1 = 1 := rfl
    rw [UInt16.toNat_add, hone]
    exact Nat.mod_eq_of_lt (by omega)
  · exact absurd (hiff.mp hlt) hlt'
  · exact absurd (hiff.mpr hlt') hlt
  · rfl

theorem usRxRead_uartIRQ (ch : UInt8) (u : UartRx) : (uartIRQ ch u).usRxRead = u.usRxRead := by
  unfold uartIRQ
  dsimp only
  split_ifs <;> rfl

theorem ready_concat {queue : List UInt8} {g : GetChar} (ch : UInt8) (h : Ready queue g) :
    Ready (queue ++ [ch]) g := by
  cases g with
  | idle => trivial
  | counted => exact List.append_ne_nil_of_left_ne_nil h [ch]
  | loaded byte =>
      obtain ⟨rest, rfl⟩ := List.head?_eq_some_iff.mp h
      rfl

theorem Holds.irq {queue : List UInt8} {s : FifoSystem} (h : s.Holds queue) (ch : UInt8)
    (hroom : queue.length < 512) :
    Holds (queue ++ [ch])
      { s with uart := uartIRQ ch s.uart, received := s.received ++ [ch] } := by
  have hwrite : (uartIRQ ch s.uart).usRxWrite.toNat = Ring.next 512 s.uart.usRxWrite.toNat := by
    rw [← toNat_advance h.ring.write_lt]
    unfold uartIRQ
    dsimp only
    split_ifs <;> rfl
  constructor
  · rw [cells_uartIRQ ch _ h.ring.write_lt, usRxRead_uartIRQ, hwrite]
    exact h.ring.push hroom ch
  · rw [h.received, List.append_assoc]
  · rw [usRxCount_uartIRQ, h.count, if_pos hroom, List.length_append, List.length_singleton]
  · exact ready_concat ch h.ready

theorem Sound.read {s : FifoSystem} (h : s.Sound) : (uartGetChar s).Sound := by
  obtain ⟨queue, h⟩ := h
  have hready := h.ready
  unfold uartGetChar
  cases hget : s.getChar with
  | idle =>
      dsimp only
      split_ifs with hzero
      · exact ⟨queue, h⟩
      · refine ⟨queue, h.ring, h.received, h.count, ?_⟩
        rintro rfl
        exact hzero (UInt16.toNat_inj.mp h.count)
  | counted =>
      rw [hget] at hready
      obtain ⟨byte, rest, rfl⟩ := List.exists_cons_of_ne_nil hready
      refine ⟨byte :: rest, h.ring, h.received, h.count, ?_⟩
      exact congrArg some h.ring.pop.1.symm
  | loaded byte =>
      rw [hget] at hready
      obtain ⟨rest, rfl⟩ := List.head?_eq_some_iff.mp hready
      have hcount : s.uart.usRxCount.toNat = rest.length + 1 := h.count
      refine ⟨rest, ?_, ?_, ?_, trivial⟩
      · dsimp only
        rw [toNat_advance h.ring.read_lt]
        exact h.ring.pop.2
      · rw [h.received, List.append_assoc]
        rfl
      · have hone : UInt16.toNat 1 = 1 := rfl
        have hle : (1 : UInt16) ≤ s.uart.usRxCount := by
          rw [UInt16.le_iff_toNat_le, hone, hcount]
          omega
        dsimp only
        rw [UInt16.toNat_sub_of_le _ _ hle, hone, hcount, Nat.add_sub_cancel]

theorem Sound.preserved {s t : FifoSystem} {op : FifoOp} (h : s.Sound) (hroom : s.HasRoom op)
    (hstep : step op s = some t) : t.Sound := by
  cases op with
  | irq ch =>
      cases hstep
      obtain ⟨queue, h⟩ := h
      have hlt : queue.length < 512 := by
        rw [← h.unread]
        exact hroom
      exact ⟨queue ++ [ch], h.irq ch hlt⟩
  | read =>
      cases hstep
      exact h.read

/-- A byte that comes in when the FIFO is full is not counted. -/
theorem Sound.hasRoom {s t : FifoSystem} {op : FifoOp} (h : s.Sound)
    (hstep : step op s = some t) (hcount : t.unread ≤ 512) : s.HasRoom op := by
  cases op with
  | irq ch =>
      cases hstep
      obtain ⟨queue, h⟩ := h
      rw [FifoSystem.unread, h.received, List.append_assoc, List.length_append,
        Nat.add_sub_cancel_left, List.length_append, List.length_singleton] at hcount
      rw [HasRoom, h.unread]
      exact hcount
  | read => trivial

/-! ### Runs -/

theorem run_defined (s : FifoSystem) (ops : List FifoOp) : ∃ t, Runs.run step s ops = some t := by
  induction ops generalizing s with
  | nil => exact ⟨s, rfl⟩
  | cons op ops ih =>
      cases op with
      | irq ch => exact ih _
      | read => exact ih _

section Run

variable {s : FifoSystem} (hs : s.Sound) (ops : List FifoOp)

include hs

theorem inOrder_iff_hasRoom : (∀ t, Runs.Visits step s ops t → t.InOrder) ↔
    Runs.AllSteps step HasRoom s ops := by
  obtain ⟨u, hu⟩ := run_defined s ops
  apply Runs.forall_visits_iff_allSteps_of_invariant (fun _ _ _ h hC hstep => h.preserved hC hstep)
    (fun _ h => h.inOrder) _ hs hu
  intro s op t h hstep ht
  apply h.hasRoom hstep
  rw [← ht.count]
  exact ht.bound

theorem unread_le_iff_hasRoom : (∀ t, Runs.Visits step s ops t → t.unread ≤ 512) ↔
    Runs.AllSteps step HasRoom s ops := by
  obtain ⟨u, hu⟩ := run_defined s ops
  apply Runs.forall_visits_iff_allSteps_of_invariant (fun _ _ _ h hC hstep => h.preserved hC hstep)
    _ (fun _ _ _ h hstep ht => h.hasRoom hstep ht) hs hu
  intro s h
  rw [← h.inOrder.count]
  exact h.inOrder.bound

end Run

/-- From an empty FIFO on the bytes keep their order and are counted exactly when none
comes in while 512 are unread; and as long as never more than 512 are unread, what
was returned is the front of what was received. -/
theorem fifo_inOrder_iff (pRxBuf : Vector UInt8 512) (i : Fin 512) (ops : List FifoOp) :
    ((∀ t, Runs.Visits step (empty pRxBuf i) ops t → t.InOrder) ∧
      ((∀ t, Runs.Visits step (empty pRxBuf i) ops t → t.unread ≤ 512) →
        ∀ t, Runs.Visits step (empty pRxBuf i) ops t → t.returned <+: t.received)) ↔
      Runs.AllSteps step HasRoom (empty pRxBuf i) ops := by
  have hs : (empty pRxBuf i).Sound := ⟨[], holds_empty pRxBuf i⟩
  rw [inOrder_iff_hasRoom hs ops, unread_le_iff_hasRoom hs ops]
  apply and_iff_left
  intro hroom t ht
  have hsound : t.Sound :=
    Runs.invariant_of_visits (fun _ _ _ h hC hstep => h.preserved hC hstep) hs hroom ht
  exact hsound.returned_first

/-! ### Overruns -/

/-- The state after a call that found data. -/
def afterCall (s : FifoSystem) : FifoSystem :=
  { s with
    uart := { s.uart with
      usRxRead := if s.uart.usRxRead + 1 ≥ 512 then 0 else s.uart.usRxRead + 1
      usRxCount := s.uart.usRxCount - 1 }
    returned := s.returned ++ [s.cells s.uart.usRxRead.toNat] }

theorem uartGetChar_call {s : FifoSystem} (hidle : s.getChar = .idle)
    (hcount : s.uart.usRxCount ≠ 0) :
    uartGetChar (uartGetChar (uartGetChar s)) = s.afterCall := by
  obtain ⟨uart, getChar, received, returned⟩ := s
  cases hidle
  have hfirst : uartGetChar ⟨uart, .idle, received, returned⟩ =
      ⟨uart, .counted, received, returned⟩ := if_neg hcount
  rw [hfirst]
  rfl

theorem run_irqs (xs : List UInt8) {s : FifoSystem} {queue : List UInt8} (h : s.Holds queue)
    (hroom : queue.length + xs.length ≤ 512) :
    ∃ t, Runs.run step s (xs.map .irq) = some t ∧ t.Holds (queue ++ xs) ∧
      t.getChar = s.getChar ∧ t.returned = s.returned ∧ t.received = s.received ++ xs := by
  induction xs generalizing s queue with
  | nil =>
      rw [List.append_nil, List.append_nil]
      exact ⟨s, rfl, h, rfl, rfl, rfl⟩
  | cons ch xs ih =>
      rw [List.length_cons] at hroom
      have hirq := h.irq ch (by omega)
      obtain ⟨t, hrun, ht, hget, hreturned, hreceived⟩ := ih hirq (by
        rw [List.length_append, List.length_singleton]
        omega)
      rw [List.append_assoc] at ht hreceived
      exact ⟨t, hrun, ht, hget, hreturned, hreceived⟩

theorem Holds.write_eq_read {queue : List UInt8} {s : FifoSystem} (h : s.Holds queue)
    (hfull : queue.length = 512) : s.uart.usRxWrite.toNat = s.uart.usRxRead.toNat := by
  have hlt := h.ring.read_lt
  rw [h.ring.write_eq, hfull, Ring.place, if_neg (by omega), Nat.add_sub_cancel]

/-- A byte that comes in when the FIFO is full takes the place of the oldest one and is
returned before the second oldest. -/
theorem overrun_returned {s : FifoSystem} {a b : UInt8} (rest : List UInt8)
    (h : s.Holds (a :: b :: rest)) (hfull : rest.length = 510) (hidle : s.getChar = .idle)
    (ch : UInt8) :
    ∃ t, Runs.run step s (.irq ch :: List.replicate 6 .read) = some t ∧
      t.returned = s.returned ++ [ch, b] ∧ t.received = s.received ++ [ch] := by
  have hlength : (a :: b :: rest).length = 512 := by
    rw [List.length_cons, List.length_cons, hfull]
  have hwrite := h.write_eq_read hlength
  have hcells := cells_uartIRQ ch (s.received ++ [ch]) h.ring.write_lt
  rw [hwrite] at hcells
  have hcount : (uartIRQ ch s.uart).usRxCount = 512 := by
    apply UInt16.toNat_inj.mp
    rw [usRxCount_uartIRQ, h.count, hlength]
    rfl
  obtain ⟨-, htail⟩ := h.ring.pop
  have hsecond : s.cells (Ring.next 512 s.uart.usRxRead.toNat) = b := htail.pop.1
  have hne : Ring.next 512 s.uart.usRxRead.toNat ≠ s.uart.usRxRead.toNat := by
    have hlt := h.ring.read_lt
    unfold Ring.next
    split <;> omega
  -- two calls, the first of which finds the new byte
  generalize hirq : FifoSystem.mk (uartIRQ ch s.uart) s.getChar (s.received ++ [ch]) s.returned = u
  have hu : u.getChar = .idle ∧ u.uart.usRxCount = 512 ∧ u.uart.usRxRead = s.uart.usRxRead ∧
      u.cells = Function.update s.cells s.uart.usRxRead.toNat ch ∧ u.returned = s.returned ∧
      u.received = s.received ++ [ch] := by
    subst hirq
    exact ⟨hidle, hcount, usRxRead_uartIRQ ch s.uart, hcells, rfl, rfl⟩
  obtain ⟨huidle, hucount, huread, hucells, hureturned, hureceived⟩ := hu
  have hrun : Runs.run step s (.irq ch :: List.replicate 6 .read) =
      some u.afterCall.afterCall := by
    have hcall := uartGetChar_call huidle (ne_of_eq_of_ne hucount (by decide))
    have hleft : u.afterCall.uart.usRxCount = 512 - 1 := congrArg (· - 1) hucount
    have hcall' := uartGetChar_call (s := u.afterCall) huidle
      (ne_of_eq_of_ne hleft (by decide))
    rw [← hcall', ← hcall, ← hirq]
    rfl
  refine ⟨_, hrun, ?_, hureceived⟩
  have hout : u.afterCall.afterCall.returned = u.returned ++ [u.cells u.uart.usRxRead.toNat] ++
      [u.cells (if u.uart.usRxRead + 1 ≥ 512 then 0 else u.uart.usRxRead + 1).toNat] := rfl
  rw [hout, huread, toNat_advance h.ring.read_lt, hucells, Function.update_self,
    Function.update_of_ne hne, hsecond, hureturned, List.append_assoc]
  rfl

/-- With 513 bytes before the first read, the last of them is returned first. -/
theorem overrun_out_of_order : ¬ ∀ (pRxBuf : Vector UInt8 512) (i : Fin 512) (ops : List FifoOp)
    (t : FifoSystem), Runs.Visits step (empty pRxBuf i) ops t →
      t.returned.Sublist t.received := by
  intro h
  obtain ⟨s, hfill, hs, hidle, hreturned, hreceived⟩ := run_irqs (List.replicate 512 0)
    (holds_empty (Vector.replicate 512 0) 0) (by decide +kernel)
  obtain ⟨t, hrun, hout, hin⟩ := overrun_returned (List.replicate 510 0) hs
    List.length_replicate hidle 1
  have hall : Runs.run step (empty (Vector.replicate 512 0) 0)
      ((List.replicate 512 0).map .irq ++ .irq 1 :: List.replicate 6 .read) = some t := by
    rw [Runs.run_append, hfill, Option.bind_some, hrun]
  have hvisit := h _ _ _ t (Runs.visits_last hall)
  rw [hout, hin, hreturned, hreceived] at hvisit
  revert hvisit
  decide +kernel

end FifoSystem

end YckjAcu
