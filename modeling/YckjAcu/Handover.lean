import YckjAcu.Messages
import YckjAcu.ServerReplies

/-!
# Handing events over

The two tasks together with the table of readers.  A poll takes an event from its
reader and acknowledges it; `led_task` copies it from the row to `g_SendDate`,
posts the address and clears the row; `tcp_client_thread` takes the address from
`q_msg` and passes the card frame to `netconn_write`.  The steps of `led_task` come
in the order of its loop, and those of everyone else in between.
-/

namespace YckjAcu

/-! ### Where an event is -/

/-- An event as a poll collects it: the number of the reader, the kind byte, the
card number, the amount, the check byte and the code. -/
structure Collected where
  reader : ℕ
  data : Vector UInt8 10
deriving DecidableEq

def Row.collected (mark : UInt8) (r : Row) : Vector UInt8 10 :=
  #v[mark, r.get 5, r.get 6, r.get 7, r.get 8, r.get 9, r.get 10, r.get 11, r.get 12, r.get 13]

/-- The events that the bits of a row flag. -/
def rowEvents (r : Row) : List (Vector UInt8 10) :=
  let bits := r.get 0 &&& 0x03
  (if bits = 0x01 ∨ bits = 0x03 then [r.collected 0x05] else []) ++
    (if bits = 0x02 ∨ bits = 0x03 then [r.collected 0x06] else [])

/-- The event in a message of `led_task`. -/
def messageEvent (m : Vector UInt8 16) : Option Collected :=
  let event (mark : UInt8) : Collected :=
    ⟨(m.get 14).toNat, #v[mark, m.get 6, m.get 7, m.get 8, m.get 9, m.get 10, m.get 11, m.get 12,
      m.get 13, m.get 15]⟩
  if m.get 1 = 0x11 then some (event 0x05) else if m.get 1 = 0x13 then some (event 0x06) else none

/-- The event in a card frame. -/
def frameEvent (f : List UInt8) : Option Collected :=
  let b (i : ℕ) : UInt8 := f[i]?.getD 0
  let event (mark : UInt8) : Collected :=
    ⟨(b 31).toNat, #v[mark, b 23, b 24, b 25, b 26, b 28, b 29, b 30, b 27, b 32]⟩
  if b 2 = 0x11 then some (event 0x05) else if b 2 = 0x13 then some (event 0x06) else none

/-- The bytes of a buffer of `k` bytes. -/
def readMem (k : ℕ) (mem : ℕ → UInt8) (p : ℕ) : Vector UInt8 k :=
  Vector.ofFn fun i => mem (p + i.val)

/-- What a call of `ReadRunningData` takes from the reader: it ends with
`Can_ReadPBus_Succeed` exactly when the list is not empty. -/
def ackedData (no : ℕ) (tempBuff : Vector UInt8 10) (s : PowerBus) : List (Vector UInt8 10) :=
  if (s.g_RUNDate no).InUse then
    match pollTwice no tempBuff s.can with
    | some (uDat, tempBuff, _) => if uDat = 0x02 ∨ uDat = 0x00 then [] else [tempBuff]
    | none => []
  else []

/-! ### The system -/

/-- Where `led_task` stands in its loop: before the poll, before the forwarding
test, between the test and the end of `OSQPost`, before the event bits are
cleared, and in the rest. -/
inductive Phase
  | scan
  | polled
  | posting
  | posted
  | serving
deriving DecidableEq

/-- The table and the bus are those of `led`, the buffers and queues those of
`sys`.  `acked` and `written` are histories: the events taken from the readers,
and the card frames that `netconn_write` accepted. -/
structure Handover where
  led : LedState
  sys : System
  phase : Phase
  cardBuf : CardSendBuf
  acked : List Collected
  written : List (List UInt8)

/-- The steps.  Of the input of an iteration a scan uses what comes over the bus,
and the key. -/
inductive HandoverOp
  | sys (l : Label)
  | scan (a : LedInput)
  | forward
  | skip
  | post
  | freeOwn
  | clear
  | answer
  | next
  | write (ok : Bool)

/-- The steps of the tasks and of other users of the memory that do not concern
the table; those of `led_task` have their place in the loop. -/
def Phase.allows (phase : Phase) : Label → Bool
  | .mymalloc t => t == .tcp || phase == .scan
  | .fill t => t == .tcp || phase == .posting
  | .pend t | .freeMessage t => t == .tcp || phase == .serving
  | .post t | .freeOwn t | .idle t => t == .tcp
  | .forward _ _ | .processed _ => false
  | .connect _ | .receive _ | .closed | .otherMalloc _ | .otherFree _ | .otherWrite _ _ => true

namespace Handover

/-- `Led_TaskCount`. -/
def count (s : Handover) : ℕ := s.led.vars.ledTaskCount

def ledPc (s : Handover) : Pc := (s.sys.task .led).pc

def sysStep (l : Label) (s : Handover) : Option Handover :=
  if s.phase.allows l then (System.step l s.sys).map fun sys => { s with sys } else none

/-- From the loop head through `ReadRunningData`. -/
def scanStep (a : LedInput) (s : Handover) : Option Handover :=
  if s.phase = .scan ∧ s.ledPc = .produce then
    let led := s.led.atPoll a
    if s.count < busnumSize then
      (led.poll (s.count + 1) a.tempBuff a.uBuff).map fun led' =>
        { s with
          led := led'
          phase := .polled
          acked := s.acked ++
            (ackedData (s.count + 1) a.tempBuff led.bus).map fun d => ⟨s.count + 1, d⟩ }
    else (System.step (.idle .led) s.sys).map fun sys => { s with led, sys, phase := .serving }
  else none

/-- Row `Led_TaskCount` has an event; the assignments to `g_SendDate` begin. -/
def forwardStep (s : Handover) : Option Handover :=
  if s.phase = .polled then
    (System.step (.forward s.count (s.led.row s.count)) s.sys).map fun sys =>
      { s with sys, phase := .posting }
  else none

def skipStep (s : Handover) : Option Handover :=
  if s.phase = .polled ∧ ¬ (s.led.row s.count).Pending then
    (System.step (.idle .led) s.sys).map fun sys => { s with sys, phase := .serving }
  else none

/-- `OSQPost`; when it fails, the buffer is freed before the bits are cleared. -/
def postStep (s : Handover) : Option Handover :=
  if s.phase = .posting then
    (System.step (.post .led) s.sys).map fun sys =>
      { s with sys, phase := if (sys.task .led).pc = .pend then .posted else .posting }
  else none

def freeOwnStep (s : Handover) : Option Handover :=
  if s.phase = .posting then
    (System.step (.freeOwn .led) s.sys).map fun sys => { s with sys, phase := .posted }
  else none

/-- `g_RUNDate[Led_TaskCount][0] & (~0x03)`. -/
def clearStep (s : Handover) : Option Handover :=
  if s.phase = .posted then
    some { s with
      led.bus.g_RUNDate := clearPending s.count s.led.bus.g_RUNDate
      phase := .serving }
  else none

/-- `WriteRFIDData` on a message of `tcp_client_thread`. -/
def answerStep (s : Handover) : Option Handover :=
  match s.phase, s.ledPc with
  | .serving, .reading p => do
      let led ← s.led.answerServer (some (readMem 11 s.sys.mem p))
      let sys ← System.step (.processed .led) s.sys
      return { s with led, sys }
  | _, _ => none

/-- The end of the iteration. -/
def nextStep (s : Handover) : Option Handover :=
  if s.phase = .serving ∧ s.ledPc = .produce then
    some { s with led := s.led.advance.broadcastTimer, phase := .scan }
  else none

/-- The card frame is built and passed to `netconn_write`. -/
def writeStep (ok : Bool) (s : Handover) : Option Handover :=
  match (s.sys.task .tcp).pc with
  | .reading p =>
      (System.step (.processed .tcp) s.sys).map fun sys =>
        let cardBuf := fillCard (readMem 16 s.sys.mem p) s.cardBuf
        { s with
          sys
          cardBuf
          written := if ok then s.written ++ [writeCard cardBuf] else s.written }
  | _ => none

def step : HandoverOp → Handover → Option Handover
  | .sys l, s => s.sysStep l
  | .scan a, s => s.scanStep a
  | .forward, s => s.forwardStep
  | .skip, s => s.skipStep
  | .post, s => s.postStep
  | .freeOwn, s => s.freeOwnStep
  | .clear, s => s.clearStep
  | .answer, s => s.answerStep
  | .next, s => s.nextStep
  | .write ok, s => s.writeStep ok

/-- Both tasks before their first step, with the table of `led`. -/
def start (led : LedState) (sys : System) (acuAdd : Vector UInt8 16) : Handover where
  led := led
  sys := sys
  phase := .scan
  cardBuf := cardSendBuf acuAdd
  acked := []
  written := []

/-! ### The account -/

/-- How often the event is flagged in its row. -/
def inRow (e : Collected) (s : Handover) : ℕ := (rowEvents (s.led.row e.reader)).count e.data

/-- How often it is in `q_msg` or in the hands of `tcp_client_thread`. -/
def waiting (e : Collected) (s : Handover) : ℕ :=
  (s.sys.unread .led).countP fun p => messageEvent (readMem 16 s.sys.mem p) = some e

/-- How often `netconn_write` accepted it. -/
def sent (e : Collected) (s : Handover) : ℕ := s.written.countP fun f => frameEvent f = some e

/-- No acknowledged event is lost. -/
def Accounted (s : Handover) : Prop :=
  ∀ e, s.acked.count e ≤ s.inRow e + s.waiting e + s.sent e

/-- The message at `p` names a reader. -/
def FromReader (s : Handover) (p : ℕ) : Prop := (s.sys.mem (p + 14)).toNat ∈ logicNos

/-- Address `x` is in no message of a reader that `tcp_client_thread` has not read. -/
def SparesMessages (s : Handover) (x : ℕ) : Prop :=
  ∀ p ∈ s.sys.unread .led, s.FromReader p → ¬ (p ≤ x ∧ x < p + 16)

/-- Address `x` is not in the message of a reader that `led_task` is about to post. -/
def SparesDraft (s : Handover) (x : ℕ) : Prop :=
  s.phase = .posting → s.count ∈ logicNos → ∀ p ∈ (s.sys.task .led).buf, ¬ (p ≤ x ∧ x < p + 16)

/-- The step loses no event: a poll finds room for its outcome in the row, the
server clears no pending event, `OSQPost` and `netconn_write` succeed for events of
readers, and nobody writes to a message between its first byte and its reading. -/
def KeepsEvents (s : Handover) : HandoverOp → Prop
  | .scan a => s.count < busnumSize →
      ∀ o ∈ pollOutcome (s.count + 1) a.tempBuff (s.led.atPoll a).bus,
        o.Recorded (s.led.row (s.count + 1))
  | .answer => ∀ p ∈ s.ledPc.unread, s.sys.mem p = 0xCC →
      (s.sys.mem (p + 7)).toNat ∈ logicNos → ¬ (s.led.row (s.sys.mem (p + 7)).toNat).Pending
  | .post => s.count ∈ logicNos → (s.sys.task .led).queue.length < msgGrpSize
  | .write ok => ∀ p ∈ (s.sys.task .tcp).pc.unread, s.FromReader p → ok = true
  | .sys (.fill .led) => ∀ x ∈ s.sys.writeAddr (.fill .led), s.SparesMessages x
  | .sys l => ∀ x ∈ s.sys.writeAddr l, s.SparesMessages x ∧ s.SparesDraft x
  | .forward | .skip | .freeOwn | .clear | .next => True

end Handover

end YckjAcu
