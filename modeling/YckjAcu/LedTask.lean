import Mathlib.Tactic.IntervalCases
import YckjAcu.Lib.Runs
import YckjAcu.Lib.Writes
import YckjAcu.PowerBus
import YckjAcu.UseAdd

/-!
# The main loop of `led_task`

One iteration broadcasts changed parameters, polls the reader after
`Led_TaskCount`, forwards the event of row `Led_TaskCount` to `q_msg`, answers
one message of the server and advances the scan.
-/

namespace YckjAcu

open Writes

/-- The local variables of `led_task` that live through the loop. -/
structure LedVars where
  oldCostNum : UInt8
  oldWaterCost : UInt8
  oldFM1702KeyCRC : UInt8
  broadcastCount : UInt8
  ledTaskCount : ℕ
  cycleCount : UInt8
  broadTime : UInt32

/-- `posted` is the list of the messages given to `q_msg`, with their contents at
the time of the `OSQPost`. -/
structure LedState where
  bus : PowerBus
  vars : LedVars
  g_SendDate : Vector UInt8 16
  posted : List (Vector UInt8 16)

/-- What one iteration takes from outside: new CAN traffic, the key as the other
tasks left it, the uninitialised arrays of `ReadRunningData`, whether `OSQPost`
succeeds, and the message that `OSQPend` returns. -/
structure LedInput where
  rx : List (Option CanRxMsg)
  fm1702Key : Vector UInt8 7
  fm1702KeyCRC : UInt8
  tempBuff : Vector UInt8 10
  uBuff : Vector UInt8 8
  postOk : Bool
  server : Option (Vector UInt8 11)

namespace LedState

def row (s : LedState) (n : ℕ) : Row := s.bus.g_RUNDate n

def receive (rx : List (Option CanRxMsg)) (s : LedState) : LedState :=
  { s with bus.can.rx := s.bus.can.rx ++ rx }

def send (f : CanBus → CanBus) (s : LedState) : LedState := { s with bus.can := f s.bus.can }

def broadcastCost (s : LedState) : LedState :=
  if s.vars.oldCostNum ≠ s.bus.g_CostNum ∨ s.vars.oldWaterCost ≠ s.bus.g_WaterCost then
    let s := s.send (canSendBroadcastCom s.bus.g_WaterCost s.bus.g_CostNum)
    if s.vars.broadcastCount ≤ 2 then
      { s with vars.broadcastCount := s.vars.broadcastCount + 1 }
    else
      { s with
        vars.broadcastCount := 0
        vars.broadTime := 0
        vars.oldCostNum := s.bus.g_CostNum
        vars.oldWaterCost := s.bus.g_WaterCost }
  else s

def broadcastKey (fm1702Key : Vector UInt8 7) (fm1702KeyCRC : UInt8) (s : LedState) : LedState :=
  if s.vars.oldFM1702KeyCRC ≠ fm1702KeyCRC then
    let s := s.send (canSendBroadcastKey fm1702Key)
    if s.vars.broadcastCount ≤ 2 then
      { s with vars.broadcastCount := s.vars.broadcastCount + 1 }
    else
      { s with
        vars.broadcastCount := 0
        vars.oldFM1702KeyCRC := fm1702KeyCRC }
  else s

/-- The state in which `ReadRunningData` is called. -/
def atPoll (a : LedInput) (s : LedState) : LedState :=
  ((s.receive a.rx).broadcastCost).broadcastKey a.fm1702Key a.fm1702KeyCRC

end LedState

/-- The assignments to `g_SendDate` for an event of row `n`, in their order.
Byte 1 is left alone when both event bits are set. -/
def eventWrites (n : ℕ) (r : Row) : List (Fin 16 × UInt8) :=
  let kind : List (Fin 16 × UInt8) :=
    if r.get 0 &&& 0x03 = 0x01 then [(1, 0x11)]
    else if r.get 0 &&& 0x03 = 0x02 then [(1, 0x13)]
    else []
  let fields : List (Fin 16 × UInt8) :=
    [(2, r.get 1), (3, r.get 2), (4, r.get 3), (5, r.get 4), (6, r.get 5), (7, r.get 6),
      (8, r.get 7), (9, r.get 8), (10, r.get 9), (11, r.get 10), (12, r.get 11), (13, r.get 12),
      (14, UInt8.ofNat n), (15, r.get 13)]
  (0, 0xAA) :: (kind ++ fields)

theorem applyWrites_eventWrites (n : ℕ) (r : Row) (buf : Vector UInt8 16) :
    applyWrites (eventWrites n r) buf =
      let kind : UInt8 :=
        if r.get 0 &&& 0x03 = 0x01 then 0x11
        else if r.get 0 &&& 0x03 = 0x02 then 0x13
        else buf.get 1
      #v[0xAA, kind, r.get 1, r.get 2, r.get 3, r.get 4, r.get 5, r.get 6, r.get 7, r.get 8,
        r.get 9, r.get 10, r.get 11, r.get 12, UInt8.ofNat n, r.get 13] := by
  have hnodup : ((eventWrites n r).map Prod.fst).Nodup := by
    simp only [eventWrites]
    split_ifs <;> simp
  have hfield : ∀ i v (hi : i < 16), (⟨i, hi⟩, v) ∈ eventWrites n r →
      (applyWrites (eventWrites n r) buf)[i] = v :=
    fun i v hi hv => getElem_applyWrites_of_mem hnodup hi hv buf
  have hkind : (applyWrites (eventWrites n r) buf).get 1 =
      if r.get 0 &&& 0x03 = 0x01 then (0x11 : UInt8) else if r.get 0 &&& 0x03 = 0x02 then 0x13
        else buf.get 1 := by
    split_ifs with h1 h2
    · exact hfield 1 _ (by omega) (by simp [eventWrites, h1])
    · exact hfield 1 _ (by omega) (by simp [eventWrites, h2])
    · exact getElem_applyWrites_of_not_mem (by omega) (by simp [eventWrites, h1, h2]) buf
  refine Vector.ext fun i hi => ?_
  interval_cases i
  case «1» => exact hkind
  all_goals exact hfield _ _ hi (by simp [eventWrites])

/-- `g_RUNDate[n][0] = g_RUNDate[n][0]&(~0x03)`. -/
def clearPending (n : ℕ) (t : RunTable) : RunTable := t.setStatus n ((t n).get 0 &&& ~~~0x03)

namespace LedState

/-- The forwarding of row `Led_TaskCount`. -/
def forward (postOk : Bool) (s : LedState) : LedState :=
  let n := s.vars.ledTaskCount
  if (s.row n).Pending then
    let msg := applyWrites (eventWrites n (s.row n)) s.g_SendDate
    { s with
      g_SendDate := msg
      posted := if postOk then s.posted ++ [msg] else s.posted
      bus.g_RUNDate := clearPending n s.bus.g_RUNDate }
  else s

def pollScan (a : LedInput) (s : LedState) : Option LedState :=
  if s.vars.ledTaskCount < busnumSize then
    (readRunningData (s.vars.ledTaskCount + 1) a.tempBuff a.uBuff s.bus).map fun bus =>
      { s with bus := bus }.forward a.postOk
  else some s

/-- A message of the server, when `OSQPend` brought one. -/
def answerServer (server : Option (Vector UInt8 11)) (s : LedState) : Option LedState :=
  match server with
  | none => some s
  | some p => (writeRFIDData p s.bus).map fun bus => { s with bus := bus }

def advance (s : LedState) : LedState :=
  if s.vars.ledTaskCount > busnumSize + 1 then
    { s with
      vars.ledTaskCount := 0
      vars.cycleCount := if s.vars.cycleCount < 50 then s.vars.cycleCount + 1 else 0 }
  else { s with vars.ledTaskCount := s.vars.ledTaskCount + 1 }

/-- The periodic broadcast of the cost parameters. -/
def broadcastTimer (s : LedState) : LedState :=
  if s.vars.broadTime > 0x000F0000 then
    { s with vars.broadTime := 0 }.send (canSendBroadcastCom s.bus.g_WaterCost s.bus.g_CostNum)
  else { s with vars.broadTime := s.vars.broadTime + 1 }

end LedState

/-- One iteration of `while(1)`.  It is undefined when a poll waits forever or a
message of the server leads outside the table. -/
def ledIteration (a : LedInput) (s : LedState) : Option LedState := do
  let s ← (s.atPoll a).pollScan a
  let s ← s.answerServer a.server
  return s.advance.broadcastTimer

/-! ### What the broadcasts leave alone -/

namespace LedState

/-- Two states that differ in the broadcast variables and in frames that are no
acknowledgements. -/
structure SameScan (s t : LedState) : Prop where
  table : t.bus.g_RUNDate = s.bus.g_RUNDate
  posted : t.posted = s.posted
  count : t.vars.ledTaskCount = s.vars.ledTaskCount
  tx : ∃ fs : List CanTxMsg, t.bus.can.tx = s.bus.can.tx ++ fs ∧ ∀ f ∈ fs, f.data.get 0 ≠ 0x07

theorem SameScan.refl (s : LedState) : SameScan s s := ⟨rfl, rfl, rfl, [], by simp, by simp⟩

theorem SameScan.trans {s t u : LedState} (hst : SameScan s t) (htu : SameScan t u) :
    SameScan s u := by
  obtain ⟨fs, hfs, hno⟩ := hst.tx
  obtain ⟨gs, hgs, hno'⟩ := htu.tx
  refine ⟨htu.table.trans hst.table, htu.posted.trans hst.posted, htu.count.trans hst.count,
    fs ++ gs, by rw [hgs, hfs, List.append_assoc], fun f hf => ?_⟩
  rcases List.mem_append.mp hf with hf | hf
  · exact hno f hf
  · exact hno' f hf

theorem sameScan_broadcastCost (s : LedState) : SameScan s s.broadcastCost := by
  have hno : (canTxMsg (packageSendBuf 0x04
      #v[s.bus.g_WaterCost, s.bus.g_CostNum, 0, 0, 0, 0, 0, 0])).data.get 0 ≠ 0x07 := by
    simp [canTxMsg, packageSendBuf]
  unfold broadcastCost
  split_ifs
  · dsimp only
    split
    · exact ⟨rfl, rfl, rfl, _, rfl, by simpa using hno⟩
    · exact ⟨rfl, rfl, rfl, _, rfl, by simpa using hno⟩
  · exact SameScan.refl s

theorem sameScan_broadcastKey (key : Vector UInt8 7) (crc : UInt8) (s : LedState) :
    SameScan s (s.broadcastKey key crc) := by
  have hno : (canTxMsg (packageSendBuf 0x03
      #v[key.get 0, key.get 1, key.get 2, key.get 3, key.get 4, key.get 5, key.get 6,
        0])).data.get 0 ≠ 0x07 := by
    simp [canTxMsg, packageSendBuf]
  unfold broadcastKey
  split_ifs
  · dsimp only
    split
    · exact ⟨rfl, rfl, rfl, _, rfl, by simpa using hno⟩
    · exact ⟨rfl, rfl, rfl, _, rfl, by simpa using hno⟩
  · exact SameScan.refl s

theorem sameScan_atPoll (a : LedInput) (s : LedState) : SameScan s (s.atPoll a) := by
  have hrx : SameScan s (s.receive a.rx) := ⟨rfl, rfl, rfl, [], by simp [receive], by simp⟩
  exact (hrx.trans (sameScan_broadcastCost _)).trans (sameScan_broadcastKey _ _ _)

/-- The scan index after an iteration. -/
def nextCount (n : ℕ) : ℕ := if n > 81 then 0 else n + 1

theorem advance_timer (s : LedState) : (s.advance.broadcastTimer).vars.ledTaskCount =
    nextCount s.vars.ledTaskCount := by
  unfold broadcastTimer advance nextCount busnumSize
  split_ifs <;> rfl

theorem sameScan_broadcastTimer (s : LedState) : SameScan s s.broadcastTimer := by
  have hno : (canTxMsg (packageSendBuf 0x04
      #v[s.bus.g_WaterCost, s.bus.g_CostNum, 0, 0, 0, 0, 0, 0])).data.get 0 ≠ 0x07 := by
    simp [canTxMsg, packageSendBuf]
  unfold broadcastTimer
  split_ifs
  · exact ⟨rfl, rfl, rfl, _, rfl, by simpa using hno⟩
  · exact ⟨rfl, rfl, rfl, [], by simp, by simp⟩

end LedState

end YckjAcu
