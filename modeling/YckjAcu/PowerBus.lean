import YckjAcu.Can
import YckjAcu.RunTable

/-!
# Polling the readers and answering them

`bsp_powerbus.c`: `ReadRunningData` polls one reader and stores a collected
event in its row; `WriteRFIDData` sends the reader what the server replied.
-/

namespace YckjAcu

/-- The globals that the two functions work on. -/
structure PowerBus where
  g_RUNDate : RunTable
  can : CanBus
  g_WaterCost : UInt8
  g_CostNum : UInt8

namespace PowerBus

/-- `g_RUNDate[i][0] = status` where the index comes from outside; past row
`BUSNUM_SIZE` the write would leave the table. -/
def storeStatus (i : ℕ) (status : UInt8) (s : PowerBus) : Option PowerBus :=
  if i ≤ busnumSize then some { s with g_RUNDate := s.g_RUNDate.setStatus i status } else none

def packageSend (mode : UInt8) (packageDat : Vector UInt8 8) (s : PowerBus) : PowerBus :=
  { s with can := YckjAcu.packageSend mode packageDat s.can }

end PowerBus

/-- The row of a reader whose event is in `tempBuff`. -/
def eventRow (tempBuff : Vector UInt8 10) (r : Row) : Row :=
  let status :=
    if tempBuff.get 0 = 0x05 then r.get 0 ||| 0x01
    else if tempBuff.get 0 = 0x06 then r.get 0 ||| 0x02
    else r.get 0
  #v[status, r.get 1, r.get 2, r.get 3, r.get 4, tempBuff.get 1, tempBuff.get 2, tempBuff.get 3,
    tempBuff.get 4, tempBuff.get 5, tempBuff.get 6, tempBuff.get 7, tempBuff.get 8, tempBuff.get 9]

/-- The argument of `Can_ReadPBus_Succeed`.  Its kind byte keeps what was on the
stack when the row has no event bit, or both. -/
def ackBuff (no : ℕ) (tempBuff : Vector UInt8 10) (uBuff : Vector UInt8 8) (r : Row) :
    Vector UInt8 8 :=
  let kind : UInt8 :=
    if r.get 0 &&& 0x03 = 0x01 then 0xAA else if r.get 0 &&& 0x03 = 0x02 then 0x55 else uBuff.get 5
  #v[UInt8.ofNat no, tempBuff.get 1, tempBuff.get 2, tempBuff.get 3, tempBuff.get 4, kind,
    uBuff.get 6, uBuff.get 7]

/-- A poll, repeated once when it brought no usable answer. -/
def pollTwice (no : ℕ) (tempBuff : Vector UInt8 10) (can : CanBus) :
    Option (UInt8 × Vector UInt8 10 × CanBus) := do
  let (uDat, tempBuff, can) ← canSendPBusCom (UInt8.ofNat no) tempBuff can
  if uDat = 0x00 then canSendPBusCom (UInt8.ofNat no) tempBuff can
  else return (uDat, tempBuff, can)

/-- The row and the bus after an answer. -/
def storeAnswer (no : ℕ) (uBuff : Vector UInt8 8) (s : PowerBus)
    (answer : UInt8 × Vector UInt8 10 × CanBus) : PowerBus :=
  let (uDat, tempBuff, can) := answer
  let r := s.g_RUNDate no
  if uDat = 0x02 then
    { s with g_RUNDate := s.g_RUNDate.setStatus no (r.get 0 &&& ~~~0x23), can := can }
  else if uDat = 0x00 then
    { s with g_RUNDate := s.g_RUNDate.setStatus no (r.get 0 ||| 0x20), can := can }
  else
    let r := eventRow tempBuff r
    { s with
      g_RUNDate := Function.update s.g_RUNDate no r
      can := canReadPBusSucceed (ackBuff no tempBuff uBuff r) can }

/-- A row whose outer serial bytes are zero is taken out of use. -/
def dropUnnumbered (no : ℕ) (t : RunTable) : RunTable :=
  if (t no).get 1 = 0x0 ∧ (t no).get 4 = 0x0 then t.setStatus no 0x0 else t

/-- `tempBuff` and `uBuff` are the local arrays, which the code does not
initialise. -/
def readRunningData (no : ℕ) (tempBuff : Vector UInt8 10) (uBuff : Vector UInt8 8)
    (s : PowerBus) : Option PowerBus :=
  if (s.g_RUNDate no).InUse then do
    let answer ← pollTwice no tempBuff s.can
    return storeAnswer no uBuff { s with g_RUNDate := dropUnnumbered no s.g_RUNDate } answer
  else some s

/-- `WriteRFIDData` on a normal card reply: the two halves of the write. -/
def writeCardReply (d : Vector UInt8 11) (s : PowerBus) : Option PowerBus :=
  (s.storeStatus (d.get 9).toNat
    (((s.g_RUNDate (d.get 9).toNat).get 0 &&& 0x3F) ||| 0x80)).map fun s =>
    let tempBuff : Vector UInt8 10 :=
      #v[d.get 1, d.get 2, d.get 3, d.get 4, d.get 10, d.get 6, d.get 7, d.get 8, d.get 5, d.get 10]
    let s := s.packageSend 0x08
      #v[d.get 9, tempBuff.get 0, tempBuff.get 1, tempBuff.get 2, tempBuff.get 3, tempBuff.get 4, 0,
        0]
    s.packageSend 0x09
      #v[d.get 9, tempBuff.get 5, tempBuff.get 6, tempBuff.get 7, tempBuff.get 8, tempBuff.get 9,
        crc8Table tempBuff.toList, 0]

/-- On an error card reply. -/
def writeCardError (d : Vector UInt8 11) (s : PowerBus) : Option PowerBus :=
  some (s.packageSend 0x13 #v[d.get 1, d.get 2, d.get 3, d.get 4, d.get 5, d.get 6, d.get 7, 0])

/-- On an error heartbeat. -/
def writeHeartbeatError (d : Vector UInt8 11) (s : PowerBus) : Option PowerBus :=
  (s.storeStatus (d.get 1).toNat
    (((s.g_RUNDate (d.get 1).toNat).get 0 &&& 0x3F) ||| 0x40)).map fun s =>
    s.packageSend 0x11 #v[d.get 1, d.get 2, d.get 3, d.get 4, d.get 5, 0, 0, 0]

/-- On a normal heartbeat. -/
def writeHeartbeat (d : Vector UInt8 11) (s : PowerBus) : Option PowerBus :=
  (s.storeStatus (d.get 7).toNat 0x80).map fun s =>
    { s with g_WaterCost := d.get 5, g_CostNum := d.get 6 }

/-- The four kinds of message. -/
def writeByKind (d : Vector UInt8 11) (s : PowerBus) : Option PowerBus :=
  if d.get 0 = 0xAA then writeCardReply d s
  else if d.get 0 = 0xBB then writeCardError d s
  else if d.get 0 = 0x55 then writeHeartbeatError d s
  else if d.get 0 = 0xCC then writeHeartbeat d s
  else some s

/-- The final wait: receive up to the first frame, `overflowFlag` times at most. -/
def drainRx : ℕ → List (Option CanRxMsg) → List (Option CanRxMsg)
  | 0, rx => rx
  | _ + 1, [] => []
  | overflowFlag + 1, m :: rx =>
      if (canReceiveMsg (Vector.replicate 8 0) m).1 ≠ 0 then rx else drainRx overflowFlag rx

def writeRFIDData (writeDat : Vector UInt8 11) (s : PowerBus) : Option PowerBus :=
  (writeByKind writeDat s).map fun s => { s with can.rx := drainRx 10 s.can.rx }

/-- The row of the table that a message makes `WriteRFIDData` use. -/
def rowIndex (writeDat : Vector UInt8 11) : Option ℕ :=
  if writeDat.get 0 = 0xAA then some (writeDat.get 9).toNat
  else if writeDat.get 0 = 0xBB then none
  else if writeDat.get 0 = 0x55 then some (writeDat.get 1).toNat
  else if writeDat.get 0 = 0xCC then some (writeDat.get 7).toNat
  else none

theorem PowerBus.storeStatus_isSome_iff (i : ℕ) (status : UInt8) (s : PowerBus) :
    (s.storeStatus i status).isSome ↔ i ≤ 80 := by
  rw [storeStatus, busnumSize]
  split <;> simp_all

theorem writeRFIDData_isSome_iff (d : Vector UInt8 11) (s : PowerBus) :
    (writeRFIDData d s).isSome ↔ ∀ i ∈ rowIndex d, i ≤ 80 := by
  have hstore := PowerBus.storeStatus_isSome_iff
  rw [writeRFIDData, Option.isSome_map]
  unfold writeByKind rowIndex
  split_ifs
  · simp [writeCardReply, hstore]
  · simp [writeCardError]
  · simp [writeHeartbeatError, hstore]
  · simp [writeHeartbeat, hstore]
  · simp

/-! ### One poll of a row -/

@[simp] theorem dropUnnumbered_of_ne {no n : ℕ} (t : RunTable) (h : n ≠ no) :
    dropUnnumbered no t n = t n := by
  unfold dropUnnumbered
  split
  · exact t.setStatus_of_ne _ h
  · rfl

theorem readRunningData_cases {no : ℕ} {tempBuff : Vector UInt8 10} {uBuff : Vector UInt8 8}
    {s t : PowerBus} (h : readRunningData no tempBuff uBuff s = some t) :
    (¬ (s.g_RUNDate no).InUse ∧ t = s) ∨
      ((s.g_RUNDate no).InUse ∧ ∃ answer, pollTwice no tempBuff s.can = some answer ∧
        t = storeAnswer no uBuff { s with g_RUNDate := dropUnnumbered no s.g_RUNDate } answer) := by
  unfold readRunningData at h
  split_ifs at h with huse
  · obtain ⟨answer, hanswer, h⟩ := Option.bind_eq_some_iff.mp h
    exact Or.inr ⟨huse, answer, hanswer, (Option.some.inj h).symm⟩
  · exact Or.inl ⟨huse, (Option.some.inj h).symm⟩

theorem storeAnswer_of_ne {no n : ℕ} (uBuff : Vector UInt8 8) (s : PowerBus)
    (answer : UInt8 × Vector UInt8 10 × CanBus) (hn : n ≠ no) :
    (storeAnswer no uBuff s answer).g_RUNDate n = s.g_RUNDate n := by
  unfold storeAnswer
  dsimp only
  split_ifs
  · exact s.g_RUNDate.setStatus_of_ne _ hn
  · exact s.g_RUNDate.setStatus_of_ne _ hn
  · exact Function.update_of_ne hn _ _

theorem readRunningData_of_ne {no n : ℕ} {tempBuff : Vector UInt8 10} {uBuff : Vector UInt8 8}
    {s t : PowerBus} (h : readRunningData no tempBuff uBuff s = some t) (hn : n ≠ no) :
    t.g_RUNDate n = s.g_RUNDate n := by
  rcases readRunningData_cases h with ⟨-, rfl⟩ | ⟨-, answer, -, rfl⟩
  · rfl
  · rw [storeAnswer_of_ne uBuff _ answer hn]
    exact dropUnnumbered_of_ne _ hn

theorem pollTwice_cases {no : ℕ} {tempBuff : Vector UInt8 10} {can : CanBus}
    {answer : UInt8 × Vector UInt8 10 × CanBus} (h : pollTwice no tempBuff can = some answer) :
    (answer.1 = 0x00 ∨ answer.1 = 0x02 ∨ answer.1 = 0xAA) ∧
      ∃ k, answer.2.2.tx =
        can.tx ++ List.replicate k (canTxMsg #v[0x01, UInt8.ofNat no, 0, 0, 0, 0, 0, 0]) := by
  obtain ⟨⟨uDat, temp, can₁⟩, hfirst, h⟩ := Option.bind_eq_some_iff.mp h
  have hc := canSendPBusCom_cases hfirst
  dsimp only at h
  split_ifs at h with h0
  · obtain ⟨ret, uBuff', can₂⟩ := answer
    have hc' := canSendPBusCom_cases h
    exact ⟨hc'.1, 2, by rw [hc'.2, hc.2]; simp [List.replicate_succ]⟩
  · cases h
    exact ⟨hc.1, 1, by simpa using hc.2⟩

end YckjAcu
