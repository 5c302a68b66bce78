import YckjAcu.Crc8

/-!
# The CAN bus

`bsp_can.c` and `bsp_canapp.c`: frames of eight data bytes to and from the
readers.  Reception is a list of the results of `CAN_MessagePending`, one for
each call of `Can_Receive_Msg`; past its end the bus stays silent.
-/

namespace YckjAcu

structure CanTxMsg where
  stdId : UInt32
  data : Vector UInt8 8
deriving DecidableEq

structure CanRxMsg where
  data : Vector UInt8 8
  dlc : UInt8
deriving DecidableEq

/-- What is still to be received, and all that was sent. -/
structure CanBus where
  rx : List (Option CanRxMsg)
  tx : List CanTxMsg
deriving DecidableEq

/-- The frame that `Can_Send_Msg` hands to the controller. -/
def canTxMsg (msg : Vector UInt8 8) : CanTxMsg where
  stdId :=
    if msg.get 0 = 0x01 ∨ msg.get 0 = 0x07 ∨ msg.get 0 = 0x08 ∨ msg.get 0 = 0x09 then
      (0x200 : UInt32) ||| (msg.get 1).toUInt32
    else 0x200
  data := msg

def canSendMsg (msg : Vector UInt8 8) (bus : CanBus) : CanBus :=
  { bus with tx := bus.tx ++ [canTxMsg msg] }

/-- The returned length and the buffer, for one result of the controller. -/
def canReceiveMsg (buf : Vector UInt8 8) : Option CanRxMsg → UInt8 × Vector UInt8 8
  | none => (0, buf)
  | some rxMessage => (rxMessage.dlc, rxMessage.data)

def packageSendBuf (mode : UInt8) (d : Vector UInt8 8) : Vector UInt8 8 :=
  match mode with
  | 0x01 => #v[0xA1, 0xA1, 0, 0, 0, 0, 0, 0]
  | 0x02 => #v[0xC1, d.get 0, d.get 1, d.get 2, d.get 3, d.get 4, 0, 0]
  | 0x03 => #v[0xA2, d.get 0, d.get 1, d.get 2, d.get 3, d.get 4, d.get 5, d.get 6]
  | 0x04 => #v[0xA3, d.get 0, d.get 1, 0, 0, 0, 0, 0]
  | 0x05 => #v[0x01, d.get 0, 0, 0, 0, 0, 0, 0]
  | 0x06 => #v[0x07, d.get 0, d.get 1, d.get 2, d.get 3, d.get 4, d.get 5, 0]
  | 0x08 => #v[0x08, d.get 0, d.get 1, d.get 2, d.get 3, d.get 4, d.get 5, 0]
  | 0x09 => #v[0x09, d.get 0, d.get 1, d.get 2, d.get 3, d.get 4, d.get 5, d.get 6]
  | 0x11 => #v[0x11, d.get 0, d.get 1, d.get 2, d.get 3, d.get 4, d.get 5, 0]
  | 0x13 => #v[0x13, d.get 0, d.get 1, d.get 2, d.get 3, d.get 4, d.get 5, d.get 6]
  | _ => Vector.replicate 8 0

def packageSend (mode : UInt8) (packageDat : Vector UInt8 8) (bus : CanBus) : CanBus :=
  canSendMsg (packageSendBuf mode packageDat) bus

/-- The waiting loop of the requests: receive until a frame has `value` at
`field`, at most `overflowFlag` times something else.  A matching byte left in
the buffer makes the loop repeat without counting, so on a silent bus it then
never ends. -/
def receiveFor (field : Fin 8) (value : UInt8) :
    List (Option CanRxMsg) → UInt8 → Vector UInt8 8 → ℕ →
      Option (UInt8 × Vector UInt8 8 × List (Option CanRxMsg))
  | [], res, recebuf, overflowFlag =>
      if res ≠ 0 ∨ overflowFlag = 0 then some (res, recebuf, [])
      else if recebuf[field] = value then none
      else some (0, recebuf, [])
  | m :: rx, res, recebuf, overflowFlag =>
      if res ≠ 0 ∨ overflowFlag = 0 then some (res, recebuf, m :: rx)
      else
        let (res, recebuf) := canReceiveMsg recebuf m
        if recebuf[field] ≠ value then receiveFor field value rx 0 recebuf (overflowFlag - 1)
        else receiveFor field value rx res recebuf overflowFlag

/-- Card number of the first half of an event, after the marker of its kind. -/
def firstHalf (kind : UInt8) (recebuf : Vector UInt8 8) (uBuff : Vector UInt8 10) :
    Vector UInt8 10 :=
  #v[kind, recebuf.get 2, recebuf.get 3, recebuf.get 4, recebuf.get 5, uBuff.get 5, uBuff.get 6,
    uBuff.get 7, uBuff.get 8, uBuff.get 9]

/-- Amount, check byte and code of the second half. -/
def secondHalf (recebuf : Vector UInt8 8) (uBuff : Vector UInt8 10) : Vector UInt8 10 :=
  #v[uBuff.get 0, uBuff.get 1, uBuff.get 2, uBuff.get 3, uBuff.get 4, recebuf.get 2, recebuf.get 3,
    recebuf.get 4, recebuf.get 5, recebuf.get 6]

/-- The part of `Can_SendPBus_Com` that waits for the frame `part2` after a first
half.  The loop is entered with the `res` of the first wait. -/
def receivePart2 (part2 uDat res : UInt8) (recebuf : Vector UInt8 8) (uBuff : Vector UInt8 10)
    (bus : CanBus) : Option (UInt8 × Vector UInt8 10 × CanBus) := do
  let (res, recebuf, rx) ← receiveFor 1 uDat bus.rx res recebuf 10
  if res ≠ 0 ∧ recebuf.get 1 = uDat ∧ recebuf.get 0 = part2 then
    return (0xAA, secondHalf recebuf uBuff, { bus with rx := rx })
  else return (0x00, uBuff, { bus with rx := rx })

/-- What `Can_SendPBus_Com` makes of the result of its first wait. -/
def pollAnswer (uDat res : UInt8) (recebuf : Vector UInt8 8) (uBuff : Vector UInt8 10)
    (bus : CanBus) : Option (UInt8 × Vector UInt8 10 × CanBus) :=
  if res ≠ 0 then
    if recebuf.get 1 = uDat ∧ recebuf.get 0 = 0x02 then some (0x02, uBuff, bus)
    else if recebuf.get 1 = uDat ∧ recebuf.get 0 = 0x03 then
      -- here `res` is cleared before the second wait
      receivePart2 0x04 uDat 0 recebuf (firstHalf 0x05 recebuf uBuff) bus
    else if recebuf.get 1 = uDat ∧ recebuf.get 0 = 0x05 then
      -- here it is not, so the second wait ends at once with the same frame
      receivePart2 0x06 uDat res recebuf (firstHalf 0x06 recebuf uBuff) bus
    else if recebuf.get 1 = uDat ∧ recebuf.get 0 = 0x04 then
      some (0xAA, secondHalf recebuf uBuff, bus)
    else if recebuf.get 1 = uDat ∧ recebuf.get 0 = 0x06 then
      some (0xAA, secondHalf recebuf uBuff, bus)
    else some (0x00, uBuff, bus)
  else some (0x00, uBuff, bus)

/-- Poll the reader `uDat`: `0x02` no data, `0xAA` an event in `uBuff`, `0x00`
no usable answer. -/
def canSendPBusCom (uDat : UInt8) (uBuff : Vector UInt8 10) (bus : CanBus) :
    Option (UInt8 × Vector UInt8 10 × CanBus) := do
  let bus := packageSend 0x05 #v[uDat, 0, 0, 0, 0, 0, 0, 0] bus
  let (res, recebuf, rx) ← receiveFor 1 uDat bus.rx 0 (Vector.replicate 8 0) 10
  pollAnswer uDat res recebuf uBuff { bus with rx := rx }

/-- The acknowledgement of a collected event. -/
def canReadPBusSucceed (uBuff : Vector UInt8 8) : CanBus → CanBus :=
  packageSend 0x06 #v[uBuff.get 0, uBuff.get 1, uBuff.get 2, uBuff.get 3, uBuff.get 4, uBuff.get 5,
    0, 0]

def canSendBroadcastKey (uBuff : Vector UInt8 7) : CanBus → CanBus :=
  packageSend 0x03 #v[uBuff.get 0, uBuff.get 1, uBuff.get 2, uBuff.get 3, uBuff.get 4, uBuff.get 5,
    uBuff.get 6, 0]

def canSendBroadcastCom (waterCost costNum : UInt8) : CanBus → CanBus :=
  packageSend 0x04 #v[waterCost, costNum, 0, 0, 0, 0, 0, 0]

/-- The waiting loop of `Can_ReadUnregistered`: receive until any frame comes, at
most `overflowFlag` times nothing. -/
def receiveAny : List (Option CanRxMsg) → Vector UInt8 8 → ℕ →
    UInt8 × Vector UInt8 8 × List (Option CanRxMsg)
  | [], recebuf, _ => (0, recebuf, [])
  | m :: rx, recebuf, 0 => (0, recebuf, m :: rx)
  | m :: rx, recebuf, overflowFlag + 1 =>
      let (res, recebuf) := canReceiveMsg recebuf m
      if res ≠ 0 then (res, recebuf, rx) else receiveAny rx recebuf overflowFlag

/-- The announcement of a reader without a logic address; `uBuff` takes the
physical address also when the check byte is wrong. -/
def canReadUnregistered (uBuff : Vector UInt8 4) (bus : CanBus) :
    UInt8 × Vector UInt8 4 × CanBus :=
  let (res, recebuf, rx) := receiveAny bus.rx (Vector.replicate 8 0) 20
  let bus := { bus with rx := rx }
  if res ≠ 0 then
    if recebuf.get 0 = 0xB3 then
      let uBuff := #v[recebuf.get 1, recebuf.get 2, recebuf.get 3, recebuf.get 4]
      if crc8Table uBuff.toList = recebuf.get 5 then (0x01, uBuff, bus) else (0x00, uBuff, bus)
    else (0x00, uBuff, bus)
  else (0x00, uBuff, bus)

/-- Give the reader `physicalADD` its logic address; the version it answers, or 0. -/
def canWriteLogitADD (logitADD : UInt8) (physicalADD : Vector UInt8 4) (bus : CanBus) :
    Option (UInt8 × CanBus) := do
  let bus := packageSend 0x02
    #v[physicalADD.get 0, physicalADD.get 1, physicalADD.get 2, physicalADD.get 3, logitADD, 0, 0,
      0]
    bus
  let (res, recebuf, rx) ← receiveFor 5 logitADD bus.rx 0 (Vector.replicate 8 0) 20
  if res ≠ 0 ∧ recebuf.get 0 = 0xC2 ∧ recebuf.get 1 = physicalADD.get 0 ∧
      recebuf.get 2 = physicalADD.get 1 ∧ recebuf.get 3 = physicalADD.get 2 ∧
      recebuf.get 4 = physicalADD.get 3 ∧ recebuf.get 5 = logitADD then
    return (recebuf.get 6, { bus with rx := rx })
  else return (0x00, { bus with rx := rx })

/-! ### Sending and waiting -/

@[simp] theorem packageSend_rx (mode : UInt8) (d : Vector UInt8 8) (bus : CanBus) :
    (packageSend mode d bus).rx = bus.rx := rfl

@[simp] theorem packageSend_tx (mode : UInt8) (d : Vector UInt8 8) (bus : CanBus) :
    (packageSend mode d bus).tx = bus.tx ++ [canTxMsg (packageSendBuf mode d)] := rfl

/-- Empty results before a frame for `value` are skipped as long as the counter
lasts. -/
theorem receiveFor_skip (field : Fin 8) {value : UInt8} {recebuf : Vector UInt8 8}
    (m : CanRxMsg) (hm : m.data[field] = value) (hdlc : m.dlc ≠ 0) (rx : List (Option CanRxMsg))
    {overflowFlag j : ℕ} (hj : j < overflowFlag) :
    receiveFor field value (List.replicate j none ++ some m :: rx) 0 recebuf overflowFlag =
      some (m.dlc, m.data, rx) := by
  induction j generalizing overflowFlag with
  | zero =>
      have hpos : overflowFlag ≠ 0 := by omega
      have hdone : receiveFor field value rx m.dlc m.data overflowFlag =
          some (m.dlc, m.data, rx) := by
        cases rx <;> simp [receiveFor, hdlc]
      simpa [receiveFor, canReceiveMsg, hpos, hm] using hdone
  | succ j ih =>
      have hpos : overflowFlag ≠ 0 := by omega
      by_cases hstale : recebuf[field.val] = value
      · have hrest := @ih overflowFlag (by omega)
        simpa [List.replicate_succ, receiveFor, canReceiveMsg, hpos, hstale] using hrest
      · have hrest := @ih (overflowFlag - 1) (by omega)
        simpa [List.replicate_succ, receiveFor, canReceiveMsg, hpos, hstale] using hrest

theorem receiveFor_of_res {field : Fin 8} {value res : UInt8} (hres : res ≠ 0)
    (rx : List (Option CanRxMsg)) (recebuf : Vector UInt8 8) (overflowFlag : ℕ) :
    receiveFor field value rx res recebuf overflowFlag = some (res, recebuf, rx) := by
  cases rx <;> simp [receiveFor, hres]

theorem receivePart2_cases {part2 uDat res ret : UInt8} {recebuf : Vector UInt8 8}
    {uBuff uBuff' : Vector UInt8 10} {bus bus' : CanBus}
    (h : receivePart2 part2 uDat res recebuf uBuff bus = some (ret, uBuff', bus')) :
    (ret = 0x00 ∨ ret = 0xAA) ∧ bus'.tx = bus.tx := by
  obtain ⟨⟨res, recebuf, rx⟩, _, h⟩ := Option.bind_eq_some_iff.mp h
  dsimp only at h
  split_ifs at h
  · cases h
    exact ⟨Or.inr rfl, rfl⟩
  · cases h
    exact ⟨Or.inl rfl, rfl⟩

theorem pollAnswer_cases {uDat res ret : UInt8} {recebuf : Vector UInt8 8}
    {uBuff uBuff' : Vector UInt8 10} {bus bus' : CanBus}
    (h : pollAnswer uDat res recebuf uBuff bus = some (ret, uBuff', bus')) :
    (ret = 0x00 ∨ ret = 0x02 ∨ ret = 0xAA) ∧ bus'.tx = bus.tx := by
  have hsome : ∀ {r b}, some (r, b, bus) = some (ret, uBuff', bus') →
      ret = r ∧ bus'.tx = bus.tx := by
    rintro r b heq
    cases heq
    exact ⟨rfl, rfl⟩
  have hpart2 : ∀ {part2 res b}, receivePart2 part2 uDat res recebuf b bus =
      some (ret, uBuff', bus') → (ret = 0x00 ∨ ret = 0x02 ∨ ret = 0xAA) ∧ bus'.tx = bus.tx := by
    intro part2 res b heq
    obtain ⟨hret, htx⟩ := receivePart2_cases heq
    exact ⟨by rcases hret with hret | hret <;> simp [hret], htx⟩
  unfold pollAnswer at h
  split_ifs at h
  · exact (hsome h).imp_left fun hret => Or.inr (Or.inl hret)
  · exact hpart2 h
  · exact hpart2 h
  · exact (hsome h).imp_left fun hret => Or.inr (Or.inr hret)
  · exact (hsome h).imp_left fun hret => Or.inr (Or.inr hret)
  · exact (hsome h).imp_left Or.inl
  · exact (hsome h).imp_left Or.inl

theorem canSendPBusCom_cases {uDat ret : UInt8} {uBuff uBuff' : Vector UInt8 10} {bus bus' : CanBus}
    (h : canSendPBusCom uDat uBuff bus = some (ret, uBuff', bus')) :
    (ret = 0x00 ∨ ret = 0x02 ∨ ret = 0xAA) ∧
      bus'.tx = bus.tx ++ [canTxMsg #v[0x01, uDat, 0, 0, 0, 0, 0, 0]] := by
  obtain ⟨_, _, h⟩ := Option.bind_eq_some_iff.mp h
  exact pollAnswer_cases h

end YckjAcu
