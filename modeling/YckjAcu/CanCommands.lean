import YckjAcu.PowerBus

/-!
# The commands on the CAN bus

Every command is laid out by its builder for `Package_Send` and by `Package_Send`
for the bus.  `Can_SendPBus_ErrCom` stores the communication code one place
further than `Package_Send` takes it from.
-/

namespace YckjAcu

def canUnregisteredBroadcast : CanBus → CanBus := packageSend 0x01 (Vector.replicate 8 0)

/-- The communication code goes to `Runningbuf[6]`. -/
def canSendPBusErrCom (uBuff : Vector UInt8 6) : CanBus → CanBus :=
  packageSend 0x11 #v[uBuff.get 0, uBuff.get 1, uBuff.get 2, uBuff.get 3, uBuff.get 4, 0,
    uBuff.get 5, 0]

/-- What the builders take from their parameters; `writeDat` is the message that
`WriteRFIDData` works on. -/
inductive CanCommand
  | unregisteredBroadcast
  | writeLogitADD (logitADD : UInt8) (physicalADD : Vector UInt8 4)
  | broadcastKey (uBuff : Vector UInt8 7)
  | broadcastCom (waterCost costNum : UInt8)
  | pbusCom (uDat : UInt8)
  | readPBusSucceed (uBuff : Vector UInt8 6)
  | pbusErrCom (uBuff : Vector UInt8 6)
  | cardReply1 (writeDat : Vector UInt8 11)
  | cardReply2 (writeDat : Vector UInt8 11)
  | cardError (writeDat : Vector UInt8 11)
  | heartbeatError (writeDat : Vector UInt8 11)

namespace CanCommand

/-- The mode number passed to `Package_Send`. -/
def mode : CanCommand → UInt8
  | unregisteredBroadcast => 0x01
  | writeLogitADD _ _ => 0x02
  | broadcastKey _ => 0x03
  | broadcastCom _ _ => 0x04
  | pbusCom _ => 0x05
  | readPBusSucceed _ => 0x06
  | pbusErrCom _ => 0x11
  | cardReply1 _ => 0x08
  | cardReply2 _ => 0x09
  | cardError _ => 0x13
  | heartbeatError _ => 0x11

/-- `TempBuff` of `WriteRFIDData`. -/
def tempBuff (d : Vector UInt8 11) : Vector UInt8 10 :=
  ⟨#[d.get 1, d.get 2, d.get 3, d.get 4, d.get 10, d.get 6, d.get 7, d.get 8, d.get 5, d.get 10],
    Eq.refl 10⟩

/-- The argument bytes in the order of the parameters; the CRC of the second half
of a card reply is one of them, and so is the 0 of a heartbeat error. -/
def args : CanCommand → List UInt8
  | unregisteredBroadcast => []
  | writeLogitADD logitADD p => [p.get 0, p.get 1, p.get 2, p.get 3, logitADD]
  | broadcastKey u => [u.get 0, u.get 1, u.get 2, u.get 3, u.get 4, u.get 5, u.get 6]
  | broadcastCom waterCost costNum => [waterCost, costNum]
  | pbusCom uDat => [uDat]
  | readPBusSucceed u => [u.get 0, u.get 1, u.get 2, u.get 3, u.get 4, u.get 5]
  | pbusErrCom u => [u.get 0, u.get 1, u.get 2, u.get 3, u.get 4, u.get 5]
  | cardReply1 d => [d.get 9, d.get 1, d.get 2, d.get 3, d.get 4, d.get 10]
  | cardReply2 d =>
      [d.get 9, d.get 6, d.get 7, d.get 8, d.get 5, d.get 10, crc8Table (tempBuff d).toList]
  | cardError d => [d.get 1, d.get 2, d.get 3, d.get 4, d.get 5, d.get 6, d.get 7]
  | heartbeatError d => [d.get 1, d.get 2, d.get 3, d.get 4, d.get 5, 0]

/-- `Runningbuf` as the builder fills it. -/
def runningbuf : CanCommand → Vector UInt8 8
  | unregisteredBroadcast => Vector.replicate 8 0
  | writeLogitADD logitADD p =>
      ⟨#[p.get 0, p.get 1, p.get 2, p.get 3, logitADD, 0, 0, 0], Eq.refl 8⟩
  | broadcastKey u =>
      ⟨#[u.get 0, u.get 1, u.get 2, u.get 3, u.get 4, u.get 5, u.get 6, 0], Eq.refl 8⟩
  | broadcastCom waterCost costNum => ⟨#[waterCost, costNum, 0, 0, 0, 0, 0, 0], Eq.refl 8⟩
  | pbusCom uDat => ⟨#[uDat, 0, 0, 0, 0, 0, 0, 0], Eq.refl 8⟩
  | readPBusSucceed u => ⟨#[u.get 0, u.get 1, u.get 2, u.get 3, u.get 4, u.get 5, 0, 0], Eq.refl 8⟩
  | pbusErrCom u => ⟨#[u.get 0, u.get 1, u.get 2, u.get 3, u.get 4, 0, u.get 5, 0], Eq.refl 8⟩
  | cardReply1 d => ⟨#[d.get 9, d.get 1, d.get 2, d.get 3, d.get 4, d.get 10, 0, 0], Eq.refl 8⟩
  | cardReply2 d =>
      ⟨#[d.get 9, d.get 6, d.get 7, d.get 8, d.get 5, d.get 10, crc8Table (tempBuff d).toList,
        0], Eq.refl 8⟩
  | cardError d => ⟨#[d.get 1, d.get 2, d.get 3, d.get 4, d.get 5, d.get 6, d.get 7, 0], Eq.refl 8⟩
  | heartbeatError d => ⟨#[d.get 1, d.get 2, d.get 3, d.get 4, d.get 5, 0, 0, 0], Eq.refl 8⟩

/-- The eight data bytes given to `Can_Send_Msg`. -/
def frame (c : CanCommand) : Vector UInt8 8 := packageSendBuf c.mode c.runningbuf

def send (c : CanCommand) : CanBus → CanBus := packageSend c.mode c.runningbuf

/-! ### The builders send these commands -/

theorem send_unregisteredBroadcast : unregisteredBroadcast.send = canUnregisteredBroadcast := rfl

theorem send_broadcastKey (u : Vector UInt8 7) : (broadcastKey u).send = canSendBroadcastKey u :=
  rfl

theorem send_broadcastCom (waterCost costNum : UInt8) :
    (broadcastCom waterCost costNum).send = canSendBroadcastCom waterCost costNum := rfl

theorem send_readPBusSucceed (u : Vector UInt8 8) :
    (readPBusSucceed #v[u.get 0, u.get 1, u.get 2, u.get 3, u.get 4, u.get 5]).send =
      canReadPBusSucceed u := rfl

theorem send_pbusErrCom (u : Vector UInt8 6) : (pbusErrCom u).send = canSendPBusErrCom u := rfl

theorem canWriteLogitADD_sends {logitADD ver : UInt8} {p : Vector UInt8 4} {bus bus' : CanBus}
    (h : canWriteLogitADD logitADD p bus = some (ver, bus')) :
    bus'.tx = ((writeLogitADD logitADD p).send bus).tx := by
  obtain ⟨⟨res, recebuf, rx⟩, -, h⟩ := Option.bind_eq_some_iff.mp h
  dsimp only at h
  split_ifs at h
  · cases h
    rfl
  · cases h
    rfl

theorem canSendPBusCom_sends {uDat ret : UInt8} {uBuff uBuff' : Vector UInt8 10}
    {bus bus' : CanBus} (h : canSendPBusCom uDat uBuff bus = some (ret, uBuff', bus')) :
    bus'.tx = ((pbusCom uDat).send bus).tx :=
  (canSendPBusCom_cases h).2

theorem writeCardReply_sends {d : Vector UInt8 11} {s t : PowerBus}
    (h : writeCardReply d s = some t) :
    t.can = (cardReply2 d).send ((cardReply1 d).send s.can) := by
  obtain ⟨u, hu, rfl⟩ := Option.map_eq_some_iff.mp h
  unfold PowerBus.storeStatus at hu
  split_ifs at hu
  · cases hu
    rfl

theorem writeCardError_sends {d : Vector UInt8 11} {s t : PowerBus}
    (h : writeCardError d s = some t) : t.can = (cardError d).send s.can := by
  cases h
  rfl

theorem writeHeartbeatError_sends {d : Vector UInt8 11} {s t : PowerBus}
    (h : writeHeartbeatError d s = some t) : t.can = (heartbeatError d).send s.can := by
  obtain ⟨u, hu, rfl⟩ := Option.map_eq_some_iff.mp h
  unfold PowerBus.storeStatus at hu
  split_ifs at hu
  · cases hu
    rfl

/-! ### Reading a frame back -/

/-- Mode and arguments as a receiver finds them in the frame. -/
def decode (f : Vector UInt8 8) : UInt8 × List UInt8 :=
  if f.get 0 = 0xA1 then (0x01, [])
  else if f.get 0 = 0xC1 then (0x02, [f.get 1, f.get 2, f.get 3, f.get 4, f.get 5])
  else if f.get 0 = 0xA2 then
    (0x03, [f.get 1, f.get 2, f.get 3, f.get 4, f.get 5, f.get 6, f.get 7])
  else if f.get 0 = 0xA3 then (0x04, [f.get 1, f.get 2])
  else if f.get 0 = 0x01 then (0x05, [f.get 1])
  else if f.get 0 = 0x07 then
    (0x06, [f.get 1, f.get 2, f.get 3, f.get 4, f.get 5, f.get 6])
  else if f.get 0 = 0x08 then
    (0x08, [f.get 1, f.get 2, f.get 3, f.get 4, f.get 5, f.get 6])
  else if f.get 0 = 0x09 then
    (0x09, [f.get 1, f.get 2, f.get 3, f.get 4, f.get 5, f.get 6, f.get 7])
  else if f.get 0 = 0x11 then
    (0x11, [f.get 1, f.get 2, f.get 3, f.get 4, f.get 5, f.get 6])
  else (0x13, [f.get 1, f.get 2, f.get 3, f.get 4, f.get 5, f.get 6, f.get 7])

/-- The arguments that reach the bus: of an error code, all but the last. -/
def delivered (c : CanCommand) : List UInt8 :=
  if c.mode = 0x11 then c.args.set 5 0 else c.args

/-- A receiver recovers the command and what was delivered of its arguments. -/
theorem decode_frame (c : CanCommand) : decode c.frame = (c.mode, c.delivered) := by
  cases c <;> rfl

/-- Two errors that differ in the communication code only. -/
structure LosesCode (c d : CanCommand) : Prop where
  left : c.mode = 0x11
  right : d.mode = 0x11
  text : c.args.take 5 = d.args.take 5
  code : c.args ≠ d.args

theorem frame_of_error {c : CanCommand} (h : c.mode = 0x11) :
    c.frame = #v[0x11, (c.args.take 5).getD 0 0, (c.args.take 5).getD 1 0,
      (c.args.take 5).getD 2 0, (c.args.take 5).getD 3 0, (c.args.take 5).getD 4 0, 0, 0] := by
  cases c with
  | pbusErrCom u => rfl
  | heartbeatError d => rfl
  | _ => exact absurd h (of_decide_eq_false rfl)

theorem frame_recovers_iff (c d : CanCommand) :
    (c.frame = d.frame → (c.mode, c.args) = (d.mode, d.args)) ↔ ¬ LosesCode c d := by
  constructor
  · intro h hloses
    have hframe : c.frame = d.frame := by
      rw [frame_of_error hloses.left, frame_of_error hloses.right, hloses.text]
    exact hloses.code (Prod.mk.inj (h hframe)).2
  · intro h hframe
    have hdecode := congrArg decode hframe
    rw [decode_frame, decode_frame, Prod.mk.injEq] at hdecode
    obtain ⟨hmode, hargs⟩ := hdecode
    refine Prod.ext hmode ?_
    rw [delivered, delivered, ← hmode] at hargs
    split_ifs at hargs with herror
    · by_contra hne
      have htext := congrArg (List.take 5) hargs
      rw [List.take_set_of_le (le_refl 5), List.take_set_of_le (le_refl 5)] at htext
      exact h ⟨herror, hmode.symm.trans herror, htext, hne⟩
    · exact hargs

/-- On a set of commands the encoding loses nothing exactly when no two error codes in
it differ in the communication code only. -/
theorem commands_recovered_iff (S : Set CanCommand) :
    (∀ c ∈ S, ∀ d ∈ S, c.frame = d.frame → (c.mode, c.args) = (d.mode, d.args)) ↔
      ∀ c ∈ S, ∀ d ∈ S, ¬ LosesCode c d :=
  forall₂_congr fun c _ => forall₂_congr fun d _ => frame_recovers_iff c d

/-- The codes 7 and 8 of the same error give one frame. -/
theorem errCom_code_lost : ¬ ∀ c d : CanCommand,
    c.frame = d.frame → (c.mode, c.args) = (d.mode, d.args) := by
  intro h
  have hkey := h (pbusErrCom #v[1, 0x45, 0x31, 0x30, 0x32, 7])
    (pbusErrCom #v[1, 0x45, 0x31, 0x30, 0x32, 8]) rfl
  exact absurd hkey (by decide)

end CanCommand

end YckjAcu
