import YckjAcu.Eeprom
import YckjAcu.RunTable
import YckjAcu.Lib.SlotTable

/-!
# Registration of readers

`bsp_useadd.c` keeps the physical address of the reader with logic address `i`
in the five bytes of a slot at `Start_ADD + 5 * i`: the logic byte, which equals
`i` when the slot is occupied, and the four address bytes.  `COUNT_ADD` counts
the occupied slots.
-/

namespace YckjAcu

abbrev PhysicalNo := Vector UInt8 4

def countADD : ℕ := 0x0001
def logicADD : ℕ := 0
def physicalADD1 : ℕ := 1
def startADD : ℕ := 0x000A
def addSize : ℕ := busnumSize

/-- The state that registration works on.  `deleted` only records the arguments
of `Delete_LogicADD`. -/
structure Device where
  eeprom : Eeprom
  g_RUNDate : RunTable
  kjVersions : ℕ → UInt8
  deleted : List UInt8

/-- `(Start_ADD + ( i * 5 )) | field`. -/
def slotADD (i field : ℕ) : ℕ := (startADD + i * 5) ||| field

/-- The byte-wise comparison of `Distribute_LogicADD`. -/
def samePhysical (physicalNo physicalTemp : PhysicalNo) : Bool :=
  (physicalNo.get 3 == physicalTemp.get 3 && physicalNo.get 2 == physicalTemp.get 2) &&
    (physicalNo.get 0 == physicalTemp.get 0 && physicalNo.get 1 == physicalTemp.get 1)

/-- The first loop: the slot that already holds this address. -/
def findRegistered (physicalNo : PhysicalNo) (e : Eeprom) : Option ℕ :=
  (List.range' 1 addSize).find? fun i =>
    let temp := slotADD i logicADD
    at24cxxReadOneByte e temp == UInt8.ofNat i &&
      samePhysical physicalNo (at24cxxRead e (temp + 1) 4)

/-- The second loop: the first slot whose logic byte is not its own number. -/
def findFree (e : Eeprom) : Option ℕ :=
  (List.range' 1 addSize).find? fun i =>
    at24cxxReadOneByte e (slotADD i logicADD) != UInt8.ofNat i

/-- The five bytes of a new slot, then the counter. -/
def writeSlot (i : ℕ) (physicalNo : PhysicalNo) (e : Eeprom) : Eeprom :=
  let temp := slotADD i logicADD
  let e := at24cxxWriteOneByte temp (UInt8.ofNat i) e
  let e := at24cxxWriteOneByte (temp + 1) (physicalNo.get 0) e
  let e := at24cxxWriteOneByte (temp + 2) (physicalNo.get 1) e
  let e := at24cxxWriteOneByte (temp + 3) (physicalNo.get 2) e
  let e := at24cxxWriteOneByte (temp + 4) (physicalNo.get 3) e
  let logicCount := at24cxxReadOneByte e countADD
  at24cxxWriteOneByte countADD (logicCount + 1) e

def distributeLogicADD (physicalNo : PhysicalNo) (e : Eeprom) : UInt8 × Eeprom :=
  match findRegistered physicalNo e with
  | some i => (UInt8.ofNat i, e)
  | none =>
      match findFree e with
      | some i => (UInt8.ofNat i, writeSlot i physicalNo e)
      | none => (0xF3, e)

/-- One pass of the loop of `Delete_LogicADD`. -/
def clearSlot (logicNo : UInt8) (e : Eeprom) (i : ℕ) : Eeprom :=
  if at24cxxReadOneByte e (slotADD i logicADD) = logicNo then
    let e := at24cxxWrite (slotADD i physicalADD1) [0, 0, 0, 0] e
    at24cxxWriteOneByte (slotADD i logicADD) 0x00 e
  else e

def deleteLogicADD (logicNo : UInt8) (d : Device) : UInt8 × Device :=
  let e := (List.range' 1 addSize).foldl (clearSlot logicNo) d.eeprom
  let logicCount := at24cxxReadOneByte e countADD
  (logicCount - 1,
    { d with
      eeprom := at24cxxWriteOneByte countADD (logicCount - 1) e
      g_RUNDate := d.g_RUNDate.setStatus logicNo.toNat 0x00
      deleted := d.deleted ++ [logicNo] })

/-- The results of `Can_WriteLogitADD` for slot `i`: the first call (`false`) and
the one repeated after a failure (`true`). -/
abbrev Handshakes := ℕ → Bool → UInt8

/-- `g_RUNDate[i][0] = 0x80` and the four bytes of the serial number. -/
def registeredRow (physicalTemp : PhysicalNo) (r : Row) : Row :=
  let r := r.setIfInBounds 0 0x80
  let r := r.setIfInBounds 1 (physicalTemp.get 0)
  let r := r.setIfInBounds 2 (physicalTemp.get 1)
  let r := r.setIfInBounds 3 (physicalTemp.get 2)
  r.setIfInBounds 4 (physicalTemp.get 3)

/-- The tables after a handshake that returned the version `ver`. -/
def enterReader (i : ℕ) (physicalTemp : PhysicalNo) (ver : UInt8) (d : Device) : Device :=
  let t := d.g_RUNDate.setStatus 0 ((d.g_RUNDate 0).get 0 + 1)
  { d with
    g_RUNDate := Function.update t i (registeredRow physicalTemp (t i))
    kjVersions := Function.update d.kjVersions i ver }

/-- One pass of the loop of `PowerUPLogitADDCheck`. -/
def powerUPSlot (canWriteLogitADD : Handshakes) (d : Device) (i : ℕ) : Device :=
  let temp := slotADD i logicADD
  if at24cxxReadOneByte d.eeprom temp = UInt8.ofNat i then
    let physicalTemp := at24cxxRead d.eeprom (temp + 1) 4
    if physicalTemp.get 0 = 0 ∧ physicalTemp.get 1 = 0 ∧ physicalTemp.get 2 = 0 ∧
        physicalTemp.get 3 = 0 then
      let d := (deleteLogicADD (UInt8.ofNat i) d).2
      { d with kjVersions := Function.update d.kjVersions i 0 }
    else if canWriteLogitADD i false ≠ 0 then
      enterReader i physicalTemp (canWriteLogitADD i false) d
    else if canWriteLogitADD i true ≠ 0 then
      enterReader i physicalTemp (canWriteLogitADD i true) d
    else
      let d := { d with kjVersions := Function.update d.kjVersions i 0 }
      (deleteLogicADD (UInt8.ofNat i) d).2
  else d

def powerUPLogitADDCheck (canWriteLogitADD : Handshakes) (d : Device) : Device :=
  (List.range' 1 addSize).foldl (powerUPSlot canWriteLogitADD) d

end YckjAcu
