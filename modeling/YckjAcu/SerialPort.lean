import YckjAcu.SerialReceiver
import YckjAcu.BootConfig

/-!
# The serial commands

`SendSerialPort` carries out a received command and answers it.  The length of the
answer and the place of its check byte are taken from the request.
-/

namespace YckjAcu

/-- The memory and the globals that the commands work on. -/
structure SerialState where
  globals : ConfigGlobals
  fm1702KeyCRC : UInt8
  eeprom : Eeprom

def versionNo : UInt8 := 0x01

/-! ### The cases of the `switch`

Each gives the new state and what it stores in `Runningbuf` from index 3 on. -/

def setServer (d : Vector UInt8 32) (s : SerialState) : SerialState × List UInt8 :=
  let sendbuf : Vector UInt8 4 := #v[d.get 3, d.get 4, d.get 5, d.get 6]
  let port := ((d.get 7).toUInt16 <<< 8) ||| (d.get 8).toUInt16
  ({ s with eeprom := writePortAdd port (writeIPAdd sendbuf s.eeprom) },
    [d.get 3, d.get 4, d.get 5, d.get 6, d.get 7, d.get 8])

def queryServer (s : SerialState) : SerialState × List UInt8 :=
  let port := readPortAdd s.eeprom
  (s, (readIPAdd s.eeprom).toList ++ [(port / 256).toUInt8, (port % 256).toUInt8])

/-- The `n` bytes from index 3 on. -/
def dataField (d : Vector UInt8 32) (n : ℕ) : Vector UInt8 n :=
  Vector.ofFn fun i => d.toList.getD (3 + i) 0

def setACUAdd (d : Vector UInt8 32) (s : SerialState) : SerialState × List UInt8 :=
  ({ s with eeprom := writeACUAdd (dataField d 16) s.eeprom }, (dataField d 16).toList)

def queryACUAdd (s : SerialState) : SerialState × List UInt8 := (s, (readACUAdd s.eeprom).toList)

def setACUSN (d : Vector UInt8 32) (s : SerialState) : SerialState × List UInt8 :=
  ({ s with eeprom := writeACUSN (dataField d 4) s.eeprom }, (dataField d 4).toList)

/-- The globals are set, written and read back. -/
def setStaticIP (d : Vector UInt8 32) (s : SerialState) : SerialState × List UInt8 :=
  let setip : Vector UInt8 5 := #v[d.get 3, d.get 4, d.get 5, d.get 6, d.get 7]
  let setnetmask : Vector UInt8 4 := #v[d.get 8, d.get 9, d.get 10, d.get 11]
  let setgateway : Vector UInt8 4 := #v[d.get 12, d.get 13, d.get 14, d.get 15]
  let e := writeGateway setgateway (writeNetmask setnetmask (writeLocalIP setip s.eeprom))
  ({ s with
      globals := { s.globals with
        g_Setip := readLocalIP e, g_Setnetmask := readNetmask e, g_Setgateway := readGateway e }
      eeprom := e },
    (readLocalIP e).toList ++ (readNetmask e).toList ++ (readGateway e).toList)

def queryStaticIP (s : SerialState) : SerialState × List UInt8 :=
  (s, (readLocalIP s.eeprom).toList ++ (readNetmask s.eeprom).toList ++
    (readGateway s.eeprom).toList)

/-- The byte before the block number is the request's. -/
def queryRFIDKey (d : Vector UInt8 32) (s : SerialState) : SerialState × List UInt8 :=
  let key := readRFIDKey s.eeprom
  (s, [key.get 0, key.get 1, key.get 2, key.get 3, key.get 4, key.get 5, d.get 9, key.get 6])

/-- This case falls through to the query. -/
def setRFIDKey (d : Vector UInt8 32) (s : SerialState) : SerialState × List UInt8 :=
  let key : Vector UInt8 7 :=
    #v[d.get 3, d.get 4, d.get 5, d.get 6, d.get 7, d.get 8, d.get 10]
  queryRFIDKey d
    { s with
      globals := { s.globals with fm1702Key := key }
      fm1702KeyCRC := crc8Table key.toList
      eeprom := writeRFIDKey key s.eeprom }

def serialCommand (d : Vector UInt8 32) (s : SerialState) : SerialState × List UInt8 :=
  match d.get 2 with
  | 0x01 => (s, versionNo :: s.globals.g_ACUSN.toList)
  | 0x03 => setServer d s
  | 0xC3 => queryServer s
  | 0x05 => setACUAdd d s
  | 0xC5 => queryACUAdd s
  | 0x07 => setACUSN d s
  | 0x09 => setStaticIP d s
  | 0xC9 => queryStaticIP s
  | 0x10 => setRFIDKey d s
  | 0x12 => queryRFIDKey d s
  | _ => (s, [])

/-- The indices that the cases use on `SerialDat`. -/
def commandIndices : UInt8 → List ℕ
  | 0x03 => [3, 4, 5, 6, 7, 8]
  | 0x05 => [3, 4, 5, 6, 7, 8, 9, 10, 11, 12, 13, 14, 15, 16, 17, 18]
  | 0x07 => [3, 4, 5, 6]
  | 0x09 => [3, 4, 5, 6, 7, 8, 9, 10, 11, 12, 13, 14, 15]
  | 0x10 => [3, 4, 5, 6, 7, 8, 10, 9]
  | 0x12 => [9]
  | _ => []

/-! ### The answer -/

/-- `Runningbuf` after the `switch`. -/
def runningbuf (d : Vector UInt8 32) (data : List UInt8) : Vector UInt8 20 :=
  Vector.ofFn fun i => ([0xF4, d.get 1, d.get 2 + 1] ++ data).getD i 0

/-- `CRC8_Table(Runningbuf,Runningbuf[1]-1)`. -/
def runningCRC (buf : Vector UInt8 20) : UInt8 :=
  crc8Table (buf.toList.take (buf.get 1 - 1).toNat)

/-- The check byte is stored where the request's length says. -/
def closeRunningbuf (d : Vector UInt8 32) (buf : Vector UInt8 20) : Vector UInt8 20 :=
  buf.setIfInBounds ((d.get 1).toNat - 1) (runningCRC buf)

/-- The new state and the bytes handed to `comSendBuf`. -/
def sendSerialPort (d : Vector UInt8 32) (s : SerialState) : SerialState × List UInt8 :=
  let command := serialCommand d s
  let buf := closeRunningbuf d (runningbuf d command.2)
  (command.1, buf.toList.take (buf.get 1).toNat)

/-- The indices used on `Runningbuf`: those of the three header bytes and the data,
those that `CRC8_Table` reads, that of the check byte and those that are sent. -/
def runningIndices (d : Vector UInt8 32) (s : SerialState) : List ℤ :=
  let data := (serialCommand d s).2
  let buf := runningbuf d data
  (List.range (3 + data.length)).map Int.ofNat ++
    (List.range (buf.get 1 - 1).toNat).map Int.ofNat ++ [((d.get 1).toNat : ℤ) - 1] ++
    (List.range ((closeRunningbuf d buf).get 1).toNat).map Int.ofNat

/-- An answer of the length and to the command of the request, with its check byte. -/
def WellFormedAnswer (d : Vector UInt8 32) (sent : List UInt8) : Prop :=
  ∃ data : List UInt8, data.length + 4 = (d.get 1).toNat ∧
    sent = [0xF4, d.get 1, d.get 2 + 1] ++ data ++
      [crc8Table ([0xF4, d.get 1, d.get 2 + 1] ++ data)]

/-- All indices are in bounds, and the answer is well formed. -/
structure ResponseOk (d : Vector UInt8 32) (s : SerialState) : Prop where
  running : ∀ i ∈ runningIndices d s, 0 ≤ i ∧ i < 20
  serialDat : ∀ i ∈ 1 :: 2 :: commandIndices (d.get 2), i < 32
  answer : WellFormedAnswer d (sendSerialPort d s).2

/-- A content of `g_SerialDat` with which completion is signalled. -/
def Completable (d : Vector UInt8 32) : Prop :=
  ∃ serialDat ops t, Runs.run SerialSession.step (SerialSession.start serialDat) ops = some t ∧
    t.rx.Complete ∧ t.rx.serialDat = d

theorem sendSerialPort_fst (d : Vector UInt8 32) (s : SerialState) :
    (sendSerialPort d s).1 = (serialCommand d s).1 := by
  rw [sendSerialPort]

theorem serialCommand_length (d : Vector UInt8 32) (s : SerialState) :
    (serialCommand d s).2.length ≤ 16 := by
  rw [serialCommand]
  split <;> simp [setServer, queryServer, setACUAdd, queryACUAdd, setACUSN, setStaticIP,
    queryStaticIP, setRFIDKey, queryRFIDKey]

theorem commandIndices_lt (cmd : UInt8) : ∀ i ∈ commandIndices cmd, i < 32 := by
  unfold commandIndices
  split <;> decide

section Running

variable (d : Vector UInt8 32) (data : List UInt8)

theorem runningbuf_get_one : (runningbuf d data).get 1 = d.get 1 := by
  rw [runningbuf, Buffers.get_ofFn]
  rfl

theorem runningbuf_take {n : ℕ} (h3 : 3 ≤ n) (hn : n ≤ 20) :
    ∃ rest : List UInt8, rest.length = n - 3 ∧
      (runningbuf d data).toList.take n = [0xF4, d.get 1, d.get 2 + 1] ++ rest := by
  have hfront : ((runningbuf d data).toList.take n).take 3 =
      [0xF4, d.get 1, d.get 2 + 1] := by
    rw [List.take_take, Nat.min_eq_left h3, runningbuf, Vector.toList_ofFn]
    simp [List.ofFn_succ]
  refine ⟨((runningbuf d data).toList.take n).drop 3, ?_, ?_⟩
  · rw [List.length_drop, List.length_take, Vector.length_toList, Nat.min_eq_left hn]
  · rw [← hfront, List.take_append_drop]

theorem runningbuf_take_data (hlen : 3 + data.length ≤ 20) :
    (runningbuf d data).toList.take (3 + data.length) =
      [0xF4, d.get 1, d.get 2 + 1] ++ data := by
  have hfront : ([0xF4, d.get 1, d.get 2 + 1] ++ data).length = 3 + data.length := by
    rw [List.length_append]
    rfl
  rw [runningbuf, Vector.toList_ofFn]
  generalize [0xF4, d.get 1, d.get 2 + 1] ++ data = front at hfront ⊢
  refine List.ext_getElem ?_ fun i _ hi => ?_
  · rw [List.length_take, List.length_ofFn, hfront, Nat.min_eq_left hlen]
  · rw [List.getElem_take, List.getElem_ofFn, List.getD_eq_getElem _ _ hi]

variable {d} (h4 : 4 ≤ (d.get 1).toNat)
include h4

theorem closeRunningbuf_get_one (buf : Vector UInt8 20) :
    (closeRunningbuf d buf).get 1 = buf.get 1 :=
  Buffers.get_setIfInBounds_of_ne buf (fun h : (d.get 1).toNat - 1 = 1 => by omega) _

theorem sendSerialPort_sent (s : SerialState) :
    (sendSerialPort d s).2 =
      (closeRunningbuf d (runningbuf d (serialCommand d s).2)).toList.take (d.get 1).toNat := by
  rw [sendSerialPort]
  dsimp only
  rw [closeRunningbuf_get_one h4, runningbuf_get_one]

theorem count_pred : (d.get 1 - 1).toNat = (d.get 1).toNat - 1 := by
  have hone : (1 : UInt8) ≤ d.get 1 := UInt8.le_iff_toNat_le.mpr ((by decide : 1 ≤ 4).trans h4)
  rw [UInt8.toNat_sub_of_le _ _ hone]
  rfl

variable (h20 : (d.get 1).toNat ≤ 20)
include h20

/-- The bytes sent are those before the check byte, and the check byte. -/
theorem sent_eq (data : List UInt8) :
    (closeRunningbuf d (runningbuf d data)).toList.take (d.get 1).toNat =
      (runningbuf d data).toList.take ((d.get 1).toNat - 1) ++
        [crc8Table ((runningbuf d data).toList.take ((d.get 1).toNat - 1))] := by
  have hlast : (d.get 1).toNat = (d.get 1).toNat - 1 + 1 := by omega
  rw [closeRunningbuf, runningCRC, runningbuf_get_one, count_pred h4]
  generalize (d.get 1).toNat - 1 = n at hlast ⊢
  rw [hlast, List.take_succ_eq_append_getElem (by simp; omega)]
  simp [List.take_set_of_le]

theorem wellFormed_sent (data : List UInt8) :
    WellFormedAnswer d
      ((closeRunningbuf d (runningbuf d data)).toList.take (d.get 1).toNat) := by
  obtain ⟨rest, hlen, hrest⟩ := runningbuf_take d data (n := (d.get 1).toNat - 1)
    (by omega) (by omega)
  refine ⟨rest, by omega, ?_⟩
  rw [sent_eq h4 h20, hrest]

end Running

theorem sendSerialPort_answer {d : Vector UInt8 32} {s : SerialState}
    (h : (serialCommand d s).2.length + 4 = (d.get 1).toNat) :
    (sendSerialPort d s).2 =
      [0xF4, d.get 1, d.get 2 + 1] ++ (serialCommand d s).2 ++
        [crc8Table ([0xF4, d.get 1, d.get 2 + 1] ++ (serialCommand d s).2)] := by
  have hdata := serialCommand_length d s
  have h4 : 4 ≤ (d.get 1).toNat := by omega
  have hpred : (d.get 1).toNat - 1 = 3 + (serialCommand d s).2.length := by omega
  rw [sendSerialPort_sent h4, sent_eq h4 (by omega), hpred,
    runningbuf_take_data d _ (by omega)]

/-- The answer is in bounds and well formed exactly for the lengths from 4 to 20. -/
theorem responseOk_iff (d : Vector UInt8 32) (s : SerialState) :
    ResponseOk d s ↔ 4 ≤ (d.get 1).toNat ∧ (d.get 1).toNat ≤ 20 := by
  constructor
  · intro h
    obtain ⟨data, hlen, -⟩ := h.answer
    have hmem : ((d.get 1).toNat : ℤ) - 1 ∈ runningIndices d s :=
      List.mem_append_left _ (List.mem_append_right _ List.mem_cons_self)
    have hin := h.running _ hmem
    omega
  · rintro ⟨h4, h20⟩
    refine ⟨?_, ?_, ?_⟩
    · have hdata := serialCommand_length d s
      intro i hi
      simp only [runningIndices, closeRunningbuf_get_one h4, runningbuf_get_one, count_pred h4,
        List.mem_append, List.mem_map, List.mem_range, List.mem_singleton] at hi
      rcases hi with ((⟨j, hj, rfl⟩ | ⟨j, hj, rfl⟩) | rfl) | ⟨j, hj, rfl⟩
      · exact ⟨Int.natCast_nonneg j, by simp; omega⟩
      · exact ⟨Int.natCast_nonneg j, by simp; omega⟩
      · omega
      · exact ⟨Int.natCast_nonneg j, by simp; omega⟩
    · intro i hi
      rcases List.mem_cons.mp hi with rfl | hi
      · decide
      rcases List.mem_cons.mp hi with rfl | hi
      · decide
      exact commandIndices_lt _ i hi
    · rw [sendSerialPort_sent h4]
      exact wellFormed_sent h4 h20 _

def longRequest : List UInt8 := [0xF3, 21, 0x01] ++ List.replicate 17 0 ++ [0x21]

def longRequestDat : Vector UInt8 32 := Vector.ofFn fun i => longRequest.getD i 0

theorem completable_longRequestDat : Completable longRequestDat :=
  ⟨Vector.replicate 32 0, longRequest.map .byte, ⟨⟨longRequestDat, 0x95⟩, longRequest⟩,
    by decide +kernel, by decide +kernel, rfl⟩

/-- All zero, as before `AT24CXX_Check` with a cleared memory. -/
def blankState : SerialState where
  globals := ⟨Vector.replicate 7 0, Vector.replicate 4 0, 0, Vector.replicate 4 0,
    Vector.replicate 16 0, Vector.replicate 5 0, Vector.replicate 4 0, Vector.replicate 4 0⟩
  fm1702KeyCRC := 0
  eeprom := fun _ => 0

/-- The check byte of the answer goes behind the buffer. -/
theorem long_request_leaves_buffer : ¬ ∀ d : Vector UInt8 32, Completable d →
    ∀ s : SerialState, ResponseOk d s := by
  intro h
  have hok := h longRequestDat completable_longRequestDat blankState
  have hmem : (20 : ℤ) ∈ runningIndices longRequestDat blankState := by decide +kernel
  exact absurd (hok.running 20 hmem).2 (by decide)

end YckjAcu
