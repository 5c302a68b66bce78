import YckjAcu.Eeprom
import YckjAcu.EepromDriver
import YckjAcu.Lib.SerialEeprom
import Mathlib.Tactic.Ring

/-!
# The parameter memory on its bus

The driver with the 24C08: each call as one transfer, for every address, and
every program that stays within the chip as the same program on an array.
-/

namespace YckjAcu

open TwoWire SerialEeprom

/-! ### Transfers with the chip -/

section Chip

variable {keepsBlock : Bool} {ch : Chip} {s o cl : Bool}

theorem deaf_standby (h : ch.latch = []) : Deaf (chip keepsBlock) (ch.goto .standby) where
  pulls := rfl
  rise := fun _ => rfl
  fall := rfl
  stop := by simp [chip, Chip.react, Chip.goto, program, h]

theorem accepted_goto (role : Role) (v : UInt8) (p : Phase) :
    (ch.goto p).accepted keepsBlock role v = ch.accepted keepsBlock role v := by
  cases role with
  | select =>
      cases keepsBlock <;> rfl
  | word => rfl
  | data => rfl

theorem iicSend_received {role : Role} {txd : UInt8} (h : role = .select → Selects txd) :
    iicSend (chip keepsBlock) txd ⟨⟨false, s, o⟩, ch.goto (.shift role []), cl⟩ =
      ⟨⟨false, true, false⟩, ch.accepted keepsBlock role txd, cl⟩ := by
  have hreceived : ch.received role txd = ch.goto (.ack role txd) :=
    if_neg fun hno => hno.2 (h hno.1)
  rw [iicSend, iicSendByte_low fun ws v => pulls_foldl_shift (by simp), foldl_shift_byte,
    hreceived, iicWaitAck_acked rfl]
  exact congrArg (Bus.mk _ · cl) (accepted_goto role txd (.ack role txd))

/-- A device byte of another device. -/
theorem iicSend_refused {txd : UInt8} (h : ¬ Selects txd) (hlatch : ch.latch = []) :
    iicSend (chip keepsBlock) txd ⟨⟨false, s, o⟩, ch.goto (.shift .select []), cl⟩ =
      ⟨⟨true, true, true⟩, ch.goto .standby, cl⟩ := by
  have hreceived : ch.received .select txd = ch.goto .standby := if_pos ⟨rfl, h⟩
  have hdeaf : Deaf (chip keepsBlock) (ch.goto .standby) := deaf_standby hlatch
  rw [iicSend, iicSendByte_low fun ws v => pulls_foldl_shift (by simp), foldl_shift_byte,
    hreceived, iicWaitAck_deaf hdeaf]

/-- After a start the chip waits for a device byte, unless a write cycle is on. -/
def started (ch : Chip) : Chip :=
  { ch with phase := if ch.busy then .standby else .shift .select [], latch := [] }

theorem iicStart_idle :
    iicStart (chip keepsBlock) ⟨⟨true, true, true⟩, ch.goto .standby, cl⟩ =
      ⟨⟨false, false, true⟩, started ch, cl⟩ := by
  rw [iicStart_high rfl]
  cases hbusy : ch.busy <;> simp [chip, Chip.react, Chip.onFall, Chip.goto, started, hbusy]

theorem iicStart_again {role : Role} :
    iicStart (chip keepsBlock) ⟨⟨false, s, o⟩, ch.goto (.shift role []), cl⟩ =
      ⟨⟨false, false, true⟩, started ch, cl⟩ := by
  rw [iicStart_low rfl rfl]
  cases hbusy : ch.busy <;>
    simp [chip, Chip.react, Chip.onRise, Chip.onFall, Chip.goto, started, hbusy]

/-- The loop with one bit on the line and others to come. -/
theorem readLoop_put (v : Bool) (vs : List Bool) (receive : UInt8) :
    readLoop (chip keepsBlock) vs.length receive ⟨⟨true, true, false⟩, ch.goto (.put v vs), cl⟩ =
      (vs.foldl shiftIn receive, ⟨⟨true, true, false⟩, ch.goto (.put (vs.getLastD v) []), cl⟩) := by
  induction vs generalizing v receive with
  | nil => rfl
  | cons w ws ih =>
      have hfall : (chip keepsBlock).react .fall (ch.goto (.put v (w :: ws))) =
          ch.goto (.put w ws) := rfl
      have hrise : ∀ u, (chip keepsBlock).react (.rise u) (ch.goto (.put w ws)) =
          ch.goto (.put w ws) := fun _ => rfl
      have hread : readSda (chip keepsBlock) ⟨⟨true, true, false⟩, ch.goto (.put w ws), cl⟩ = w := by
        simp [readSda, level, chip, Chip.pulls, Chip.goto]
      rw [List.length_cons, readLoop, setScl_fall, hfall, setScl_rise_in, hrise, hread, ih w,
        List.getLastD_cons]
      rfl

theorem iicReadByte_send :
    iicReadByte (chip keepsBlock) false ⟨⟨false, true, false⟩, ch.send, cl⟩ =
      (ch.mem (Fin.ofNat 1024 ch.counter),
        ⟨⟨false, true, true⟩, ch.send.goto .standby, cl⟩) := by
  set v := ch.mem (Fin.ofNat 1024 ch.counter) with hv
  have hsend : ch.send = ch.send.goto (.put ((v &&& 0x80) >>> 7 ≠ 0) (msbBits 7 (v <<< 1))) := rfl
  have hrise : ∀ u, (chip keepsBlock).react (.rise u) ch.send = ch.send := fun _ => rfl
  have hread : readSda (chip keepsBlock) ⟨⟨true, true, false⟩, ch.send, cl⟩ =
      decide ((v &&& 0x80) >>> 7 ≠ 0) := by
    simp [readSda, level, chip, Chip.pulls, Chip.send, hv]
  have hfirst : readLoop (chip keepsBlock) 8 0 ⟨⟨false, true, false⟩, ch.send, cl⟩ =
      readLoop (chip keepsBlock) (msbBits 7 (v <<< 1)).length
        (shiftIn 0 (decide ((v &&& 0x80) >>> 7 ≠ 0))) ⟨⟨true, true, false⟩, ch.send, cl⟩ := by
    rw [readLoop, setScl_low_low, setScl_rise_in, hrise, hread, msbBits_length]
    rfl
  have hvalue : (msbBits 7 (v <<< 1)).foldl shiftIn (shiftIn 0 (decide ((v &&& 0x80) >>> 7 ≠ 0))) =
      v := foldl_shiftIn_msbBits v
  simp only [iicReadByte, setOut_low, hfirst]
  rw [hsend, readLoop_put, hvalue]
  simp only [Bool.false_eq_true, if_false, iicNAck, iicAnswer, setScl_fall, setOut_low, setSda_low]
  rw [setScl_rise_out rfl rfl, setScl_fall]
  rfl

theorem deviceByte_mod (addr : ℕ) :
    deviceByte addr = UInt8.ofNat (0xA0 + (addr / 256 % 128) <<< 1) := by
  apply UInt8.toNat_inj.mp
  simp only [deviceByte, UInt8.toNat_ofNat', Nat.shiftLeft_eq]
  omega

/-- The address bits above the block reach the fixed part of the device byte. -/
theorem selects_deviceByte (addr : ℕ) : Selects (deviceByte addr) ↔ addr / 1024 % 32 = 0 := by
  have h : ∀ q < 128, Selects (UInt8.ofNat (0xA0 + q <<< 1)) ↔ q / 4 = 0 := by decide +kernel
  rw [deviceByte_mod, h _ (Nat.mod_lt _ (by decide))]
  omega

/-- The counter once the device byte and the word byte of `addr` are accepted. -/
theorem counter_of_addr {addr : ℕ} (counter : ℕ) (h : Selects (deviceByte addr)) :
    withBlock (deviceByte addr) counter / 256 * 256 + (UInt8.ofNat (addr % 256)).toNat =
      addr % 1024 := by
  have hblock : ∀ q < 4, (UInt8.ofNat (0xA0 + q <<< 1)).toNat / 2 % 4 = q := by decide
  rw [selects_deviceByte] at h
  have hdevice : (deviceByte addr).toNat / 2 % 4 = addr / 256 % 128 := by
    rw [deviceByte_mod, hblock _ (by omega)]
  have hword : (UInt8.ofNat (addr % 256)).toNat = addr % 256 := by
    rw [UInt8.toNat_ofNat']
    omega
  rw [withBlock, hdevice, hword]
  omega

theorem deviceByte_write (addr : ℕ) : (deviceByte addr).toNat % 2 = 0 := by
  simp only [deviceByte, UInt8.toNat_ofNat', Nat.shiftLeft_eq]
  omega

end Chip

/-! ### The calls on an idle bus -/

/-- Both lines are high, and the chip waits for a start. -/
def idleBus (mem : Eeprom) (counter : ℕ) (busy cl : Bool) : Bus Chip :=
  ⟨⟨true, true, true⟩, ⟨.standby, mem, counter, [], busy⟩, cl⟩

section Calls

variable {keepsBlock : Bool} {mem : Eeprom} {counter : ℕ} {busy cl : Bool}

theorem iicStart_idleBus :
    iicStart (chip keepsBlock) (idleBus mem counter busy cl) =
      ⟨⟨false, false, true⟩,
        ⟨if busy then .standby else .shift .select [], mem, counter, [], busy⟩, cl⟩ := by
  let ch : Chip := ⟨.standby, mem, counter, [], busy⟩
  have h : iicStart (chip keepsBlock) ⟨⟨true, true, true⟩, ch.goto .standby, cl⟩ =
      ⟨⟨false, false, true⟩, started ch, cl⟩ := iicStart_idle
  exact h

/-- The device byte and the word byte of an address. -/
theorem iicSend_address (addr : ℕ) :
    iicSend (chip keepsBlock) (UInt8.ofNat (addr % 256))
        (iicSend (chip keepsBlock) (deviceByte addr)
          ⟨⟨false, false, true⟩, ⟨.shift .select [], mem, counter, [], false⟩, cl⟩) =
      if addr / 1024 % 32 = 0 then
        ⟨⟨false, true, false⟩, ⟨.shift .data [], mem, addr % 1024, [], false⟩, cl⟩
      else idleBus mem counter false cl := by
  let ch : Chip := ⟨.standby, mem, counter, [], false⟩
  by_cases hsel : Selects (deviceByte addr)
  · rw [if_pos ((selects_deviceByte addr).mp hsel)]
    let ch' : Chip := ⟨.standby, mem, withBlock (deviceByte addr) counter, [], false⟩
    have haccepted : ch.accepted keepsBlock .select (deviceByte addr) =
        ch'.goto (.shift .word []) := if_neg (by rw [deviceByte_write]; decide)
    have hdevice : iicSend (chip keepsBlock) (deviceByte addr)
        ⟨⟨false, false, true⟩, ch.goto (.shift .select []), cl⟩ =
          ⟨⟨false, true, false⟩, ch'.goto (.shift .word []), cl⟩ := by
      rw [iicSend_received fun _ => hsel, haccepted]
    have hword : iicSend (chip keepsBlock) (UInt8.ofNat (addr % 256))
        ⟨⟨false, true, false⟩, ch'.goto (.shift .word []), cl⟩ =
          ⟨⟨false, true, false⟩, ⟨.shift .data [], mem, addr % 1024, [], false⟩, cl⟩ := by
      rw [iicSend_received (by simp), Chip.accepted, counter_of_addr counter hsel]
    exact (congrArg _ hdevice).trans hword
  · rw [if_neg (mt (selects_deviceByte addr).mpr hsel)]
    have hdeaf : Deaf (chip keepsBlock) (ch.goto .standby) := deaf_standby rfl
    have hdevice : iicSend (chip keepsBlock) (deviceByte addr)
        ⟨⟨false, false, true⟩, ch.goto (.shift .select []), cl⟩ =
          ⟨⟨true, true, true⟩, ch.goto .standby, cl⟩ := iicSend_refused hsel rfl
    exact (congrArg _ hdevice).trans (iicSend_deaf_high hdeaf _)

/-- The counter from which a read at `addr` sends. -/
def readCounter (keepsBlock : Bool) (addr counter : ℕ) : ℕ :=
  let p := if addr / 1024 % 32 = 0 then addr % 1024 else counter
  if keepsBlock then p else p % 256

theorem accepted_read (ch : Chip) :
    ch.accepted keepsBlock .select 0xA1 =
      Chip.send { ch with counter := if keepsBlock then ch.counter else ch.counter % 256 } := by
  have hblock : withBlock 0xA1 ch.counter = ch.counter % 256 := Nat.zero_add _
  cases keepsBlock <;> simp [Chip.accepted, hblock]

/-- The second half of a read, which sends from the counter. -/
theorem read_from_counter {b : Bus Chip} {p : ℕ}
    (hstart : iicStart (chip keepsBlock) b =
      ⟨⟨false, false, true⟩, ⟨.shift .select [], mem, p, [], false⟩, cl⟩) :
    let temp := iicReadByte (chip keepsBlock) false
      (iicSend (chip keepsBlock) 0xA1 (iicStart (chip keepsBlock) b))
    (temp.1, iicStop (chip keepsBlock) temp.2) =
      (mem (Fin.ofNat 1024 (if keepsBlock then p else p % 256)),
        idleBus mem (((if keepsBlock then p else p % 256) + 1) % 1024) false cl) := by
  let ch : Chip := ⟨.standby, mem, p, [], false⟩
  let ch' : Chip := ⟨.standby, mem, if keepsBlock then p else p % 256, [], false⟩
  have hdevice : iicSend (chip keepsBlock) 0xA1
      ⟨⟨false, false, true⟩, ch.goto (.shift .select []), cl⟩ =
        ⟨⟨false, true, false⟩, ch'.send, cl⟩ := by
    rw [iicSend_received fun _ => by decide, accepted_read]
  have hdeaf : Deaf (chip keepsBlock) (ch'.send.goto .standby) := deaf_standby rfl
  have hstarted : iicStart (chip keepsBlock) b =
      ⟨⟨false, false, true⟩, ch.goto (.shift .select []), cl⟩ := hstart
  rw [hstarted, hdevice, iicReadByte_send]
  simp only [iicStop_deaf hdeaf]
  rfl

/-- The result of a read for every address, in range or not. -/
theorem readOneByte_idleBus (addr : ℕ) :
    Bus.at24cxxReadOneByte (chip keepsBlock) addr (idleBus mem counter false cl) =
      (mem (Fin.ofNat 1024 (readCounter keepsBlock addr counter)),
        idleBus mem ((readCounter keepsBlock addr counter + 1) % 1024) false cl) := by
  rw [Bus.at24cxxReadOneByte, iicStart_idleBus]
  simp only [Bool.false_eq_true, if_false]
  rw [iicSend_address]
  by_cases hsel : addr / 1024 % 32 = 0
  · let ch : Chip := ⟨.standby, mem, addr % 1024, [], false⟩
    have hstart : iicStart (chip keepsBlock) ⟨⟨false, true, false⟩, ch.goto (.shift .data []), cl⟩ =
        ⟨⟨false, false, true⟩, started ch, cl⟩ := iicStart_again
    rw [readCounter, if_pos hsel, if_pos hsel]
    exact read_from_counter hstart
  · rw [readCounter, if_neg hsel, if_neg hsel]
    exact read_from_counter iicStart_idleBus

/-- During a write cycle a read brings `0xFF`. -/
theorem readOneByte_busy (addr : ℕ) :
    Bus.at24cxxReadOneByte (chip keepsBlock) addr (idleBus mem counter true cl) =
      (0xFF, idleBus mem counter true cl) := by
  let ch : Chip := ⟨.standby, mem, counter, [], true⟩
  have hdeaf : Deaf (chip keepsBlock) (ch.goto .standby) := deaf_standby rfl
  have hstart : iicStart (chip keepsBlock) ⟨⟨true, true, true⟩, ch.goto .standby, cl⟩ =
      ⟨⟨false, false, true⟩, ch.goto .standby, cl⟩ := iicStart_idle
  change Bus.at24cxxReadOneByte _ _ ⟨⟨true, true, true⟩, ch.goto .standby, cl⟩ = _
  simp only [Bus.at24cxxReadOneByte, hstart, iicSend_deaf hdeaf, iicSend_deaf_high hdeaf,
    iicReadByte_deaf hdeaf, iicStop_deaf hdeaf]
  rfl

theorem writeOneByte_busy (addr : ℕ) (v : UInt8) :
    Bus.at24cxxWriteOneByte (chip keepsBlock) addr v (idleBus mem counter true cl) =
      idleBus mem counter false cl := by
  let ch : Chip := ⟨.standby, mem, counter, [], true⟩
  have hdeaf : Deaf (chip keepsBlock) (ch.goto .standby) := deaf_standby rfl
  have hstart : iicStart (chip keepsBlock) ⟨⟨true, true, true⟩, ch.goto .standby, cl⟩ =
      ⟨⟨false, false, true⟩, ch.goto .standby, cl⟩ := iicStart_idle
  change Bus.at24cxxWriteOneByte _ _ _ ⟨⟨true, true, true⟩, ch.goto .standby, cl⟩ = _
  simp only [Bus.at24cxxWriteOneByte, hstart, iicSend_deaf hdeaf, iicSend_deaf_high hdeaf,
    iicStop_deaf_high hdeaf]
  rfl

/-- An address beyond the chip is not written. -/
theorem writeOneByte_idleBus (addr : ℕ) (v : UInt8) :
    Bus.at24cxxWriteOneByte (chip keepsBlock) addr v (idleBus mem counter false cl) =
      if addr / 1024 % 32 = 0 then
        idleBus (at24cxxWriteOneByte addr v mem)
          (addr % 1024 / 16 * 16 + (addr % 1024 + 1) % 16) false cl
      else idleBus mem counter false cl := by
  rw [Bus.at24cxxWriteOneByte, iicStart_idleBus]
  simp only [Bool.false_eq_true, if_false]
  rw [iicSend_address]
  by_cases hsel : addr / 1024 % 32 = 0
  · rw [if_pos hsel, if_pos hsel]
    let ch : Chip := ⟨.standby, mem, addr % 1024, [], false⟩
    have hdata : iicSend (chip keepsBlock) v ⟨⟨false, true, false⟩, ch.goto (.shift .data []), cl⟩ =
        ⟨⟨false, true, false⟩, ch.accepted keepsBlock .data v, cl⟩ := iicSend_received (by simp)
    have hmod : Fin.ofNat 1024 (addr % 1024) = Fin.ofNat 1024 addr := Fin.ext (Nat.mod_mod addr 1024)
    change (let b := iicStop _ (iicSend _ v ⟨⟨false, true, false⟩, ch.goto (.shift .data []), cl⟩)
      ({ b with target := (chip keepsBlock).settle b.target } : Bus Chip)) = _
    have hstored : program mem [(addr % 1024, v)] = at24cxxWriteOneByte addr v mem := by
      rw [program, List.foldl_cons, List.foldl_nil, hmod]
      rfl
    rw [hdata, iicStop_low rfl rfl rfl, ← hstored]
    rfl
  · rw [if_neg hsel, if_neg hsel]
    let ch : Chip := ⟨.standby, mem, counter, [], false⟩
    have hdeaf : Deaf (chip keepsBlock) (ch.goto .standby) := deaf_standby rfl
    change (let b := iicStop _ (iicSend _ v ⟨⟨true, true, true⟩, ch.goto .standby, cl⟩)
      ({ b with target := (chip keepsBlock).settle b.target } : Bus Chip)) = _
    rw [iicSend_deaf_high hdeaf, iicStop_deaf_high hdeaf]
    rfl

/-- What a call makes of a chip: the value for a read, and the bus afterwards. -/
theorem transfer_exact (addr : ℕ) (v : UInt8) :
    Bus.at24cxxReadOneByte (chip keepsBlock) addr (idleBus mem counter busy cl) =
        (if busy then (0xFF, idleBus mem counter true cl)
        else (mem (Fin.ofNat 1024 (readCounter keepsBlock addr counter)),
          idleBus mem ((readCounter keepsBlock addr counter + 1) % 1024) false cl)) ∧
      Bus.at24cxxWriteOneByte (chip keepsBlock) addr v (idleBus mem counter busy cl) =
        (if busy = false ∧ addr / 1024 % 32 = 0 then
          idleBus (at24cxxWriteOneByte addr v mem)
            (addr % 1024 / 16 * 16 + (addr % 1024 + 1) % 16) false cl
        else idleBus mem counter false cl) := by
  cases busy with
  | true => exact ⟨readOneByte_busy addr, writeOneByte_busy addr v⟩
  | false =>
      refine ⟨readOneByte_idleBus addr, ?_⟩
      rw [writeOneByte_idleBus]
      simp only [true_and]

end Calls

/-! ### Programs -/

/-- What a caller of the driver does, which may depend on the bytes it reads. -/
inductive EepromProg (α : Type) where
  | done (a : α)
  | read (readAddr : ℕ) (next : UInt8 → EepromProg α)
  | write (writeAddr : ℕ) (dataToWrite : UInt8) (next : EepromProg α)

namespace EepromProg

variable {α β : Type}

def bind : EepromProg α → (α → EepromProg β) → EepromProg β
  | done a, f => f a
  | read addr next, f => read addr fun v => (next v).bind f
  | write addr v next, f => write addr v (next.bind f)

/-- The program on a memory image. -/
def onArray : EepromProg α → Eeprom → α × Eeprom
  | done a, e => (a, e)
  | read addr next, e => (next (at24cxxReadOneByte e addr)).onArray e
  | write addr v next, e => next.onArray (at24cxxWriteOneByte addr v e)

/-- The program with the driver. -/
def onBus {τ : Type*} (T : Target τ) : EepromProg α → Bus τ → α × Bus τ
  | done a, b => (a, b)
  | read addr next, b =>
      let r := Bus.at24cxxReadOneByte T addr b
      (next r.1).onBus T r.2
  | write addr v next, b => next.onBus T (Bus.at24cxxWriteOneByte T addr v b)

/-- All addresses are on the chip, whatever is read. -/
def InRange : EepromProg α → Prop
  | done _ => True
  | read addr next => addr < 1024 ∧ ∀ v, (next v).InRange
  | write addr _ next => addr < 1024 ∧ next.InRange

theorem onArray_bind (p : EepromProg α) (f : α → EepromProg β) (e : Eeprom) :
    (p.bind f).onArray e = (f (p.onArray e).1).onArray (p.onArray e).2 := by
  induction p generalizing e with
  | done a => rfl
  | read addr next ih => exact ih _ e
  | write addr v next ih => exact ih _

theorem InRange.bind {p : EepromProg α} {f : α → EepromProg β} (h : p.InRange)
    (hf : ∀ a, (f a).InRange) : (p.bind f).InRange := by
  induction p with
  | done a => exact hf a
  | read addr next ih => exact ⟨h.1, fun v => ih v (h.2 v)⟩
  | write addr v next ih => exact ⟨h.1, ih h.2⟩

end EepromProg

/-- The driver is the array: from an idle bus every program within the chip has
the result and the memory that it has on an array, leaves the bus idle, and
never drives a high data line against the chip under a high clock. -/
def DrivesArray (keepsBlock : Bool) : Prop :=
  ∀ (α : Type) (p : EepromProg α), p.InRange → ∀ (e : Eeprom) (counter : ℕ),
    ∃ counter', p.onBus (chip keepsBlock) (idleBus e counter false false) =
      ((p.onArray e).1, idleBus (p.onArray e).2 counter' false false)

theorem onBus_eq_onArray {α : Type} {p : EepromProg α} (h : p.InRange) (e : Eeprom)
    (counter : ℕ) (cl : Bool) :
    ∃ counter', p.onBus (chip true) (idleBus e counter false cl) =
      ((p.onArray e).1, idleBus (p.onArray e).2 counter' false cl) := by
  induction p generalizing e counter with
  | done a => exact ⟨counter, rfl⟩
  | read addr next ih =>
      have hcounter : readCounter true addr counter = addr % 1024 :=
        if_pos (by have := h.1; omega)
      have hmod : Fin.ofNat 1024 (addr % 1024) = Fin.ofNat 1024 addr :=
        Fin.ext (Nat.mod_mod addr 1024)
      have hread : e (Fin.ofNat 1024 (readCounter true addr counter)) =
          at24cxxReadOneByte e addr := by
        rw [hcounter, hmod]
        rfl
      obtain ⟨counter', h'⟩ := ih _ (h.2 (at24cxxReadOneByte e addr)) e
        ((readCounter true addr counter + 1) % 1024)
      refine ⟨counter', ?_⟩
      rw [EepromProg.onBus, readOneByte_idleBus, hread]
      exact h'
  | write addr v next ih =>
      obtain ⟨counter', h'⟩ := ih h.2 (at24cxxWriteOneByte addr v e)
        (addr % 1024 / 16 * 16 + (addr % 1024 + 1) % 16)
      refine ⟨counter', ?_⟩
      rw [EepromProg.onBus, writeOneByte_idleBus, if_pos (by have := h.1; omega)]
      exact h'

/-- The driver names block 0 in the device byte of every read, so it works with
the chips that keep the block, and with no others. -/
theorem drivesArray_iff (keepsBlock : Bool) : DrivesArray keepsBlock ↔ keepsBlock = true := by
  constructor
  · intro h
    cases keepsBlock with
    | true => rfl
    | false =>
        let e : Eeprom := fun a => if a = 256 then 1 else 0
        obtain ⟨counter', h'⟩ := h UInt8 (.read 256 .done) ⟨by decide, fun _ => trivial⟩ e 0
        rw [EepromProg.onBus, readOneByte_idleBus] at h'
        have hvalue : (0 : UInt8) = 1 := congrArg Prod.fst h'
        exact absurd hvalue (by decide)
  · rintro rfl α p hp e counter
    exact onBus_eq_onArray hp e counter false

/-! ### Values of several bytes -/

namespace EepromProg

/-- `DataToWrite>>count`: C defines it below 32 only, and the Cortex-M3 takes the
count by its low byte. -/
def shiftedRight (v : UInt32) (count : ℕ) : ℕ := v.toNat >>> (count % 256)

theorem shiftedRight_of_lt (v : UInt32) {count : ℕ} (h : count < 32) :
    shiftedRight v count = v.toNat >>> count := by
  rw [shiftedRight, Nat.mod_eq_of_lt (by omega)]

/-- `AT24CXX_WriteLenByte`, with `k` bytes still to be written. -/
def writeLen (writeAddr : ℕ) (dataToWrite : UInt32) (len : ℕ) : ℕ → EepromProg Unit
  | 0 => done ()
  | k + 1 =>
      let t := len - (k + 1)
      write ((writeAddr + t) % 65536) (UInt8.ofNat (shiftedRight dataToWrite (8 * t) &&& 0xFF))
        (writeLen writeAddr dataToWrite len k)

def at24cxxWriteLenByte (writeAddr : ℕ) (dataToWrite : UInt32) (len : ℕ) : EepromProg Unit :=
  writeLen writeAddr dataToWrite len len

/-- `AT24CXX_ReadLenByte`, with `k` bytes still to be read, the last one first. -/
def readLen (readAddr : ℕ) : ℕ → UInt32 → EepromProg UInt32
  | 0, temp => done temp
  | k + 1, temp =>
      read ((readAddr + k) % 65536) fun v => readLen readAddr k (temp <<< 8 + v.toUInt32)

def at24cxxReadLenByte (readAddr len : ℕ) : EepromProg UInt32 := readLen readAddr len 0

end EepromProg

/-- The bytes of a number, lowest first. -/
def lowFirst (v : ℕ) (len : ℕ) : List UInt8 :=
  (List.range len).map fun t => UInt8.ofNat (v >>> (8 * t) &&& 0xFF)

@[simp] theorem lowFirst_length (v len : ℕ) : (lowFirst v len).length = len := by
  simp [lowFirst]

theorem lowFirst_getElem (v : ℕ) {len t : ℕ} (h : t < (lowFirst v len).length) :
    (lowFirst v len)[t] = UInt8.ofNat (v >>> (8 * t) &&& 0xFF) := by
  simp [lowFirst]

theorem onArray_writeLen {a len k : ℕ} (v : UInt32) (hlen : len ≤ 4) (hk : k ≤ len)
    (ha : a + len ≤ 1024) (e : Eeprom) :
    (EepromProg.writeLen a v len k).onArray e =
      ((), at24cxxWrite (a + (len - k)) ((lowFirst v.toNat len).drop (len - k)) e) := by
  induction k generalizing e with
  | zero =>
      rw [Nat.sub_zero, List.drop_of_length_le (by simp)]
      rfl
  | succ k ih =>
      have hlt : len - (k + 1) < (lowFirst v.toNat len).length := by
        rw [lowFirst_length]
        omega
      have hmod : (a + (len - (k + 1))) % 65536 = a + (len - (k + 1)) := Nat.mod_eq_of_lt (by omega)
      have hnext : len - (k + 1) + 1 = len - k := by omega
      rw [List.drop_eq_getElem_cons hlt, lowFirst_getElem, at24cxxWrite, Nat.add_assoc, hnext,
        EepromProg.writeLen, EepromProg.onArray, ih (by omega), hmod,
        EepromProg.shiftedRight_of_lt v (by omega)]

theorem toNat_shiftByte (temp : UInt32) (n : ℕ) :
    (temp <<< 8 + (UInt8.ofNat (n % 256)).toUInt32).toNat =
      (temp.toNat * 256 + n % 256) % 2 ^ 32 := by
  rw [UInt32.toNat_add, UInt32.toNat_shiftLeft, UInt8.toNat_toUInt32, UInt8.toNat_ofNat',
    Nat.shiftLeft_eq]
  have h : (8 : UInt32).toNat % 32 = 8 := rfl
  rw [h]
  omega

/-- The last byte read is the lowest one. -/
theorem onArray_readLen {a k : ℕ} {v : ℕ} {e : Eeprom} (ha : a + k ≤ 1024)
    (h : ∀ t < k, at24cxxReadOneByte e (a + t) = UInt8.ofNat (v >>> (8 * t) &&& 0xFF))
    (temp : UInt32) :
    (EepromProg.readLen a k temp).onArray e =
      (UInt32.ofNat (temp.toNat * 256 ^ k + v % 256 ^ k), e) := by
  induction k generalizing temp with
  | zero => simp [EepromProg.readLen, EepromProg.onArray, Nat.mod_one]
  | succ k ih =>
      have hmod : (a + k) % 65536 = a + k := Nat.mod_eq_of_lt (by omega)
      have hbyte : v >>> (8 * k) &&& 0xFF = v / 256 ^ k % 256 := by
        rw [show 0xFF = 2 ^ 8 - 1 from rfl, Nat.and_two_pow_sub_one_eq_mod, Nat.shiftRight_eq_div_pow,
          Nat.pow_mul]
      have hsplit : v % 256 ^ (k + 1) = v / 256 ^ k % 256 * 256 ^ k + v % 256 ^ k := by
        rw [Nat.pow_succ, Nat.mod_mul, Nat.mul_comm, Nat.add_comm]
      rw [EepromProg.readLen, EepromProg.onArray, hmod, h k (by omega), hbyte,
        ih (by omega) fun t ht => h t (by omega), hsplit]
      refine Prod.ext (UInt32.toNat_inj.mp ?_) rfl
      rw [UInt32.toNat_ofNat', UInt32.toNat_ofNat', toNat_shiftByte]
      have hcut : ((temp.toNat * 256 + v / 256 ^ k % 256) % 2 ^ 32 * 256 ^ k + v % 256 ^ k) % 2 ^ 32 =
          ((temp.toNat * 256 + v / 256 ^ k % 256) * 256 ^ k + v % 256 ^ k) % 2 ^ 32 := by
        rw [Nat.add_mod, Nat.mod_mul_mod, ← Nat.add_mod]
      rw [hcut]
      congr 1
      ring

theorem inRange_writeLen {a len k : ℕ} (v : UInt32) (hk : k ≤ len) (ha : a + len ≤ 1024) :
    (EepromProg.writeLen a v len k).InRange := by
  induction k with
  | zero => trivial
  | succ k ih => exact ⟨by omega, ih (by omega)⟩

theorem inRange_readLen {a k : ℕ} (ha : a + k ≤ 1024) (temp : UInt32) :
    (EepromProg.readLen a k temp).InRange := by
  induction k generalizing temp with
  | zero => trivial
  | succ k ih => exact ⟨by omega, fun v => ih (by omega) _⟩

/-- On the bus of a chip that keeps the block, up to four bytes that
`AT24CXX_WriteLenByte` stores, lowest first, are what `AT24CXX_ReadLenByte` reads,
and the rest of the memory is left alone. -/
theorem readLen_writeLen {a len : ℕ} (v : UInt32) (hlen : len ≤ 4) (ha : a + len ≤ 1024)
    (e : Eeprom) (counter : ℕ) :
    ∃ counter', ((EepromProg.at24cxxWriteLenByte a v len).bind fun _ =>
        EepromProg.at24cxxReadLenByte a len).onBus (chip true) (idleBus e counter false false) =
      (UInt32.ofNat (v.toNat % 256 ^ len),
        idleBus (at24cxxWrite a (lowFirst v.toNat len) e) counter' false false) := by
  have hrange : ((EepromProg.at24cxxWriteLenByte a v len).bind fun _ =>
      EepromProg.at24cxxReadLenByte a len).InRange :=
    (inRange_writeLen v le_rfl ha).bind fun _ => inRange_readLen ha 0
  obtain ⟨counter', hbus⟩ := onBus_eq_onArray hrange e counter false
  have hwrite := onArray_writeLen v hlen (le_refl len) ha e
  rw [Nat.sub_self, Nat.add_zero, List.drop_zero] at hwrite
  have hbytes : ∀ t < len, at24cxxReadOneByte (at24cxxWrite a (lowFirst v.toNat len) e) (a + t) =
      UInt8.ofNat (v.toNat >>> (8 * t) &&& 0xFF) := by
    intro t ht
    rw [read_write_of_mem _ _ (by rwa [lowFirst_length]) (by rwa [lowFirst_length]),
      lowFirst_getElem]
  have hread := onArray_readLen ha hbytes 0
  rw [UInt32.toNat_zero, Nat.zero_mul, Nat.zero_add] at hread
  refine ⟨counter', hbus.trans ?_⟩
  rw [EepromProg.onArray_bind, EepromProg.at24cxxWriteLenByte, hwrite,
    EepromProg.at24cxxReadLenByte, hread]

/-- Four bytes across the end of block 0. -/
theorem readLen_writeLen_across :
    4 ≤ 4 ∧ 254 + 4 ≤ 1024 ∧
    ∃ counter', ((EepromProg.at24cxxWriteLenByte 254 0x12345678 4).bind fun _ =>
        EepromProg.at24cxxReadLenByte 254 4).onBus (chip true)
          (idleBus (fun _ => 0xFF) 0 false false) =
      (0x12345678, idleBus (at24cxxWrite 254 [0x78, 0x56, 0x34, 0x12] fun _ => 0xFF)
        counter' false false) :=
  ⟨by decide, by decide, readLen_writeLen 0x12345678 (by decide) (by decide) (fun _ => 0xFF) 0⟩

end YckjAcu
