import YckjAcu.SlotLayout
import YckjAcu.ConfigStore

/-!
# The two users of the parameter memory

With eighty stations the slots reach from address 15 to 414 and cover every
configuration region: slots 38 to 49 hold the server address, the identity, the
key, the network settings and the marker.  The theorem at the end says which
calls nevertheless leave the other user's bytes alone.
-/

namespace YckjAcu

/-- A logic number in `1..80`. -/
abbrev LogicNo := { n : ℕ // n ∈ logicNos }

inductive EepromOp
  | distributeLogicADD (physicalNo : PhysicalNo)
  | deleteLogicADD (logicNo : LogicNo)
  | writeIPAdd (v : Vector UInt8 4)
  | writePortAdd (v : UInt16)
  | writeACUSN (v : Vector UInt8 4)
  | writeACUAdd (v : Vector UInt8 16)
  | writeRFIDKey (v : Vector UInt8 7)
  | writeLocalIP (v : Vector UInt8 5)
  | writeNetmask (v : Vector UInt8 4)
  | writeGateway (v : Vector UInt8 4)

def EepromOp.apply : EepromOp → Device → Eeprom
  | .distributeLogicADD p, d => (YckjAcu.distributeLogicADD p d.eeprom).2
  | .deleteLogicADD n, d => (YckjAcu.deleteLogicADD (UInt8.ofNat n) d).2.eeprom
  | .writeIPAdd v, d => YckjAcu.writeIPAdd v d.eeprom
  | .writePortAdd v, d => YckjAcu.writePortAdd v d.eeprom
  | .writeACUSN v, d => YckjAcu.writeACUSN v d.eeprom
  | .writeACUAdd v, d => YckjAcu.writeACUAdd v d.eeprom
  | .writeRFIDKey v, d => YckjAcu.writeRFIDKey v d.eeprom
  | .writeLocalIP v, d => YckjAcu.writeLocalIP v d.eeprom
  | .writeNetmask v, d => YckjAcu.writeNetmask v d.eeprom
  | .writeGateway v, d => YckjAcu.writeGateway v d.eeprom

/-- The five bytes of slot `i`. -/
def slotView (e : Eeprom) (i : ℕ) : Vector UInt8 5 := at24cxxRead e (startADD + i * 5) 5

/-- Registration leaves the configuration as it was, and the configuration
accessors leave every slot as it was. -/
def NonInterfering (d : Device) : EepromOp → Prop
  | op@(.distributeLogicADD _) | op@(.deleteLogicADD _) =>
      configView (op.apply d) = configView d.eeprom
  | op => ∀ i ∈ logicNos, slotView (op.apply d) i = slotView d.eeprom i

/-- The inputs that stay out of the shared bytes: a registration does not take a
slot between 38 and 49, a deletion finds its number in none of their logic
bytes, and a parameter is written with the value it already has. -/
def StaysClear (e : Eeprom) : EepromOp → Prop
  | .distributeLogicADD p =>
      findRegistered p e = none → ∀ k, findFree e = some k → k < 38 ∨ 49 < k
  | .deleteLogicADD n =>
      ∀ k, 38 ≤ k → k ≤ 49 → at24cxxReadOneByte e (slotADD k logicADD) ≠ UInt8.ofNat n
  | .writeIPAdd v => readIPAdd e = v
  | .writePortAdd v => readPortAdd e = v
  | .writeACUSN v => readACUSN e = v
  | .writeACUAdd v => readACUAdd e = v
  | .writeRFIDKey v => readRFIDKey e = v
  | .writeLocalIP v => readLocalIP e = v
  | .writeNetmask v => readNetmask e = v
  | .writeGateway v => readGateway e = v

theorem isConfigAddr_logic {k : ℕ} (h38 : 38 ≤ k) (h49 : k ≤ 49) : IsConfigAddr (10 + k * 5) := by
  unfold IsConfigAddr
  omega

theorem slot_of_isConfigAddr {i a : ℕ} (ha : IsConfigAddr a) (hlow : 10 + i * 5 ≤ a)
    (hhigh : a < 15 + i * 5) : 38 ≤ i ∧ i ≤ 49 := by
  unfold IsConfigAddr at ha
  omega

theorem nonInterfering_distribute_iff (d : Device) (p : PhysicalNo) :
    NonInterfering d (.distributeLogicADD p) ↔ StaysClear d.eeprom (.distributeLogicADD p) := by
  simp only [NonInterfering, StaysClear, EepromOp.apply, distributeLogicADD]
  cases hreg : findRegistered p d.eeprom with
  | some i => simp
  | none =>
      cases hfree : findFree d.eeprom with
      | none => simp
      | some k =>
          have hk := mem_logicNos.mp (List.mem_of_find?_eq_some hfree)
          have hbyte : at24cxxReadOneByte d.eeprom (10 + k * 5) ≠ UInt8.ofNat k := by
            simpa [slotADD_logic] using List.find?_some hfree
          simp only [configView_eq_iff, Option.some.injEq, forall_const, forall_eq']
          constructor
          · intro h
            by_contra hmid
            -- the logic byte itself is a configuration byte, and it changes
            have hsame := h _ (isConfigAddr_logic (k := k) (by omega) (by omega))
            rw [read_writeSlot_logic hk.2] at hsame
            exact hbyte hsame.symm
          · intro hout a ha
            have hslot : a < 10 + k * 5 ∨ 15 + k * 5 ≤ a := by
              by_contra hin
              have hlow : 10 + k * 5 ≤ a := by omega
              have hmid := slot_of_isConfigAddr ha hlow (by omega)
              omega
            unfold IsConfigAddr at ha
            exact read_writeSlot_of_not_mem hk.2 (by omega) (by simp only [countADD]; omega) hslot

theorem nonInterfering_delete_iff (d : Device) (n : LogicNo) :
    NonInterfering d (.deleteLogicADD n) ↔ StaysClear d.eeprom (.deleteLogicADD n) := by
  obtain ⟨n, hn⟩ := n
  have hn' := mem_logicNos.mp hn
  have hne : UInt8.ofNat n ≠ 0 := by
    rw [Ne, show (0 : UInt8) = UInt8.ofNat 0 from rfl, ofNat_inj_of_le hn'.2 (by omega)]
    omega
  simp only [NonInterfering, StaysClear, EepromOp.apply, configView_eq_iff, slotADD_logic]
  have hread : ∀ a, IsConfigAddr a →
      at24cxxReadOneByte (deleteLogicADD (UInt8.ofNat n) d).2.eeprom a =
        if ∃ i ∈ logicNos, at24cxxReadOneByte d.eeprom (10 + i * 5) = UInt8.ofNat n ∧
          InCleared i a then 0 else at24cxxReadOneByte d.eeprom a := by
    intro a ha
    have hbound : 200 ≤ a ∧ a < 1024 := by
      unfold IsConfigAddr at ha
      omega
    simp only [deleteLogicADD]
    rw [read_writeOneByte_of_ne _ _ (by simp only [countADD]; omega)]
    exact read_clearSlots hne logicNos (fun j hj => (mem_logicNos.mp hj).2) d.eeprom hbound.2
  constructor
  · intro h k h38 h49 hkn
    have hsame := h _ (isConfigAddr_logic h38 h49)
    rw [hread _ (isConfigAddr_logic h38 h49),
      if_pos ⟨k, by rw [mem_logicNos]; omega, hkn, inCleared_base k⟩, hkn] at hsame
    exact hne hsame.symm
  · intro h a ha
    rw [hread a ha, if_neg]
    rintro ⟨i, _, hin, hlow, hhigh⟩
    have hi := slot_of_isConfigAddr ha hlow (by split at hhigh <;> omega)
    exact h i hi.1 hi.2 hin

section WriteBlock

variable {n : ℕ} (e : Eeprom) (temp : ℕ) (v : Vector UInt8 n)

theorem read_writeBlock (htop : temp + n ≤ 1024) {j : ℕ} (hj : j < n) :
    at24cxxReadOneByte (writeBlock temp v e) (temp + j) = v[j] := by
  rw [writeBlock, read_write_of_mem _ _ (by simpa using htop) (by simpa using hj)]
  simp

theorem read_writeBlock_of_not_mem (htop : temp + n ≤ 1024) {a : ℕ} (ha : a < 1024)
    (h : a < temp ∨ temp + n ≤ a) :
    at24cxxReadOneByte (writeBlock temp v e) a = at24cxxReadOneByte e a :=
  read_write_of_not_mem _ _ (by simpa using htop) ha (by simpa using h)

/-- Every block between the first and the last slot is made of slot bytes. -/
theorem slotView_writeBlock_iff (hlow : 15 ≤ temp) (htop : temp + n ≤ 415) :
    (∀ i ∈ logicNos, slotView (writeBlock temp v e) i = slotView e i) ↔
      at24cxxRead e temp n = v := by
  constructor
  · intro h
    ext j hj
    have hslot := h ((temp + j - 10) / 5) (by rw [mem_logicNos]; omega)
    rw [slotView, slotView, at24cxxRead_eq_iff] at hslot
    have hbyte := hslot ((temp + j - 10) % 5) (by omega)
    rw [show startADD + (temp + j - 10) / 5 * 5 + (temp + j - 10) % 5 = temp + j by
      simp only [startADD]
      omega, read_writeBlock e temp v (by omega) hj] at hbyte
    rw [at24cxxRead_getElem, hbyte]
  · intro h i _
    rw [slotView, slotView, at24cxxRead_eq_iff]
    intro k _
    have hsame : writeBlock temp v e = e := by
      refine eeprom_ext fun a ha => ?_
      by_cases hin : temp ≤ a ∧ a < temp + n
      · obtain ⟨j, rfl⟩ := Nat.exists_eq_add_of_le hin.1
        have hj : j < n := by omega
        rw [read_writeBlock e temp v (by omega) hj, ← at24cxxRead_getElem e temp n j hj]
        simp only [h]
      · exact read_writeBlock_of_not_mem e temp v (by omega) ha (by omega)
    rw [hsame]

end WriteBlock

theorem readPortAdd_eq_iff (e : Eeprom) (port : UInt16) :
    readPortAdd e = port ↔
      at24cxxRead e 204 2 = #v[(port / 256).toUInt8, (port % 256).toUInt8] := by
  constructor
  · intro h
    rw [← joinPort_split port, readPortAdd, joinPort_inj] at h
    ext j hj
    obtain rfl | rfl : j = 0 ∨ j = 1 := by omega
    · simpa using congrArg UInt8.toNat h.1
    · simpa using congrArg UInt8.toNat h.2
  · intro h
    simp only [readPortAdd, h]
    exact joinPort_split port

/-- A call leaves the other user's bytes alone exactly when its input stays out
of the shared part of the memory. -/
theorem nonInterfering_iff_staysClear (d : Device) (op : EepromOp) :
    NonInterfering d op ↔ StaysClear d.eeprom op := by
  cases op with
  | distributeLogicADD p => exact nonInterfering_distribute_iff d p
  | deleteLogicADD n => exact nonInterfering_delete_iff d n
  | writeIPAdd v => exact slotView_writeBlock_iff d.eeprom 200 v (by omega) (by omega)
  | writePortAdd v =>
      rw [StaysClear, readPortAdd_eq_iff]
      exact slotView_writeBlock_iff d.eeprom 204 _ (by omega) (by omega)
  | writeACUSN v => exact slotView_writeBlock_iff d.eeprom 206 v (by omega) (by omega)
  | writeACUAdd v => exact slotView_writeBlock_iff d.eeprom 210 v (by omega) (by omega)
  | writeRFIDKey v => exact slotView_writeBlock_iff d.eeprom 230 v (by omega) (by omega)
  | writeLocalIP v => exact slotView_writeBlock_iff d.eeprom 239 v (by omega) (by omega)
  | writeNetmask v => exact slotView_writeBlock_iff d.eeprom 244 v (by omega) (by omega)
  | writeGateway v => exact slotView_writeBlock_iff d.eeprom 248 v (by omega) (by omega)

/-- Readers at the addresses 1 to 37, all with serial number `FF FF FF FF`. -/
def thirtySevenReaders : Device where
  eeprom := fun a => if 15 ≤ a.val ∧ a.val < 200 ∧ a.val % 5 = 0 then
    UInt8.ofNat ((a.val - 10) / 5) else 0xFF
  g_RUNDate := fun _ => Vector.replicate 14 0
  kjVersions := fun _ => 0
  deleted := []

/-- The thirty-eighth reader is written over the server address. -/
theorem distribute_overwrites_ipAdd :
    ¬ NonInterfering thirtySevenReaders (.distributeLogicADD #v[1, 2, 3, 4]) := by
  rw [NonInterfering]
  decide +kernel

end YckjAcu
