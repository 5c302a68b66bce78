import YckjAcu.Lib.WriteLog
import YckjAcu.PowerUp

/-!
# Power loss during a registration

The memory is written byte by byte, so a call that is interrupted has done an
initial part of its writes.  The counter is the last byte of every call: a slot
that was taken or given up without it leaves the counter wrong, and the power-up
check keeps the difference.
-/

namespace YckjAcu

open SlotTable WriteLog

/-! ### The writes of a call -/

abbrev EepromWrite := Fin 1024 × UInt8

/-- One call of `AT24CXX_WriteOneByte`. -/
def oneByte (writeAddr : ℕ) (dataToWrite : UInt8) : EepromWrite :=
  (Fin.ofNat 1024 writeAddr, dataToWrite)

/-- The five bytes of a new slot. -/
def slotLog (i : ℕ) (physicalNo : PhysicalNo) : List EepromWrite :=
  let temp := slotADD i logicADD
  [oneByte temp (UInt8.ofNat i), oneByte (temp + 1) (physicalNo.get 0),
    oneByte (temp + 2) (physicalNo.get 1), oneByte (temp + 3) (physicalNo.get 2),
    oneByte (temp + 4) (physicalNo.get 3)]

def writeSlotLog (i : ℕ) (physicalNo : PhysicalNo) (e : Eeprom) : List EepromWrite :=
  slotLog i physicalNo ++
    [oneByte countADD (at24cxxReadOneByte (applyLog (slotLog i physicalNo) e) countADD + 1)]

def clearSlotLog (logicNo : UInt8) (e : Eeprom) (i : ℕ) : List EepromWrite :=
  if at24cxxReadOneByte e (slotADD i logicADD) = logicNo then
    let temp := slotADD i physicalADD1
    [oneByte temp 0, oneByte (temp + 1) 0, oneByte (temp + 2) 0, oneByte (temp + 3) 0,
      oneByte (slotADD i logicADD) 0]
  else []

/-- The loop of `Delete_LogicADD`, each pass on what the earlier ones left. -/
def clearSlotsLog (logicNo : UInt8) : List ℕ → Eeprom → List EepromWrite
  | [], _ => []
  | i :: slots, e =>
      clearSlotLog logicNo e i ++
        clearSlotsLog logicNo slots (applyLog (clearSlotLog logicNo e i) e)

/-- The calls that write the registration table. -/
inductive RegistryCall
  | distribute (physicalNo : PhysicalNo)
  | delete (logicNo : UInt8)

namespace RegistryCall

/-- The byte writes of the call, in their order. -/
def log : RegistryCall → Eeprom → List EepromWrite
  | .distribute p, e =>
      match findRegistered p e with
      | some _ => []
      | none =>
          match findFree e with
          | some i => writeSlotLog i p e
          | none => []
  | .delete logicNo, e =>
      let cleared := clearSlotsLog logicNo logicNos e
      cleared ++ [oneByte countADD (at24cxxReadOneByte (applyLog cleared e) countADD - 1)]

def whole : RegistryCall → Eeprom → Eeprom
  | .distribute p, e => (distributeLogicADD p e).2
  | .delete logicNo, e => (deleteLogicADD logicNo (powerOn e)).2.eeprom

end RegistryCall

theorem applyLog_clearSlotLog (logicNo : UInt8) (e : Eeprom) (i : ℕ) :
    applyLog (clearSlotLog logicNo e i) e = clearSlot logicNo e i := by
  unfold clearSlotLog clearSlot
  split_ifs
  · rfl
  · rfl

theorem applyLog_clearSlotsLog (logicNo : UInt8) (slots : List ℕ) (e : Eeprom) :
    applyLog (clearSlotsLog logicNo slots e) e = slots.foldl (clearSlot logicNo) e := by
  induction slots generalizing e with
  | nil => rfl
  | cons i slots ih =>
      rw [clearSlotsLog, applyLog_append, ih, applyLog_clearSlotLog, List.foldl_cons]

theorem RegistryCall.applyLog_log (call : RegistryCall) (e : Eeprom) :
    applyLog (call.log e) e = call.whole e := by
  cases call with
  | distribute p =>
      simp only [log, whole, distributeLogicADD]
      cases findRegistered p e with
      | some i => rfl
      | none =>
          cases findFree e with
          | some i => rfl
          | none => rfl
  | delete logicNo =>
      simp only [log, whole, deleteLogicADD, powerOn]
      rw [applyLog_append, applyLog_clearSlotsLog]
      rfl

/-- The memory when the power fails after `c` writes of the call. -/
def cutAfter (c : ℕ) (call : RegistryCall) (e : Eeprom) : Eeprom :=
  applyLog ((call.log e).take c) e

def restart (hs : Handshakes) (e : Eeprom) : Eeprom :=
  (powerUPLogitADDCheck hs (powerOn e)).eeprom

theorem cutAfter_whole {call : RegistryCall} {e : Eeprom} {c : ℕ}
    (h : (call.log e).length ≤ c) : cutAfter c call e = call.whole e := by
  rw [cutAfter, List.take_of_length_le h, call.applyLog_log]

/-! ### Where a call writes -/

theorem ofNat_addr_inj {a b : ℕ} (ha : a < 1024) (hb : b < 1024) :
    Fin.ofNat 1024 a = Fin.ofNat 1024 b ↔ a = b := by
  simp only [Fin.ext_iff, Fin.val_ofNat, Nat.mod_eq_of_lt ha, Nat.mod_eq_of_lt hb]

/-- A byte that no write of the call is for survives the cut. -/
theorem read_cutAfter {call : RegistryCall} {e : Eeprom} {a : ℕ}
    (h : ∀ w ∈ call.log e, w.1 ≠ Fin.ofNat 1024 a) (c : ℕ) :
    at24cxxReadOneByte (cutAfter c call e) a = at24cxxReadOneByte e a :=
  applyLog_take_of_notMem h e c

/-- A deletion writes zeros to the slots whose logic byte is its argument. -/
theorem mem_clearSlotLog {n : UInt8} {e : Eeprom} {i : ℕ} (hi : i ≤ 80) {w : EepromWrite}
    (h : w ∈ clearSlotLog n e i) : at24cxxReadOneByte e (10 + i * 5) = n ∧ w.2 = 0 ∧
      ∃ a < 1024, InCleared i a ∧ w.1 = Fin.ofNat 1024 a := by
  unfold clearSlotLog at h
  simp only [slotADD_logic, slotADD_physical, InCleared] at h ⊢
  have hpar : (if i % 2 = 0 then 1 else 0) ≤ 1 := by split <;> omega
  generalize (if i % 2 = 0 then 1 else 0) = par at h hpar ⊢
  split_ifs at h with hread
  · refine ⟨hread, ?_⟩
    simp only [List.mem_cons, List.not_mem_nil, or_false] at h
    rcases h with rfl | rfl | rfl | rfl | rfl
    · exact ⟨rfl, _, by omega, by omega, rfl⟩
    · exact ⟨rfl, _, by omega, by omega, rfl⟩
    · exact ⟨rfl, _, by omega, by omega, rfl⟩
    · exact ⟨rfl, _, by omega, by omega, rfl⟩
    · exact ⟨rfl, _, by omega, by omega, rfl⟩
  · simp at h

theorem inCleared_slot {i j k : ℕ} (hk : k < 5) (h : InCleared i (10 + j * 5 + k)) : i = j := by
  obtain ⟨hlow, hhigh⟩ := h
  split at hhigh <;> omega

/-- A slot is judged by the logic byte it had at the start: an earlier pass
changes the logic byte of its own slot only. -/
theorem mem_clearSlotsLog {n : UInt8} {slots : List ℕ} (hs : ∀ i ∈ slots, i ≤ 80) {e : Eeprom}
    {w : EepromWrite} (h : w ∈ clearSlotsLog n slots e) : w.2 = 0 ∧ ∃ i ∈ slots,
      at24cxxReadOneByte e (10 + i * 5) = n ∧
        ∃ a < 1024, InCleared i a ∧ w.1 = Fin.ofNat 1024 a := by
  induction slots generalizing e with
  | nil => simp [clearSlotsLog] at h
  | cons i slots ih =>
      have hi : i ≤ 80 := hs i List.mem_cons_self
      have hrest : ∀ j ∈ slots, j ≤ 80 := fun j hj => hs j (List.mem_cons_of_mem i hj)
      rw [clearSlotsLog, List.mem_append] at h
      rcases h with h | h
      · obtain ⟨hread, hval, haddr⟩ := mem_clearSlotLog hi h
        exact ⟨hval, i, List.mem_cons_self, hread, haddr⟩
      · obtain ⟨hval, j, hj, hread, haddr⟩ := ih hrest h
        have hj80 := hrest j hj
        refine ⟨hval, j, List.mem_cons_of_mem i hj, ?_, haddr⟩
        rw [applyLog_clearSlotLog, read_clearSlot hi (by omega)] at hread
        split_ifs at hread with hcl
        · rw [← inCleared_slot (k := 0) (by omega) hcl.2]
          exact hcl.1
        · exact hread

theorem readByte_ne {w : EepromWrite} {a b : ℕ} (hw : w.1 = Fin.ofNat 1024 a) (ha : a < 1024)
    (hb : b < 1024) (h : a ≠ b) : w.1 ≠ Fin.ofNat 1024 b := by
  rw [hw, Ne, ofNat_addr_inj ha hb]
  exact h

/-! ### What a cut deletion leaves -/

section Delete

variable {n : UInt8} {e : Eeprom} {c : ℕ}

theorem count_not_cleared {w : EepromWrite} (h : w ∈ clearSlotsLog n logicNos e) :
    w.1 ≠ Fin.ofNat 1024 countADD := by
  obtain ⟨-, i, -, -, a, ha, hcl, hw⟩ := mem_clearSlotsLog (fun j hj => (mem_logicNos.mp hj).2) h
  apply readByte_ne hw ha (by decide)
  rintro rfl
  have := hcl.1
  simp only [countADD] at this
  omega

/-- The counter is written last. -/
theorem count_cutAfter_delete (h : c < ((RegistryCall.delete n).log e).length) :
    at24cxxReadOneByte (cutAfter c (.delete n) e) countADD = at24cxxReadOneByte e countADD := by
  have hc : c ≤ (clearSlotsLog n logicNos e).length := by
    simp only [RegistryCall.log, List.length_append, List.length_singleton] at h
    omega
  have hcut : cutAfter c (.delete n) e = applyLog ((clearSlotsLog n logicNos e).take c) e := by
    rw [cutAfter, RegistryCall.log, List.take_append_of_le_length hc]
  rw [hcut]
  exact applyLog_take_of_notMem (fun w hw => count_not_cleared hw) e c

theorem count_whole_delete : at24cxxReadOneByte ((RegistryCall.delete n).whole e) countADD =
    at24cxxReadOneByte e countADD - 1 := by
  have hkeep : at24cxxReadOneByte (applyLog (clearSlotsLog n logicNos e) e) countADD =
      at24cxxReadOneByte e countADD :=
    applyLog_of_notMem (fun w hw => count_not_cleared hw) e
  rw [applyLog_clearSlotsLog] at hkeep
  have hread : at24cxxReadOneByte ((RegistryCall.delete n).whole e) countADD =
      at24cxxReadOneByte (logicNos.foldl (clearSlot n) e) countADD - 1 :=
    read_writeOneByte_self _ _ _
  rw [hread, hkeep]

theorem mem_log_delete {w : EepromWrite} (h : w ∈ (RegistryCall.delete n).log e) :
    w.1 = Fin.ofNat 1024 countADD ∨ w ∈ clearSlotsLog n logicNos e := by
  simp only [RegistryCall.log, List.mem_append, List.mem_singleton] at h
  rcases h with h | h
  · exact Or.inr h
  · exact Or.inl (by rw [h]; rfl)

/-- No cut of a deletion makes a slot occupied. -/
theorem regOf_cutAfter_delete_none {k : ℕ} (h : regOf e k = none) :
    regOf (cutAfter c (.delete n) e) k = none := by
  by_cases hk : k ∈ logicNos
  · have hk' := mem_logicNos.mp hk
    have hocc : ¬ Occupied e k := by
      intro hocc
      have := (regOf_isSome hk).mpr hocc
      rw [h] at this
      cases this
    have hstill : ¬ Occupied (cutAfter c (.delete n) e) k := by
      rw [Occupied, slotADD_logic] at hocc ⊢
      have hvalue := applyLog_take_value ((RegistryCall.delete n).log e) e
        (Fin.ofNat 1024 (10 + k * 5)) c
      rcases hvalue with hold | ⟨w, hw, hwa, hnew⟩
      · exact fun heq => hocc (hold.symm.trans heq)
      · rcases mem_log_delete hw with hw | hw
        · rw [hw, ofNat_addr_inj (by decide) (by omega), countADD] at hwa
          omega
        · have hzero : at24cxxReadOneByte (cutAfter c (.delete n) e) (10 + k * 5) = 0 :=
            hnew.trans (mem_clearSlotsLog (fun j hj => (mem_logicNos.mp hj).2) hw).1
          rw [hzero, show (0 : UInt8) = UInt8.ofNat 0 from rfl, ofNat_inj_of_le (by omega) hk'.2]
          omega
    simp [regOf, hstill]
  · simp [regOf, hk]

theorem regOf_cutAfter_delete {k : ℕ} (hk : k ≠ n.toNat) :
    regOf (cutAfter c (.delete n) e) k = regOf e k := by
  by_cases hmem : k ∈ logicNos
  · have hk' := mem_logicNos.mp hmem
    by_cases hocc : Occupied e k
    · -- its logic byte is not the argument, so nothing is written to it
      apply regOf_congr
      intro m hm
      apply read_cutAfter
      intro w hw
      rcases mem_log_delete hw with hw | hw
      · exact readByte_ne hw (by decide) (by omega) (by simp only [countADD]; omega)
      · obtain ⟨-, i, -, hread, a, ha, hcl, hwa⟩ :=
          mem_clearSlotsLog (fun j hj => (mem_logicNos.mp hj).2) hw
        apply readByte_ne hwa ha (by omega)
        rintro rfl
        obtain rfl := inCleared_slot hm hcl
        rw [Occupied, slotADD_logic, hread] at hocc
        apply hk
        rw [hocc, toNat_logicNo hmem]
    · have hnone : regOf e k = none := by simp [regOf, hocc]
      rw [hnone]
      exact regOf_cutAfter_delete_none hnone
  · simp [regOf, hmem]

end Delete

/-! ### What a cut registration leaves -/

section Distribute

variable {p : PhysicalNo} {e : Eeprom} {i c : ℕ}

theorem log_distribute_of_free (hl : findRegistered p e = none) (hf : findFree e = some i) :
    (RegistryCall.distribute p).log e = writeSlotLog i p e := by
  simp only [RegistryCall.log, hl, hf]

theorem mem_slotLog {w : EepromWrite} (h : w ∈ slotLog i p) :
    w = oneByte (10 + i * 5) (UInt8.ofNat i) ∨
      ∃ k, 1 ≤ k ∧ k < 5 ∧ w.1 = Fin.ofNat 1024 (10 + i * 5 + k) := by
  simp only [slotLog, slotADD_logic, List.mem_cons, List.not_mem_nil, or_false] at h
  rcases h with rfl | rfl | rfl | rfl | rfl
  · exact Or.inl rfl
  · exact Or.inr ⟨1, by omega, by omega, rfl⟩
  · exact Or.inr ⟨2, by omega, by omega, rfl⟩
  · exact Or.inr ⟨3, by omega, by omega, rfl⟩
  · exact Or.inr ⟨4, by omega, by omega, rfl⟩

theorem mem_slotLog_addr {w : EepromWrite} (h : w ∈ slotLog i p) :
    ∃ k < 5, w.1 = Fin.ofNat 1024 (10 + i * 5 + k) := by
  rcases mem_slotLog h with rfl | ⟨k, -, hk, hw⟩
  · exact ⟨0, by omega, rfl⟩
  · exact ⟨k, hk, hw⟩

theorem mem_writeSlotLog {w : EepromWrite} (h : w ∈ writeSlotLog i p e) :
    w ∈ slotLog i p ∨ w.1 = Fin.ofNat 1024 countADD := by
  rw [writeSlotLog, List.mem_append, List.mem_singleton] at h
  refine h.imp_right ?_
  rintro rfl
  rfl

variable (hi : i ∈ logicNos) (hlog : (RegistryCall.distribute p).log e = writeSlotLog i p e)

include hi hlog

theorem regOf_cutAfter_distribute {k : ℕ} (hk : k ≠ i) :
    regOf (cutAfter c (.distribute p) e) k = regOf e k := by
  by_cases hmem : k ∈ logicNos
  · have hk' := mem_logicNos.mp hmem
    have hi' := mem_logicNos.mp hi
    apply regOf_congr
    intro m hm
    apply read_cutAfter
    intro w hw
    rw [hlog] at hw
    rcases mem_writeSlotLog hw with hw | hw
    · obtain ⟨j, hj, hw⟩ := mem_slotLog_addr hw
      exact readByte_ne hw (by omega) (by omega) (by omega)
    · exact readByte_ne hw (by decide) (by omega) (by simp only [countADD]; omega)
  · simp [regOf, hmem]

/-- From the first write on the slot counts as occupied. -/
theorem occupied_cutAfter_distribute (hc : c ≠ 0) :
    Occupied (cutAfter c (.distribute p) e) i := by
  have hi' := mem_logicNos.mp hi
  have hhead : writeSlotLog i p e =
      oneByte (slotADD i logicADD) (UInt8.ofNat i) :: (writeSlotLog i p e).tail := rfl
  rw [Occupied, cutAfter, hlog, hhead]
  refine applyLog_take_head (w := oneByte (slotADD i logicADD) (UInt8.ofNat i)) ?_ e hc
  intro w hw hwa
  rw [oneByte, slotADD_logic] at hwa
  rcases mem_writeSlotLog (List.mem_of_mem_tail hw) with hw | hw
  · rcases mem_slotLog hw with rfl | ⟨k, hk, hk5, hw⟩
    · rfl
    · rw [hw, ofNat_addr_inj (by omega) (by omega)] at hwa
      omega
  · rw [hw, ofNat_addr_inj (by decide) (by omega), countADD] at hwa
    omega

theorem count_cutAfter_distribute (hc : c ≤ 5) :
    at24cxxReadOneByte (cutAfter c (.distribute p) e) countADD = at24cxxReadOneByte e countADD := by
  have hi' := mem_logicNos.mp hi
  rw [cutAfter, hlog, writeSlotLog, List.take_append_of_le_length hc]
  apply applyLog_take_of_notMem
  intro w hw
  obtain ⟨k, hk, hw⟩ := mem_slotLog_addr hw
  exact readByte_ne hw (by omega) (by decide) (by simp only [countADD]; omega)

end Distribute

/-! ### The restart -/

/-- The power-up check lowers the counter once for every slot it deletes. -/
theorem count_powerUPSlot (hs : Handshakes) (d : Device) {i : ℕ} (hi : i ∈ logicNos) :
    at24cxxReadOneByte (powerUPSlot hs d i).eeprom countADD -
        UInt8.ofNat (occupied logicNos (regOf (powerUPSlot hs d i).eeprom)) =
      at24cxxReadOneByte d.eeprom countADD - UInt8.ofNat (occupied logicNos (regOf d.eeprom)) := by
  rcases powerUPSlot_cases hs d i with ⟨he, -⟩ | ⟨hocc, he, -⟩
  · rw [he]
  · have hcount := occupied_release logicNos_nodup hi ((regOf_isSome hi).mpr hocc)
    have hread : at24cxxReadOneByte (deleteLogicADD (UInt8.ofNat i) d).2.eeprom countADD =
        at24cxxReadOneByte d.eeprom countADD - 1 :=
      count_whole_delete (n := UInt8.ofNat i) (e := d.eeprom)
    rw [he, hread, regOf_delete hi, ← hcount, UInt8.ofNat_add, sub_sub, add_comm]
    rfl

theorem count_restart (hs : Handshakes) (e : Eeprom) :
    at24cxxReadOneByte (restart hs e) countADD -
        UInt8.ofNat (occupied logicNos (regOf (restart hs e))) =
      at24cxxReadOneByte e countADD - UInt8.ofNat (occupied logicNos (regOf e)) := by
  refine powerUPLogitADDCheck_induction (P := fun d =>
    at24cxxReadOneByte d.eeprom countADD - UInt8.ofNat (occupied logicNos (regOf d.eeprom)) =
      at24cxxReadOneByte e countADD - UInt8.ofNat (occupied logicNos (regOf e))) hs ?_ rfl
  intro d i hi hd
  exact (count_powerUPSlot hs d hi).trans hd

/-- Whatever the memory held: the counter is right after the restart if it was right
before, and the addresses differ if those that pass the check did. -/
theorem wellRegistered_restart_iff (hs : Handshakes) (e : Eeprom) :
    WellRegistered (restart hs e) ↔
      at24cxxReadOneByte e countADD = UInt8.ofNat (occupied logicNos (regOf e)) ∧
        Injective logicNos (retain (accepts hs) (regOf e)) := by
  have hcount := count_restart hs e
  have hreg : regOf (restart hs e) = retain (accepts hs) (regOf e) := regOf_powerUP hs (powerOn e)
  have hiff : at24cxxReadOneByte (restart hs e) countADD =
      UInt8.ofNat (occupied logicNos (regOf (restart hs e))) ↔
        at24cxxReadOneByte e countADD = UInt8.ofNat (occupied logicNos (regOf e)) := by
    rw [← sub_eq_zero, hcount, sub_eq_zero]
  rw [← hiff, ← hreg]
  constructor
  · intro h
    exact ⟨h.counted, h.injective⟩
  · rintro ⟨hc, hi⟩
    exact ⟨hi, hc⟩

/-! ### Every cut of every call -/

/-- The reader `q` at slot `k` is the one that the call is about. -/
def RegistryCall.Involves (k : ℕ) (q : PhysicalNo) : RegistryCall → Prop
  | .distribute p => q = p
  | .delete logicNo => UInt8.ofNat k = logicNo

/-- If slot `i` passes the check, no other slot that passes it has the same address. -/
def NoClash (hs : Handshakes) (e : Eeprom) (i : ℕ) : Prop :=
  ∀ k q, k ≠ i → retain (accepts hs) (regOf e) k = some q → retain (accepts hs) (regOf e) i ≠ some q

/-- The cuts after which the restart finds a sound table.  A registration must not
have begun or be complete.  A deletion must be complete, or have left its slot
occupied, without the address of another reader in it; when it is for a free slot
it must not have reached the counter. -/
def RegistryCall.CutSafely (hs : Handshakes) (e : Eeprom) (c : ℕ) : RegistryCall → Prop
  | .distribute p => c = 0 ∨ ((RegistryCall.distribute p).log e).length ≤ c
  | .delete n =>
      if ((RegistryCall.delete n).log e).length ≤ c then regOf e n.toNat ≠ none
      else
        (regOf e n.toNat ≠ none → regOf (cutAfter c (.delete n) e) n.toNat ≠ none) ∧
          NoClash hs (cutAfter c (.delete n) e) n.toNat

section Cut

variable {e : Eeprom} (h : WellRegistered e) (hs : Handshakes) (c : ℕ)

theorem regOf_cutAfter_of_not_involves {call : RegistryCall} {k : ℕ} {q : PhysicalNo}
    (hq : regOf e k = some q) (hcall : ¬ call.Involves k q) :
    regOf (cutAfter c call e) k = some q := by
  have hk := (regOf_eq_some.mp hq).1
  cases call with
  | distribute p =>
      cases hl : findRegistered p e with
      | some j =>
          have hlog : (RegistryCall.distribute p).log e = [] := by simp only [RegistryCall.log, hl]
          rw [cutAfter, hlog, List.take_nil]
          exact hq
      | none =>
          cases hf : findFree e with
          | none =>
              have hlog : (RegistryCall.distribute p).log e = [] := by
                simp only [RegistryCall.log, hl, hf]
              rw [cutAfter, hlog, List.take_nil]
              exact hq
          | some i =>
              obtain ⟨hi, hfree⟩ := firstFree_mem ((findFree_eq e).symm.trans hf)
              have hki : k ≠ i := by
                rintro rfl
                exact Option.some_ne_none q (hq.symm.trans hfree)
              rw [regOf_cutAfter_distribute hi (log_distribute_of_free hl hf) hki]
              exact hq
  | delete n =>
      have hkn : k ≠ n.toNat := by
        rintro rfl
        exact hcall UInt8.ofNat_toNat
      rw [regOf_cutAfter_delete hkn]
      exact hq

include h

theorem wellRegistered_restart : WellRegistered (restart hs e) :=
  (wellRegistered_restart_iff hs e).mpr ⟨h.counted, retain_injective h.injective⟩

theorem cutSafely_distribute_iff (p : PhysicalNo) :
    WellRegistered (restart hs (cutAfter c (.distribute p) e)) ↔
      (RegistryCall.distribute p).CutSafely hs e c := by
  by_cases h0 : c = 0
  · subst h0
    exact iff_of_true (wellRegistered_restart h hs) (Or.inl rfl)
  by_cases hfull : ((RegistryCall.distribute p).log e).length ≤ c
  · refine iff_of_true ?_ (Or.inr hfull)
    rw [cutAfter_whole hfull]
    exact wellRegistered_restart (h.distribute p) hs
  -- the slot is occupied by now and the counter still without it
  · have hlog : ∃ i, i ∈ logicNos ∧ regOf e i = none ∧
        (RegistryCall.distribute p).log e = writeSlotLog i p e := by
      cases hl : findRegistered p e with
      | some j => simp [RegistryCall.log, hl] at hfull
      | none =>
          cases hf : findFree e with
          | none => simp [RegistryCall.log, hl, hf] at hfull
          | some i =>
              obtain ⟨hi, hfree⟩ := firstFree_mem ((findFree_eq e).symm.trans hf)
              exact ⟨i, hi, hfree, log_distribute_of_free hl hf⟩
    obtain ⟨i, hi, hfree, hlog⟩ := hlog
    have hc : c ≤ 5 := by
      rw [hlog] at hfull
      exact Nat.le_of_lt_succ (Nat.lt_of_not_le hfull)
    refine iff_of_false ?_ (not_or.mpr ⟨h0, hfull⟩)
    intro hwell
    have hcount := ((wellRegistered_restart_iff hs _).mp hwell).1
    have hreg : regOf (cutAfter c (.distribute p) e) =
        Function.update (regOf e) i (regOf (cutAfter c (.distribute p) e) i) := by
      funext k
      by_cases hk : k = i
      · rw [hk, Function.update_self]
      · rw [Function.update_of_ne hk, regOf_cutAfter_distribute hi hlog hk]
    have hsome := (regOf_isSome hi).mpr (occupied_cutAfter_distribute hi hlog h0)
    obtain ⟨q, hq⟩ := Option.isSome_iff_exists.mp hsome
    rw [count_cutAfter_distribute hi hlog hc, hreg, hq, occupied_fill logicNos_nodup hi hfree q,
      h.counted, UInt8.ofNat_add] at hcount
    exact absurd (left_eq_add.mp hcount) (by decide)

omit h in
theorem regOf_whole_delete (n : UInt8) :
    regOf ((RegistryCall.delete n).whole e) = release (regOf e) n.toNat := by
  by_cases hn : n.toNat ∈ logicNos
  · have hdel := regOf_delete hn (powerOn e)
    rwa [UInt8.ofNat_toNat] at hdel
  · funext k
    by_cases hk : k = n.toNat
    · subst hk
      simp [release, regOf, hn]
    · rw [release, Function.update_of_ne hk, ← cutAfter_whole (le_refl _), regOf_cutAfter_delete hk]

theorem count_whole_delete_iff (n : UInt8) :
    at24cxxReadOneByte ((RegistryCall.delete n).whole e) countADD =
        UInt8.ofNat (occupied logicNos (regOf ((RegistryCall.delete n).whole e))) ↔
      regOf e n.toNat ≠ none := by
  rw [count_whole_delete, h.counted, regOf_whole_delete]
  by_cases hn : regOf e n.toNat = none
  · have hsame : release (regOf e) n.toNat = regOf e := by
      rw [release, ← hn, Function.update_eq_self]
    rw [hsame, sub_eq_self]
    exact iff_of_false (by decide) (not_not.mpr hn)
  · have hsome := Option.isSome_iff_ne_none.mpr hn
    obtain ⟨q, hq⟩ := Option.isSome_iff_exists.mp hsome
    have hcount := occupied_release logicNos_nodup (regOf_eq_some.mp hq).1 hsome
    rw [← hcount, UInt8.ofNat_add]
    exact iff_of_true (add_sub_cancel_right _ _) hn

/-- Before the counter is reached the number of occupied slots must not have
changed. -/
theorem count_cutAfter_delete_iff {n : UInt8} (hc : c < ((RegistryCall.delete n).log e).length) :
    at24cxxReadOneByte (cutAfter c (.delete n) e) countADD =
        UInt8.ofNat (occupied logicNos (regOf (cutAfter c (.delete n) e))) ↔
      (regOf e n.toNat ≠ none → regOf (cutAfter c (.delete n) e) n.toNat ≠ none) := by
  have hreg : regOf (cutAfter c (.delete n) e) =
      Function.update (regOf e) n.toNat (regOf (cutAfter c (.delete n) e) n.toNat) := by
    funext k
    by_cases hk : k = n.toNat
    · rw [hk, Function.update_self]
    · rw [Function.update_of_ne hk, regOf_cutAfter_delete hk]
  rw [count_cutAfter_delete hc, h.counted, hreg, Function.update_self]
  by_cases hn : regOf e n.toNat = none
  · rw [regOf_cutAfter_delete_none hn, ← hn, Function.update_eq_self]
    exact iff_of_true rfl fun h => h
  · have hsome := Option.isSome_iff_ne_none.mpr hn
    obtain ⟨q, hq⟩ := Option.isSome_iff_exists.mp hsome
    have hcount := occupied_update (t := regOf e) logicNos_nodup (regOf_eq_some.mp hq).1
      (regOf (cutAfter c (.delete n) e) n.toNat)
    rw [if_pos hsome] at hcount
    cases hcut : regOf (cutAfter c (.delete n) e) n.toNat with
    | none =>
        have hless := occupied_release logicNos_nodup (regOf_eq_some.mp hq).1 hsome
        rw [release] at hless
        rw [← hless, UInt8.ofNat_add]
        refine iff_of_false ?_ fun h => h hn rfl
        exact fun heq => absurd (add_eq_left.mp heq) (by decide)
    | some r =>
        rw [hcut, Option.isSome_some, if_pos rfl, Nat.add_right_cancel_iff] at hcount
        rw [hcount]
        exact iff_of_true rfl fun _ => Option.some_ne_none r

theorem injective_cutAfter_delete_iff (n : UInt8) :
    Injective logicNos (retain (accepts hs) (regOf (cutAfter c (.delete n) e))) ↔
      NoClash hs (cutAfter c (.delete n) e) n.toNat := by
  have hmem : ∀ {k q}, retain (accepts hs) (regOf (cutAfter c (.delete n) e)) k = some q →
      k ∈ logicNos := fun hk => (regOf_eq_some.mp (retain_eq_some.mp hk).1).1
  constructor
  · intro hinj k q hkn hk hn
    exact hkn (hinj k (hmem hk) n.toNat (hmem hn) q hk hn)
  · intro hno i hi j hj q hiq hjq
    by_cases hin : i = n.toNat
    · by_contra hij
      have hjn : j ≠ n.toNat := fun heq => hij (hin.trans heq.symm)
      exact hno j q hjn hjq (hin ▸ hiq)
    · by_cases hjn : j = n.toNat
      · exact absurd (hjn ▸ hjq) (hno i q hin hiq)
      · have hi' := (retain_eq_some.mp hiq).1
        have hj' := (retain_eq_some.mp hjq).1
        rw [regOf_cutAfter_delete hin] at hi'
        rw [regOf_cutAfter_delete hjn] at hj'
        exact h.injective i hi j hj q hi' hj'

theorem cutSafely_delete_iff (n : UInt8) :
    WellRegistered (restart hs (cutAfter c (.delete n) e)) ↔
      (RegistryCall.delete n).CutSafely hs e c := by
  rw [wellRegistered_restart_iff, RegistryCall.CutSafely]
  split_ifs with hfull
  · rw [cutAfter_whole hfull, count_whole_delete_iff h]
    have hinj : Injective logicNos
        (retain (accepts hs) (regOf ((RegistryCall.delete n).whole e))) := by
      rw [regOf_whole_delete]
      exact retain_injective (release_injective h.injective _)
    exact and_iff_left hinj
  · rw [count_cutAfter_delete_iff h c (Nat.lt_of_not_le hfull),
      injective_cutAfter_delete_iff h hs c]

/-- A registration or deletion is cut after any number of its byte writes, and the
power-up check runs with any handshake results: the readers that the call is not
about and whose handshake succeeds keep their slots, and the table is sound again
exactly after the safe cuts. -/
theorem powerLoss_restart (call : RegistryCall) :
    (∀ k q, regOf e k = some q → ¬ call.Involves k q → accepts hs k q = true →
      regOf (restart hs (cutAfter c call e)) k = some q) ∧
    (WellRegistered (restart hs (cutAfter c call e)) ↔ call.CutSafely hs e c) := by
  constructor
  · intro k q hq hcall ha
    have hreg : regOf (restart hs (cutAfter c call e)) =
        retain (accepts hs) (regOf (cutAfter c call e)) := regOf_powerUP hs (powerOn _)
    rw [hreg, retain_eq_some]
    exact ⟨regOf_cutAfter_of_not_involves c hq hcall, ha⟩
  · cases call with
    | distribute p => exact cutSafely_distribute_iff h hs c p
    | delete n => exact cutSafely_delete_iff h hs c n

end Cut

def blankEeprom : Eeprom := fun _ => 0

theorem wellRegistered_blankEeprom : WellRegistered blankEeprom :=
  wellRegistered_blank (by decide +kernel) (by decide +kernel)

/-- A memory with reader `09 08 07 06` at slot 1. -/
def registeredEeprom : Eeprom := (distributeLogicADD #v[9, 8, 7, 6] blankEeprom).2

/-- The power fails while a second reader is registered: the first keeps its slot. -/
theorem powerLoss_restart_registered :
    regOf registeredEeprom 1 = some #v[9, 8, 7, 6] ∧
    regOf (restart (fun _ _ => 1) (cutAfter 5 (.distribute #v[1, 2, 3, 4]) registeredEeprom)) 1 =
      some #v[9, 8, 7, 6] ∧
    (WellRegistered
        (restart (fun _ _ => 1) (cutAfter 5 (.distribute #v[1, 2, 3, 4]) registeredEeprom)) ↔
      (RegistryCall.distribute #v[1, 2, 3, 4]).CutSafely (fun _ _ => 1) registeredEeprom 5) := by
  have hreg : regOf registeredEeprom 1 = some #v[9, 8, 7, 6] := by decide +kernel
  have hother : ¬ (RegistryCall.distribute #v[1, 2, 3, 4]).Involves 1 #v[9, 8, 7, 6] := by
    rw [RegistryCall.Involves]
    decide
  obtain ⟨hkept, hsafe⟩ := powerLoss_restart (wellRegistered_blankEeprom.distribute #v[9, 8, 7, 6])
    (fun _ _ => 1) 5 (.distribute #v[1, 2, 3, 4])
  exact ⟨hreg, hkept 1 _ hreg hother (by decide), hsafe⟩

/-- The power fails before the counter is written: the reader is registered and not
counted. -/
theorem cut_registration_miscounts : WellRegistered blankEeprom ∧
    ¬ WellRegistered
      (restart (fun _ _ => 1) (cutAfter 5 (.distribute #v[1, 2, 3, 4]) blankEeprom)) := by
  refine ⟨wellRegistered_blank (by decide +kernel) (by decide +kernel), ?_⟩
  intro h
  have hne : at24cxxReadOneByte
      (restart (fun _ _ => 1) (cutAfter 5 (.distribute #v[1, 2, 3, 4]) blankEeprom)) countADD ≠
      UInt8.ofNat (occupied logicNos (regOf (restart (fun _ _ => 1)
        (cutAfter 5 (.distribute #v[1, 2, 3, 4]) blankEeprom)))) := by
    decide +kernel
  exact hne h.counted

end YckjAcu
