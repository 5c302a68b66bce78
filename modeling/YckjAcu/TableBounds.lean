import YckjAcu.BootRegistration
import YckjAcu.Heartbeat

/-!
# The bounds of the two tables

`g_RUNDate` has a row for every logic address and one for the counter,
`KJ_Versions` has `BUSNUM_SIZE` cells and is indexed by the same logic addresses.
The last reader has no cell.
-/

namespace YckjAcu

open SlotTable

/-- An element of one of the tables. -/
inductive TableCell
  | runDate (i : ℕ)
  | version (i : ℕ)

/-- The index is below the declared length. -/
def TableCell.InBounds : TableCell → Prop
  | .runDate i => i < busnumSize + 1
  | .version i => i < busnumSize

def CellsInBounds (cells : List TableCell) : Prop := ∀ c ∈ cells, c.InBounds

/-! ### The indices of each function

Consecutive statements about one row are one entry. -/

def deleteCells (logicNo : UInt8) : List TableCell := [.runDate logicNo.toNat]

/-- The counter, the row and the version that is printed. -/
def enterCells (i : ℕ) : List TableCell := [.runDate 0, .runDate i, .version i]

def powerUPSlotCells (canWriteLogitADD : Handshakes) (d : Device) (i : ℕ) : List TableCell :=
  let temp := slotADD i logicADD
  if at24cxxReadOneByte d.eeprom temp = UInt8.ofNat i then
    let physicalTemp := at24cxxRead d.eeprom (temp + 1) 4
    if physicalTemp.get 0 = 0 ∧ physicalTemp.get 1 = 0 ∧ physicalTemp.get 2 = 0 ∧
        physicalTemp.get 3 = 0 then
      deleteCells (UInt8.ofNat i) ++ [.version i]
    else if canWriteLogitADD i false ≠ 0 then .version i :: enterCells i
    else if canWriteLogitADD i true ≠ 0 then .version i :: enterCells i
    else .version i :: deleteCells (UInt8.ofNat i)
  else []

/-- The slots that are still to be checked. -/
def powerUPCells (canWriteLogitADD : Handshakes) : List ℕ → Device → List TableCell
  | [], _ => []
  | i :: slots, d =>
      powerUPSlotCells canWriteLogitADD d i ++
        powerUPCells canWriteLogitADD slots (powerUPSlot canWriteLogitADD d i)

/-- The version is stored when the handshake returns. -/
def BootState.registerCells (s : BootState) : List TableCell :=
  let u8Temp := (distributeLogicADD s.physicalADD s.device.eeprom).1
  if u8Temp.toNat ≤ busnumSize + 1 then
    (canWriteLogitADD u8Temp s.physicalADD s.can).elim [] fun _ => [.version u8Temp.toNat]
  else []

def registrationCells (rx : List (Option CanRxMsg)) (s : BootState) : List TableCell :=
  let (ret, s) := s.announcement rx
  if ret ≠ 0x00 then s.registerCells else []

/-- `ReadRunningData(Led_TaskCount+1)` and, when it returns, the forwarding. -/
def LedState.scanCells (a : LedInput) (s : LedState) : List TableCell :=
  let n := s.vars.ledTaskCount
  if n < busnumSize then
    .runDate (n + 1) ::
      (readRunningData (n + 1) a.tempBuff a.uBuff (s.atPoll a).bus).elim [] fun _ => [.runDate n]
  else []

def HeartbeatSystem.requestCells (s : HeartbeatSystem) : List TableCell :=
  let i := nextSendCount s.sender.iSendCount
  if (s.led.row i).get 0 &&& 0xC0 ≠ 0x00 then [.runDate i, .version i] else [.runDate i]

/-! ### Runs from power-up on -/

/-- The registration goes on for `ucCount` rounds, then the loop of `led_task`
starts and the server connection asks for heartbeats. -/
inductive TableSystem
  | off (e : Eeprom)
  | boot (ucCount : ℕ) (s : BootState)
  | loop (s : HeartbeatSystem)

inductive TableOp
  | powerUp (canWriteLogitADD : Handshakes)
  | round (rx : List (Option CanRxMsg))
  | enterLoop (g_WaterCost g_CostNum : UInt8) (g_SendDate : Vector UInt8 16)
      (acuAdd : Vector UInt8 16) (acuSN : Vector UInt8 4)
  | loop (op : HeartbeatOp)

namespace TableSystem

def loopStart (g_WaterCost g_CostNum : UInt8) (g_SendDate : Vector UInt8 16) (s : BootState) :
    LedState where
  bus := ⟨s.device.g_RUNDate, s.can, g_WaterCost, g_CostNum⟩
  vars := ⟨g_CostNum, g_WaterCost, 0, 0, 0, 0, 0⟩
  g_SendDate := g_SendDate
  posted := []

def step : TableOp → TableSystem → Option TableSystem
  | .powerUp hs, .off e => some (.boot 80 (bootStart hs e))
  | .round rx, .boot (ucCount + 1) s => (registrationRound rx s).map (.boot ucCount)
  | .enterLoop g_WaterCost g_CostNum g_SendDate acuAdd acuSN, .boot 0 s =>
      some (.loop (HeartbeatSystem.start (loopStart g_WaterCost g_CostNum g_SendDate s)
        s.device.kjVersions acuAdd acuSN))
  | .loop op, .loop s => (s.step op).map .loop
  | _, _ => none

/-- What a step accesses. -/
def cells : TableSystem → TableOp → List TableCell
  | .off e, .powerUp hs => powerUPCells hs logicNos (powerOn e)
  | .boot (_ + 1) s, .round rx => registrationCells rx s
  | .loop s, .loop (.led a) => s.led.scanCells a
  | .loop s, .loop .request => s.requestCells
  | _, _ => []

end TableSystem

/-- The reader `p` gets the last logic address: it holds slot 80, or this is the only
free slot. -/
def GetsLast (e : Eeprom) (p : PhysicalNo) : Prop :=
  (∀ i ∈ logicNos, i ≠ 80 → regOf e i ≠ some p) ∧
    (regOf e 80 = some p ∨ regOf e 80 = none ∧ ∀ i ∈ logicNos, i ≠ 80 → (regOf e i).isSome)

/-- The step does not come to the last reader: its slot is free at power-up, no
announced reader gets it, and its row is not in use at a heartbeat. -/
def TableSystem.SparesLast : TableSystem → TableOp → Prop
  | .off e, .powerUp _ => ¬ Occupied e 80
  | .boot (_ + 1) s, .round rx =>
      (s.announcement rx).1 ≠ 0x00 → GetsLast s.device.eeprom (s.announcement rx).2.physicalADD →
        canWriteLogitADD 80 (s.announcement rx).2.physicalADD (s.announcement rx).2.can = none
  | .loop s, .loop .request =>
      nextSendCount s.sender.iSendCount = 80 → (s.led.row 80).get 0 &&& 0xC0 = 0x00
  | _, _ => True

/-! ### The power-up check -/

theorem cellsInBounds_append {cs ds : List TableCell} :
    CellsInBounds (cs ++ ds) ↔ CellsInBounds cs ∧ CellsInBounds ds :=
  List.forall_mem_append

theorem cellsInBounds_cons {c : TableCell} {cs : List TableCell} :
    CellsInBounds (c :: cs) ↔ c.InBounds ∧ CellsInBounds cs :=
  List.forall_mem_cons

theorem cellsInBounds_nil : CellsInBounds [] := List.forall_mem_nil _

theorem runDate_inBounds {i : ℕ} (h : i ≤ 80) : (TableCell.runDate i).InBounds :=
  Nat.lt_succ_of_le h

/-- A slot that is occupied needs a cell of `KJ_Versions`. -/
theorem powerUPSlotCells_inBounds_iff (hs : Handshakes) (d : Device) {i : ℕ} (hi : i ∈ logicNos) :
    CellsInBounds (powerUPSlotCells hs d i) ↔ (Occupied d.eeprom i → i < 80) := by
  have hi80 := (mem_logicNos.mp hi).2
  have hdelete : CellsInBounds (deleteCells (UInt8.ofNat i)) := by
    rw [deleteCells, toNat_logicNo hi]
    exact cellsInBounds_cons.mpr ⟨runDate_inBounds hi80, cellsInBounds_nil⟩
  have hversion : CellsInBounds [.version i] ↔ i < 80 :=
    cellsInBounds_cons.trans (and_iff_left cellsInBounds_nil)
  have henter : CellsInBounds (enterCells i) ↔ i < 80 := by
    rw [enterCells, cellsInBounds_cons, cellsInBounds_cons, hversion]
    exact ⟨fun h => h.2.2, fun h => ⟨runDate_inBounds (by omega), runDate_inBounds hi80, h⟩⟩
  have hboth : CellsInBounds (.version i :: enterCells i) ↔ i < 80 := by
    rw [cellsInBounds_cons, henter]
    exact and_self_iff
  have hfail : CellsInBounds (.version i :: deleteCells (UInt8.ofNat i)) ↔ i < 80 :=
    cellsInBounds_cons.trans (and_iff_left hdelete)
  unfold powerUPSlotCells
  dsimp only
  by_cases hocc : at24cxxReadOneByte d.eeprom (slotADD i logicADD) = UInt8.ofNat i
  · have hneed : (Occupied d.eeprom i → i < 80) ↔ i < 80 := forall_prop_of_true hocc
    rw [if_pos hocc, hneed]
    split_ifs
    · rw [cellsInBounds_append, hversion]
      exact and_iff_right hdelete
    · exact hboth
    · exact hboth
    · exact hfail
  · rw [if_neg hocc]
    exact iff_of_true cellsInBounds_nil fun h => absurd h hocc

theorem powerUPCells_inBounds_iff (hs : Handshakes) {slots : List ℕ}
    (hmem : ∀ i ∈ slots, i ∈ logicNos) (hnodup : slots.Nodup) (d : Device) :
    CellsInBounds (powerUPCells hs slots d) ↔ ∀ i ∈ slots, Occupied d.eeprom i → i < 80 := by
  induction slots generalizing d with
  | nil => exact iff_of_true cellsInBounds_nil (List.forall_mem_nil _)
  | cons i slots ih =>
      obtain ⟨hnew, hrest⟩ := List.nodup_cons.mp hnodup
      have hi := hmem i List.mem_cons_self
      have hmem' : ∀ j ∈ slots, j ∈ logicNos := fun j hj => hmem j (List.mem_cons_of_mem i hj)
      rw [powerUPCells, cellsInBounds_append, powerUPSlotCells_inBounds_iff hs d hi,
        ih hmem' hrest, List.forall_mem_cons]
      refine and_congr_right fun _ => forall₂_congr fun j hj => ?_
      -- the check of slot `i` leaves the other slots alone
      have hji : j ≠ i := fun h => hnew (h ▸ hj)
      rw [← regOf_isSome (hmem' j hj), ← regOf_isSome (hmem' j hj), regOf_powerUPSlot hs d hi,
        sweepSlot, Function.update_of_ne hji]

theorem powerUP_inBounds_iff (hs : Handshakes) (e : Eeprom) :
    CellsInBounds (powerUPCells hs logicNos (powerOn e)) ↔ ¬ Occupied e 80 := by
  rw [powerUPCells_inBounds_iff hs (fun _ h => h) logicNos_nodup]
  constructor
  · intro h hocc
    exact absurd (h 80 (mem_logicNos.mpr (by omega)) hocc) (lt_irrefl 80)
  · intro h i hi hocc
    refine lt_of_le_of_ne (mem_logicNos.mp hi).2 ?_
    rintro rfl
    exact h hocc

/-! ### The registration rounds -/

theorem logicNos_eq : logicNos = List.range' 1 79 ++ [80] := rfl

theorem getsLast_iff_register (e : Eeprom) (p : PhysicalNo) :
    GetsLast e p ↔ (register logicNos (regOf e) p).1 = some 80 := by
  have hmem : ∀ i, i ∈ logicNos ∧ i ≠ 80 ↔ i ∈ List.range' 1 79 := by
    intro i
    rw [mem_logicNos, List.mem_range'_1]
    omega
  rw [logicNos_eq, register_eq_last (by rw [← hmem]; simp), GetsLast]
  simp only [← hmem, and_imp]

theorem distribute_toNat_eq_iff (e : Eeprom) (p : PhysicalNo) :
    (distributeLogicADD p e).1.toNat = 80 ↔ GetsLast e p := by
  rw [getsLast_iff_register, (regOf_distribute p e).2]
  cases hreg : (register logicNos (regOf e) p).1 with
  | none => exact iff_of_false (by decide) (Option.some_ne_none _).symm
  | some i =>
      rw [Option.elim_some, toNat_logicNo (register_holds hreg).1, Option.some.injEq]

/-- A logic address, or the code of a full table, which the guard stops. -/
theorem distribute_toNat_cases (e : Eeprom) (p : PhysicalNo) :
    (distributeLogicADD p e).1.toNat ≤ 80 ∨ (distributeLogicADD p e).1.toNat = 0xF3 := by
  rw [(regOf_distribute p e).2]
  cases hreg : (register logicNos (regOf e) p).1 with
  | none => exact Or.inr rfl
  | some i =>
      have hi := (register_holds hreg).1
      rw [Option.elim_some, toNat_logicNo hi]
      exact Or.inl (mem_logicNos.mp hi).2

theorem registerCells_inBounds_iff (s : BootState) : CellsInBounds s.registerCells ↔
    (GetsLast s.device.eeprom s.physicalADD → canWriteLogitADD 80 s.physicalADD s.can = none) := by
  rw [← distribute_toNat_eq_iff, BootState.registerCells]
  have hcases := distribute_toNat_cases s.device.eeprom s.physicalADD
  generalize (distributeLogicADD s.physicalADD s.device.eeprom).1 = u8Temp at hcases ⊢
  by_cases hlast : u8Temp.toNat = 80
  · obtain rfl : u8Temp = 80 := UInt8.toNat_inj.mp hlast
    rw [if_pos (by decide), forall_prop_of_true hlast]
    cases canWriteLogitADD 80 s.physicalADD s.can with
    | none => exact iff_of_true cellsInBounds_nil rfl
    | some r =>
        apply iff_of_false _ (Option.some_ne_none r)
        intro h
        exact absurd (cellsInBounds_cons.mp h).1 (lt_irrefl 80)
  · refine iff_of_true ?_ fun h => absurd h hlast
    split_ifs with hguard
    · have hlt : u8Temp.toNat < 80 := by
        rw [busnumSize] at hguard
        omega
      cases canWriteLogitADD u8Temp s.physicalADD s.can with
      | none => exact cellsInBounds_nil
      | some r => exact cellsInBounds_cons.mpr ⟨hlt, cellsInBounds_nil⟩
    · exact cellsInBounds_nil

theorem registrationCells_inBounds_iff (rx : List (Option CanRxMsg)) (s : BootState) :
    CellsInBounds (registrationCells rx s) ↔ ((s.announcement rx).1 ≠ 0x00 →
      GetsLast s.device.eeprom (s.announcement rx).2.physicalADD →
        canWriteLogitADD 80 (s.announcement rx).2.physicalADD
          (s.announcement rx).2.can = none) := by
  unfold registrationCells
  dsimp only
  split_ifs with hret
  · rw [registerCells_inBounds_iff]
    exact ⟨fun h _ => h, fun h => h hret⟩
  · exact iff_of_true cellsInBounds_nil fun h => absurd h hret

/-! ### The loop and the heartbeats -/

theorem scanCells_inBounds (a : LedInput) (s : LedState) : CellsInBounds (s.scanCells a) := by
  unfold LedState.scanCells
  dsimp only
  split_ifs with hlt
  · apply cellsInBounds_cons.mpr
    refine ⟨runDate_inBounds hlt, ?_⟩
    cases readRunningData (s.vars.ledTaskCount + 1) a.tempBuff a.uBuff (s.atPoll a).bus with
    | none => exact cellsInBounds_nil
    | some bus => exact cellsInBounds_cons.mpr ⟨runDate_inBounds (le_of_lt hlt), cellsInBounds_nil⟩
  · exact cellsInBounds_nil

theorem requestCells_inBounds_iff {s : HeartbeatSystem} (h : s.sender.iSendCount ≤ 80) :
    CellsInBounds s.requestCells ↔
      (nextSendCount s.sender.iSendCount = 80 → (s.led.row 80).get 0 &&& 0xC0 = 0x00) := by
  have hle := (mem_logicNos.mp (HeartbeatSystem.nextSendCount_mem h)).2
  unfold HeartbeatSystem.requestCells
  dsimp only
  generalize nextSendCount s.sender.iSendCount = i at hle
  have hrow : CellsInBounds [.runDate i] :=
    cellsInBounds_cons.mpr ⟨runDate_inBounds hle, cellsInBounds_nil⟩
  split_ifs with hbits
  · rw [cellsInBounds_cons, and_iff_right (runDate_inBounds hle), cellsInBounds_cons,
      and_iff_left cellsInBounds_nil]
    constructor
    · rintro hlt rfl
      exact absurd hlt (lt_irrefl 80)
    · intro hlast
      refine lt_of_le_of_ne hle ?_
      rintro rfl
      exact hbits (hlast rfl)
  · refine iff_of_true hrow ?_
    rintro rfl
    exact not_not.mp hbits

theorem HeartbeatSystem.answer_count (s : HeartbeatSystem) :
    s.answer.1.iSendCount = nextSendCount s.sender.iSendCount := by
  unfold answer sendHeartbeat
  dsimp only
  split_ifs <;> rfl

/-! ### Runs -/

namespace TableSystem

/-- The heartbeat counter is a logic address or 0. -/
def CountSound : TableSystem → Prop
  | .loop s => s.sender.iSendCount ≤ 80
  | _ => True

theorem CountSound.step {op : TableOp} {s t : TableSystem} (h : s.CountSound)
    (hstep : step op s = some t) : t.CountSound := by
  unfold TableSystem.step at hstep
  split at hstep
  · cases hstep
    trivial
  · obtain ⟨u, -, rfl⟩ := Option.map_eq_some_iff.mp hstep
    trivial
  · cases hstep
    exact Nat.zero_le _
  · rename_i hop s
    obtain ⟨u, hu, rfl⟩ := Option.map_eq_some_iff.mp hstep
    cases hop with
    | led a =>
        obtain ⟨led, -, rfl⟩ := Option.map_eq_some_iff.mp hu
        exact h
    | request =>
        cases hu
        exact (HeartbeatSystem.answer_count s).trans_le
          (mem_logicNos.mp (HeartbeatSystem.nextSendCount_mem h)).2
  · cases hstep

theorem cells_inBounds_iff {s : TableSystem} (op : TableOp) (h : s.CountSound) :
    CellsInBounds (s.cells op) ↔ s.SparesLast op := by
  cases s with
  | off e =>
      cases op with
      | powerUp hs => exact powerUP_inBounds_iff hs e
      | _ => exact iff_of_true cellsInBounds_nil trivial
  | boot ucCount s =>
      cases ucCount with
      | zero => cases op <;> exact iff_of_true cellsInBounds_nil trivial
      | succ ucCount =>
          cases op with
          | round rx => exact registrationCells_inBounds_iff rx s
          | _ => exact iff_of_true cellsInBounds_nil trivial
  | loop s =>
      cases op with
      | loop op =>
          cases op with
          | led a => exact iff_of_true (scanCells_inBounds a s.led) trivial
          | request => exact requestCells_inBounds_iff h
      | _ => exact iff_of_true cellsInBounds_nil trivial

/-- Along every run from power-up the indices are within the tables exactly when no
step comes to the last reader. -/
theorem cells_inBounds_run_iff (e : Eeprom) (ops : List TableOp) :
    Runs.AllSteps step (fun s op => CellsInBounds (s.cells op)) (.off e) ops ↔
      Runs.AllSteps step SparesLast (.off e) ops :=
  Runs.allSteps_iff_of_invariant (I := CountSound) (fun _ _ _ hs hstep => hs.step hstep)
    (fun _ op hs => cells_inBounds_iff op hs) (s := .off e) trivial ops

/-- A full installation: slot 80 is occupied at power-up. -/
theorem full_installation_out_of_bounds : ¬ ∀ (e : Eeprom) (ops : List TableOp),
    Runs.AllSteps step (fun s op => CellsInBounds (s.cells op)) (.off e) ops := by
  intro h
  have hrun := h (fun a => if a = 410 then 80 else 1) [.powerUp fun _ _ => 1]
  have hfree := (powerUP_inBounds_iff _ _).mp hrun.1
  exact hfree (by decide)

end TableSystem

end YckjAcu
