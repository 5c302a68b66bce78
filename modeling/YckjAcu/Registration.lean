import Mathlib.Data.List.Find
import YckjAcu.SlotLayout
import YckjAcu.Lib.Runs

/-!
# The registration table as an injective map

Read through `regOf`, the slots of the memory are a table from logic addresses
to physical ones.  `Distribute_LogicADD` refines `SlotTable.register`,
`Delete_LogicADD` refines `SlotTable.release`, and the invariants of every run
of registrations and power-up checks come from the abstract table.
-/

namespace YckjAcu

open SlotTable

/-- The table that a memory image stands for. -/
def regOf (e : Eeprom) : Table ℕ PhysicalNo := fun i =>
  if i ∈ logicNos ∧ Occupied e i then some (physicalOf e i) else none

theorem regOf_eq_some {e : Eeprom} {i : ℕ} {p : PhysicalNo} :
    regOf e i = some p ↔ i ∈ logicNos ∧ Occupied e i ∧ physicalOf e i = p := by
  simp only [regOf]
  split_ifs with h
  · simp [h.1, h.2]
  · simp only [false_iff]
    exact fun hp => h ⟨hp.1, hp.2.1⟩

theorem regOf_isSome {e : Eeprom} {i : ℕ} (hi : i ∈ logicNos) :
    (regOf e i).isSome = true ↔ Occupied e i := by
  simp [regOf, hi]

theorem occupied_regOf (e : Eeprom) :
    occupied logicNos (regOf e) = logicNos.countP fun i => Occupied e i := by
  apply List.countP_congr
  intro i hi
  simpa using regOf_isSome hi

theorem findRegistered_eq (p : PhysicalNo) (e : Eeprom) :
    findRegistered p e = lookup logicNos (regOf e) p := by
  refine List.find?_congr fun i hi => ?_
  have hmem : i ∈ logicNos := hi
  rw [Bool.eq_iff_iff]
  simp only [Bool.and_eq_true, beq_iff_eq, samePhysical_iff, decide_eq_true_eq, regOf_eq_some]
  exact ⟨fun h => ⟨hmem, h.1, h.2⟩, fun h => ⟨h.2.1, h.2.2⟩⟩

theorem findFree_eq (e : Eeprom) : findFree e = firstFree logicNos (regOf e) := by
  refine List.find?_congr fun i hi => ?_
  have hmem : i ∈ logicNos := hi
  have hocc := regOf_isSome (e := e) hmem
  by_cases h : Occupied e i
  · have hsome := hocc.mpr h
    cases hr : regOf e i with
    | none => simp [hr] at hsome
    | some q => simpa [Occupied] using h
  · have hnone : regOf e i = none := by simpa using mt hocc.mp h
    simpa [hnone, Occupied] using h

/-! ### The byte level refines the table -/

theorem regOf_congr {e e' : Eeprom} {i : ℕ}
    (h : ∀ k < 5, at24cxxReadOneByte e' (10 + i * 5 + k) = at24cxxReadOneByte e (10 + i * 5 + k)) :
    regOf e' i = regOf e i := by
  have hbase := h 0 (by omega)
  have hocc : Occupied e' i ↔ Occupied e i := by
    simp only [Occupied, slotADD_logic]
    rw [show 10 + i * 5 = 10 + i * 5 + 0 from rfl, hbase]
  simp only [regOf, hocc, physicalOf_congr fun k _ hk => h k hk]

theorem regOf_writeSlot {e : Eeprom} {i : ℕ} (hi : i ∈ logicNos) (p : PhysicalNo) :
    regOf (writeSlot i p e) = Function.update (regOf e) i (some p) := by
  have hi80 := (mem_logicNos.mp hi).2
  funext j
  by_cases hji : j = i
  · subst hji
    rw [Function.update_self, regOf_eq_some]
    refine ⟨hi, ?_, physicalOf_writeSlot hi80⟩
    rw [Occupied, slotADD_logic, read_writeSlot_logic hi80]
  · rw [Function.update_of_ne hji]
    by_cases hj : j ∈ logicNos
    · have hj80 := (mem_logicNos.mp hj).2
      refine regOf_congr fun k hk => ?_
      exact read_writeSlot_of_not_mem hi80 (by omega) (by simp only [countADD]; omega) (by omega)
    · simp [regOf, hj]

theorem regOf_distribute (p : PhysicalNo) (e : Eeprom) :
    regOf (distributeLogicADD p e).2 = (register logicNos (regOf e) p).2 ∧
      (distributeLogicADD p e).1 =
        ((register logicNos (regOf e) p).1.elim 0xF3 UInt8.ofNat) := by
  simp only [distributeLogicADD, findRegistered_eq, findFree_eq, register]
  cases hl : lookup logicNos (regOf e) p with
  | some i => exact ⟨rfl, rfl⟩
  | none =>
      cases hf : firstFree logicNos (regOf e) with
      | some i => exact ⟨regOf_writeSlot (firstFree_mem hf).1 p, rfl⟩
      | none => exact ⟨rfl, rfl⟩

theorem regOf_clearSlots {e : Eeprom} {i : ℕ} (hi : i ∈ logicNos) :
    regOf (logicNos.foldl (clearSlot (UInt8.ofNat i)) e) = release (regOf e) i := by
  have hi' := mem_logicNos.mp hi
  have hne : UInt8.ofNat i ≠ 0 := by
    rw [Ne, show (0 : UInt8) = UInt8.ofNat 0 from rfl, ofNat_inj_of_le hi'.2 (by omega)]
    omega
  have hread := fun (a : ℕ) (ha : a < 1024) => read_clearSlots (a := a) hne logicNos
    (fun j hj => (mem_logicNos.mp hj).2) e ha
  funext j
  by_cases hj : j ∈ logicNos
  · have hj' := mem_logicNos.mp hj
    by_cases hji : j = i
    · subst hji
      have hfree : ¬ Occupied (logicNos.foldl (clearSlot (UInt8.ofNat j)) e) j := by
        rw [Occupied, slotADD_logic, hread _ (by omega)]
        by_cases hocc : at24cxxReadOneByte e (10 + j * 5) = UInt8.ofNat j
        · rw [if_pos ⟨j, hj, hocc, inCleared_base j⟩]
          exact hne.symm
        · split_ifs
          · exact hne.symm
          · exact hocc
      simp [release, regOf, hfree]
    · rw [release, Function.update_of_ne hji]
      by_cases hocc : Occupied e j
      · refine regOf_congr fun k hk => ?_
        rw [hread _ (by omega), if_neg]
        rintro ⟨m, hm, hmi, hcl⟩
        have hm' := mem_logicNos.mp hm
        have hmj : m = j := by
          obtain ⟨hlow, hhigh⟩ := hcl
          split at hhigh <;> omega
        subst hmj
        rw [Occupied, slotADD_logic, hmi, ofNat_inj_of_le hi'.2 hj'.2] at hocc
        exact hji hocc.symm
      · have hstill : ¬ Occupied (logicNos.foldl (clearSlot (UInt8.ofNat i)) e) j := by
          rw [Occupied, slotADD_logic] at hocc ⊢
          rw [hread _ (by omega)]
          split_ifs
          · rw [show (0 : UInt8) = UInt8.ofNat 0 from rfl, ofNat_inj_of_le (by omega) hj'.2]
            omega
          · exact hocc
        simp [regOf, hocc, hstill]
  · have hji : j ≠ i := fun h => hj (h ▸ hi)
    simp [release, regOf, hj, hji]

theorem regOf_writeCount (e : Eeprom) (v : UInt8) :
    regOf (at24cxxWriteOneByte countADD v e) = regOf e := by
  funext j
  by_cases hj : j ∈ logicNos
  · have hj' := mem_logicNos.mp hj
    refine regOf_congr fun k hk => read_writeOneByte_of_ne e v ?_
    rw [Nat.mod_eq_of_lt (by omega), countADD]
    omega
  · simp [regOf, hj]

theorem regOf_delete {i : ℕ} (hi : i ∈ logicNos) (d : Device) :
    regOf (deleteLogicADD (UInt8.ofNat i) d).2.eeprom = release (regOf d.eeprom) i := by
  simp only [deleteLogicADD, regOf_writeCount]
  exact regOf_clearSlots hi

/-! ### The invariant -/

/-- Different occupied slots hold different addresses, and the counter is right. -/
structure WellRegistered (e : Eeprom) : Prop where
  injective : Injective logicNos (regOf e)
  counted : at24cxxReadOneByte e countADD = UInt8.ofNat (occupied logicNos (regOf e))

theorem WellRegistered.distribute {e : Eeprom} (h : WellRegistered e) (p : PhysicalNo) :
    WellRegistered (distributeLogicADD p e).2 := by
  refine ⟨?_, ?_⟩
  · rw [(regOf_distribute p e).1]
    exact register_injective h.injective p
  · rw [(regOf_distribute p e).1]
    simp only [distributeLogicADD, findRegistered_eq, findFree_eq, register]
    cases lookup logicNos (regOf e) p with
    | some i => exact h.counted
    | none =>
        cases hf : firstFree logicNos (regOf e) with
        | none => exact h.counted
        | some i =>
            obtain ⟨hi, hfree⟩ := firstFree_mem hf
            have hcount := read_writeSlot_count (e := e) (p := p) (mem_logicNos.mp hi).2
            simp only [hcount, h.counted, occupied_fill logicNos_nodup hi hfree p]
            simp

theorem WellRegistered.delete {d : Device} {i : ℕ} (h : WellRegistered d.eeprom)
    (hi : i ∈ logicNos) (hocc : Occupied d.eeprom i) :
    WellRegistered (deleteLogicADD (UInt8.ofNat i) d).2.eeprom := by
  have hi' := mem_logicNos.mp hi
  have hne : UInt8.ofNat i ≠ 0 := by
    rw [Ne, show (0 : UInt8) = UInt8.ofNat 0 from rfl, ofNat_inj_of_le hi'.2 (by omega)]
    omega
  refine ⟨?_, ?_⟩
  · rw [regOf_delete hi]
    exact release_injective h.injective i
  · rw [regOf_delete hi]
    have hsome := (regOf_isSome (e := d.eeprom) hi).mpr hocc
    have hcount := occupied_release logicNos_nodup hi hsome
    have hkeep : at24cxxReadOneByte (logicNos.foldl (clearSlot (UInt8.ofNat i)) d.eeprom)
        countADD = at24cxxReadOneByte d.eeprom countADD := by
      rw [read_clearSlots hne logicNos (fun j hj => (mem_logicNos.mp hj).2) d.eeprom
        (by simp [countADD]), if_neg]
      rintro ⟨j, _, _, hlow, _⟩
      simp only [countADD] at hlow
      omega
    have hread : at24cxxReadOneByte (deleteLogicADD (UInt8.ofNat i) d).2.eeprom countADD =
        at24cxxReadOneByte d.eeprom countADD - 1 := by
      simp only [deleteLogicADD, read_writeOneByte_self]
      exact congrArg (· - 1) hkeep
    rw [hread, h.counted, ← hcount]
    simp

/-! ### Power-up -/

/-- What the power-up check does to the memory at one slot: nothing, or the
deletion of that slot. -/
theorem powerUPSlot_cases (hs : Handshakes) (d : Device) (i : ℕ) :
    ((powerUPSlot hs d i).eeprom = d.eeprom ∧ (powerUPSlot hs d i).deleted = d.deleted) ∨
    (Occupied d.eeprom i ∧
      (powerUPSlot hs d i).eeprom = (deleteLogicADD (UInt8.ofNat i) d).2.eeprom ∧
      (powerUPSlot hs d i).deleted = d.deleted ++ [UInt8.ofNat i]) := by
  by_cases hocc : Occupied d.eeprom i
  · have hread : at24cxxReadOneByte d.eeprom (slotADD i logicADD) = UInt8.ofNat i := hocc
    simp only [powerUPSlot, hread, if_true]
    split_ifs
    · exact Or.inr ⟨hocc, rfl, rfl⟩
    · exact Or.inl ⟨rfl, rfl⟩
    · exact Or.inl ⟨rfl, rfl⟩
    · exact Or.inr ⟨hocc, rfl, rfl⟩
  · left
    have hread : at24cxxReadOneByte d.eeprom (slotADD i logicADD) ≠ UInt8.ofNat i := hocc
    simp [powerUPSlot, hread]

theorem WellRegistered.powerUPSlot {d : Device} (h : WellRegistered d.eeprom) (hs : Handshakes)
    {i : ℕ} (hi : i ∈ logicNos) : WellRegistered (powerUPSlot hs d i).eeprom := by
  rcases powerUPSlot_cases hs d i with ⟨he, _⟩ | ⟨hocc, he, _⟩
  · rw [he]
    exact h
  · rw [he]
    exact h.delete hi hocc

/-- Slot `k` is held by `p` and is not among the deletions recorded so far. -/
def Held (k : ℕ) (p : PhysicalNo) (d : Device) : Prop :=
  UInt8.ofNat k ∉ d.deleted → regOf d.eeprom k = some p

theorem Held.powerUPSlot {d : Device} {k i : ℕ} {p : PhysicalNo} (h : Held k p d)
    (hs : Handshakes) (hi : i ∈ logicNos) : Held k p (powerUPSlot hs d i) := by
  rcases powerUPSlot_cases hs d i with ⟨he, hdel⟩ | ⟨_, he, hdel⟩
  · simpa [Held, he, hdel] using h
  · intro hk
    rw [hdel, List.mem_append, not_or, List.mem_singleton] at hk
    have hki : k ≠ i := fun heq => hk.2 (by rw [heq])
    rw [he, regOf_delete hi, release, Function.update_of_ne hki]
    exact h hk.1

theorem powerUPLogitADDCheck_induction {P : Device → Prop} (hs : Handshakes)
    (hstep : ∀ d i, i ∈ logicNos → P d → P (powerUPSlot hs d i)) {d : Device} (h : P d) :
    P (powerUPLogitADDCheck hs d) := by
  have hfold : ∀ (slots : List ℕ) (d : Device), (∀ i ∈ slots, i ∈ logicNos) → P d →
      P (slots.foldl (YckjAcu.powerUPSlot hs) d) := by
    intro slots
    induction slots with
    | nil => exact fun _ _ hd => hd
    | cons i slots ih =>
        intro d hmem hd
        exact ih _ (fun j hj => hmem j (List.mem_cons_of_mem i hj))
          (hstep d i (hmem i List.mem_cons_self) hd)
  exact hfold _ d (fun _ hi => hi) h

/-! ### Runs -/

/-- The calls that write the registration table. -/
inductive RegOp
  | distribute (physicalNo : PhysicalNo)
  | powerUP (canWriteLogitADD : Handshakes)

def regStep : RegOp → Device → Option Device
  | .distribute p, d => some { d with eeprom := (distributeLogicADD p d.eeprom).2 }
  | .powerUP hs, d => some (powerUPLogitADDCheck hs d)

theorem wellRegistered_step (d : Device) (op : RegOp) (d' : Device)
    (h : WellRegistered d.eeprom) (hstep : regStep op d = some d') :
    WellRegistered d'.eeprom := by
  cases op with
  | distribute p =>
      obtain rfl := Option.some.inj hstep
      exact h.distribute p
  | powerUP hs =>
      obtain rfl := Option.some.inj hstep
      exact powerUPLogitADDCheck_induction (P := fun d => WellRegistered d.eeprom) hs
        (fun _ _ hi hd => hd.powerUPSlot hs hi) h

theorem held_step {k : ℕ} {p : PhysicalNo} (d : Device) (op : RegOp) (d' : Device)
    (h : Held k p d) (hstep : regStep op d = some d') : Held k p d' := by
  cases op with
  | distribute q =>
      obtain rfl := Option.some.inj hstep
      intro hk
      simp only [(regOf_distribute q d.eeprom).1]
      exact register_keeps (h hk)
  | powerUP hs =>
      obtain rfl := Option.some.inj hstep
      exact powerUPLogitADDCheck_induction hs (fun _ _ hi hd => hd.powerUPSlot hs hi) h

theorem wellRegistered_blank {e : Eeprom} (hfree : ∀ i ∈ logicNos, ¬ Occupied e i)
    (hcount : at24cxxReadOneByte e countADD = 0) : WellRegistered e := by
  have hnone : ∀ i ∈ logicNos, regOf e i = none := fun i hi => by simp [regOf, hfree i hi]
  refine ⟨fun i hi j _ p hp _ => ?_, ?_⟩
  · simp [hnone i hi] at hp
  · have hzero : occupied logicNos (regOf e) = 0 := by
      rw [occupied, List.countP_eq_zero]
      intro i hi
      simp [hnone i hi]
    rw [hcount, hzero]
    rfl

/-- The registration table of a reachable state is an injective, counted and
stable map. -/
structure RegistrationMap (d : Device) : Prop where
  injective : ∀ i ∈ logicNos, ∀ j ∈ logicNos, Occupied d.eeprom i → Occupied d.eeprom j →
    physicalOf d.eeprom i = physicalOf d.eeprom j → i = j
  counted : (at24cxxReadOneByte d.eeprom countADD).toNat =
    logicNos.countP fun i => Occupied d.eeprom i
  assigns : ∀ p, (∃ k ∈ logicNos, (distributeLogicADD p d.eeprom).1 = UInt8.ofNat k ∧
      Occupied (distributeLogicADD p d.eeprom).2 k ∧
      physicalOf (distributeLogicADD p d.eeprom).2 k = p) ∨
    ((distributeLogicADD p d.eeprom).1 = 0xF3 ∧ (distributeLogicADD p d.eeprom).2 = d.eeprom)
  full_iff : ∀ p, (distributeLogicADD p d.eeprom).1 = 0xF3 ↔
    ∀ i ∈ logicNos, Occupied d.eeprom i ∧ physicalOf d.eeprom i ≠ p
  stable : ∀ p, ∀ k ∈ logicNos, (distributeLogicADD p d.eeprom).1 = UInt8.ofNat k →
    ∀ later d', Runs.run regStep
        { d with eeprom := (distributeLogicADD p d.eeprom).2, deleted := [] } later = some d' →
      UInt8.ofNat k ∉ d'.deleted →
      distributeLogicADD p d'.eeprom = (UInt8.ofNat k, d'.eeprom)

theorem ofNat_ne_full {k : ℕ} (hk : k ∈ logicNos) : UInt8.ofNat k ≠ 0xF3 := by
  have := mem_logicNos.mp hk
  intro h
  have := congrArg UInt8.toNat h
  simp only [UInt8.toNat_ofNat', UInt8.reduceToNat] at this
  omega

theorem distribute_of_held {e : Eeprom} (h : WellRegistered e) {k : ℕ} {p : PhysicalNo}
    (hk : regOf e k = some p) : distributeLogicADD p e = (UInt8.ofNat k, e) := by
  have hmem := (regOf_eq_some.mp hk).1
  simp only [distributeLogicADD, findRegistered_eq, lookup_of_injective h.injective hmem hk]

theorem distribute_full_iff {e : Eeprom} {p : PhysicalNo} :
    (distributeLogicADD p e).1 = 0xF3 ↔ (register logicNos (regOf e) p).1 = none := by
  rw [(regOf_distribute p e).2]
  cases hr : (register logicNos (regOf e) p).1 with
  | none => simp
  | some k => simpa using ofNat_ne_full (register_holds hr).1

theorem registrationMap_of_wellRegistered {d : Device} (h : WellRegistered d.eeprom) :
    RegistrationMap d where
  injective i hi j hj hoi hoj hphys :=
    h.injective i hi j hj (physicalOf d.eeprom j) (regOf_eq_some.mpr ⟨hi, hoi, hphys⟩)
      (regOf_eq_some.mpr ⟨hj, hoj, rfl⟩)
  counted := by
    have hle : occupied logicNos (regOf d.eeprom) ≤ logicNos.length := occupied_le_length
    rw [logicNos_length] at hle
    rw [h.counted, UInt8.toNat_ofNat', ← occupied_regOf]
    omega
  assigns p := by
    have href := regOf_distribute p d.eeprom
    cases hr : (register logicNos (regOf d.eeprom) p).1 with
    | some k =>
        obtain ⟨hk, hkp⟩ := register_holds hr
        rw [← href.1, regOf_eq_some] at hkp
        exact Or.inl ⟨k, hk, by rw [href.2, hr]; rfl, hkp.2.1, hkp.2.2⟩
    | none =>
        right
        refine ⟨by rw [href.2, hr]; rfl, ?_⟩
        rcases register_cases logicNos (regOf d.eeprom) p with ⟨i, _, hri⟩ | ⟨i, _, _, hri⟩ | hnone
        · simp [hri] at hr
        · simp [hri] at hr
        · simp [distributeLogicADD, findRegistered_eq, findFree_eq, hnone.1, hnone.2.1]
  full_iff p := by
    rw [distribute_full_iff, register_eq_none]
    refine forall₂_congr fun i hi => ?_
    rw [regOf_isSome hi, Ne, regOf_eq_some]
    exact and_congr_right fun hocc => not_congr ⟨fun hp => hp.2.2, fun hp => ⟨hi, hocc, hp⟩⟩
  stable p k hk hres later d' hrun hdel := by
    have href := regOf_distribute p d.eeprom
    have hheld : regOf (distributeLogicADD p d.eeprom).2 k = some p := by
      cases hr : (register logicNos (regOf d.eeprom) p).1 with
      | none => exact absurd (hres.symm.trans (distribute_full_iff.mpr hr)) (ofNat_ne_full hk)
      | some m =>
          obtain ⟨hm, hmp⟩ := register_holds hr
          rw [href.2, hr] at hres
          have hmk : m = k :=
            (ofNat_inj_of_le (mem_logicNos.mp hm).2 (mem_logicNos.mp hk).2).mp hres
          rw [href.1, ← hmk]
          exact hmp
    have hwell := Runs.invariant (I := fun d : Device => WellRegistered d.eeprom)
      wellRegistered_step (h.distribute p) hrun
    have hstill := Runs.invariant held_step (fun _ => hheld) hrun
    exact distribute_of_held hwell (hstill hdel)

/-- Registrations and power-up checks alone, from an empty table, keep the table
an injective, counted and stable map. -/
theorem registration_run_map {d₀ d : Device} {ops : List RegOp}
    (hfree : ∀ i ∈ logicNos, ¬ Occupied d₀.eeprom i)
    (hcount : at24cxxReadOneByte d₀.eeprom countADD = 0)
    (hrun : Runs.run regStep d₀ ops = some d) : RegistrationMap d :=
  registrationMap_of_wellRegistered
    (Runs.invariant (I := fun d : Device => WellRegistered d.eeprom) wellRegistered_step
      (wellRegistered_blank hfree hcount) hrun)

/-- The state after `Delete_allDat`. -/
def clearedDevice : Device :=
  ⟨fun _ => 0, fun _ => Vector.replicate 14 0, fun _ => 0, []⟩

theorem registration_run_map_cleared : ∃ d,
    Runs.run regStep clearedDevice
      [.distribute #v[1, 2, 3, 4], .distribute #v[5, 6, 7, 8], .powerUP fun _ _ => 1] = some d ∧
    RegistrationMap d := by
  refine ⟨_, rfl, registration_run_map ?_ ?_ (rfl : Runs.run regStep clearedDevice
    [.distribute #v[1, 2, 3, 4], .distribute #v[5, 6, 7, 8], .powerUP fun _ _ => 1] = some _)⟩
  · decide +kernel
  · decide +kernel

end YckjAcu
