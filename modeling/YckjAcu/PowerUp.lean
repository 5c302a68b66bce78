import YckjAcu.CardEvents

/-!
# What the power-up check leaves

`PowerUPLogitADDCheck` tries the handshake with the reader of every occupied
slot, deletes the slots that fail and enters the others in the tables.  Read
through `regOf` it is a sweep over the registration table.
-/

namespace YckjAcu

open SlotTable

/-- The version that the check stores for slot `i`: the second result counts when
the first is 0. -/
def versionOf (hs : Handshakes) (i : ℕ) : UInt8 :=
  if hs i false ≠ 0 then hs i false else hs i true

/-- The address is not all zero and one of the two handshakes succeeds. -/
def accepts (hs : Handshakes) (i : ℕ) (p : PhysicalNo) : Bool :=
  p ≠ Vector.replicate 4 0 ∧ versionOf hs i ≠ 0

theorem accepts_iff {hs : Handshakes} {i : ℕ} {p : PhysicalNo} :
    accepts hs i p = true ↔ p ≠ Vector.replicate 4 0 ∧ versionOf hs i ≠ 0 := by
  simp [accepts]

theorem physical_zero_iff (p : PhysicalNo) :
    (p.get 0 = 0 ∧ p.get 1 = 0 ∧ p.get 2 = 0 ∧ p.get 3 = 0) ↔ p = Vector.replicate 4 0 := by
  constructor
  · rintro ⟨h0, h1, h2, h3⟩
    apply Buffers.ext_get
    intro k
    fin_cases k
    · simpa using h0
    · simpa using h1
    · simpa using h2
    · simpa using h3
  · rintro rfl
    simp

/-! ### One slot -/

/-- The state after the deletion of slot `i`, with its version cleared. -/
def dropReader (i : ℕ) (d : Device) : Device :=
  { (deleteLogicADD (UInt8.ofNat i) d).2 with kjVersions := Function.update d.kjVersions i 0 }

theorem powerUPSlot_eq (hs : Handshakes) (d : Device) (i : ℕ) :
    powerUPSlot hs d i =
      if Occupied d.eeprom i then
        if accepts hs i (physicalOf d.eeprom i) then
          enterReader i (physicalOf d.eeprom i) (versionOf hs i) d
        else dropReader i d
      else d := by
  have hzero := physical_zero_iff (physicalOf d.eeprom i)
  have hbody : powerUPSlot hs d i =
      if Occupied d.eeprom i then
        if (physicalOf d.eeprom i).get 0 = 0 ∧ (physicalOf d.eeprom i).get 1 = 0 ∧
            (physicalOf d.eeprom i).get 2 = 0 ∧ (physicalOf d.eeprom i).get 3 = 0 then
          dropReader i d
        else if hs i false ≠ 0 then enterReader i (physicalOf d.eeprom i) (hs i false) d
        else if hs i true ≠ 0 then enterReader i (physicalOf d.eeprom i) (hs i true) d
        else dropReader i d
      else d := rfl
  simp only [hbody, hzero]
  by_cases hp : physicalOf d.eeprom i = Vector.replicate 4 0
  · simp [accepts, hp]
  · by_cases h1 : hs i false = 0
    · by_cases h2 : hs i true = 0 <;> simp [accepts, versionOf, hp, h1, h2]
    · simp [accepts, versionOf, hp, h1]

theorem regOf_powerUPSlot (hs : Handshakes) (d : Device) {i : ℕ} (hi : i ∈ logicNos) :
    regOf (powerUPSlot hs d i).eeprom = sweepSlot (accepts hs) (regOf d.eeprom) i := by
  rw [powerUPSlot_eq, sweepSlot]
  by_cases hocc : Occupied d.eeprom i
  · have hsome : regOf d.eeprom i = some (physicalOf d.eeprom i) :=
      regOf_eq_some.mpr ⟨hi, hocc, rfl⟩
    rw [if_pos hocc, hsome]
    by_cases ha : accepts hs i (physicalOf d.eeprom i) = true
    · rw [if_pos ha, Option.filter_some, if_pos ha, ← hsome, Function.update_eq_self]
      rfl
    · rw [if_neg ha, Option.filter_some, if_neg ha]
      exact regOf_delete hi d
  · have hnone : regOf d.eeprom i = none := by simp [regOf, hocc]
    rw [if_neg hocc, hnone, Option.filter_none, ← hnone, Function.update_eq_self]

/-- A property of the slots checked so far and the state, from the start of the
check to its end. -/
theorem powerUP_induction {P : List ℕ → Device → Prop} (hs : Handshakes)
    (hstep : ∀ done d i, i ∈ logicNos → i ∉ done → P done d → P (i :: done) (powerUPSlot hs d i))
    {d : Device} (h : P [] d) : P logicNos.reverse (powerUPLogitADDCheck hs d) := by
  have hfold : ∀ (todo done : List ℕ) (d : Device), (∀ i ∈ todo, i ∈ logicNos) → todo.Nodup →
      (∀ i ∈ todo, i ∉ done) → P done d →
      P (todo.reverse ++ done) (todo.foldl (powerUPSlot hs) d) := by
    intro todo
    induction todo with
    | nil => exact fun _ _ _ _ _ hd => hd
    | cons i todo ih =>
        intro done d hmem hnodup hnew hd
        obtain ⟨hni, hrest⟩ := List.nodup_cons.mp hnodup
        rw [List.foldl_cons, List.reverse_cons, List.append_assoc]
        apply ih _ _ (fun j hj => hmem j (List.mem_cons_of_mem i hj)) hrest
        · intro j hj hdone
          rcases List.mem_cons.mp hdone with rfl | hdone
          · exact hni hj
          · exact hnew j (List.mem_cons_of_mem i hj) hdone
        · exact hstep done d i (hmem i List.mem_cons_self) (hnew i List.mem_cons_self) hd
  have hall := hfold logicNos [] d (fun _ hi => hi) logicNos_nodup (by simp) h
  rwa [List.append_nil] at hall

/-- The whole check keeps the slots that pass and deletes the others. -/
theorem regOf_powerUP (hs : Handshakes) (d : Device) :
    regOf (powerUPLogitADDCheck hs d).eeprom = retain (accepts hs) (regOf d.eeprom) := by
  have hfold : ∀ (slots : List ℕ) (d : Device), (∀ i ∈ slots, i ∈ logicNos) →
      regOf (slots.foldl (powerUPSlot hs) d).eeprom =
        slots.foldl (sweepSlot (accepts hs)) (regOf d.eeprom) := by
    intro slots
    induction slots with
    | nil => exact fun _ _ => rfl
    | cons i slots ih =>
        intro d hmem
        rw [List.foldl_cons, List.foldl_cons, ih _ fun j hj => hmem j (List.mem_cons_of_mem i hj),
          regOf_powerUPSlot hs d (hmem i List.mem_cons_self)]
  have hall : regOf (powerUPLogitADDCheck hs d).eeprom =
      logicNos.foldl (sweepSlot (accepts hs)) (regOf d.eeprom) := hfold logicNos d fun _ hi => hi
  rw [hall]
  funext i
  rw [foldl_sweepSlot logicNos_nodup]
  split_ifs with hi
  · rfl
  · simp [retain, regOf, hi]

/-! ### The tables -/

/-- The tables describe the slots that were checked, and nothing else is entered. -/
structure Entered (hs : Handshakes) (done : List ℕ) (d : Device) : Prop where
  taken : ∀ i ∈ done, ∀ p, regOf d.eeprom i = some p →
    (d.g_RUNDate i).get 0 = 0x80 ∧ (d.g_RUNDate i).serial = p ∧ d.kjVersions i = versionOf hs i
  free : ∀ i ∈ logicNos, i ∉ done ∨ regOf d.eeprom i = none →
    (d.g_RUNDate i).get 0 = 0 ∧ d.kjVersions i = 0
  counted : (d.g_RUNDate 0).get 0 = UInt8.ofNat (occupied done (regOf d.eeprom))

theorem serial_registeredRow (p : PhysicalNo) (r : Row) : (registeredRow p r).serial = p := by
  apply Buffers.ext_get
  intro k
  fin_cases k
  all_goals simp [Row.serial, registeredRow, Buffers.get_setIfInBounds_of_ne]
  · exact Buffers.get_setIfInBounds_self _ 1 _
  · exact Buffers.get_setIfInBounds_self _ 2 _
  · exact Buffers.get_setIfInBounds_self _ 3 _
  · exact Buffers.get_setIfInBounds_self _ 4 _

theorem status_registeredRow (p : PhysicalNo) (r : Row) : (registeredRow p r).get 0 = 0x80 := by
  simp [registeredRow]

theorem toNat_logicNo {i : ℕ} (hi : i ∈ logicNos) : (UInt8.ofNat i).toNat = i := by
  have := mem_logicNos.mp hi
  rw [UInt8.toNat_ofNat']
  omega

section Step

variable {hs : Handshakes} {done : List ℕ} {d : Device} {i : ℕ}

theorem Entered.enter (h : Entered hs done d) (hi : i ∈ logicNos) (hnew : i ∉ done)
    (hocc : Occupied d.eeprom i) :
    Entered hs (i :: done) (enterReader i (physicalOf d.eeprom i) (versionOf hs i) d) := by
  have hi0 : i ≠ 0 := by
    have := mem_logicNos.mp hi
    omega
  have hsome : regOf d.eeprom i = some (physicalOf d.eeprom i) := regOf_eq_some.mpr ⟨hi, hocc, rfl⟩
  have hother : ∀ j, j ≠ i → j ≠ 0 →
      (enterReader i (physicalOf d.eeprom i) (versionOf hs i) d).g_RUNDate j = d.g_RUNDate j ∧
      (enterReader i (physicalOf d.eeprom i) (versionOf hs i) d).kjVersions j = d.kjVersions j := by
    intro j hji hj0
    simp [enterReader, hji, d.g_RUNDate.setStatus_of_ne _ hj0]
  refine ⟨?_, ?_, ?_⟩
  · intro j hj p hp
    by_cases hji : j = i
    · subst hji
      have hpe : physicalOf d.eeprom j = p := Option.some.inj (hsome.symm.trans hp)
      simp [enterReader, status_registeredRow, serial_registeredRow, hpe]
    · have hjd : j ∈ done := (List.mem_cons.mp hj).resolve_left hji
      have hj0 : j ≠ 0 := by
        have := mem_logicNos.mp (regOf_eq_some.mp hp).1
        omega
      rw [(hother j hji hj0).1, (hother j hji hj0).2]
      exact h.taken j hjd p hp
  · intro j hj hfree
    have hji : j ≠ i := by
      rintro rfl
      rcases hfree with hfree | hfree
      · exact hfree List.mem_cons_self
      · exact Option.some_ne_none _ (hsome.symm.trans hfree)
    have hj0 : j ≠ 0 := by
      have := mem_logicNos.mp hj
      omega
    rw [(hother j hji hj0).1, (hother j hji hj0).2]
    exact h.free j hj (hfree.imp_left fun hn hd => hn (List.mem_cons_of_mem i hd))
  · have hcount : ((enterReader i (physicalOf d.eeprom i) (versionOf hs i) d).g_RUNDate 0).get 0 =
        (d.g_RUNDate 0).get 0 + 1 := by
      simp [enterReader, Ne.symm hi0]
    rw [hcount, h.counted, occupied_cons]
    simp [enterReader, hsome]

theorem Entered.drop (h : Entered hs done d) (hi : i ∈ logicNos) (hnew : i ∉ done) :
    Entered hs (i :: done) (dropReader i d) := by
  have hreg : regOf (dropReader i d).eeprom = release (regOf d.eeprom) i := regOf_delete hi d
  have hrow : (dropReader i d).g_RUNDate = d.g_RUNDate.setStatus i 0 := by
    simp [dropReader, deleteLogicADD, toNat_logicNo hi]
  have hi0 : i ≠ 0 := by
    have := mem_logicNos.mp hi
    omega
  refine ⟨?_, ?_, ?_⟩
  · intro j hj p hp
    have hji : j ≠ i := by
      rintro rfl
      simp [hreg, release] at hp
    have hjd : j ∈ done := (List.mem_cons.mp hj).resolve_left hji
    rw [hreg, release, Function.update_of_ne hji] at hp
    have hver : (dropReader i d).kjVersions j = d.kjVersions j := Function.update_of_ne hji _ _
    rw [hrow, d.g_RUNDate.setStatus_of_ne _ hji, hver]
    exact h.taken j hjd p hp
  · intro j hj hfree
    by_cases hji : j = i
    · subst hji
      rw [hrow]
      simp [dropReader]
    · have hver : (dropReader i d).kjVersions j = d.kjVersions j := Function.update_of_ne hji _ _
      rw [hrow, d.g_RUNDate.setStatus_of_ne _ hji, hver]
      apply h.free j hj
      rw [hreg, release, Function.update_of_ne hji] at hfree
      exact hfree.imp_left fun hn hd => hn (List.mem_cons_of_mem i hd)
  · rw [hrow, d.g_RUNDate.setStatus_of_ne _ hi0.symm, h.counted, hreg, occupied_cons, release,
      occupied_update_of_notMem hnew]
    simp

theorem Entered.skip (h : Entered hs done d) (hi : i ∈ logicNos) (hnew : i ∉ done)
    (hocc : ¬ Occupied d.eeprom i) : Entered hs (i :: done) d := by
  have hnone : regOf d.eeprom i = none := by simp [regOf, hocc]
  refine ⟨?_, ?_, ?_⟩
  · intro j hj p hp
    have hji : j ≠ i := by
      rintro rfl
      exact Option.some_ne_none _ (hp.symm.trans hnone)
    exact h.taken j ((List.mem_cons.mp hj).resolve_left hji) p hp
  · intro j hj hfree
    exact h.free j hj (hfree.imp_left fun hn hd => hn (List.mem_cons_of_mem i hd))
  · rw [h.counted, occupied_cons, hnone]
    simp

theorem Entered.powerUPSlot (h : Entered hs done d) (hi : i ∈ logicNos) (hnew : i ∉ done) :
    Entered hs (i :: done) (powerUPSlot hs d i) := by
  rw [powerUPSlot_eq]
  split_ifs with hocc ha
  · exact h.enter hi hnew hocc
  · exact h.drop hi hnew
  · exact h.skip hi hnew hocc

end Step

theorem entered_powerOn (hs : Handshakes) (e : Eeprom) : Entered hs [] (powerOn e) := by
  refine ⟨by simp, ?_, ?_⟩
  · intro i _ _
    simp [powerOn]
  · simp [powerOn, occupied]

theorem entered_powerUP (hs : Handshakes) (e : Eeprom) :
    Entered hs logicNos.reverse (powerUPLogitADDCheck hs (powerOn e)) :=
  powerUP_induction hs (fun _ _ _ hi hnew h => h.powerUPSlot hi hnew) (entered_powerOn hs e)

theorem Entered.count_toNat {hs : Handshakes} {d : Device} (h : Entered hs logicNos.reverse d) :
    ((d.g_RUNDate 0).get 0).toNat = logicNos.countP fun i => Occupied d.eeprom i := by
  have hle : occupied logicNos (regOf d.eeprom) ≤ logicNos.length := occupied_le_length
  rw [logicNos_length] at hle
  have hperm : occupied logicNos.reverse (regOf d.eeprom) = occupied logicNos (regOf d.eeprom) := by
    simp [occupied]
  rw [h.counted, hperm, UInt8.toNat_ofNat', ← occupied_regOf]
  omega

/-- Memory, rows and versions name the same readers: those of the memory image `e`
at power-up that are still there. -/
structure TablesAgree (e : Eeprom) (d : Device) : Prop where
  row_iff : ∀ i ∈ logicNos, Occupied d.eeprom i ↔ (d.g_RUNDate i).get 0 = 0x80
  version_iff : ∀ i ∈ logicNos, Occupied d.eeprom i ↔ d.kjVersions i ≠ 0
  serial : ∀ i ∈ logicNos, Occupied d.eeprom i →
    (d.g_RUNDate i).serial = physicalOf d.eeprom i ∧ physicalOf d.eeprom i ≠ Vector.replicate 4 0
  before : ∀ i ∈ logicNos, Occupied d.eeprom i → Occupied e i
  counted : ((d.g_RUNDate 0).get 0).toNat = logicNos.countP fun i => Occupied d.eeprom i

/-- After the power-up check the tables agree with the memory, whatever the memory
held and whatever the handshakes returned. -/
theorem powerUP_tablesAgree (hs : Handshakes) (e : Eeprom) :
    TablesAgree e (powerUPLogitADDCheck hs (powerOn e)) := by
  have hreg := regOf_powerUP hs (powerOn e)
  have hent := entered_powerUP hs e
  generalize powerUPLogitADDCheck hs (powerOn e) = d at hreg hent
  have hkept : ∀ i ∈ logicNos, Occupied d.eeprom i →
      Occupied e i ∧ accepts hs i (physicalOf d.eeprom i) = true ∧
        (d.g_RUNDate i).get 0 = 0x80 ∧ (d.g_RUNDate i).serial = physicalOf d.eeprom i ∧
          d.kjVersions i = versionOf hs i := by
    intro i hi hocc
    have hsome : regOf d.eeprom i = some (physicalOf d.eeprom i) :=
      regOf_eq_some.mpr ⟨hi, hocc, rfl⟩
    have htaken := hent.taken i (List.mem_reverse.mpr hi) _ hsome
    rw [hreg, retain_eq_some] at hsome
    exact ⟨(regOf_eq_some.mp hsome.1).2.1, hsome.2, htaken⟩
  have hgone : ∀ i ∈ logicNos, ¬ Occupied d.eeprom i →
      (d.g_RUNDate i).get 0 = 0 ∧ d.kjVersions i = 0 := by
    intro i hi hocc
    exact hent.free i hi (Or.inr (by simp [regOf, hocc]))
  refine ⟨?_, ?_, ?_, ?_, ?_⟩
  · intro i hi
    constructor
    · intro hocc
      exact (hkept i hi hocc).2.2.1
    · intro hrow
      by_contra hocc
      rw [(hgone i hi hocc).1] at hrow
      exact absurd hrow (by decide)
  · intro i hi
    constructor
    · intro hocc
      obtain ⟨-, ha, -, -, hver⟩ := hkept i hi hocc
      rw [hver]
      exact (accepts_iff.mp ha).2
    · intro hver
      by_contra hocc
      exact hver (hgone i hi hocc).2
  · intro i hi hocc
    obtain ⟨-, ha, -, hserial, -⟩ := hkept i hi hocc
    exact ⟨hserial, (accepts_iff.mp ha).1⟩
  · intro i hi hocc
    exact (hkept i hi hocc).1
  · exact hent.count_toNat

end YckjAcu
