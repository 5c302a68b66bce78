import YckjAcu.PowerUp

/-!
# The registration loop at boot

After the power-up check `led_task` listens for readers without a logic address.
It gives them one and stores their version, but unlike the check it enters them
neither in their row nor in the counter: they are polled after the next restart.
-/

namespace YckjAcu

open SlotTable

/-- The device, the bus and the local variable `PhysicalADD`. -/
structure BootState where
  device : Device
  can : CanBus
  physicalADD : PhysicalNo

namespace BootState

/-- The part of the loop for an announced address. -/
def register (s : BootState) : Option BootState :=
  let (u8Temp, eeprom) := distributeLogicADD s.physicalADD s.device.eeprom
  let s := { s with device.eeprom := eeprom }
  if u8Temp.toNat ≤ busnumSize + 1 then
    (canWriteLogitADD u8Temp s.physicalADD s.can).map fun (ver, can) =>
      { s with
        device.kjVersions := Function.update s.device.kjVersions u8Temp.toNat ver
        can := can }
  else some s

/-- `Can_ReadUnregistered(PhysicalADD)`, after the frames `rx` have come. -/
def announcement (rx : List (Option CanRxMsg)) (s : BootState) : UInt8 × BootState :=
  let (ret, physicalADD, can) :=
    canReadUnregistered s.physicalADD { s.can with rx := s.can.rx ++ rx }
  (ret, { s with physicalADD := physicalADD, can := can })

end BootState

/-- One round of `while(ucCount)`. -/
def registrationRound (rx : List (Option CanRxMsg)) (s : BootState) : Option BootState :=
  let (ret, s) := s.announcement rx
  if ret ≠ 0x00 then s.register else some s

/-- The state in which the loop is entered. -/
def bootStart (hs : Handshakes) (e : Eeprom) : BootState where
  device := powerUPLogitADDCheck hs (powerOn e)
  can := ⟨[], []⟩
  physicalADD := Vector.replicate 4 0

/-- The round accepts an announcement of `p`, gets slot `k` for it, and its
handshake returns the version `ver`. -/
structure Accepted (rx : List (Option CanRxMsg)) (s : BootState) (k : ℕ) (p : PhysicalNo)
    (ver : UInt8) : Prop where
  announced : (s.announcement rx).1 ≠ 0x00
  address : (s.announcement rx).2.physicalADD = p
  slot : k ∈ logicNos
  distributed : (distributeLogicADD p s.device.eeprom).1 = UInt8.ofNat k
  handshake : ∃ can, canWriteLogitADD (UInt8.ofNat k) p (s.announcement rx).2.can = some (ver, can)
  version : ver ≠ 0x00

/-- Reader `k` is in the tables as `PowerUPLogitADDCheck` enters it. -/
structure ReaderEntered (k : ℕ) (p : PhysicalNo) (ver : UInt8) (d : Device) : Prop where
  inUse : (d.g_RUNDate k).InUse
  serial : (d.g_RUNDate k).serial = p
  version : d.kjVersions k = ver
  counted : ((d.g_RUNDate 0).get 0).toNat = logicNos.countP fun i => (d.g_RUNDate i).InUse

/-! ### The power-up check -/

section PowerUp

variable {hs : Handshakes} {e : Eeprom} {k : ℕ} {p : PhysicalNo}

theorem inUse_powerUP_iff {i : ℕ} (hi : i ∈ logicNos) :
    ((powerUPLogitADDCheck hs (powerOn e)).g_RUNDate i).InUse ↔
      Occupied (powerUPLogitADDCheck hs (powerOn e)).eeprom i := by
  have hent := entered_powerUP hs e
  generalize powerUPLogitADDCheck hs (powerOn e) = d at hent ⊢
  rw [← regOf_isSome hi]
  cases hreg : regOf d.eeprom i with
  | none =>
      have hfree := (hent.free i hi (Or.inr hreg)).1
      simp [Row.InUse, hfree]
  | some q =>
      have htaken := (hent.taken i (List.mem_reverse.mpr hi) q hreg).1
      simp [Row.InUse, htaken]

theorem inUse_counted : (((powerUPLogitADDCheck hs (powerOn e)).g_RUNDate 0).get 0).toNat =
    logicNos.countP fun i => ((powerUPLogitADDCheck hs (powerOn e)).g_RUNDate i).InUse := by
  rw [(entered_powerUP hs e).count_toNat]
  apply List.countP_congr
  intro i hi
  simp [inUse_powerUP_iff hi]

theorem readerEntered_powerUP (hp : regOf e k = some p) (ha : accepts hs k p = true) :
    ReaderEntered k p (versionOf hs k) (powerUPLogitADDCheck hs (powerOn e)) := by
  have hk := (regOf_eq_some.mp hp).1
  have hreg : regOf (powerUPLogitADDCheck hs (powerOn e)).eeprom k = some p := by
    rw [regOf_powerUP, retain_eq_some]
    exact ⟨hp, ha⟩
  obtain ⟨-, hserial, hver⟩ := (entered_powerUP hs e).taken k (List.mem_reverse.mpr hk) p hreg
  exact ⟨(inUse_powerUP_iff hk).mpr (regOf_eq_some.mp hreg).2.1, hserial, hver, inUse_counted⟩

end PowerUp

/-! ### The rounds -/

theorem registrationRound_rows {rx : List (Option CanRxMsg)} {s t : BootState}
    (h : registrationRound rx s = some t) : t.device.g_RUNDate = s.device.g_RUNDate := by
  unfold registrationRound at h
  dsimp only at h
  split_ifs at h
  · unfold BootState.register at h
    dsimp only at h
    split_ifs at h
    · obtain ⟨r, -, rfl⟩ := Option.map_eq_some_iff.mp h
      rfl
    · cases h
      rfl
  · cases h
    rfl

/-- An accepted announcement is stored in `KJ_Versions`. -/
theorem Accepted.version_stored {rx : List (Option CanRxMsg)} {s t : BootState} {k : ℕ}
    {p : PhysicalNo} {ver : UInt8} (ha : Accepted rx s k p ver)
    (h : registrationRound rx s = some t) : t.device.kjVersions k = ver := by
  obtain ⟨can, hcan⟩ := ha.handshake
  have hk := mem_logicNos.mp ha.slot
  have hto := toNat_logicNo ha.slot
  have hle : (UInt8.ofNat k).toNat ≤ busnumSize + 1 := by
    rw [hto, busnumSize]
    omega
  have hdist : (distributeLogicADD (s.announcement rx).2.physicalADD
      (s.announcement rx).2.device.eeprom).1 = UInt8.ofNat k := by
    rw [ha.address]
    exact ha.distributed
  have hreg : (s.announcement rx).2.register = some t := by
    rw [← h]
    exact (if_pos ha.announced).symm
  unfold BootState.register at hreg
  dsimp only at hreg
  rw [hdist, if_pos hle, ha.address, hcan, Option.map_some] at hreg
  cases hreg
  simp [hto]

/-- An accepted announcement leaves the reader entered exactly when the power-up
check had entered it already, under the same address. -/
theorem accepted_entered_iff {hs : Handshakes} {e : Eeprom} {rxs : List (List (Option CanRxMsg))}
    {rx : List (Option CanRxMsg)} {s t : BootState} {k : ℕ} {p : PhysicalNo} {ver : UInt8}
    (hrun : Runs.run registrationRound (bootStart hs e) rxs = some s)
    (ha : Accepted rx s k p ver) (hround : registrationRound rx s = some t) :
    ReaderEntered k p ver t.device ↔ regOf e k = some p ∧ accepts hs k p = true := by
  have hrows : s.device.g_RUNDate = (bootStart hs e).device.g_RUNDate :=
    Runs.invariant
      (I := fun u : BootState => u.device.g_RUNDate = (bootStart hs e).device.g_RUNDate)
      (fun _ _ _ hu hstep => (registrationRound_rows hstep).trans hu) rfl hrun
  have hrows' : t.device.g_RUNDate = (powerUPLogitADDCheck hs (powerOn e)).g_RUNDate :=
    (registrationRound_rows hround).trans hrows
  have hver := ha.version_stored hround
  constructor
  · intro h
    have huse := h.inUse
    rw [hrows', inUse_powerUP_iff ha.slot, ← regOf_isSome ha.slot] at huse
    obtain ⟨q, hq⟩ := Option.isSome_iff_exists.mp huse
    have htaken := (entered_powerUP hs e).taken k (List.mem_reverse.mpr ha.slot) q hq
    have hpq : q = p := by
      rw [← htaken.2.1, ← h.serial, hrows']
    rw [hpq, regOf_powerUP, retain_eq_some] at hq
    exact hq
  · rintro ⟨hp, hacc⟩
    have hent := readerEntered_powerUP hp hacc
    refine ⟨?_, ?_, hver, ?_⟩
    · rw [hrows']
      exact hent.inUse
    · rw [hrows']
      exact hent.serial
    · rw [hrows']
      exact hent.counted

/-! ### A new reader -/

/-- The announcement of `01 02 03 04`, and its answer to logic address 1 with
version 7. -/
def newReaderTraffic : List (Option CanRxMsg) :=
  [some ⟨#v[0xB3, 1, 2, 3, 4, crc8Table [1, 2, 3, 4], 0, 0], 8⟩,
    some ⟨#v[0xC2, 1, 2, 3, 4, 1, 7, 0], 8⟩]

def newReaderStart : BootState := bootStart (fun _ _ => 1) fun _ => 0

theorem accepted_newReader : Accepted newReaderTraffic newReaderStart 1 #v[1, 2, 3, 4] 7 := by
  refine ⟨by decide +kernel, by decide +kernel, by simp, by decide +kernel, ?_, by decide⟩
  have hdef : ((canWriteLogitADD (UInt8.ofNat 1) #v[1, 2, 3, 4]
      (newReaderStart.announcement newReaderTraffic).2.can).map Prod.fst) = some 7 := by
    decide +kernel
  obtain ⟨r, hr, hr7⟩ := Option.map_eq_some_iff.mp hdef
  obtain ⟨ver, can⟩ := r
  cases hr7
  exact ⟨can, hr⟩

theorem accepted_entered_iff_newReader :
    ∃ t, registrationRound newReaderTraffic newReaderStart = some t ∧
    (ReaderEntered 1 #v[1, 2, 3, 4] 7 t.device ↔
      regOf (fun _ => 0) 1 = some #v[1, 2, 3, 4] ∧
        accepts (fun _ _ => 1) 1 #v[1, 2, 3, 4] = true) := by
  have hdef : (registrationRound newReaderTraffic newReaderStart).isSome := by decide +kernel
  obtain ⟨t, ht⟩ := Option.isSome_iff_exists.mp hdef
  have hrun : Runs.run registrationRound (bootStart (fun _ _ => 1) fun _ => 0) [] =
      some newReaderStart := rfl
  exact ⟨t, ht, accepted_entered_iff hrun accepted_newReader ht⟩

/-- The first reader that announces itself to an empty memory gets logic address 1
and answers, and its row stays out of use. -/
theorem new_reader_not_entered : Accepted newReaderTraffic newReaderStart 1 #v[1, 2, 3, 4] 7 ∧
    ∃ t, registrationRound newReaderTraffic newReaderStart = some t ∧
      ¬ ReaderEntered 1 #v[1, 2, 3, 4] 7 t.device := by
  have hdef : (registrationRound newReaderTraffic newReaderStart).isSome := by decide +kernel
  obtain ⟨t, ht⟩ := Option.isSome_iff_exists.mp hdef
  refine ⟨accepted_newReader, t, ht, ?_⟩
  intro h
  have huse := h.inUse
  rw [registrationRound_rows ht] at huse
  have hidle : ¬ (newReaderStart.device.g_RUNDate 1).InUse := by decide +kernel
  exact hidle huse

end YckjAcu
