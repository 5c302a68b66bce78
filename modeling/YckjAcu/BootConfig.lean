import YckjAcu.NonInterference

/-!
# The configuration at boot

`AT24CXX_Check` loads the configuration globals and then looks at the marker.
Without it the memory is cleared and the defaults are written, after the globals
were loaded.
-/

namespace YckjAcu

/-- The globals that `AT24CXX_Check` loads. -/
structure ConfigGlobals where
  fm1702Key : Vector UInt8 7
  g_lwipADD : Vector UInt8 4
  g_lwipPort : UInt16
  g_ACUSN : Vector UInt8 4
  g_ACUAdd : Vector UInt8 16
  g_Setip : Vector UInt8 5
  g_Setnetmask : Vector UInt8 4
  g_Setgateway : Vector UInt8 4
deriving DecidableEq

/-! `ucRFID_Key_Temp` and the other initial values. -/

def defaultKey : Vector UInt8 7 := #v[0xFF, 0xFF, 0xFF, 0xFF, 0xFF, 0xF1, 0x29]
def defaultIPAdd : Vector UInt8 4 := #v[123, 57, 150, 25]
def defaultPortAdd : UInt16 := 20000
def defaultACUSN : Vector UInt8 4 := #v[0x20, 0x20, 0x01, 0x02]
def defaultACUAdd : Vector UInt8 16 :=
  #v[0x31, 0x30, 0x30, 0x30, 0x30, 0x30, 0x30, 0x2D, 0x62, 0x37, 0x36, 0x31, 0x63, 0x32, 0x62, 0x30]

/-- The reads at the top of `AT24CXX_Check`. -/
def loadConfig (g : ConfigGlobals) (e : Eeprom) : ConfigGlobals :=
  let g := { g with
    fm1702Key := readRFIDKey e
    g_lwipADD := readIPAdd e
    g_lwipPort := readPortAdd e
    g_ACUSN := readACUSN e
    g_ACUAdd := readACUAdd e
    g_Setip := readLocalIP e }
  if g.g_Setip.get 0 = 0xAA then
    { g with g_Setnetmask := readNetmask e, g_Setgateway := readGateway e }
  else g

def eeType : ℕ := 1023

def deleteAllDat (e : Eeprom) : Eeprom :=
  (List.range (eeType + 1)).foldl (fun e i => at24cxxWriteOneByte i 0x00 e) e

/-- The memory after the first initialisation. -/
def writeDefaults (e : Eeprom) : Eeprom :=
  at24cxxWriteOneByte 255 0x55 (writeACUAdd defaultACUAdd (writeACUSN defaultACUSN
    (writePortAdd defaultPortAdd (writeIPAdd defaultIPAdd
      (writeRFIDKey defaultKey (deleteAllDat e))))))

/-- The returned byte, the globals and the memory. -/
def at24cxxCheck (g : ConfigGlobals) (e : Eeprom) : UInt8 × ConfigGlobals × Eeprom :=
  let g := loadConfig g e
  if at24cxxReadOneByte e 255 = 0x55 then (0, g, e)
  else
    let e := writeDefaults e
    if at24cxxReadOneByte e 255 = 0x55 then (0, g, e) else (1, g, e)

/-- Each global equals what its reader returns now. -/
structure ConfigGlobals.Agrees (g : ConfigGlobals) (e : Eeprom) : Prop where
  key : g.fm1702Key = readRFIDKey e
  ip : g.g_lwipADD = readIPAdd e
  port : g.g_lwipPort = readPortAdd e
  sn : g.g_ACUSN = readACUSN e
  acuAdd : g.g_ACUAdd = readACUAdd e
  localIP : g.g_Setip = readLocalIP e
  netmask : g.g_Setip.get 0 = 0xAA → g.g_Setnetmask = readNetmask e
  gateway : g.g_Setip.get 0 = 0xAA → g.g_Setgateway = readGateway e

/-- The memory already holds the defaults, and zeros as local address. -/
structure HoldsDefaults (e : Eeprom) : Prop where
  key : readRFIDKey e = defaultKey
  ip : readIPAdd e = defaultIPAdd
  port : readPortAdd e = defaultPortAdd
  sn : readACUSN e = defaultACUSN
  acuAdd : readACUAdd e = defaultACUAdd
  localIP : readLocalIP e = Vector.replicate 5 0

/-! ### Reading the memory after the initialisation -/

section WriteBlock

variable {n : ℕ} (e : Eeprom) (temp : ℕ) (v : Vector UInt8 n)

theorem read_writeBlock_self (htop : temp + n ≤ 1024) :
    at24cxxRead (writeBlock temp v e) temp n = v := by
  ext i hi
  rw [at24cxxRead_getElem, read_writeBlock e temp v htop hi]

theorem read_writeBlock_of_disjoint (htop : temp + n ≤ 1024) {b m : ℕ} (hb : b + m ≤ 1024)
    (h : b + m ≤ temp ∨ temp + n ≤ b) :
    at24cxxRead (writeBlock temp v e) b m = at24cxxRead e b m := by
  rw [at24cxxRead_eq_iff]
  intro i hi
  exact read_writeBlock_of_not_mem e temp v htop (by omega) (by omega)

theorem read_writeOneByte_of_disjoint (a : ℕ) (x : UInt8) (ha : a < 1024) {b m : ℕ}
    (hb : b + m ≤ 1024) (h : b + m ≤ a ∨ a < b) :
    at24cxxRead (at24cxxWriteOneByte a x e) b m = at24cxxRead e b m := by
  rw [at24cxxRead_eq_iff]
  intro i hi
  apply read_writeOneByte_of_ne
  omega

end WriteBlock

theorem read_clear (e : Eeprom) {n a : ℕ} (hn : n ≤ 1024) (ha : a < 1024) :
    at24cxxReadOneByte ((List.range n).foldl (fun e i => at24cxxWriteOneByte i 0x00 e) e) a =
      if a < n then 0x00 else at24cxxReadOneByte e a := by
  induction n with
  | zero => rfl
  | succ n ih =>
      rw [List.range_succ, List.foldl_append, List.foldl_cons, List.foldl_nil]
      by_cases han : a = n
      · rw [han, read_writeOneByte_self, if_pos (Nat.lt_succ_self n)]
      · rw [read_writeOneByte_of_ne _ _ (by omega), ih (by omega)]
        split_ifs <;> first | rfl | omega

theorem read_deleteAllDat (e : Eeprom) {b m : ℕ} (hb : b + m ≤ 1024) :
    at24cxxRead (deleteAllDat e) b m = Vector.replicate m 0 := by
  ext i hi
  have ha : b + i < 1024 := by omega
  rw [at24cxxRead_getElem, deleteAllDat, read_clear e (by decide) ha, eeType, if_pos ha]
  simp

/-- The initialisation leaves the defaults, and zeros elsewhere. -/
theorem holdsDefaults_writeDefaults (e : Eeprom) : HoldsDefaults (writeDefaults e) := by
  have hread : ∀ {b m} {v : Vector UInt8 m}, b + m ≤ 255 →
      at24cxxRead (writeBlock 210 defaultACUAdd (writeBlock 206 defaultACUSN
        (writeBlock 204 #v[(defaultPortAdd / 256).toUInt8, (defaultPortAdd % 256).toUInt8]
          (writeBlock 200 defaultIPAdd (writeBlock 230 defaultKey (deleteAllDat e)))))) b m = v →
      at24cxxRead (writeDefaults e) b m = v := by
    intro b m v hb hv
    rw [writeDefaults, read_writeOneByte_of_disjoint _ _ _ (by omega) (by omega) (by omega)]
    exact hv
  refine ⟨hread (by omega) ?_, hread (by omega) ?_,
    (readPortAdd_eq_iff _ _).mpr (hread (by omega) ?_), hread (by omega) ?_,
    hread (by omega) ?_, hread (by omega) ?_⟩
  · simp (disch := omega) only [read_writeBlock_of_disjoint, read_writeBlock_self]
  · simp (disch := omega) only [read_writeBlock_of_disjoint, read_writeBlock_self]
  · simp (disch := omega) only [read_writeBlock_of_disjoint, read_writeBlock_self]
  · simp (disch := omega) only [read_writeBlock_of_disjoint, read_writeBlock_self]
  · simp (disch := omega) only [read_writeBlock_self]
  · simp (disch := omega) only [read_writeBlock_of_disjoint, read_deleteAllDat]

/-! ### The globals -/

theorem loadConfig_agrees (g : ConfigGlobals) (e : Eeprom) : (loadConfig g e).Agrees e := by
  unfold loadConfig
  dsimp only
  split_ifs with h
  · exact ⟨rfl, rfl, rfl, rfl, rfl, rfl, fun _ => rfl, fun _ => rfl⟩
  · exact ⟨rfl, rfl, rfl, rfl, rfl, rfl, fun h' => absurd h' h, fun h' => absurd h' h⟩

theorem readMarker_writeDefaults (e : Eeprom) :
    at24cxxReadOneByte (writeDefaults e) 255 = 0x55 := by
  rw [writeDefaults, read_writeOneByte_self]

/-- The check succeeds at once, with the memory initialised if need be. -/
theorem at24cxxCheck_eq (g : ConfigGlobals) (e : Eeprom) :
    at24cxxCheck g e =
      (0, loadConfig g e, if readMarker e = 0x55 then e else writeDefaults e) := by
  unfold at24cxxCheck readMarker
  dsimp only
  rw [if_pos (readMarker_writeDefaults e)]
  split_ifs <;> rfl

/-- The globals of another memory agree with the initialised one exactly when that
memory held the defaults. -/
theorem loadConfig_agrees_writeDefaults_iff (g : ConfigGlobals) (e : Eeprom) :
    (loadConfig g e).Agrees (writeDefaults e) ↔ HoldsDefaults e := by
  have hload := loadConfig_agrees g e
  have hdefaults := holdsDefaults_writeDefaults e
  constructor
  · intro h
    exact ⟨hload.key.symm.trans (h.key.trans hdefaults.key),
      hload.ip.symm.trans (h.ip.trans hdefaults.ip),
      hload.port.symm.trans (h.port.trans hdefaults.port),
      hload.sn.symm.trans (h.sn.trans hdefaults.sn),
      hload.acuAdd.symm.trans (h.acuAdd.trans hdefaults.acuAdd),
      hload.localIP.symm.trans (h.localIP.trans hdefaults.localIP)⟩
  · intro h
    have hflag : (loadConfig g e).g_Setip.get 0 ≠ 0xAA := by
      rw [hload.localIP, h.localIP]
      decide
    exact ⟨hload.key.trans (h.key.trans hdefaults.key.symm),
      hload.ip.trans (h.ip.trans hdefaults.ip.symm),
      hload.port.trans (h.port.trans hdefaults.port.symm),
      hload.sn.trans (h.sn.trans hdefaults.sn.symm),
      hload.acuAdd.trans (h.acuAdd.trans hdefaults.acuAdd.symm),
      hload.localIP.trans (h.localIP.trans hdefaults.localIP.symm),
      fun h' => absurd h' hflag, fun h' => absurd h' hflag⟩

/-- The check returns 0, with globals that agree with the memory exactly when the
marker was there or the memory held what the initialisation writes. -/
theorem bootConfig_agrees_iff (g : ConfigGlobals) (e : Eeprom) :
    (at24cxxCheck g e).1 = 0 ∧ ((at24cxxCheck g e).2.1.Agrees (at24cxxCheck g e).2.2 ↔
      readMarker e = 0x55 ∨ HoldsDefaults e) := by
  rw [at24cxxCheck_eq]
  refine ⟨rfl, ?_⟩
  dsimp only
  split_ifs with hmarker
  · exact iff_of_true (loadConfig_agrees g e) (Or.inl hmarker)
  · rw [loadConfig_agrees_writeDefaults_iff]
    exact ⟨Or.inr, fun h => h.resolve_left hmarker⟩

/-- After a restart the globals agree in any case. -/
theorem second_boot_agrees (g g' : ConfigGlobals) (e : Eeprom) :
    let e' := (at24cxxCheck g e).2.2
    (at24cxxCheck g' e').2.1.Agrees (at24cxxCheck g' e').2.2 := by
  dsimp only
  have hmarker : readMarker (at24cxxCheck g e).2.2 = 0x55 := by
    rw [at24cxxCheck_eq]
    dsimp only
    split_ifs with h
    · exact h
    · exact readMarker_writeDefaults e
  rw [at24cxxCheck_eq, if_pos hmarker]
  exact loadConfig_agrees _ _

/-- With a factory-fresh memory the first boot works with `FF` in every global. -/
theorem fresh_memory_disagrees :
    ¬ ∀ (g : ConfigGlobals) (e : Eeprom), (at24cxxCheck g e).1 = 0 →
      (at24cxxCheck g e).2.1.Agrees (at24cxxCheck g e).2.2 := by
  intro h
  let g : ConfigGlobals := ⟨Vector.replicate 7 0, Vector.replicate 4 0, 0, Vector.replicate 4 0,
    Vector.replicate 16 0, Vector.replicate 5 0, Vector.replicate 4 0, Vector.replicate 4 0⟩
  have hagrees := h g (fun _ => 0xFF)
  rw [at24cxxCheck_eq, if_neg (by decide : readMarker (fun _ => 0xFF) ≠ 0x55)] at hagrees
  have hdefaults := (loadConfig_agrees_writeDefaults_iff g (fun _ => 0xFF)).mp (hagrees rfl)
  exact absurd hdefaults.ip (by decide)

end YckjAcu
