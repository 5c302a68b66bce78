import YckjAcu.Eeprom

/-!
# The configuration regions

The accessors of `bsp_useadd.c` for the server address, the controller's
identity, the card key and the static network settings.  Each group is a block
of consecutive bytes at an address of its own.
-/

namespace YckjAcu

/-- A run of `AT24CXX_WriteOneByte(Temp+k, v[k])` for `k = 0, 1, ...`. -/
def writeBlock (temp : ℕ) {n : ℕ} (v : Vector UInt8 n) (e : Eeprom) : Eeprom :=
  at24cxxWrite temp v.toList e

def readRFIDKey (e : Eeprom) : Vector UInt8 7 := at24cxxRead e 230 0x07
def writeRFIDKey (rfidKeyTemp : Vector UInt8 7) : Eeprom → Eeprom := writeBlock 230 rfidKeyTemp

def readIPAdd (e : Eeprom) : Vector UInt8 4 := at24cxxRead e 200 0x04
def writeIPAdd (ipAddTemp : Vector UInt8 4) : Eeprom → Eeprom := writeBlock 200 ipAddTemp

/-- `(_uTemp[0]<<8)|_uTemp[1]`. -/
def readPortAdd (e : Eeprom) : UInt16 :=
  let uTemp : Vector UInt8 2 := at24cxxRead e 204 0x02
  ((uTemp.get 0).toUInt16 <<< 8) ||| (uTemp.get 1).toUInt16

def writePortAdd (portAddTemp : UInt16) : Eeprom → Eeprom :=
  writeBlock 204 #v[(portAddTemp / 256).toUInt8, (portAddTemp % 256).toUInt8]

def readACUSN (e : Eeprom) : Vector UInt8 4 := at24cxxRead e 206 0x04
def writeACUSN (acusnTemp : Vector UInt8 4) : Eeprom → Eeprom := writeBlock 206 acusnTemp

def readACUAdd (e : Eeprom) : Vector UInt8 16 := at24cxxRead e 210 16
def writeACUAdd (acuAddTemp : Vector UInt8 16) : Eeprom → Eeprom := writeBlock 210 acuAddTemp

def readLocalIP (e : Eeprom) : Vector UInt8 5 := at24cxxRead e 239 0x05
def writeLocalIP (temp : Vector UInt8 5) : Eeprom → Eeprom := writeBlock 239 temp

def readNetmask (e : Eeprom) : Vector UInt8 4 := at24cxxRead e 244 0x04
def writeNetmask (temp : Vector UInt8 4) : Eeprom → Eeprom := writeBlock 244 temp

def readGateway (e : Eeprom) : Vector UInt8 4 := at24cxxRead e 248 0x04
def writeGateway (temp : Vector UInt8 4) : Eeprom → Eeprom := writeBlock 248 temp

/-- The byte that `AT24CXX_Check` tests for `0x55`. -/
def readMarker (e : Eeprom) : UInt8 := at24cxxReadOneByte e 255

/-- Everything the configuration accessors can see. -/
structure ConfigView where
  ipAdd : Vector UInt8 4
  portAdd : UInt16
  acuSN : Vector UInt8 4
  acuAdd : Vector UInt8 16
  rfidKey : Vector UInt8 7
  localIP : Vector UInt8 5
  netmask : Vector UInt8 4
  gateway : Vector UInt8 4
  marker : UInt8
deriving DecidableEq

def configView (e : Eeprom) : ConfigView :=
  ⟨readIPAdd e, readPortAdd e, readACUSN e, readACUAdd e, readRFIDKey e, readLocalIP e,
    readNetmask e, readGateway e, readMarker e⟩

/-- The addresses that the accessors read: 200 to 225, 230 to 236, 239 to 251
and the marker. -/
def IsConfigAddr (a : ℕ) : Prop :=
  (200 ≤ a ∧ a ≤ 225) ∨ (230 ≤ a ∧ a ≤ 236) ∨ (239 ≤ a ∧ a ≤ 251) ∨ a = 255

theorem joinPort_toNat (a b : UInt8) :
    ((a.toUInt16 <<< 8) ||| b.toUInt16).toNat = a.toNat * 256 + b.toNat := by
  have ha := a.toNat_lt
  have hb := b.toNat_lt
  have h8 : UInt16.toNat 8 % 16 = 8 := rfl
  rw [UInt16.toNat_or, UInt16.toNat_shiftLeft]
  simp only [UInt8.toNat_toUInt16]
  rw [h8, Nat.mod_eq_of_lt (by rw [Nat.shiftLeft_eq]; omega),
    ← Nat.shiftLeft_add_eq_or_of_lt (by omega), Nat.shiftLeft_eq]

theorem joinPort_inj {a b c d : UInt8} :
    (a.toUInt16 <<< 8) ||| b.toUInt16 = (c.toUInt16 <<< 8) ||| d.toUInt16 ↔ a = c ∧ b = d := by
  constructor
  · intro h
    have hnat := congrArg UInt16.toNat h
    have hb := b.toNat_lt
    have hd := d.toNat_lt
    rw [joinPort_toNat, joinPort_toNat] at hnat
    exact ⟨UInt8.toNat_inj.mp (by omega), UInt8.toNat_inj.mp (by omega)⟩
  · rintro ⟨rfl, rfl⟩
    rfl

theorem joinPort_split (port : UInt16) :
    ((port / 256).toUInt8.toUInt16 <<< 8) ||| (port % 256).toUInt8.toUInt16 = port := by
  have hport := port.toNat_lt
  apply UInt16.toNat_inj.mp
  rw [joinPort_toNat]
  simp only [UInt16.toNat_toUInt8, UInt16.toNat_div, UInt16.toNat_mod, UInt16.reduceToNat]
  omega

theorem configView_eq_iff (e e' : Eeprom) :
    configView e' = configView e ↔
      ∀ a, IsConfigAddr a → at24cxxReadOneByte e' a = at24cxxReadOneByte e a := by
  simp only [configView, ConfigView.mk.injEq, readIPAdd, readPortAdd, readACUSN, readACUAdd,
    readRFIDKey, readLocalIP, readNetmask, readGateway, readMarker, at24cxxRead_eq_iff,
    joinPort_inj]
  constructor
  · rintro ⟨hip, ⟨hhi, hlo⟩, hsn, hadd, hkey, hlocal, hmask, hgate, hmark⟩ a ha
    have hblock : ∀ base n, (∀ i < n, at24cxxReadOneByte e' (base + i) =
        at24cxxReadOneByte e (base + i)) → base ≤ a → a < base + n →
        at24cxxReadOneByte e' a = at24cxxReadOneByte e a := by
      intro base n hb hlow hhigh
      have := hb (a - base) (by omega)
      rwa [Nat.add_sub_of_le hlow] at this
    rcases ha with ha | ha | ha | rfl
    · by_cases h1 : a < 204
      · exact hblock 200 4 hip (by omega) (by omega)
      · by_cases h2 : a < 206
        · obtain rfl | rfl : a = 204 ∨ a = 205 := by omega
          · exact hhi
          · exact hlo
        · by_cases h3 : a < 210
          · exact hblock 206 4 hsn (by omega) (by omega)
          · exact hblock 210 16 hadd (by omega) (by omega)
    · exact hblock 230 7 hkey (by omega) (by omega)
    · by_cases h1 : a < 244
      · exact hblock 239 5 hlocal (by omega) (by omega)
      · by_cases h2 : a < 248
        · exact hblock 244 4 hmask (by omega) (by omega)
        · exact hblock 248 4 hgate (by omega) (by omega)
    · exact hmark
  · intro h
    refine ⟨?_, ⟨h _ ?_, h _ ?_⟩, ?_, ?_, ?_, ?_, ?_, ?_, h _ ?_⟩
    all_goals first
      | exact fun i hi => h _ (by unfold IsConfigAddr; omega)
      | unfold IsConfigAddr; omega

end YckjAcu
