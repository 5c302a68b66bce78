import YckjAcu.Lib.Buffers

/-!
# The 24C08 parameter memory

`bsp_24cxx.c` reads and writes one byte at a time over the two-wire bus.  The
chip decodes ten address bits, so a memory image is a map from `Fin 1024`, and
an address is taken modulo the size of the chip.
-/

namespace YckjAcu

/-- `EE_TYPE + 1` for the `AT24C08`. -/
abbrev Eeprom := Fin 1024 → UInt8

def at24cxxReadOneByte (e : Eeprom) (readAddr : ℕ) : UInt8 :=
  e (Fin.ofNat 1024 readAddr)

def at24cxxWriteOneByte (writeAddr : ℕ) (dataToWrite : UInt8) (e : Eeprom) : Eeprom :=
  Function.update e (Fin.ofNat 1024 writeAddr) dataToWrite

/-- The first `numToRead` bytes from `readAddr` on. -/
def at24cxxRead (e : Eeprom) (readAddr numToRead : ℕ) : Vector UInt8 numToRead :=
  Vector.ofFn fun i => at24cxxReadOneByte e (readAddr + i)

def at24cxxWrite (writeAddr : ℕ) : List UInt8 → Eeprom → Eeprom
  | [], e => e
  | b :: pBuffer, e =>
      at24cxxWrite (writeAddr + 1) pBuffer (at24cxxWriteOneByte writeAddr b e)

theorem read_writeOneByte (e : Eeprom) (a b : ℕ) (v : UInt8) :
    at24cxxReadOneByte (at24cxxWriteOneByte a v e) b =
      if b % 1024 = a % 1024 then v else at24cxxReadOneByte e b := by
  simp only [at24cxxReadOneByte, at24cxxWriteOneByte, Function.update_apply, Fin.ext_iff]
  rfl

@[simp] theorem read_writeOneByte_self (e : Eeprom) (a : ℕ) (v : UInt8) :
    at24cxxReadOneByte (at24cxxWriteOneByte a v e) a = v := by
  simp [read_writeOneByte]

theorem read_writeOneByte_of_ne (e : Eeprom) {a b : ℕ} (v : UInt8) (h : b % 1024 ≠ a % 1024) :
    at24cxxReadOneByte (at24cxxWriteOneByte a v e) b = at24cxxReadOneByte e b := by
  simp [read_writeOneByte, h]

theorem read_write_of_not_mem (bs : List UInt8) (e : Eeprom) {a b : ℕ}
    (ha : a + bs.length ≤ 1024) (hb : b < 1024) (h : b < a ∨ a + bs.length ≤ b) :
    at24cxxReadOneByte (at24cxxWrite a bs e) b = at24cxxReadOneByte e b := by
  induction bs generalizing a e with
  | nil => rfl
  | cons v bs ih =>
      simp only [List.length_cons] at ha h
      rw [at24cxxWrite, ih _ (by omega) (by omega)]
      exact read_writeOneByte_of_ne e v (by omega)

theorem read_write_of_mem (bs : List UInt8) (e : Eeprom) {a k : ℕ}
    (ha : a + bs.length ≤ 1024) (hk : k < bs.length) :
    at24cxxReadOneByte (at24cxxWrite a bs e) (a + k) = bs[k] := by
  induction bs generalizing a e k with
  | nil => simp at hk
  | cons v bs ih =>
      simp only [List.length_cons] at ha hk
      rw [at24cxxWrite]
      cases k with
      | zero =>
          rw [read_write_of_not_mem _ _ (by omega) (by omega) (by omega)]
          simp
      | succ k =>
          have hrest := ih (at24cxxWriteOneByte a v e) (a := a + 1) (k := k) (by omega) (by omega)
          simpa [Nat.add_assoc, Nat.add_comm 1 k] using hrest

@[simp] theorem at24cxxRead_getElem (e : Eeprom) (a n i : ℕ) (hi : i < n) :
    (at24cxxRead e a n)[i] = at24cxxReadOneByte e (a + i) := by
  simp [at24cxxRead]

@[simp] theorem at24cxxRead_get (e : Eeprom) (a n : ℕ) (i : Fin n) :
    (at24cxxRead e a n).get i = at24cxxReadOneByte e (a + i) := Buffers.get_ofFn _ i

theorem at24cxxRead_eq_iff (e e' : Eeprom) (a n : ℕ) :
    at24cxxRead e' a n = at24cxxRead e a n ↔
      ∀ i < n, at24cxxReadOneByte e' (a + i) = at24cxxReadOneByte e (a + i) := by
  constructor
  · intro h i hi
    have hget := congrArg (fun v : Vector UInt8 n => v[i]) h
    simpa using hget
  · intro h
    ext i hi
    simpa using congrArg UInt8.toNat (h i hi)

theorem eeprom_ext {e e' : Eeprom}
    (h : ∀ a < 1024, at24cxxReadOneByte e' a = at24cxxReadOneByte e a) : e' = e := by
  funext a
  have ha := h a a.isLt
  simpa [at24cxxReadOneByte] using ha

end YckjAcu
