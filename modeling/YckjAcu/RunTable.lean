import YckjAcu.Lib.Buffers

/-!
# The table of readers

`g_RUNDate` has one row of fourteen bytes for every logic address: the status
byte, the serial number of the reader (1 to 4), the card number (5 to 8), the
amount (9 to 11), the check byte (12) and the code (13).  Row 0 is no reader;
its status byte counts the readers that were registered at power-up.
-/

namespace YckjAcu

/-- `BUSNUM_SIZE`: the number of reader stations. -/
def busnumSize : ℕ := 80

abbrev Row := Vector UInt8 14

/-- `g_RUNDate`, with the rows past its end left free. -/
abbrev RunTable := ℕ → Row

/-- The logic addresses of readers, in the order of the loops over them. -/
def logicNos : List ℕ := List.range' 1 busnumSize

@[simp] theorem mem_logicNos {i : ℕ} : i ∈ logicNos ↔ 1 ≤ i ∧ i ≤ 80 := by
  simp only [logicNos, busnumSize, List.mem_range'_1]
  omega

theorem logicNos_nodup : logicNos.Nodup := List.nodup_range'

@[simp] theorem logicNos_length : logicNos.length = 80 := by
  simp [logicNos, busnumSize]

/-- Logic addresses fit into a byte without loss. -/
theorem ofNat_inj_of_le {i j : ℕ} (hi : i ≤ 80) (hj : j ≤ 80) :
    UInt8.ofNat i = UInt8.ofNat j ↔ i = j := by
  constructor
  · intro h
    have := congrArg UInt8.toNat h
    simp only [UInt8.toNat_ofNat'] at this
    omega
  · rintro rfl
    rfl

/-- `g_RUNDate[n][0] = status`. -/
def RunTable.setStatus (t : RunTable) (n : ℕ) (status : UInt8) : RunTable :=
  Function.update t n ((t n).setIfInBounds 0 status)

@[simp] theorem RunTable.setStatus_self (t : RunTable) (n : ℕ) (s : UInt8) :
    (t.setStatus n s) n = (t n).setIfInBounds 0 s := by
  simp [setStatus]

theorem RunTable.setStatus_of_ne (t : RunTable) {n m : ℕ} (s : UInt8) (h : m ≠ n) :
    (t.setStatus n s) m = t m := by
  simp [setStatus, h]

namespace Row

/-- An event that still has to be forwarded: one of the bits `0x03` is set. -/
def Pending (r : Row) : Prop := r.get 0 &&& 0x03 ≠ 0

instance (r : Row) : Decidable r.Pending := inferInstanceAs (Decidable (_ ≠ _))

/-- `g_RUNDate[n][1..4]`. -/
def serial (r : Row) : Vector UInt8 4 := #v[r.get 1, r.get 2, r.get 3, r.get 4]

/-- The reader is in use: bit `0x80`. -/
def InUse (r : Row) : Prop := r.get 0 &&& 0x80 = 0x80

instance (r : Row) : Decidable r.InUse := inferInstanceAs (Decidable (_ = _))

end Row

/-! ### Masks of the status byte -/

theorem status_clear_pending (s : UInt8) : (s &&& ~~~0x03) &&& 0x03 = 0 := by
  simp [UInt8.and_assoc]

theorem status_clear_answered (s : UInt8) : (s &&& ~~~0x23) &&& 0x03 = 0 := by
  revert s
  decide +kernel

theorem status_lost (s : UInt8) : (s ||| 0x20) &&& 0x03 = s &&& 0x03 := by
  revert s
  decide +kernel

theorem status_set_insert (s : UInt8) : (s ||| 0x01) &&& 0x03 ≠ 0 := by
  revert s
  decide +kernel

theorem status_set_remove (s : UInt8) : (s ||| 0x02) &&& 0x03 ≠ 0 := by
  revert s
  decide +kernel

end YckjAcu
