import YckjAcu.Crc8
import YckjAcu.Lib.Crc

/-!
# What the check byte detects

`CRC8_Table` computes the reflected CRC with the polynomial `0x8C` bit by bit, so an error
within eight consecutive bits of a frame, its check byte included, does not go unseen.
-/

namespace YckjAcu

/-- The bits of a byte string, each byte from its lowest bit on. -/
def bitsOf (m : List UInt8) : List Bool := m.flatMap fun b => Crc.bits b.toBitVec

/-- The CRC bit by bit, with the reflected polynomial `0x8C`, from 0 and without a final
exclusive or. -/
def crc8Bits (m : List UInt8) : UInt8 := ⟨Crc.run 0x8C#8 0#8 (bitsOf m)⟩

/-- The last byte is the check byte of those before. -/
def Checks (frame : List UInt8) : Prop := crc8Table frame.dropLast = frame.getLastD 0

instance (frame : List UInt8) : Decidable (Checks frame) := inferInstanceAs (Decidable (_ = _))

/-- The positions of `S` in byte `i`. -/
def flipMask (S : Finset ℕ) (i : ℕ) : UInt8 :=
  ⟨Crc.pack ((List.range 8).map fun j => decide (8 * i + j ∈ S))⟩

def flipFrom (S : Finset ℕ) : ℕ → List UInt8 → List UInt8
  | _, [] => []
  | i, b :: m => (b ^^^ flipMask S i) :: flipFrom S (i + 1) m

/-- The frame with the bits of `S` flipped; bit `i` is bit `i % 8` of byte `i / 8`. -/
def flipBits (S : Finset ℕ) (frame : List UInt8) : List UInt8 := flipFrom S 0 frame

theorem bitsOf_cons (b : UInt8) (m : List UInt8) :
    bitsOf (b :: m) = Crc.bits b.toBitVec ++ bitsOf m := List.flatMap_cons

/-! ### The table -/

theorem crcArray_toList : crcArray.toList.map UInt8.toBitVec =
    (List.range 256).map fun i =>
      Crc.run 0x8C#8 (BitVec.ofNat 8 i) (List.replicate 8 false) := by
  decide +kernel

theorem crcArray_get (x : UInt8) :
    (crcArray.get x.toFin).toBitVec = Crc.run 0x8C#8 x.toBitVec (List.replicate 8 false) := by
  have hx : x.toNat < 256 := x.toFin.isLt
  have hentry := congrArg (fun l => l[x.toNat]?) crcArray_toList
  simp only [List.getElem?_map, List.getElem?_range hx, Vector.getElem?_toList,
    Vector.getElem?_eq_getElem hx, Option.map_some, Option.some.injEq] at hentry
  have hself : BitVec.ofNat 8 x.toNat = x.toBitVec := by
    rw [← UInt8.toNat_toBitVec, BitVec.ofNat_toNat, BitVec.setWidth_eq]
  rw [hself] at hentry
  exact hentry

theorem crcArray_xor (s b : UInt8) :
    (crcArray.get (s ^^^ b).toFin).toBitVec =
      Crc.run 0x8C#8 s.toBitVec (Crc.bits b.toBitVec) := by
  have hlength : (Crc.bits b.toBitVec).length = 8 := Crc.length_bits _
  rw [crcArray_get, Crc.run_eq_run_xor_pack (Nat.le_of_eq hlength), Crc.pack_bits, hlength,
    UInt8.toBitVec_xor]

theorem crc8Table_foldl (m : List UInt8) (s : UInt8) :
    (m.foldl (fun crc8 b => crcArray.get (crc8 ^^^ b).toFin) s).toBitVec =
      Crc.run 0x8C#8 s.toBitVec (bitsOf m) := by
  induction m generalizing s with
  | nil => rfl
  | cons b m ih =>
      rw [List.foldl_cons, ih, crcArray_xor, bitsOf_cons, Crc.run_append]

theorem toBitVec_crc8Table (m : List UInt8) :
    (crc8Table m).toBitVec = Crc.run 0x8C#8 0#8 (bitsOf m) := crc8Table_foldl m 0

theorem crc8Table_eq (m : List UInt8) : crc8Table m = crc8Bits m :=
  UInt8.toBitVec_inj.mp (toBitVec_crc8Table m)

/-! ### Errors -/

theorem checks_concat_iff (m : List UInt8) (c : UInt8) :
    Checks (m ++ [c]) ↔ Crc.run 0x8C#8 0#8 (bitsOf (m ++ [c])) = 0#8 := by
  have hbits : bitsOf (m ++ [c]) = bitsOf m ++ Crc.bits c.toBitVec := by
    simp [bitsOf]
  have hlength : (Crc.bits c.toBitVec).length ≤ 8 := Nat.le_of_eq (Crc.length_bits _)
  rw [Checks, List.dropLast_concat, List.getLastD_concat, hbits, Crc.run_append,
    Crc.run_eq_zero_iff (by decide) hlength, Crc.pack_bits, ← toBitVec_crc8Table,
    UInt8.toBitVec_inj]

theorem length_flipFrom (S : Finset ℕ) (m : List UInt8) (i : ℕ) :
    (flipFrom S i m).length = m.length := by
  induction m generalizing i with
  | nil => rfl
  | cons b m ih => exact congrArg (· + 1) (ih (i + 1))

theorem bitsOf_flipFrom (S : Finset ℕ) (m : List UInt8) (i : ℕ) :
    bitsOf (flipFrom S i m) = List.zipWith xor (bitsOf m)
      ((List.range' (8 * i) (8 * m.length)).map fun j => decide (j ∈ S)) := by
  induction m generalizing i with
  | nil => rfl
  | cons b m ih =>
      have hrange : List.range' (8 * i) (8 * (m.length + 1)) =
          List.range' (8 * i) 8 ++ List.range' (8 * (i + 1)) (8 * m.length) := by
        rw [Nat.mul_add, Nat.mul_one, Nat.add_comm (8 * m.length), ← List.range'_append_1]
        rfl
      have hmask : (b ^^^ flipMask S i).toBitVec =
          b.toBitVec ^^^ Crc.pack ((List.range' (8 * i) 8).map fun j => decide (j ∈ S)) := by
        rw [List.range'_eq_map_range, List.map_map]
        rfl
      rw [flipFrom, bitsOf_cons, bitsOf_cons, ih, hmask, Crc.bits_xor, Crc.bits_pack (by simp),
        List.length_cons, hrange, List.map_append, List.zipWith_append (by simp)]

theorem checks_iff {frame : List UInt8} (h : frame ≠ []) :
    Checks frame ↔ Crc.run 0x8C#8 0#8 (bitsOf frame) = 0#8 := by
  obtain rfl | ⟨m, c, rfl⟩ := List.eq_nil_or_concat' frame
  · exact absurd rfl h
  · exact checks_concat_iff m c

theorem checks_sent (m : List UInt8) : Checks (m ++ [crc8Table m]) := by
  rw [Checks, List.dropLast_concat, List.getLastD_concat]

theorem length_bitsOf (m : List UInt8) : (bitsOf m).length = 8 * m.length := by
  induction m with
  | nil => rfl
  | cons b m ih =>
      rw [bitsOf_cons, List.length_append, Crc.length_bits, ih, List.length_cons]
      omega

/-- The register after the flipped frame depends on the flipped bits only. -/
theorem run_flipBits {frame : List UInt8} (S : Finset ℕ)
    (h : Crc.run 0x8C#8 0#8 (bitsOf frame) = 0#8) :
    Crc.run 0x8C#8 0#8 (bitsOf (flipBits S frame)) =
      Crc.run 0x8C#8 0#8 ((List.range (8 * frame.length)).map fun i => decide (i ∈ S)) := by
  have hlength : (bitsOf frame).length =
      ((List.range (8 * frame.length)).map fun i => decide (i ∈ S)).length := by
    rw [length_bitsOf, List.length_map, List.length_range]
  have hxor := Crc.run_xor 0x8C#8 hlength 0#8 0#8
  rw [BitVec.xor_zero, h, BitVec.zero_xor] at hxor
  rw [flipBits, bitsOf_flipFrom, ← hxor, List.range_eq_range']

/-- Flipping bits within eight consecutive ones, be it across bytes or in the check byte,
makes the check fail. -/
theorem crc8Table_detects_bursts (m : List UInt8) :
    crc8Table m = crc8Bits m ∧
      ∀ (S : Finset ℕ) (k : ℕ), S.Nonempty → (∀ i ∈ S, i < 8 * (m.length + 1)) →
        (∀ i ∈ S, k ≤ i ∧ i < k + 8) → ¬ Checks (flipBits S (m ++ [crc8Table m])) := by
  refine ⟨crc8Table_eq m, fun S k hne hinside hwindow => ?_⟩
  have hsent : m ++ [crc8Table m] ≠ [] := List.append_ne_nil_of_right_ne_nil _ (by simp)
  have hlength : (m ++ [crc8Table m]).length = m.length + 1 := by simp
  have hflipped : flipBits S (m ++ [crc8Table m]) ≠ [] := by
    intro hnil
    have hzero := congrArg List.length hnil
    rw [flipBits, length_flipFrom, hlength] at hzero
    cases hzero
  rw [checks_iff hflipped, run_flipBits S ((checks_iff hsent).mp (checks_sent m)), hlength]
  apply Crc.run_burst_ne_zero (by decide)
  · obtain ⟨i, hi⟩ := hne
    rw [List.mem_map]
    exact ⟨i, List.mem_range.mpr (hinside i hi), decide_eq_true hi⟩
  · intro i hi
    rw [List.getElem?_map, Option.map_eq_some_iff] at hi
    obtain ⟨j, hj, hmem⟩ := hi
    obtain ⟨hlt, hj⟩ := List.getElem?_eq_some_iff.mp hj
    rw [List.getElem_range] at hj
    exact hwindow i (hj ▸ of_decide_eq_true hmem)

/-- Three bits of the last address byte and of the check byte of a reader. -/
theorem address_burst_detected :
    ¬ Checks (flipBits {30, 32, 37} ([1, 2, 3, 4] ++ [crc8Table [1, 2, 3, 4]])) :=
  (crc8Table_detects_bursts [1, 2, 3, 4]).2 {30, 32, 37} 30 (by decide) (by decide) (by decide)

end YckjAcu
