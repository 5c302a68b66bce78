import YckjAcu.UseAdd

/-!
# What the registration functions do to single bytes

Slot `i` occupies the addresses from `10 + i * 5` to `14 + i * 5`.  The sum and
the bitwise or in the source agree on even slots only: in an odd slot
`Start_ADD + i * 5 | 1` is the logic byte itself, so a deletion there leaves the
fourth address byte as it was.
-/

namespace YckjAcu

theorem or_one (n : ℕ) : n ||| 1 = 2 * (n / 2) + 1 := by
  have hdiv : (n ||| 1) / 2 = n / 2 := by
    rw [Nat.or_div_two]
    simp
  have hmod : (n ||| 1) % 2 = 1 := by simp
  have h := Nat.div_add_mod (n ||| 1) 2
  rw [hdiv, hmod] at h
  exact h.symm

theorem slotADD_logic (i : ℕ) : slotADD i logicADD = 10 + i * 5 := by
  simp [slotADD, logicADD, startADD]

theorem slotADD_physical (i : ℕ) :
    slotADD i physicalADD1 = 10 + i * 5 + (if i % 2 = 0 then 1 else 0) := by
  rw [slotADD, physicalADD1, or_one, startADD]
  split <;> omega

/-- Slot `i` is in use: its logic byte is its own number. -/
def Occupied (e : Eeprom) (i : ℕ) : Prop :=
  at24cxxReadOneByte e (slotADD i logicADD) = UInt8.ofNat i

instance (e : Eeprom) (i : ℕ) : Decidable (Occupied e i) := inferInstanceAs (Decidable (_ = _))

/-- The physical address stored in slot `i`. -/
def physicalOf (e : Eeprom) (i : ℕ) : PhysicalNo :=
  at24cxxRead e (slotADD i logicADD + 1) 4

theorem physicalOf_congr {e e' : Eeprom} {i : ℕ}
    (h : ∀ k, 1 ≤ k → k < 5 →
      at24cxxReadOneByte e' (10 + i * 5 + k) = at24cxxReadOneByte e (10 + i * 5 + k)) :
    physicalOf e' i = physicalOf e i := by
  rw [physicalOf, physicalOf, at24cxxRead_eq_iff, slotADD_logic]
  intro k hk
  have := h (k + 1) (by omega) (by omega)
  rwa [← Nat.add_assoc, Nat.add_right_comm] at this

theorem samePhysical_iff (p q : PhysicalNo) : samePhysical p q = true ↔ q = p := by
  simp only [samePhysical, Bool.and_eq_true, beq_iff_eq]
  constructor
  · rintro ⟨⟨h3, h2⟩, h0, h1⟩
    apply Buffers.ext_get
    intro k
    fin_cases k
    · exact h0.symm
    · exact h1.symm
    · exact h2.symm
    · exact h3.symm
  · rintro rfl
    simp

section WriteSlot

variable {e : Eeprom} {i a : ℕ} {p : PhysicalNo}

theorem read_writeSlot_of_not_mem (hi : i ≤ 80) (ha : a < 1024) (hcount : a ≠ countADD)
    (h : a < 10 + i * 5 ∨ 15 + i * 5 ≤ a) :
    at24cxxReadOneByte (writeSlot i p e) a = at24cxxReadOneByte e a := by
  simp only [countADD] at hcount
  simp only [writeSlot, slotADD_logic, countADD]
  iterate 6 rw [read_writeOneByte_of_ne _ _ (by omega)]

theorem read_writeSlot_count (hi : i ≤ 80) :
    at24cxxReadOneByte (writeSlot i p e) countADD = at24cxxReadOneByte e countADD + 1 := by
  simp only [writeSlot, slotADD_logic, countADD, read_writeOneByte_self]
  iterate 5 rw [read_writeOneByte_of_ne _ _ (by omega)]

theorem read_writeSlot_logic (hi : i ≤ 80) :
    at24cxxReadOneByte (writeSlot i p e) (10 + i * 5) = UInt8.ofNat i := by
  simp only [writeSlot, slotADD_logic, countADD]
  iterate 5 rw [read_writeOneByte_of_ne _ _ (by omega)]
  exact read_writeOneByte_self _ _ _

theorem physicalOf_writeSlot (hi : i ≤ 80) : physicalOf (writeSlot i p e) i = p := by
  ext k hk
  have hread : at24cxxReadOneByte (writeSlot i p e) (10 + i * 5 + 1 + k) = p[k] := by
    simp only [writeSlot, slotADD_logic, countADD, read_writeOneByte]
    obtain rfl | rfl | rfl | rfl : k = 0 ∨ k = 1 ∨ k = 2 ∨ k = 3 := by omega
    · iterate 4 rw [if_neg (by omega)]
      exact if_pos (by omega)
    · iterate 3 rw [if_neg (by omega)]
      exact if_pos (by omega)
    · iterate 2 rw [if_neg (by omega)]
      exact if_pos (by omega)
    · rw [if_neg (by omega)]
      exact if_pos (by omega)
  simp only [physicalOf, slotADD_logic, at24cxxRead_getElem, hread]

end WriteSlot

section ClearSlot

variable {e : Eeprom} {i a : ℕ} {n : UInt8}

/-- The addresses that a deletion clears in slot `i`. -/
def InCleared (i a : ℕ) : Prop :=
  10 + i * 5 ≤ a ∧ a < 14 + i * 5 + (if i % 2 = 0 then 1 else 0)

instance (i a : ℕ) : Decidable (InCleared i a) := inferInstanceAs (Decidable (_ ∧ _))

theorem inCleared_base (i : ℕ) : InCleared i (10 + i * 5) := ⟨le_refl _, by omega⟩

theorem inCleared_base_iff {i j : ℕ} : InCleared i (10 + j * 5) ↔ j = i := by
  constructor
  · rintro ⟨hlow, hhigh⟩
    split at hhigh <;> omega
  · rintro rfl
    exact inCleared_base j

theorem read_clearSlot (hi : i ≤ 80) (ha : a < 1024) :
    at24cxxReadOneByte (clearSlot n e i) a =
      if at24cxxReadOneByte e (10 + i * 5) = n ∧ InCleared i a then 0
      else at24cxxReadOneByte e a := by
  simp only [clearSlot, slotADD_logic, slotADD_physical, InCleared]
  by_cases hn : at24cxxReadOneByte e (10 + i * 5) = n
  · simp only [hn, if_true, true_and]
    by_cases hbase : a = 10 + i * 5
    · subst hbase
      rw [read_writeOneByte_self]
      exact (if_pos ⟨le_refl _, by split <;> omega⟩).symm
    · rw [read_writeOneByte_of_ne _ _ (by omega)]
      -- the four zeros start one byte later in an even slot
      by_cases hpar : i % 2 = 0
      · simp only [hpar, if_true]
        by_cases hin : 10 + i * 5 ≤ a ∧ a < 14 + i * 5 + 1
        · rw [if_pos hin]
          obtain ⟨k, rfl⟩ := Nat.exists_eq_add_of_le (show 10 + i * 5 + 1 ≤ a by omega)
          rw [read_write_of_mem _ _ (by simp; omega) (by simp; omega)]
          obtain rfl | rfl | rfl | rfl : k = 0 ∨ k = 1 ∨ k = 2 ∨ k = 3 := by omega
          all_goals rfl
        · rw [if_neg hin]
          exact read_write_of_not_mem _ _ (by simp; omega) ha (by simp; omega)
      · simp only [hpar, if_false, Nat.add_zero]
        by_cases hin : 10 + i * 5 ≤ a ∧ a < 14 + i * 5
        · rw [if_pos hin]
          obtain ⟨k, rfl⟩ := Nat.exists_eq_add_of_le hin.1
          rw [read_write_of_mem _ _ (by simp; omega) (by simp; omega)]
          obtain rfl | rfl | rfl | rfl : k = 0 ∨ k = 1 ∨ k = 2 ∨ k = 3 := by omega
          all_goals rfl
        · rw [if_neg hin]
          exact read_write_of_not_mem _ _ (by simp; omega) ha (by simp; omega)
  · simp only [hn, if_false, false_and]

/-- The whole deletion loop: a slot is judged by the logic byte it had at the
start, since the slots do not overlap. -/
theorem read_clearSlots (hn : n ≠ 0) (slots : List ℕ) (hs : ∀ i ∈ slots, i ≤ 80)
    (e : Eeprom) (ha : a < 1024) :
    at24cxxReadOneByte (slots.foldl (clearSlot n) e) a =
      if ∃ i ∈ slots, at24cxxReadOneByte e (10 + i * 5) = n ∧ InCleared i a then 0
      else at24cxxReadOneByte e a := by
  induction slots generalizing e with
  | nil => simp
  | cons i slots ih =>
      have hi : i ≤ 80 := hs i (by simp)
      have hrest : ∀ j ∈ slots, j ≤ 80 := fun j hj => hs j (by simp [hj])
      rw [List.foldl_cons, ih hrest, read_clearSlot hi ha]
      have hbyte : ∀ j ∈ slots, at24cxxReadOneByte (clearSlot n e i) (10 + j * 5) = n ↔
          at24cxxReadOneByte e (10 + j * 5) = n ∧ j ≠ i := by
        intro j hj
        have := hrest j hj
        simp only [read_clearSlot hi (show 10 + j * 5 < 1024 by omega), inCleared_base_iff]
        by_cases hji : j = i
        · subst hji
          by_cases hjn : at24cxxReadOneByte e (10 + j * 5) = n
          · simp [hjn, hn.symm]
          · simp [hjn]
        · simp [hji]
      by_cases hhere : at24cxxReadOneByte e (10 + i * 5) = n ∧ InCleared i a
      · have hex : ∃ j ∈ i :: slots, at24cxxReadOneByte e (10 + j * 5) = n ∧ InCleared j a :=
          ⟨i, by simp, hhere⟩
        rw [if_pos hex, if_pos hhere, ite_self]
      · rw [if_neg hhere]
        refine if_congr ?_ rfl rfl
        constructor
        · rintro ⟨j, hj, hjn, hja⟩
          exact ⟨j, by simp [hj], ((hbyte j hj).mp hjn).1, hja⟩
        · rintro ⟨j, hj, hjn, hja⟩
          rcases List.mem_cons.mp hj with rfl | hj
          · exact absurd ⟨hjn, hja⟩ hhere
          · refine ⟨j, hj, (hbyte j hj).mpr ⟨hjn, ?_⟩, hja⟩
            rintro rfl
            exact hhere ⟨hjn, hja⟩

end ClearSlot

end YckjAcu
