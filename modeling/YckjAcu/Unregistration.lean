import YckjAcu.Registration

/-!
# Deleting what was just registered

`Distribute_LogicADD` writes the five bytes of a slot one after another,
`Delete_LogicADD` clears four of them from `Start_ADD + i * 5 | Physical_ADD1` on.
In an odd slot that is the logic byte, and the last address byte stays.
-/

namespace YckjAcu

open SlotTable

/-- Every slot is in use, or all of its bytes are zero. -/
def TidySlots (e : Eeprom) : Prop :=
  ∀ i ∈ logicNos, Occupied e i ∨ ∀ k < 5, at24cxxReadOneByte e (startADD + i * 5 + k) = 0

/-- The lowest slot that is not in use. -/
structure FirstFree (e : Eeprom) (i : ℕ) : Prop where
  mem : i ∈ logicNos
  free : ¬ Occupied e i
  least : ∀ j ∈ logicNos, j < i → Occupied e j

def registerThenDelete (physicalNo : PhysicalNo) (d : Device) : Device :=
  let (k, e) := distributeLogicADD physicalNo d.eeprom
  (deleteLogicADD k { d with eeprom := e }).2

theorem FirstFree.unique {e : Eeprom} {i j : ℕ} (hi : FirstFree e i) (hj : FirstFree e j) :
    i = j := by
  rcases lt_trichotomy i j with h | h | h
  · exact absurd (hj.least i hi.mem h) hi.free
  · exact h
  · exact absurd (hi.least j hj.mem h) hj.free

theorem findFree_eq_some_iff {e : Eeprom} {i : ℕ} : findFree e = some i ↔ FirstFree e i := by
  rw [findFree, List.find?_range'_eq_some]
  simp only [bne_iff_ne, ne_eq, Bool.not_eq_eq_eq_not, Bool.not_true, bne_eq_false_iff_eq]
  constructor
  · rintro ⟨hfree, hmem, hleast⟩
    exact ⟨hmem, hfree, fun j hj hji => hleast j (mem_logicNos.mp hj).1 hji⟩
  · rintro ⟨hmem, hfree, hleast⟩
    refine ⟨hfree, hmem, fun j hj hji => hleast j (mem_logicNos.mpr ⟨hj, ?_⟩) hji⟩
    exact hji.le.trans (mem_logicNos.mp hmem).2

theorem ofNat_ne_zero {i : ℕ} (hi : i ∈ logicNos) : UInt8.ofNat i ≠ 0 := by
  have hi' := mem_logicNos.mp hi
  have h := (ofNat_inj_of_le hi'.2 (Nat.zero_le 80)).not.mpr (by omega)
  exact h

section Slot

variable {e : Eeprom} {i : ℕ} {p : PhysicalNo}

theorem TidySlots.read_eq_zero (htidy : TidySlots e) (hfree : FirstFree e i) {a : ℕ}
    (hlow : 10 + i * 5 ≤ a) (hhigh : a < 15 + i * 5) : at24cxxReadOneByte e a = 0 := by
  obtain ⟨k, rfl⟩ := Nat.exists_eq_add_of_le hlow
  exact (htidy i hfree.mem).resolve_left hfree.free k (by omega)

/-- No other slot carries the number that was given out. -/
theorem TidySlots.logic_eq_iff (htidy : TidySlots e) (hfree : FirstFree e i) {j : ℕ}
    (hj : j ∈ logicNos) :
    at24cxxReadOneByte (writeSlot i p e) (10 + j * 5) = UInt8.ofNat i ↔ j = i := by
  have hi80 := (mem_logicNos.mp hfree.mem).2
  have hj80 := (mem_logicNos.mp hj).2
  constructor
  · intro h
    by_contra hji
    rw [read_writeSlot_of_not_mem hi80 (by omega) (by rw [countADD]; omega) (by omega)] at h
    rcases htidy j hj with hocc | hzero
    · rw [Occupied, slotADD_logic] at hocc
      rw [hocc] at h
      exact hji ((ofNat_inj_of_le hj80 hi80).mp h)
    · have h0 := hzero 0 (by decide)
      rw [startADD, Nat.add_zero] at h0
      exact ofNat_ne_zero hfree.mem (h.symm.trans h0)
  · rintro rfl
    exact read_writeSlot_logic hi80

theorem read_writeSlot_last (hi : i ≤ 80) :
    at24cxxReadOneByte (writeSlot i p e) (14 + i * 5) = p.get 3 := by
  have h := congrArg (fun q : PhysicalNo => q.get 3) (physicalOf_writeSlot (e := e) (p := p) hi)
  rw [physicalOf, slotADD_logic, at24cxxRead_get] at h
  rwa [show 14 + i * 5 = 10 + i * 5 + 1 + 3 by omega]

/-- The deletion loop clears the slot that was just filled, and no other. -/
theorem TidySlots.read_cleared (htidy : TidySlots e) (hfree : FirstFree e i) {b : ℕ}
    (hb : b < 1024) :
    at24cxxReadOneByte (logicNos.foldl (clearSlot (UInt8.ofNat i)) (writeSlot i p e)) b =
      if InCleared i b then 0 else at24cxxReadOneByte (writeSlot i p e) b := by
  rw [read_clearSlots (ofNat_ne_zero hfree.mem) logicNos (fun j hj => (mem_logicNos.mp hj).2) _ hb]
  refine if_congr ?_ rfl rfl
  constructor
  · rintro ⟨j, hj, hlogic, hin⟩
    rwa [(htidy.logic_eq_iff hfree hj).mp hlogic] at hin
  · intro hin
    exact ⟨i, hfree.mem, read_writeSlot_logic (mem_logicNos.mp hfree.mem).2, hin⟩

theorem read_registerThenDelete (htidy : TidySlots e) (hfree : FirstFree e i) (d : Device)
    {a : ℕ} (ha : a < 1024) :
    at24cxxReadOneByte
        (deleteLogicADD (UInt8.ofNat i) { d with eeprom := writeSlot i p e }).2.eeprom a =
      if a = 14 + i * 5 ∧ i % 2 = 1 then p.get 3 else at24cxxReadOneByte e a := by
  have hi := mem_logicNos.mp hfree.mem
  rw [deleteLogicADD]
  dsimp only
  change at24cxxReadOneByte (at24cxxWriteOneByte countADD
    (at24cxxReadOneByte (logicNos.foldl (clearSlot (UInt8.ofNat i)) (writeSlot i p e)) countADD -
      1) (logicNos.foldl (clearSlot (UInt8.ofNat i)) (writeSlot i p e))) a = _
  have hcount : ¬ InCleared i countADD := fun h => by
    have hlow := h.1
    rw [countADD] at hlow
    omega
  by_cases hacount : a = countADD
  · rw [hacount, read_writeOneByte_self, htidy.read_cleared hfree (by decide), if_neg hcount,
      read_writeSlot_count hi.2, add_sub_cancel_right, if_neg]
    rw [countADD]
    omega
  · rw [read_writeOneByte_of_ne _ _ (by rw [countADD] at hacount ⊢; omega),
      htidy.read_cleared hfree ha]
    by_cases hslot : 10 + i * 5 ≤ a ∧ a < 15 + i * 5
    · rw [htidy.read_eq_zero hfree hslot.1 hslot.2]
      by_cases hin : InCleared i a
      · rw [if_pos hin, if_neg]
        rintro ⟨rfl, hodd⟩
        have hhigh := hin.2
        rw [if_neg (by omega)] at hhigh
        omega
      · -- the last address byte of an odd slot
        have hlast : a = 14 + i * 5 ∧ i % 2 = 1 := by
          simp only [InCleared, not_and, not_lt] at hin
          have hhigh := hin hslot.1
          split_ifs at hhigh with hpar <;> omega
        rw [if_neg hin, if_pos hlast, hlast.1, read_writeSlot_last hi.2]
    · have hin : ¬ InCleared i a := by
        rintro ⟨hlow, hhigh⟩
        apply hslot
        split_ifs at hhigh <;> omega
      rw [if_neg hin, if_neg (by omega),
        read_writeSlot_of_not_mem hi.2 ha hacount (by omega)]

end Slot

/-- A deletion restores the memory exactly when the reader got an even slot or the
last byte of its address is 0. -/
theorem delete_undoes_register_iff {d : Device} {p : PhysicalNo} (htidy : TidySlots d.eeprom)
    (hnew : ∀ i ∈ logicNos, Occupied d.eeprom i → physicalOf d.eeprom i ≠ p)
    (hk : 1 ≤ (distributeLogicADD p d.eeprom).1.toNat ∧
      (distributeLogicADD p d.eeprom).1.toNat ≤ 80) :
    (registerThenDelete p d).eeprom = d.eeprom ↔
      (∃ i, FirstFree d.eeprom i ∧ i % 2 = 0) ∨ p.get 3 = 0 := by
  have hlookup : findRegistered p d.eeprom = none := by
    rw [findRegistered_eq, lookup_eq_none]
    intro i hi h
    obtain ⟨-, hocc, hp⟩ := regOf_eq_some.mp h
    exact hnew i hi hocc hp
  cases hfind : findFree d.eeprom with
  | none =>
      simp only [distributeLogicADD, hlookup, hfind] at hk
      exact absurd hk.2 (by decide)
  | some i =>
      have hfree := findFree_eq_some_iff.mp hfind
      have hread := fun (a : ℕ) (ha : a < 1024) =>
        read_registerThenDelete (p := p) htidy hfree d ha
      have hi80 := (mem_logicNos.mp hfree.mem).2
      simp only [registerThenDelete, distributeLogicADD, hlookup, hfind]
      constructor
      · intro heq
        rcases Nat.mod_two_eq_zero_or_one i with heven | hodd
        · exact Or.inl ⟨i, hfree, heven⟩
        · have hlast := hread (14 + i * 5) (by omega)
          rw [heq, if_pos ⟨rfl, hodd⟩,
            htidy.read_eq_zero hfree (by omega) (by omega)] at hlast
          exact Or.inr hlast.symm
      · intro h
        apply eeprom_ext
        intro a ha
        rw [hread a ha]
        split_ifs with hlast
        · rw [hlast.1, htidy.read_eq_zero hfree (by omega) (by omega)]
          rcases h with ⟨j, hj, heven⟩ | h
          · rw [hj.unique hfree] at heven
            omega
          · exact h
        · rfl

def blankDevice : Device := ⟨fun _ => 0, fun _ => Vector.replicate 14 0, fun _ => 0, []⟩

theorem delete_undoes_register_iff_blank :
    (registerThenDelete #v[1, 1, 1, 7] blankDevice).eeprom = blankDevice.eeprom ↔
      (∃ i, FirstFree blankDevice.eeprom i ∧ i % 2 = 0) ∨
        (#v[1, 1, 1, 7] : PhysicalNo).get 3 = 0 := by
  have hfree : ∀ i ∈ logicNos, ¬ Occupied blankDevice.eeprom i :=
    fun i hi h => ofNat_ne_zero hi h.symm
  exact delete_undoes_register_iff (fun i _ => Or.inr fun k _ => rfl)
    (fun i hi h => absurd h (hfree i hi)) (by decide +kernel)

/-- The last address byte of the reader in slot 1 stays. -/
theorem delete_leaves_last_byte : ¬ ∀ (d : Device) (p : PhysicalNo), TidySlots d.eeprom →
    (∀ i ∈ logicNos, Occupied d.eeprom i → physicalOf d.eeprom i ≠ p) →
    1 ≤ (distributeLogicADD p d.eeprom).1.toNat ∧
      (distributeLogicADD p d.eeprom).1.toNat ≤ 80 →
    (registerThenDelete p d).eeprom = d.eeprom := by
  intro h
  have hfree : ∀ i ∈ logicNos, ¬ Occupied blankDevice.eeprom i :=
    fun i hi h => ofNat_ne_zero hi h.symm
  have heq := h blankDevice #v[1, 1, 1, 7] (fun i _ => Or.inr fun k _ => rfl)
    (fun i hi h => absurd h (hfree i hi)) (by decide +kernel)
  have hbyte := congrFun heq 19
  exact absurd hbyte (by decide +kernel)

end YckjAcu
