import Mathlib.Data.BitVec
import Mathlib.Data.Set.Insert
import Mathlib.Order.Bounds.Basic
import Mathlib.Tactic.SplitIfs

/-!
# Priority tables on two levels

A set of priorities is kept in rows of `n` bits, with one more word whose bit `y`
says that row `y` is not empty.  The least priority is found with two lookups of
the lowest bit of a word.
-/

structure PriorityTable (m n : ℕ) where
  grp : BitVec m
  tbl : ℕ → BitVec n

namespace PriorityTable

variable {m n : ℕ}

def empty : PriorityTable m n := ⟨0, fun _ => 0⟩

/-- The group bit and the row bit are set. -/
def insert (p : ℕ) (t : PriorityTable m n) : PriorityTable m n where
  grp := t.grp ||| BitVec.twoPow m (p / n)
  tbl := Function.update t.tbl (p / n) (t.tbl (p / n) ||| BitVec.twoPow n (p % n))

/-- The row bit is cleared, and the group bit when the row is empty then. -/
def erase (p : ℕ) (t : PriorityTable m n) : PriorityTable m n :=
  let row := t.tbl (p / n) &&& ~~~BitVec.twoPow n (p % n)
  { grp := if row = 0 then t.grp &&& ~~~BitVec.twoPow m (p / n) else t.grp
    tbl := Function.update t.tbl (p / n) row }

/-- The least priority, given the lookups for the two widths. -/
def first (low : BitVec m → ℕ) (low' : BitVec n → ℕ) (t : PriorityTable m n) : ℕ :=
  let y := low t.grp
  y * n + low' (t.tbl y)

def Mem (t : PriorityTable m n) (p : ℕ) : Prop := (t.tbl (p / n)).getLsbD (p % n) = true

instance (t : PriorityTable m n) (p : ℕ) : Decidable (t.Mem p) :=
  inferInstanceAs (Decidable (_ = true))

/-- A group bit is set exactly for the rows that are not empty. -/
def Coherent (t : PriorityTable m n) : Prop := ∀ y, t.grp.getLsbD y = decide (t.tbl y ≠ 0)

/-- The lookup finds the lowest bit of a word that is not 0. -/
def FindsLowest {k : ℕ} (low : BitVec k → ℕ) : Prop :=
  ∀ v, v ≠ 0 → v.getLsbD (low v) = true ∧ ∀ j < low v, v.getLsbD j = false

section Rows

theorem ne_zero_of_getLsbD {v : BitVec n} {i : ℕ} (h : v.getLsbD i = true) : v ≠ 0 := by
  rintro rfl
  simp at h

theorem exists_getLsbD {v : BitVec n} (h : v ≠ 0) : ∃ i < n, v.getLsbD i = true := by
  by_contra hno
  push Not at hno
  refine h (BitVec.eq_of_getLsbD_eq fun i hi => ?_)
  simpa using hno i hi

theorem div_mod_inj {p q : ℕ} (hd : p / n = q / n) (hm : p % n = q % n) : p = q := by
  rw [← Nat.div_add_mod p n, ← Nat.div_add_mod q n, hd, hm]

end Rows

section Sets

variable {t : PriorityTable m n} {p q : ℕ}

theorem not_mem_empty : ¬ (empty : PriorityTable m n).Mem p := by simp [empty, Mem]

theorem coherent_empty : (empty : PriorityTable m n).Coherent := by simp [empty, Coherent]

theorem insert_tbl_self :
    (t.insert p).tbl (p / n) = t.tbl (p / n) ||| BitVec.twoPow n (p % n) :=
  Function.update_self _ _ _

theorem insert_tbl_of_ne {y : ℕ} (h : y ≠ p / n) : (t.insert p).tbl y = t.tbl y :=
  Function.update_of_ne h _ _

theorem erase_tbl_self :
    (t.erase p).tbl (p / n) = t.tbl (p / n) &&& ~~~BitVec.twoPow n (p % n) :=
  Function.update_self _ _ _

theorem erase_tbl_of_ne {y : ℕ} (h : y ≠ p / n) : (t.erase p).tbl y = t.tbl y :=
  Function.update_of_ne h _ _

theorem mem_insert (hn : 0 < n) : (t.insert p).Mem q ↔ q = p ∨ t.Mem q := by
  have hlt : p % n < n := Nat.mod_lt p hn
  by_cases hrow : q / n = p / n
  · rw [Mem, hrow, insert_tbl_self, BitVec.getLsbD_or, BitVec.getLsbD_twoPow]
    by_cases hbit : p % n = q % n
    · have heq : q = p := div_mod_inj hrow hbit.symm
      simp [heq, hlt]
    · have hne : q ≠ p := fun h => hbit (h ▸ rfl)
      simp [Mem, hrow, hbit, hne]
  · have hne : q ≠ p := fun h => hrow (h ▸ rfl)
    rw [Mem, insert_tbl_of_ne hrow]
    simp [Mem, hne]

theorem mem_erase (hn : 0 < n) : (t.erase p).Mem q ↔ q ≠ p ∧ t.Mem q := by
  have hlt : p % n < n := Nat.mod_lt p hn
  by_cases hrow : q / n = p / n
  · have hlt' : q % n < n := Nat.mod_lt q hn
    rw [Mem, hrow, erase_tbl_self, BitVec.getLsbD_and, BitVec.getLsbD_not,
      BitVec.getLsbD_twoPow]
    by_cases hbit : p % n = q % n
    · have heq : q = p := div_mod_inj hrow hbit.symm
      simp [heq, hlt]
    · have hne : q ≠ p := fun h => hbit (h ▸ rfl)
      simp [Mem, hrow, hbit, hne, hlt']
  · have hne : q ≠ p := fun h => hrow (h ▸ rfl)
    rw [Mem, erase_tbl_of_ne hrow]
    simp [Mem, hne]

theorem Coherent.insert (h : t.Coherent) (hn : 0 < n) (hp : p / n < m) : (t.insert p).Coherent := by
  intro y
  have hgrp : (t.insert p).grp = t.grp ||| BitVec.twoPow m (p / n) := rfl
  rw [hgrp, BitVec.getLsbD_or, h y, BitVec.getLsbD_twoPow]
  by_cases hy : y = p / n
  · subst hy
    have hbit : ((t.insert p).tbl (p / n)).getLsbD (p % n) = true := by
      simp [insert_tbl_self, Nat.mod_lt p hn]
    rw [decide_eq_true (ne_zero_of_getLsbD hbit)]
    simp [hp]
  · have hne : p / n ≠ y := fun heq => hy heq.symm
    simp [insert_tbl_of_ne hy, hne]

theorem Coherent.erase (h : t.Coherent) : (t.erase p).Coherent := by
  intro y
  have hgrp : (t.erase p).grp =
      if (t.erase p).tbl (p / n) = 0 then t.grp &&& ~~~BitVec.twoPow m (p / n) else t.grp := by
    rw [erase_tbl_self]
    rfl
  rw [hgrp]
  by_cases hy : y = p / n
  · subst hy
    split_ifs with hrow
    · rw [hrow, BitVec.getLsbD_and, BitVec.getLsbD_not, BitVec.getLsbD_twoPow]
      by_cases hlt : p / n < m <;> simp [hlt]
    · have hne : t.tbl (p / n) ≠ 0 := by
        intro hzero
        rw [erase_tbl_self, hzero] at hrow
        simp at hrow
      rw [h, decide_eq_true hne, decide_eq_true hrow]
  · have hne : p / n ≠ y := fun heq => hy heq.symm
    rw [erase_tbl_of_ne hy, ← h y]
    split_ifs with hrow
    · rw [BitVec.getLsbD_and, BitVec.getLsbD_not, BitVec.getLsbD_twoPow]
      by_cases hlt : y < m
      · simp [hne, hlt]
      · simp [BitVec.getLsbD_of_ge _ _ (Nat.le_of_not_lt hlt)]
    · rfl

/-- The group word tells whether there is any priority at all. -/
theorem Coherent.grp_ne_zero (h : t.Coherent) (hn : 0 < n) : t.grp ≠ 0 ↔ ∃ p, t.Mem p := by
  constructor
  · intro hne
    obtain ⟨y, -, hy⟩ := exists_getLsbD hne
    rw [h y, decide_eq_true_iff] at hy
    obtain ⟨x, hx, hbit⟩ := exists_getLsbD hy
    refine ⟨y * n + x, ?_⟩
    have hdiv : (y * n + x) / n = y := by
      rw [Nat.mul_comm, Nat.mul_add_div hn, Nat.div_eq_of_lt hx, Nat.add_zero]
    have hmod : (y * n + x) % n = x := by
      rw [Nat.mul_comm, Nat.mul_add_mod, Nat.mod_eq_of_lt hx]
    rw [Mem, hdiv, hmod]
    exact hbit
  · rintro ⟨p, hp⟩
    have hbit : t.grp.getLsbD (p / n) = true := by
      rw [h, decide_eq_true (ne_zero_of_getLsbD hp)]
    exact ne_zero_of_getLsbD hbit

/-- The two lookups find the least priority. -/
theorem Coherent.first_isLeast (h : t.Coherent) {low : BitVec m → ℕ} {low' : BitVec n → ℕ}
    (hlow : FindsLowest low) (hlow' : FindsLowest low') (hne : t.grp ≠ 0) :
    IsLeast {p | t.Mem p} (t.first low low') := by
  obtain ⟨hbit, hleast⟩ := hlow t.grp hne
  have hrow : t.tbl (low t.grp) ≠ 0 := by
    rwa [h, decide_eq_true_iff] at hbit
  obtain ⟨hbit', hleast'⟩ := hlow' _ hrow
  have hx : low' (t.tbl (low t.grp)) < n := by
    by_contra hge
    rw [BitVec.getLsbD_of_ge _ _ (Nat.le_of_not_lt hge)] at hbit'
    exact Bool.false_ne_true hbit'
  have hn : 0 < n := by omega
  have hdiv : t.first low low' / n = low t.grp := by
    rw [first, Nat.mul_comm, Nat.mul_add_div hn, Nat.div_eq_of_lt hx, Nat.add_zero]
  have hmod : t.first low low' % n = low' (t.tbl (low t.grp)) := by
    rw [first, Nat.mul_comm, Nat.mul_add_mod, Nat.mod_eq_of_lt hx]
  constructor
  · change (t.tbl (t.first low low' / n)).getLsbD (t.first low low' % n) = true
    rw [hdiv, hmod]
    exact hbit'
  · intro q hq
    change (t.tbl (q / n)).getLsbD (q % n) = true at hq
    have hrowle : low t.grp ≤ q / n := by
      by_contra hlt
      have hfalse := hleast (q / n) (by omega)
      rw [h, decide_eq_false_iff_not, not_not] at hfalse
      exact ne_zero_of_getLsbD hq hfalse
    rcases Nat.lt_or_eq_of_le hrowle with hlt | heq
    · calc t.first low low' ≤ low t.grp * n + n := by rw [first]; omega
        _ = (low t.grp + 1) * n := (Nat.succ_mul _ _).symm
        _ ≤ q / n * n := Nat.mul_le_mul_right n hlt
        _ ≤ q := Nat.div_mul_le_self q n
    · have hcol : low' (t.tbl (low t.grp)) ≤ q % n := by
        by_contra hlt
        have hfalse := hleast' (q % n) (by omega)
        rw [heq, hq] at hfalse
        exact Bool.false_ne_true hfalse.symm
      calc t.first low low' ≤ q / n * n + q % n := by rw [first, heq]; rw [heq] at hcol; omega
        _ = q := Nat.div_add_mod' q n

end Sets

end PriorityTable
