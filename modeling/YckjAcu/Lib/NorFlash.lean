import Mathlib.Logic.Basic
import Mathlib.Tactic.Common

/-!
# Memories that are programmed cell by cell and erased in blocks

Programming a cell combines the new value with the old one, so a value can be
reached without an erase only from some of the old ones.  A block whose image
differs from the memory in a range can be programmed whole: with an erase in any
case, without one when the new values of the range can be reached.
-/

namespace NorFlash

variable {α : Type*}

/-- Write `n` values from `base` on, whatever the cells hold. -/
def blit (mem : ℕ → α) (base n : ℕ) (xs : ℕ → α) : ℕ → α :=
  fun i => if base ≤ i ∧ i < base + n then xs (i - base) else mem i

section Blit

variable (mem : ℕ → α) (base n : ℕ) (xs : ℕ → α)

theorem blit_inside {k : ℕ} (hk : k < n) : blit mem base n xs (base + k) = xs k := by
  rw [blit, if_pos (by omega), Nat.add_sub_cancel_left]

theorem blit_outside {i : ℕ} (hi : ¬ (base ≤ i ∧ i < base + n)) : blit mem base n xs i = mem i :=
  if_neg hi

@[simp] theorem blit_zero : blit mem base 0 xs = mem := by
  funext i
  apply blit_outside
  omega

theorem blit_same (h : ∀ k < n, mem (base + k) = xs k) : blit mem base n xs = mem := by
  funext i
  by_cases hi : base ≤ i ∧ i < base + n
  · obtain ⟨k, rfl⟩ := Nat.exists_eq_add_of_le hi.1
    rw [blit_inside _ _ _ _ (by omega), h k (by omega)]
  · exact blit_outside _ _ _ _ hi

theorem blit_append (m : ℕ) :
    blit (blit mem base m xs) (base + m) n (fun k => xs (m + k)) = blit mem base (m + n) xs := by
  funext i
  by_cases hlow : base ≤ i ∧ i < base + m
  · obtain ⟨k, rfl⟩ := Nat.exists_eq_add_of_le hlow.1
    rw [blit_outside _ _ _ _ (by omega), blit_inside _ _ _ _ (by omega),
      blit_inside _ _ _ _ (by omega)]
  · by_cases hhigh : base + m ≤ i ∧ i < base + m + n
    · obtain ⟨k, rfl⟩ := Nat.exists_eq_add_of_le hhigh.1
      rw [blit_inside _ _ _ _ (by omega), Nat.add_assoc, blit_inside _ _ _ _ (by omega)]
    · rw [blit_outside _ _ _ _ hhigh, blit_outside _ _ _ _ hlow, blit_outside _ _ _ _ (by omega)]

/-- A block written with its image in `mem'`, which is `mem` elsewhere. -/
theorem blit_image {mem' : ℕ → α} (h : ∀ i, ¬ (base ≤ i ∧ i < base + n) → mem' i = mem i) :
    blit mem base n (fun k => mem' (base + k)) = mem' := by
  funext i
  by_cases hi : base ≤ i ∧ i < base + n
  · obtain ⟨k, rfl⟩ := Nat.exists_eq_add_of_le hi.1
    exact blit_inside _ _ _ _ (by omega)
  · rw [blit_outside _ _ _ _ hi, h i hi]

end Blit

/-- How the cells behave. -/
structure Cell (α : Type*) where
  program : α → α → α
  erased : α
  program_erased : ∀ x, program erased x = x
  program_self : ∀ x, program x x = x

variable (c : Cell α)

def program (mem : ℕ → α) (base n : ℕ) (xs : ℕ → α) : ℕ → α :=
  fun i => if base ≤ i ∧ i < base + n then c.program (mem i) (xs (i - base)) else mem i

def erase (mem : ℕ → α) (base n : ℕ) : ℕ → α :=
  blit mem base n fun _ => c.erased

/-- No cell needs an erase to take its new value. -/
def Reachable (mem : ℕ → α) (base n : ℕ) (xs : ℕ → α) : Prop :=
  ∀ k < n, c.program (mem (base + k)) (xs k) = xs k

section Program

variable {mem : ℕ → α} {base n : ℕ} {xs : ℕ → α}

theorem program_eq_blit (h : Reachable c mem base n xs) :
    program c mem base n xs = blit mem base n xs := by
  funext i
  by_cases hi : base ≤ i ∧ i < base + n
  · obtain ⟨k, rfl⟩ := Nat.exists_eq_add_of_le hi.1
    rw [blit_inside _ _ _ _ (by omega), program, if_pos hi, Nat.add_sub_cancel_left]
    exact h k (by omega)
  · rw [blit_outside _ _ _ _ hi, program, if_neg hi]

theorem program_congr {ys : ℕ → α} (h : ∀ k < n, xs k = ys k) :
    program c mem base n xs = program c mem base n ys := by
  funext i
  by_cases hi : base ≤ i ∧ i < base + n
  · rw [program, if_pos hi, program, if_pos hi, h _ (by omega)]
  · rw [program, if_neg hi, program, if_neg hi]

variable (mem base n xs) in
theorem program_append (m : ℕ) :
    program c (program c mem base m xs) (base + m) n (fun k => xs (m + k)) =
      program c mem base (m + n) xs := by
  funext i
  by_cases hlow : base ≤ i ∧ i < base + m
  · rw [program, if_neg (by omega), program, if_pos hlow, program, if_pos (by omega)]
  · by_cases hhigh : base + m ≤ i ∧ i < base + m + n
    · rw [program, if_pos hhigh, program, if_neg hlow, program, if_pos (by omega)]
      congr 2
      omega
    · rw [program, if_neg hhigh, program, if_neg hlow, program, if_neg (by omega)]

variable (mem base n xs) in
@[simp] theorem program_zero : program c mem base 0 xs = mem := by
  funext i
  exact if_neg (by omega)

theorem reachable_erase : Reachable c (erase c mem base n) base n xs := by
  intro k hk
  rw [erase, blit_inside _ _ _ _ hk]
  exact c.program_erased _

theorem program_erase : program c (erase c mem base n) base n xs = blit mem base n xs := by
  rw [program_eq_blit c (reachable_erase c)]
  funext i
  by_cases hi : base ≤ i ∧ i < base + n
  · rw [blit, if_pos hi, blit, if_pos hi]
  · rw [blit_outside _ _ _ _ hi, blit_outside _ _ _ _ hi, erase, blit_outside _ _ _ _ hi]

end Program

section Block

variable {mem : ℕ → α} {base n : ℕ} {xs : ℕ → α} {block size : ℕ}

/-- Outside a block that contains the range, the write changes nothing. -/
theorem blit_outside_block (hbase : block ≤ base) (hend : base + n ≤ block + size) (i : ℕ)
    (hi : ¬ (block ≤ i ∧ i < block + size)) : blit mem base n xs i = mem i := by
  apply blit_outside
  omega

theorem program_block_erased (hbase : block ≤ base) (hend : base + n ≤ block + size) :
    program c (erase c mem block size) block size (fun k => blit mem base n xs (block + k)) =
      blit mem base n xs := by
  rw [program_erase]
  exact blit_image _ _ _ (blit_outside_block hbase hend)

theorem program_block (hbase : block ≤ base) (hend : base + n ≤ block + size)
    (h : Reachable c mem base n xs) :
    program c mem block size (fun k => blit mem base n xs (block + k)) = blit mem base n xs := by
  rw [program_eq_blit c]
  · exact blit_image _ _ _ (blit_outside_block hbase hend)
  · intro k _
    dsimp only
    by_cases hk : base ≤ block + k ∧ block + k < base + n
    · obtain ⟨j, hj⟩ := Nat.exists_eq_add_of_le hk.1
      rw [hj, blit_inside _ _ _ _ (by omega)]
      exact h j (by omega)
    · rw [blit_outside _ _ _ _ hk]
      exact c.program_self _

end Block

end NorFlash
