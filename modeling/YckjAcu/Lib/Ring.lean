import Mathlib.Logic.Function.Basic
import Mathlib.Tactic.Common

/-!
# Ring buffers

A ring of `size` cells with a read and a write index holds a list when its
elements lie one after another from the read index on, around the end, and the
write index is behind the last.
-/

namespace Ring

variable {α : Type*}

/-- `if (++i >= size) i = 0`. -/
def next (size i : ℕ) : ℕ := if size ≤ i + 1 then 0 else i + 1

/-- The cell `k` places after `i`, for `k` up to `size`. -/
def place (size i k : ℕ) : ℕ := if i + k < size then i + k else i + k - size

structure Holds (size : ℕ) (cells : ℕ → α) (read write : ℕ) (xs : List α) : Prop where
  read_lt : read < size
  length_le : xs.length ≤ size
  write_eq : write = place size read xs.length
  cell : ∀ k (h : k < xs.length), cells (place size read k) = xs[k]

section Places

variable {size i j k : ℕ}

theorem place_lt (hi : i < size) (hk : k ≤ size) : place size i k < size := by
  unfold place
  split <;> omega

theorem place_zero (hi : i < size) : place size i 0 = i := if_pos hi

theorem place_ne (hj : j < k) (hk : k < size) : place size i j ≠ place size i k := by
  unfold place
  split <;> split <;> omega

theorem next_lt (hi : i < size) : next size i < size := by
  unfold next
  split <;> omega

theorem next_place (hi : i < size) (hk : k < size) :
    next size (place size i k) = place size i (k + 1) := by
  unfold next place
  split <;> split <;> split <;> omega

theorem place_next (hi : i < size) (hk : k + 1 ≤ size) :
    place size (next size i) k = place size i (k + 1) := by
  unfold next place
  split <;> split <;> split <;> omega

end Places

section Holds

variable {size : ℕ} {cells : ℕ → α} {read write : ℕ} {xs : List α}

theorem holds_nil (h : read < size) : Holds size cells read read [] where
  read_lt := h
  length_le := Nat.zero_le size
  write_eq := (place_zero h).symm
  cell := fun k hk => absurd hk (Nat.not_lt_zero k)

theorem Holds.write_lt (h : Holds size cells read write xs) : write < size := by
  rw [h.write_eq]
  exact place_lt h.read_lt h.length_le

/-- With room left, an element stored at the write index is the new last one. -/
theorem Holds.push (h : Holds size cells read write xs) (hroom : xs.length < size) (a : α) :
    Holds size (Function.update cells write a) read (next size write) (xs ++ [a]) := by
  have hlength : (xs ++ [a]).length = xs.length + 1 := List.length_append
  constructor
  · exact h.read_lt
  · rw [hlength]
    exact hroom
  · rw [hlength, h.write_eq, next_place h.read_lt hroom]
  · intro k hk
    rw [hlength] at hk
    by_cases hlast : k = xs.length
    · subst hlast
      rw [← h.write_eq, Function.update_self, List.getElem_concat_length rfl]
    · have hlt : k < xs.length := by omega
      have hne : place size read k ≠ write := by
        rw [h.write_eq]
        exact place_ne hlt hroom
      rw [Function.update_of_ne hne, h.cell k hlt, List.getElem_append_left hlt]

/-- Before the write index goes on, its cell belongs to no element. -/
theorem Holds.store (h : Holds size cells read write xs) (hroom : xs.length < size) (a : α) :
    Holds size (Function.update cells write a) read write xs where
  read_lt := h.read_lt
  length_le := h.length_le
  write_eq := h.write_eq
  cell := fun k hk => by
    have hne : place size read k ≠ write := by
      rw [h.write_eq]
      exact place_ne hk hroom
    rw [Function.update_of_ne hne, h.cell k hk]

/-- The elements are found from the read index on. -/
theorem Holds.eq_map (h : Holds size cells read write xs) :
    (List.range xs.length).map (fun k => cells (place size read k)) = xs := by
  apply List.ext_getElem
  · rw [List.length_map, List.length_range]
  · intro k _ hk
    rw [List.getElem_map, List.getElem_range, h.cell k hk]

/-- The read index finds the first element, and behind it the rest. -/
theorem Holds.pop {a : α} (h : Holds size cells read write (a :: xs)) :
    cells read = a ∧ Holds size cells (next size read) write xs := by
  have hlength : xs.length + 1 ≤ size := h.length_le
  constructor
  · have hfirst := h.cell 0 (Nat.zero_lt_succ _)
    rwa [place_zero h.read_lt] at hfirst
  · constructor
    · exact next_lt h.read_lt
    · omega
    · rw [place_next h.read_lt hlength]
      exact h.write_eq
    · intro k hk
      have hcell := h.cell (k + 1) (Nat.succ_lt_succ hk)
      rw [place_next h.read_lt (by omega)]
      exact hcell

end Holds

end Ring
