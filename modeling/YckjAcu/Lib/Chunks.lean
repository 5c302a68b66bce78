import Mathlib.Data.List.Basic
import Mathlib.Tactic.Common

/-!
# Chunks written to a memory

A memory is a function of the address.  A list cut into chunks is written chunk
by chunk at consecutive addresses, but only the first `w` elements of each; an
address then holds the element of the list exactly when its offset in its chunk
is below `w`.
-/

namespace Chunks

variable {α : Type*}

def store (mem : ℕ → α) (addr : ℕ) (xs : List α) : ℕ → α :=
  fun k => if addr ≤ k then (xs[k - addr]?).getD (mem k) else mem k

theorem store_of_lt {mem : ℕ → α} {addr k : ℕ} {xs : List α} (h : k < addr) :
    store mem addr xs k = mem k := by
  rw [store, if_neg (by omega)]

theorem store_add (mem : ℕ → α) (addr k : ℕ) (xs : List α) :
    store mem addr xs (addr + k) = (xs[k]?).getD (mem (addr + k)) := by
  rw [store, if_pos (by omega), Nat.add_sub_cancel_left]

/-- Write the first `w` elements of every chunk. -/
def storeHeads (w : ℕ) : (ℕ → α) → ℕ → List (List α) → (ℕ → α)
  | mem, _, [] => mem
  | mem, addr, c :: cs => storeHeads w (store mem addr (c.take w)) (addr + c.length) cs

/-- The offset of a position in its chunk. -/
def offset : List (List α) → ℕ → ℕ
  | [], k => k
  | c :: cs, k => if k < c.length then k else offset cs (k - c.length)

theorem storeHeads_of_lt (w : ℕ) {cs : List (List α)} {mem : ℕ → α} {addr k : ℕ}
    (h : k < addr) : storeHeads w mem addr cs k = mem k := by
  induction cs generalizing mem addr with
  | nil => rfl
  | cons c cs ih =>
      rw [storeHeads, ih (by omega)]
      exact store_of_lt h

theorem storeHeads_beyond (w : ℕ) {cs : List (List α)} {mem : ℕ → α} {addr k : ℕ}
    (h : addr + cs.flatten.length ≤ k) : storeHeads w mem addr cs k = mem k := by
  induction cs generalizing mem addr with
  | nil => rfl
  | cons c cs ih =>
      rw [List.flatten_cons, List.length_append] at h
      obtain ⟨j, rfl⟩ := Nat.exists_eq_add_of_le (show addr ≤ k by omega)
      have hnone : (c.take w)[j]? = none := by
        rw [List.getElem?_eq_none_iff, List.length_take]
        omega
      rw [storeHeads, ih (by omega), store_add, hnone]
      rfl

theorem storeHeads_inside (w : ℕ) {cs : List (List α)} (mem : ℕ → α) (addr : ℕ) {k : ℕ}
    (h : k < cs.flatten.length) :
    storeHeads w mem addr cs (addr + k) =
      if offset cs k < w then cs.flatten[k] else mem (addr + k) := by
  induction cs generalizing mem addr k with
  | nil => simp at h
  | cons c cs ih =>
      rw [storeHeads, offset]
      by_cases hk : k < c.length
      · rw [storeHeads_of_lt w (by omega), store_add, if_pos hk]
        by_cases hw : k < w
        · simp [hw, hk]
        · have hnone : (c.take w)[k]? = none := List.getElem?_take_eq_none (Nat.not_lt.mp hw)
          rw [hnone, if_neg hw, Option.getD_none]
      · have hlen : k - c.length < cs.flatten.length := by
          rw [List.flatten_cons, List.length_append] at h
          omega
        have haddr : addr + k = addr + c.length + (k - c.length) := by omega
        have hmem : store mem addr (c.take w) (addr + k) = mem (addr + k) := by
          have hnone : (c.take w)[k]? = none := by
            rw [List.getElem?_eq_none_iff, List.length_take]
            omega
          rw [store_add, hnone]
          rfl
        rw [if_neg hk]
        simp only [List.flatten_cons]
        rw [List.getElem_append_right (by omega), haddr, ih _ _ hlen, ← haddr, hmem]

end Chunks
