import Mathlib.Data.List.Sort

/-!
# Delta queues

A queue of entries that are due at certain times keeps with each entry only the time
from the entry before it.  Seen from a time `t` the entries have their due times back,
in order; inserting, erasing and waiting are then what they should be.
-/

namespace DeltaQueue

variable {α : Type*}

/-- The entries with their due times, seen from the time `t`. -/
def due : ℕ → List (ℕ × α) → List (ℕ × α)
  | _, [] => []
  | t, (d, a) :: xs => (t + d, a) :: due (t + d) xs

/-- An entry goes behind all that are due no later, and what is due after it counts from
it. -/
def insert (d : ℕ) (a : α) : List (ℕ × α) → List (ℕ × α)
  | [] => [(d, a)]
  | (e, b) :: xs => if d < e then (d, a) :: (e - d, b) :: xs else (e, b) :: insert (d - e) a xs

def delay (d : ℕ) : List (ℕ × α) → List (ℕ × α)
  | [] => []
  | (e, b) :: xs => (e + d, b) :: xs

/-- The time of an erased entry goes to the next one. -/
def erase (p : α → Bool) : List (ℕ × α) → List (ℕ × α)
  | [] => []
  | (d, a) :: xs => if p a then delay d xs else (d, a) :: erase p xs

/-- Time that has passed is taken off the first entry. -/
def pass (n : ℕ) : List (ℕ × α) → List (ℕ × α)
  | [] => []
  | (e, b) :: xs => (e - n, b) :: xs

/-- The time of the last entry from now. -/
def total : List (ℕ × α) → ℕ
  | [] => 0
  | (d, _) :: xs => d + total xs

variable {t d n : ℕ} {a : α} {xs : List (ℕ × α)} {p : α → Bool}

@[simp] theorem due_nil : due t ([] : List (ℕ × α)) = [] := rfl

@[simp] theorem due_cons : due t ((d, a) :: xs) = (t + d, a) :: due (t + d) xs := rfl

@[simp] theorem total_nil : total ([] : List (ℕ × α)) = 0 := rfl

@[simp] theorem total_cons : total ((d, a) :: xs) = d + total xs := rfl

/-! ### Due times -/

theorem due_insert :
    due t (insert d a xs) = (due t xs).orderedInsert (fun x y => x.1 < y.1) (t + d, a) := by
  induction xs generalizing t d with
  | nil => rfl
  | cons x xs ih =>
      obtain ⟨e, b⟩ := x
      rw [insert, due_cons, List.orderedInsert_cons]
      by_cases hlt : d < e
      · rw [if_pos hlt, if_pos (Nat.add_lt_add_left hlt t), due_cons, due_cons,
          Nat.add_assoc, Nat.add_sub_cancel' hlt.le]
      · have hle : e ≤ d := Nat.le_of_not_lt hlt
        rw [if_neg hlt, if_neg (fun h => hlt (Nat.lt_of_add_lt_add_left h)), due_cons, ih,
          Nat.add_assoc, Nat.add_sub_cancel' hle]

theorem due_delay : due t (delay d xs) = due (t + d) xs := by
  cases xs with
  | nil => rfl
  | cons x xs =>
      obtain ⟨e, b⟩ := x
      rw [delay, due_cons, due_cons, Nat.add_assoc, Nat.add_comm d e]

theorem due_erase : due t (erase p xs) = (due t xs).eraseP fun x => p x.2 := by
  induction xs generalizing t with
  | nil => rfl
  | cons x xs ih =>
      obtain ⟨e, b⟩ := x
      rw [erase, due_cons, List.eraseP_cons]
      cases hp : p b with
      | true => simp [due_delay]
      | false => simp [ih]

theorem due_pass (h : ∀ x ∈ xs.head?, n ≤ x.1) : due (t + n) (pass n xs) = due t xs := by
  cases xs with
  | nil => rfl
  | cons x xs =>
      obtain ⟨e, b⟩ := x
      have hle : n ≤ e := h (e, b) rfl
      rw [pass, due_cons, due_cons, Nat.add_assoc, Nat.add_sub_cancel' hle]

theorem length_due : (due t xs).length = xs.length := by
  induction xs generalizing t with
  | nil => rfl
  | cons x xs ih => exact congrArg Nat.succ ih

theorem map_snd_due : (due t xs).map Prod.snd = xs.map Prod.snd := by
  induction xs generalizing t with
  | nil => rfl
  | cons x xs ih => exact congrArg (x.2 :: ·) ih

/-! ### The last due time -/

theorem total_insert : total (insert d a xs) = max d (total xs) := by
  induction xs generalizing d with
  | nil => simp [insert]
  | cons x xs ih =>
      obtain ⟨e, b⟩ := x
      rw [insert]
      split_ifs with hlt
      · simp only [total_cons]
        omega
      · rw [total_cons, total_cons, ih]
        omega

theorem total_delay_le : total (delay d xs) ≤ d + total xs := by
  cases xs with
  | nil => exact Nat.zero_le _
  | cons x xs =>
      obtain ⟨e, b⟩ := x
      rw [delay, total_cons, total_cons]
      omega

theorem total_erase_le : total (erase p xs) ≤ total xs := by
  induction xs with
  | nil => exact Nat.le_refl _
  | cons x xs ih =>
      obtain ⟨e, b⟩ := x
      rw [erase]
      split_ifs with hp
      · exact total_delay_le
      · simp only [total_cons]
        omega

theorem total_pass_le : total (pass n xs) ≤ total xs := by
  cases xs with
  | nil => exact Nat.le_refl _
  | cons x xs =>
      obtain ⟨e, b⟩ := x
      simp only [pass, total_cons]
      omega

end DeltaQueue
