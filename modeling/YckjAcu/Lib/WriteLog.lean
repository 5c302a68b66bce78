import Mathlib.Data.List.Basic
import Mathlib.Logic.Function.Basic

/-!
# Logs of single writes

A memory is a map from cells to values; an operation on it is the list of its
single writes.  An operation that is interrupted has done an initial part of its
list.
-/

namespace WriteLog

variable {A V : Type*} [DecidableEq A]

def applyLog (ws : List (A × V)) (m : A → V) : A → V :=
  ws.foldl (fun m w => Function.update m w.1 w.2) m

@[simp] theorem applyLog_nil (m : A → V) : applyLog [] m = m := rfl

@[simp] theorem applyLog_cons (w : A × V) (ws : List (A × V)) (m : A → V) :
    applyLog (w :: ws) m = applyLog ws (Function.update m w.1 w.2) := rfl

theorem applyLog_append (ws vs : List (A × V)) (m : A → V) :
    applyLog (ws ++ vs) m = applyLog vs (applyLog ws m) := List.foldl_append

/-- A cell holds its old value or a value that was written to it. -/
theorem applyLog_value (ws : List (A × V)) (m : A → V) (a : A) :
    applyLog ws m a = m a ∨ ∃ w ∈ ws, w.1 = a ∧ applyLog ws m a = w.2 := by
  induction ws generalizing m with
  | nil => exact Or.inl rfl
  | cons w ws ih =>
      rw [applyLog_cons]
      rcases ih (Function.update m w.1 w.2) with h | ⟨v, hv, hva, h⟩
      · by_cases hw : w.1 = a
        · subst hw
          rw [Function.update_self] at h
          exact Or.inr ⟨w, List.mem_cons_self, rfl, h⟩
        · rw [Function.update_of_ne (Ne.symm hw)] at h
          exact Or.inl h
      · exact Or.inr ⟨v, List.mem_cons_of_mem w hv, hva, h⟩

theorem applyLog_of_notMem {ws : List (A × V)} {a : A} (h : ∀ w ∈ ws, w.1 ≠ a) (m : A → V) :
    applyLog ws m a = m a := by
  rcases applyLog_value ws m a with hold | ⟨w, hw, hwa, -⟩
  · exact hold
  · exact absurd hwa (h w hw)

/-- An interrupted operation leaves the cells alone that it does not write. -/
theorem applyLog_take_of_notMem {ws : List (A × V)} {a : A} (h : ∀ w ∈ ws, w.1 ≠ a) (m : A → V)
    (n : ℕ) : applyLog (ws.take n) m a = m a :=
  applyLog_of_notMem (fun w hw => h w (List.mem_of_mem_take hw)) m

theorem applyLog_take_value (ws : List (A × V)) (m : A → V) (a : A) (n : ℕ) :
    applyLog (ws.take n) m a = m a ∨ ∃ w ∈ ws, w.1 = a ∧ applyLog (ws.take n) m a = w.2 := by
  rcases applyLog_value (ws.take n) m a with h | ⟨w, hw, hwa, h⟩
  · exact Or.inl h
  · exact Or.inr ⟨w, List.mem_of_mem_take hw, hwa, h⟩

/-- The first write of an interrupted operation stays, unless a later one gives its
cell another value. -/
theorem applyLog_take_head {w : A × V} {ws : List (A × V)} (h : ∀ v ∈ ws, v.1 = w.1 → v.2 = w.2)
    (m : A → V) {n : ℕ} (hn : n ≠ 0) : applyLog ((w :: ws).take n) m w.1 = w.2 := by
  obtain ⟨k, rfl⟩ := Nat.exists_eq_succ_of_ne_zero hn
  rw [List.take_succ_cons, applyLog_cons]
  rcases applyLog_take_value ws (Function.update m w.1 w.2) w.1 k with hold | ⟨v, hv, hvw, hnew⟩
  · rw [hold, Function.update_self]
  · rw [hnew, h v hv hvw]

end WriteLog
