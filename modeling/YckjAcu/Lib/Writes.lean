import Mathlib.Data.List.Nodup
import Mathlib.Logic.Function.Basic
import Mathlib.Tactic.Common

/-!
# Assignments to a fixed buffer

A run of assignments `buf[i] = v`, first to last.  When no index is assigned
twice, the order does not matter and every assignment can be read back.  The same
for a buffer at an address `p` of a memory.
-/

namespace Writes

variable {α : Type*} {k : ℕ}

def applyWrites (ws : List (Fin k × α)) (buf : Vector α k) : Vector α k :=
  ws.foldl (fun b w => b.set w.1 w.2) buf

@[simp] theorem applyWrites_nil (buf : Vector α k) : applyWrites [] buf = buf := rfl

@[simp] theorem applyWrites_cons (w : Fin k × α) (ws : List (Fin k × α)) (buf : Vector α k) :
    applyWrites (w :: ws) buf = applyWrites ws (buf.set w.1 w.2) := rfl

theorem getElem_applyWrites_of_not_mem {ws : List (Fin k × α)} {i : ℕ} (hi : i < k)
    (h : ⟨i, hi⟩ ∉ ws.map Prod.fst) (buf : Vector α k) : (applyWrites ws buf)[i] = buf[i] := by
  induction ws generalizing buf with
  | nil => rfl
  | cons w ws ih =>
      rw [List.map_cons, List.mem_cons, not_or] at h
      have hne : w.1.val ≠ i := fun heq => h.1 (Fin.ext heq.symm)
      rw [applyWrites_cons, ih h.2]
      exact Vector.getElem_set_ne w.1.isLt hi hne

theorem getElem_applyWrites_of_mem {ws : List (Fin k × α)} (hnodup : (ws.map Prod.fst).Nodup)
    {i : ℕ} (hi : i < k) {v : α} (h : (⟨i, hi⟩, v) ∈ ws) (buf : Vector α k) :
    (applyWrites ws buf)[i] = v := by
  induction ws generalizing buf with
  | nil => simp at h
  | cons w ws ih =>
      rw [List.map_cons, List.nodup_cons] at hnodup
      rw [applyWrites_cons]
      rcases List.mem_cons.mp h with rfl | h
      · rw [getElem_applyWrites_of_not_mem hi hnodup.1]
        exact Vector.getElem_set_self hi
      · exact ih hnodup.2 h _

theorem applyWrites_congr {ws : List (Fin k × α)} {buf₁ buf₂ : Vector α k}
    (h : ∀ i (hi : i < k), ⟨i, hi⟩ ∉ ws.map Prod.fst → buf₁[i] = buf₂[i]) :
    applyWrites ws buf₁ = applyWrites ws buf₂ := by
  induction ws generalizing buf₁ buf₂ with
  | nil => exact Vector.ext fun i hi => h i hi (by simp)
  | cons w ws ih =>
      rw [applyWrites_cons, applyWrites_cons]
      apply ih
      intro i hi hmem
      by_cases heq : w.1.val = i
      · subst heq
        simp
      · rw [Vector.getElem_set_ne w.1.isLt hi heq, Vector.getElem_set_ne w.1.isLt hi heq]
        apply h i hi
        rw [List.map_cons, List.mem_cons, not_or]
        exact ⟨fun hw => heq (congrArg Fin.val hw.symm), hmem⟩

theorem applyWrites_eq_self {ws : List (Fin k × α)} {buf : Vector α k}
    (h : ∀ w ∈ ws, buf[w.1.val] = w.2) : applyWrites ws buf = buf := by
  induction ws with
  | nil => rfl
  | cons w ws ih =>
      have hset : buf.set w.1 w.2 = buf := by
        rw [← h w List.mem_cons_self]
        exact Vector.set_getElem_self w.1.isLt
      rw [applyWrites_cons, hset]
      exact ih fun v hv => h v (List.mem_cons_of_mem _ hv)

/-! ### A buffer in memory -/

/-- The assignments `p[i] = v`. -/
def writeMem (p : ℕ) (ws : List (ℕ × α)) (mem : ℕ → α) : ℕ → α :=
  ws.foldl (fun m w => Function.update m (p + w.1) w.2) mem

@[simp] theorem writeMem_nil (p : ℕ) (mem : ℕ → α) : writeMem p [] mem = mem := rfl

@[simp] theorem writeMem_cons (p : ℕ) (w : ℕ × α) (ws : List (ℕ × α)) (mem : ℕ → α) :
    writeMem p (w :: ws) mem = writeMem p ws (Function.update mem (p + w.1) w.2) := rfl

theorem writeMem_congr (p : ℕ) (ws : List (ℕ × α)) {mem mem' : ℕ → α} {y : ℕ}
    (h : mem y = mem' y) : writeMem p ws mem y = writeMem p ws mem' y := by
  induction ws generalizing mem mem' with
  | nil => exact h
  | cons w ws ih =>
      rw [writeMem_cons, writeMem_cons]
      apply ih
      by_cases hy : y = p + w.1
      · subst hy
        simp
      · rw [Function.update_of_ne hy, Function.update_of_ne hy, h]

theorem writeMem_of_not_mem {p : ℕ} {ws : List (ℕ × α)} {i : ℕ} (h : i ∉ ws.map Prod.fst)
    (mem : ℕ → α) : writeMem p ws mem (p + i) = mem (p + i) := by
  induction ws generalizing mem with
  | nil => rfl
  | cons w ws ih =>
      rw [List.map_cons, List.mem_cons, not_or] at h
      have hne : p + i ≠ p + w.1 := fun heq => h.1 (Nat.add_left_cancel heq)
      rw [writeMem_cons, ih h.2, Function.update_of_ne hne]

theorem writeMem_of_mem {p : ℕ} {ws : List (ℕ × α)} (hnodup : (ws.map Prod.fst).Nodup)
    {w : ℕ × α} (h : w ∈ ws) (mem : ℕ → α) : writeMem p ws mem (p + w.1) = w.2 := by
  induction ws generalizing mem with
  | nil => simp at h
  | cons v ws ih =>
      rw [List.map_cons, List.nodup_cons] at hnodup
      rw [writeMem_cons]
      rcases List.mem_cons.mp h with rfl | h
      · rw [writeMem_of_not_mem hnodup.1, Function.update_self]
      · exact ih hnodup.2 h _

end Writes
