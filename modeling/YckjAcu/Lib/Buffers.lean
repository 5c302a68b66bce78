import Mathlib

/-!
# Buffers read at fixed places

`v.get i` reads a vector at a literal index without a proof about bounds in the
term; here are its rules for the ways in which vectors are built.
-/

namespace Buffers

/-! The lengths at which literal indices are used. -/

instance neZero_2 : NeZero 2 := ⟨by decide⟩
instance neZero_3 : NeZero 3 := ⟨by decide⟩
instance neZero_4 : NeZero 4 := ⟨by decide⟩
instance neZero_5 : NeZero 5 := ⟨by decide⟩
instance neZero_7 : NeZero 7 := ⟨by decide⟩
instance neZero_8 : NeZero 8 := ⟨by decide⟩
instance neZero_10 : NeZero 10 := ⟨by decide⟩
instance neZero_11 : NeZero 11 := ⟨by decide⟩
instance neZero_14 : NeZero 14 := ⟨by decide⟩
instance neZero_16 : NeZero 16 := ⟨by decide⟩
instance neZero_32 : NeZero 32 := ⟨by decide⟩
instance neZero_33 : NeZero 33 := ⟨by decide⟩
instance neZero_1024 : NeZero 1024 := ⟨by decide⟩
instance neZero_1029 : NeZero 1029 := ⟨by decide⟩

variable {α : Type*} {n : ℕ}

@[simp] theorem get_mk (xs : Array α) (h : xs.size = n) (i : Fin n) :
    (Vector.mk xs h).get i = (Vector.mk xs h)[i.val] := rfl

@[simp] theorem get_ofFn (f : Fin n → α) (i : Fin n) : (Vector.ofFn f).get i = f i := by
  rw [Vector.get_eq_getElem, Vector.getElem_ofFn]

@[simp] theorem get_replicate (a : α) (i : Fin n) : (Vector.replicate n a).get i = a := by
  rw [Vector.get_eq_getElem, Vector.getElem_replicate]

@[simp] theorem get_setIfInBounds_self (v : Vector α n) (i : Fin n) (a : α) :
    (v.setIfInBounds i a).get i = a := by
  rw [Vector.get_eq_getElem, Vector.getElem_setIfInBounds_self]

theorem get_setIfInBounds_of_ne (v : Vector α n) {i : ℕ} {j : Fin n} (h : i ≠ j.val) (a : α) :
    (v.setIfInBounds i a).get j = v.get j := by
  rw [Vector.get_eq_getElem, Vector.getElem_setIfInBounds_ne j.isLt h, Vector.get_eq_getElem]

@[simp] theorem get_zero_setIfInBounds_zero [NeZero n] (v : Vector α n) (a : α) :
    (v.setIfInBounds 0 a).get 0 = a := get_setIfInBounds_self v 0 a

@[simp] theorem get_zero_setIfInBounds_succ [NeZero n] (v : Vector α n) (k : ℕ) (a : α) :
    (v.setIfInBounds (k + 1) a).get 0 = v.get 0 :=
  get_setIfInBounds_of_ne v (Nat.succ_ne_zero k) a

@[simp] theorem setIfInBounds_zero_get_zero [NeZero n] (v : Vector α n) :
    v.setIfInBounds 0 (v.get 0) = v := by
  ext i hi
  rw [Vector.getElem_setIfInBounds hi]
  split
  · subst i
    rfl
  · rfl

theorem ext_get {v w : Vector α n} (h : ∀ i, v.get i = w.get i) : v = w :=
  Vector.ext fun i hi => h ⟨i, hi⟩

end Buffers
