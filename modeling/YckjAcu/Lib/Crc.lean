import Mathlib.Data.List.Basic
import Mathlib.Data.List.Zip
import Mathlib.Logic.Function.Basic

/-!
# Reflected cyclic redundancy checks

A register takes in one bit after another and is shifted towards its lowest bit.  It is
linear in register and bits, and when the polynomial has its top bit no step loses
anything: the register is 0 after at most as many bits as it has exactly when it held
these bits.
-/

namespace Crc

variable {w : ℕ} (poly : BitVec w)

/-- The register `s` takes in the bit `b`. -/
def step (s : BitVec w) (b : Bool) : BitVec w :=
  if s.getLsbD 0 ^^ b then (s >>> 1) ^^^ poly else s >>> 1

def run (s : BitVec w) (bits : List Bool) : BitVec w := bits.foldl (step poly) s

/-- The register that holds a list of bits, the first of them lowest. -/
def pack : List Bool → BitVec w
  | [] => 0#w
  | b :: bits => (pack bits).shiftConcat b

/-- The bits of a register, the lowest first. -/
def bits (x : BitVec w) : List Bool := (List.range w).map x.getLsbD

@[simp] theorem run_nil (s : BitVec w) : run poly s [] = s := rfl

@[simp] theorem run_cons (s : BitVec w) (b : Bool) (bits : List Bool) :
    run poly s (b :: bits) = run poly (step poly s b) bits := rfl

theorem run_append (s : BitVec w) (bits bits' : List Bool) :
    run poly s (bits ++ bits') = run poly (run poly s bits) bits' :=
  List.foldl_append

@[simp] theorem length_bits (x : BitVec w) : (bits x).length = w := by simp [bits]

/-! ### Linearity -/

theorem step_xor (s t : BitVec w) (b c : Bool) :
    step poly (s ^^^ t) (b ^^ c) = step poly s b ^^^ step poly t c := by
  have hcancel : s >>> 1 ^^^ poly ^^^ (t >>> 1 ^^^ poly) = s >>> 1 ^^^ t >>> 1 := by
    rw [BitVec.xor_assoc, BitVec.xor_comm poly, BitVec.xor_assoc, BitVec.xor_self,
      BitVec.xor_zero]
  simp only [step, BitVec.getLsbD_xor, BitVec.ushiftRight_xor_distrib]
  cases s.getLsbD 0 <;> cases t.getLsbD 0 <;> cases b <;> cases c <;> simp <;>
    first | exact hcancel.symm | ac_rfl

theorem run_xor {bs cs : List Bool} (h : bs.length = cs.length) (s t : BitVec w) :
    run poly (s ^^^ t) (List.zipWith xor bs cs) = run poly s bs ^^^ run poly t cs := by
  induction bs generalizing cs s t with
  | nil =>
      obtain rfl := List.length_eq_zero_iff.mp h.symm
      rfl
  | cons b bs ih =>
      obtain ⟨c, cs, rfl⟩ := List.exists_cons_of_length_eq_add_one h.symm
      rw [List.zipWith_cons_cons, run_cons, step_xor]
      exact ih (Nat.succ.inj h) _ _

@[simp] theorem run_zero_replicate (n : ℕ) : run poly 0#w (List.replicate n false) = 0#w := by
  induction n with
  | zero => rfl
  | succ n ih =>
      have hstep : step poly 0#w false = 0#w := by simp [step]
      rw [List.replicate_succ, run_cons, hstep, ih]

/-! ### Nothing is lost -/

variable {poly}

theorem eq_zero_of_step_false (hpoly : poly.msb = true) {s : BitVec w}
    (h : step poly s false = 0#w) : s = 0#w := by
  rw [step, Bool.xor_false] at h
  split at h
  · -- the top bit comes from the polynomial only
    have hshift : s >>> 1 = poly := BitVec.xor_eq_zero_iff.mp h
    rw [← hshift, BitVec.msb_eq_getLsbD_last, BitVec.getLsbD_ushiftRight] at hpoly
    have hout := BitVec.getLsbD_of_ge s (1 + (w - 1)) (by omega)
    exact absurd (hout.symm.trans hpoly) Bool.false_ne_true
  · next hlow =>
      apply BitVec.eq_of_getLsbD_eq
      intro i hi
      rw [BitVec.getLsbD_zero]
      cases i with
      | zero => exact Bool.eq_false_iff.mpr hlow
      | succ i =>
          have hbit := congrArg (fun x => BitVec.getLsbD x i) h
          rwa [BitVec.getLsbD_ushiftRight, Nat.add_comm 1, BitVec.getLsbD_zero] at hbit

theorem run_replicate_eq_zero_iff (hpoly : poly.msb = true) {s : BitVec w} (n : ℕ) :
    run poly s (List.replicate n false) = 0#w ↔ s = 0#w := by
  constructor
  · intro h
    induction n generalizing s with
    | zero => exact h
    | succ n ih => exact eq_zero_of_step_false hpoly (ih h)
  · rintro rfl
    exact run_zero_replicate poly n

/-! ### The bits that were in the register -/

theorem getLsbD_pack {bs : List Bool} {i : ℕ} (hi : i < w) :
    (pack bs : BitVec w).getLsbD i = bs.getD i false := by
  induction bs generalizing i with
  | nil => exact BitVec.getLsbD_zero
  | cons b bs ih =>
      rw [pack, BitVec.getLsbD_shiftConcat_eq_decide]
      cases i with
      | zero => simp [hi]
      | succ i => simp [hi, ih (Nat.lt_of_succ_lt hi)]

theorem pack_bits (x : BitVec w) : pack (bits x) = x := by
  apply BitVec.eq_of_getLsbD_eq
  intro i hi
  rw [getLsbD_pack hi, bits, List.getD_eq_getElem?_getD, List.getElem?_map,
    List.getElem?_range hi]
  rfl

theorem bits_pack {bs : List Bool} (h : bs.length = w) : bits (pack bs : BitVec w) = bs := by
  apply List.ext_getElem (by rw [length_bits, h])
  intro i hi hi'
  rw [length_bits] at hi
  simp [bits, getLsbD_pack hi, hi']

theorem bits_xor (x y : BitVec w) : bits (x ^^^ y) = List.zipWith xor (bits x) (bits y) := by
  simp [bits, List.zipWith_map_left, List.zipWith_map_right]

theorem step_shiftConcat (s : BitVec w) (b : Bool) {bs : List Bool} (h : bs.length < w) :
    step poly (s ^^^ (pack bs).shiftConcat b) false = step poly s b ^^^ pack bs := by
  have hself : step poly ((pack bs : BitVec w).shiftConcat b) b = pack bs := by
    have hlow : ((pack bs : BitVec w).shiftConcat b).getLsbD 0 = b := by
      rw [BitVec.getLsbD_shiftConcat_eq_decide]
      simp [Nat.zero_lt_of_lt h]
    rw [step, hlow, Bool.xor_self, if_neg Bool.false_ne_true]
    apply BitVec.eq_of_getLsbD_eq
    intro i hi
    rw [BitVec.getLsbD_ushiftRight, BitVec.getLsbD_shiftConcat_eq_decide]
    by_cases hlast : 1 + i < w
    · have hpos : 0 < 1 + i := Nat.add_pos_left Nat.one_pos i
      simp [hlast, hpos]
    · have hnone : bs[i]? = none := List.getElem?_eq_none (by omega)
      rw [getLsbD_pack hi, List.getD_eq_getElem?_getD, hnone]
      simp [hlast]
  rw [← hself, ← step_xor, Bool.xor_self, hself]

theorem run_eq_run_xor_pack {bs : List Bool} (h : bs.length ≤ w) (s : BitVec w) :
    run poly s bs = run poly (s ^^^ pack bs) (List.replicate bs.length false) := by
  induction bs generalizing s with
  | nil =>
      rw [pack, BitVec.xor_zero]
      rfl
  | cons b bs ih =>
      rw [run_cons, ih (Nat.le_of_succ_le h), List.length_cons, List.replicate_succ, run_cons, pack,
        step_shiftConcat s b h]

/-- After at most `w` bits the register is 0 exactly when it held them. -/
theorem run_eq_zero_iff (hpoly : poly.msb = true) {bs : List Bool} (h : bs.length ≤ w)
    {s : BitVec w} : run poly s bs = 0#w ↔ s = pack bs := by
  rw [run_eq_run_xor_pack h, run_replicate_eq_zero_iff hpoly, BitVec.xor_eq_zero_iff]

theorem eq_replicate_false {l : List Bool} (h : ∀ i : ℕ, l[i]? ≠ some true) :
    l = List.replicate l.length false := by
  rw [List.eq_replicate_iff]
  refine ⟨rfl, fun b hb => Bool.eq_false_iff.mpr fun htrue => ?_⟩
  obtain ⟨i, hi⟩ := List.mem_iff_getElem?.mp hb
  exact h i (htrue ▸ hi)

/-- An error within `w` consecutive bits does not go unseen. -/
theorem run_burst_ne_zero (hpoly : poly.msb = true) {e : List Bool} {k : ℕ} (hne : true ∈ e)
    (hwindow : ∀ i : ℕ, e[i]? = some true → k ≤ i ∧ i < k + w) : run poly 0#w e ≠ 0#w := by
  have hfront : e.take k = List.replicate (e.take k).length false := by
    apply eq_replicate_false
    intro i hi
    rw [List.getElem?_take] at hi
    split_ifs at hi with hlt
    exact Nat.not_lt.mpr (hwindow i hi).1 hlt
  have hback : (e.drop k).drop w = List.replicate ((e.drop k).drop w).length false := by
    apply eq_replicate_false
    intro i hi
    rw [List.drop_drop, List.getElem?_drop] at hi
    exact Nat.not_lt.mpr (Nat.le_add_right _ i) (hwindow _ hi).2
  intro h
  rw [← List.take_append_drop k e, ← List.take_append_drop w (e.drop k), run_append, run_append,
    hfront, run_zero_replicate, hback, run_replicate_eq_zero_iff hpoly,
    run_eq_zero_iff hpoly (List.length_take_le _ _)] at h
  obtain ⟨i, hi⟩ := List.mem_iff_getElem?.mp hne
  obtain ⟨hk, hkw⟩ := hwindow i hi
  have hbit : (pack ((e.drop k).take w) : BitVec w).getLsbD (i - k) = _ :=
    getLsbD_pack (by omega)
  rw [← h, BitVec.getLsbD_zero, List.getD_eq_getElem?_getD, List.getElem?_take_of_lt (by omega),
    List.getElem?_drop, Nat.add_sub_cancel' hk, hi] at hbit
  exact absurd hbit (by decide)

end Crc
