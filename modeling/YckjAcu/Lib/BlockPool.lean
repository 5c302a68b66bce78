import Mathlib.Data.List.Pairwise
import Mathlib.Order.Basic
import Mathlib.Tactic.Common

/-!
# A pool of blocks with a count in every block of an allocation

The map of the pool holds 0 for a free block and, in every block of an
allocation, the number of its blocks.  It represents a list of allocations with
their users; marking a free run adds an allocation, and clearing as many
entries as the first block of an allocation counts removes exactly that one.
-/

namespace BlockPool

variable {U α : Type*}

structure Alloc (U : Type*) where
  start : ℕ
  count : ℕ
  user : U
deriving DecidableEq

def Alloc.Covers (a : Alloc U) (b : ℕ) : Prop := a.start ≤ b ∧ b < a.start + a.count

/-- Assign `v` to a run of entries. -/
def mark (map : ℕ → α) (start count : ℕ) (v : α) : ℕ → α :=
  fun b => if start ≤ b ∧ b < start + count then v else map b

/-- The allocations left when a run of blocks is cleared. -/
def release (start count : ℕ) (allocs : List (Alloc U)) : List (Alloc U) :=
  allocs.filter fun a => ¬ (start ≤ a.start ∧ a.start < start + count)

def Apart (a c : Alloc U) : Prop :=
  a.start + a.count ≤ c.start ∨ c.start + c.count ≤ a.start

instance : Std.Symm (Apart (U := U)) := ⟨fun _ _ h => Or.symm h⟩

structure Represents (map : ℕ → ℕ) (allocs : List (Alloc U)) : Prop where
  nonempty : ∀ a ∈ allocs, 0 < a.count
  disjoint : allocs.Pairwise Apart
  marked : ∀ a ∈ allocs, ∀ b, a.Covers b → map b = a.count
  free : ∀ b, (∀ a ∈ allocs, ¬ a.Covers b) → map b = 0

theorem represents_nil : Represents (fun _ => 0) ([] : List (Alloc U)) where
  nonempty := by simp
  disjoint := List.Pairwise.nil
  marked := by simp
  free := fun _ _ => rfl

namespace Represents

variable {map : ℕ → ℕ} {allocs : List (Alloc U)}

theorem apart (h : Represents map allocs) {a c : Alloc U} (ha : a ∈ allocs) (hc : c ∈ allocs)
    (hne : a ≠ c) : Apart a c :=
  h.disjoint.forall ha hc hne

theorem map_start (h : Represents map allocs) {a : Alloc U} (ha : a ∈ allocs) :
    map a.start = a.count := by
  have hpos := h.nonempty a ha
  exact h.marked a ha a.start ⟨Nat.le_refl _, by omega⟩

/-- A run of free blocks becomes an allocation. -/
theorem cons (h : Represents map allocs) {start count : ℕ} (hpos : 0 < count)
    (hfree : ∀ b, start ≤ b → b < start + count → map b = 0) (u : U) :
    Represents (mark map start count count) (⟨start, count, u⟩ :: allocs) where
  nonempty := by
    intro a ha
    rcases List.mem_cons.mp ha with rfl | ha
    · exact hpos
    · exact h.nonempty a ha
  disjoint := by
    refine List.Pairwise.cons (fun a ha => ?_) h.disjoint
    by_contra hmeet
    obtain ⟨h1, h2⟩ : a.start < start + count ∧ start < a.start + a.count := by
      simp only [Apart] at hmeet
      omega
    have hcount := h.nonempty a ha
    -- the later of the two starts lies in both runs
    have hmap := h.marked a ha (max start a.start) ⟨by omega, by omega⟩
    have hzero := hfree (max start a.start) (by omega) (by omega)
    omega
  marked := by
    intro a ha b hb
    rw [mark]
    rcases List.mem_cons.mp ha with rfl | ha
    · exact if_pos hb
    · have hmap := h.marked a ha b hb
      have hcount := h.nonempty a ha
      rw [if_neg]
      · exact hmap
      · rintro ⟨h1, h2⟩
        have hzero := hfree b h1 h2
        omega
  free := by
    intro b hb
    have hout : ¬ (start ≤ b ∧ b < start + count) := hb _ List.mem_cons_self
    rw [mark, if_neg hout]
    exact h.free b fun a ha => hb a (List.mem_cons_of_mem _ ha)

/-- Clearing from the start of an allocation releases that allocation only. -/
theorem mem_release (h : Represents map allocs) {a : Alloc U} (ha : a ∈ allocs) {c : Alloc U} :
    c ∈ release a.start (map a.start) allocs ↔ c ∈ allocs ∧ c ≠ a := by
  rw [release, List.mem_filter, h.map_start ha, decide_eq_true_iff]
  have hpos := h.nonempty a ha
  constructor
  · rintro ⟨hc, hout⟩
    refine ⟨hc, ?_⟩
    rintro rfl
    exact hout ⟨Nat.le_refl _, by omega⟩
  · rintro ⟨hc, hne⟩
    refine ⟨hc, ?_⟩
    have hcpos := h.nonempty c hc
    rcases h.apart hc ha hne with hle | hle <;> omega

theorem release (h : Represents map allocs) {a : Alloc U} (ha : a ∈ allocs) :
    Represents (mark map a.start (map a.start) 0)
      (BlockPool.release a.start (map a.start) allocs) where
  nonempty := fun c hc => h.nonempty c ((h.mem_release ha).mp hc).1
  disjoint := h.disjoint.filter _
  marked := by
    intro c hc b hb
    obtain ⟨hc, hne⟩ := (h.mem_release ha).mp hc
    rw [mark, h.map_start ha, if_neg]
    · exact h.marked c hc b hb
    · rintro ⟨h1, h2⟩
      obtain ⟨h3, h4⟩ := hb
      rcases h.apart hc ha hne with hle | hle <;> omega
  free := by
    intro b hb
    rw [mark, h.map_start ha]
    split
    · rfl
    · next hout =>
        apply h.free
        intro c hc hcov
        by_cases hca : c = a
        · rw [hca] at hcov
          exact hout hcov
        · exact hb c ((h.mem_release ha).mpr ⟨hc, hca⟩) hcov

end Represents

end BlockPool
