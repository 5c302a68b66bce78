import Mathlib.Order.WellFounded
import Mathlib.Tactic.Common

/-!
# Parties that take turns

Each turn takes a state to the next one; a party that can do nothing leaves it as it
is.  When every turn that does something lowers a rank, a schedule that forgets no
party comes to a state in which none of them can do anything, and stays there.
-/

namespace Turns

variable {τ σ : Type*}

/-- The state after `n` turns of a schedule. -/
def trace (turn : τ → σ → σ) (sched : ℕ → τ) (s : σ) : ℕ → σ
  | 0 => s
  | n + 1 => turn (sched n) (trace turn sched s n)

/-- Every party has its turn again and again. -/
def Fair (sched : ℕ → τ) : Prop := ∀ t n, ∃ m, n ≤ m ∧ sched m = t

/-- No party can do anything. -/
def Still (turn : τ → σ → σ) (s : σ) : Prop := ∀ t, turn t s = s

variable {turn : τ → σ → σ} {sched : ℕ → τ} {s : σ}

theorem trace_invariant {I : σ → Prop} (hI : ∀ s t, I s → I (turn t s)) (hs : I s) (n : ℕ) :
    I (trace turn sched s n) := by
  induction n with
  | zero => exact hs
  | succ n ih => exact hI _ _ ih

/-- From a state of lowest rank on nothing changes. -/
theorem trace_eq_of_rank_le {I : σ → Prop} (hI : ∀ s t, I s → I (turn t s)) {rank : σ → ℕ}
    (hrank : ∀ s t, I s → turn t s = s ∨ rank (turn t s) < rank s) (hs : I s) {N : ℕ}
    (hmin : ∀ n, rank (trace turn sched s N) ≤ rank (trace turn sched s n)) {n : ℕ} (hn : N ≤ n) :
    trace turn sched s n = trace turn sched s N := by
  induction n, hn using Nat.le_induction with
  | base => rfl
  | succ n hn ih =>
      rcases hrank _ (sched n) (trace_invariant hI hs n) with heq | hlt
      · exact heq.trans ih
      · have hle : rank (trace turn sched s N) ≤ rank (turn (sched n) (trace turn sched s n)) :=
          hmin (n + 1)
        rw [ih] at hlt hle
        exact absurd hlt hle.not_gt

/-- A fair schedule ends where no party can do anything. -/
theorem exists_still {I : σ → Prop} (hI : ∀ s t, I s → I (turn t s)) {rank : σ → ℕ}
    (hrank : ∀ s t, I s → turn t s = s ∨ rank (turn t s) < rank s) (hs : I s)
    (hfair : Fair sched) :
    ∃ t, I t ∧ Still turn t ∧ ∃ N, ∀ n, N ≤ n → trace turn sched s n = t := by
  let ranks : ℕ → ℕ := fun n => rank (trace turn sched s n)
  have hmin : ∀ n, ranks (Function.argmin ranks) ≤ ranks n := fun n =>
    Function.argmin_le ranks n
  have hlast : ∀ n, Function.argmin ranks ≤ n →
      trace turn sched s n = trace turn sched s (Function.argmin ranks) :=
    fun n hn => trace_eq_of_rank_le hI hrank hs hmin hn
  refine ⟨_, trace_invariant hI hs _, fun t => ?_, _, hlast⟩
  obtain ⟨m, hm, rfl⟩ := hfair t (Function.argmin ranks)
  have hnext : turn (sched m) (trace turn sched s m) = _ := hlast (m + 1) (Nat.le_succ_of_le hm)
  rw [hlast m hm] at hnext
  exact hnext

end Turns
