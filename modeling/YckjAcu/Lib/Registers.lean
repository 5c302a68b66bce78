import Mathlib.Data.List.Induction

/-!
# Registers where the last writer wins

Operations of a type `ω` set some of the registers in `κ`; `latest` is the value of a
register after a list of them.  A component that obeys the rule for one operation
obeys it along every list.
-/

namespace Registers

variable {σ ω κ ν : Type*}

/-- What the last of the operations that set `k` put there, or else `init`. -/
def latest (sets : ω → κ → Option ν) (k : κ) (ops : List ω) (init : ν) : ν :=
  ((ops.filterMap fun op => sets op k).getLast?).getD init

@[simp] theorem latest_nil (sets : ω → κ → Option ν) (k : κ) (init : ν) :
    latest sets k [] init = init := rfl

theorem latest_append_singleton (sets : ω → κ → Option ν) (k : κ) (ops : List ω) (op : ω)
    (init : ν) :
    latest sets k (ops ++ [op]) init = (sets op k).getD (latest sets k ops init) := by
  cases h : sets op k <;> simp [latest, h]

theorem read_foldl (read : κ → σ → ν) {sets : ω → κ → Option ν} {exec : σ → ω → σ} {k : κ}
    (hexec : ∀ s op, read k (exec s op) = (sets op k).getD (read k s)) (s : σ) (ops : List ω) :
    read k (ops.foldl exec s) = latest sets k ops (read k s) := by
  induction ops using List.reverseRecOn with
  | nil => rfl
  | append_singleton ops op ih =>
      rw [List.foldl_append, List.foldl_cons, List.foldl_nil, hexec, ih, latest_append_singleton]

end Registers
