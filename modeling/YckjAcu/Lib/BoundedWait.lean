import Mathlib.Data.List.Basic

/-!
# Waiting for an answer with a budget

A wait takes one result after another until one of them answers.  Each result
changes a buffer; a result is charged against the budget unless the buffer it
leaves is a free one, and the wait gives up when the budget is spent.
-/

/-- How a result changes the buffer, after which buffers a result is not charged,
and which results end the wait. -/
structure Wait (α β : Type*) where
  recv : β → α → β
  free : β → Bool
  answers : α → Bool

namespace Wait

variable {α β : Type*} (W : Wait α β)

def after (b : β) (xs : List α) : β := xs.foldl W.recv b

def cost (b : β) (x : α) : ℕ := if W.free (W.recv b x) then 0 else 1

/-- What the results cost altogether. -/
def counted : β → List α → ℕ
  | _, [] => 0
  | b, x :: xs => W.cost b x + counted (W.recv b x) xs

def Quiet (xs : List α) : Prop := ∀ x ∈ xs, W.answers x = false

/-- The wait of budget `n` ends with the answer `x`. -/
def Answered (b : β) (n : ℕ) (xs : List α) (x : α) (rest : List α) : Prop :=
  ∃ pre, xs = pre ++ x :: rest ∧ W.Quiet pre ∧ W.answers x = true ∧ W.counted b pre < n

/-- It gives up, with the result `x` as the last one charged. -/
def TimedOut (b : β) (n : ℕ) (xs rest : List α) : Prop :=
  ∃ pre x, xs = pre ++ x :: rest ∧ W.Quiet (pre ++ [x]) ∧ W.cost (W.after b pre) x = 1 ∧
    W.counted b pre + 1 = n

/-- It is still going on after the results. -/
def Open (b : β) (n : ℕ) (xs : List α) : Prop := W.Quiet xs ∧ W.counted b xs < n

variable {W}

@[simp] theorem after_nil (b : β) : W.after b [] = b := rfl

@[simp] theorem after_cons (b : β) (x : α) (xs : List α) :
    W.after b (x :: xs) = W.after (W.recv b x) xs := rfl

@[simp] theorem counted_nil (b : β) : W.counted b [] = 0 := rfl

@[simp] theorem counted_cons (b : β) (x : α) (xs : List α) :
    W.counted b (x :: xs) = W.cost b x + W.counted (W.recv b x) xs := rfl

variable (W) in
theorem cost_le_one (b : β) (x : α) : W.cost b x ≤ 1 := by
  unfold cost
  split <;> omega

theorem counted_le_length (b : β) (xs : List α) : W.counted b xs ≤ xs.length := by
  induction xs generalizing b with
  | nil => exact Nat.le_refl _
  | cons x xs ih =>
      have hx := W.cost_le_one b x
      have hxs := ih (W.recv b x)
      simp only [counted_cons, List.length_cons]
      omega

theorem counted_append (b : β) (xs ys : List α) :
    W.counted b (xs ++ ys) = W.counted b xs + W.counted (W.after b xs) ys := by
  induction xs generalizing b with
  | nil => simp
  | cons x xs ih => simp [ih, Nat.add_assoc]

@[simp] theorem quiet_nil : W.Quiet [] := by simp [Quiet]

@[simp] theorem quiet_cons {x : α} {xs : List α} :
    W.Quiet (x :: xs) ↔ W.answers x = false ∧ W.Quiet xs := by
  simp [Quiet]

@[simp] theorem quiet_append {xs ys : List α} : W.Quiet (xs ++ ys) ↔ W.Quiet xs ∧ W.Quiet ys := by
  simp only [Quiet, List.mem_append]
  exact ⟨fun h => ⟨fun x hx => h x (Or.inl hx), fun x hx => h x (Or.inr hx)⟩,
    fun h x hx => hx.elim (h.1 x) (h.2 x)⟩

/-! ### The first result of a wait -/

theorem answered_head {b : β} {n : ℕ} {x : α} (xs : List α) (hx : W.answers x = true)
    (hn : 0 < n) : W.Answered b n (x :: xs) x xs :=
  ⟨[], rfl, quiet_nil, hx, hn⟩

theorem timedOut_head {b : β} {x : α} (xs : List α) (hx : W.answers x = false)
    (hcost : W.cost b x = 1) : W.TimedOut b 1 (x :: xs) xs :=
  ⟨[], x, rfl, by simpa using hx, hcost, rfl⟩

theorem Answered.cons {b : β} {k : ℕ} {xs rest : List α} {x y : α} (hx : W.answers x = false)
    (h : W.Answered (W.recv b x) k xs y rest) :
    W.Answered b (W.cost b x + k) (x :: xs) y rest := by
  obtain ⟨pre, rfl, hquiet, hy, hcount⟩ := h
  exact ⟨x :: pre, rfl, quiet_cons.mpr ⟨hx, hquiet⟩, hy, by simpa using hcount⟩

theorem TimedOut.cons {b : β} {k : ℕ} {xs rest : List α} {x : α} (hx : W.answers x = false)
    (h : W.TimedOut (W.recv b x) k xs rest) :
    W.TimedOut b (W.cost b x + k) (x :: xs) rest := by
  obtain ⟨pre, y, rfl, hquiet, hcost, hcount⟩ := h
  refine ⟨x :: pre, y, rfl, quiet_cons.mpr ⟨hx, hquiet⟩, hcost, ?_⟩
  rw [counted_cons, Nat.add_assoc, hcount]

theorem Open.cons {b : β} {k : ℕ} {xs : List α} {x : α} (hx : W.answers x = false)
    (h : W.Open (W.recv b x) k xs) : W.Open b (W.cost b x + k) (x :: xs) :=
  ⟨quiet_cons.mpr ⟨hx, h.1⟩, by simpa using h.2⟩

/-- A wait is answered, gives up or goes on. -/
theorem answered_or_timedOut_or_open (b : β) {n : ℕ} (hn : 0 < n) (xs : List α) :
    (∃ x rest, W.Answered b n xs x rest) ∨ (∃ rest, W.TimedOut b n xs rest) ∨ W.Open b n xs := by
  induction xs generalizing b n with
  | nil => exact Or.inr (Or.inr ⟨quiet_nil, hn⟩)
  | cons x xs ih =>
      cases hx : W.answers x with
      | true => exact Or.inl ⟨x, xs, answered_head xs hx hn⟩
      | false =>
          obtain ⟨k, rfl⟩ := Nat.exists_eq_add_of_le (Nat.le_trans (W.cost_le_one b x) hn)
          rcases Nat.eq_zero_or_pos k with rfl | hk
          · have hcost : W.cost b x = 1 := Nat.le_antisymm (W.cost_le_one b x) hn
            rw [hcost]
            exact Or.inr (Or.inl ⟨xs, timedOut_head xs hx hcost⟩)
          · rcases ih (W.recv b x) hk with ⟨y, rest, h⟩ | ⟨rest, h⟩ | h
            · exact Or.inl ⟨y, rest, h.cons hx⟩
            · exact Or.inr (Or.inl ⟨rest, h.cons hx⟩)
            · exact Or.inr (Or.inr (h.cons hx))

theorem first_answer_unique {pre pre' rest rest' : List α} {x x' : α}
    (h : pre ++ x :: rest = pre' ++ x' :: rest') (hpre : W.Quiet pre) (hx : W.answers x = true)
    (hpre' : W.Quiet pre') (hx' : W.answers x' = true) : pre = pre' ∧ x = x' ∧ rest = rest' := by
  induction pre generalizing pre' with
  | nil =>
      cases pre' with
      | nil => simpa using h
      | cons y ys =>
          obtain ⟨rfl, -⟩ := List.cons.inj h
          simp [hx] at hpre'
  | cons y ys ih =>
      cases pre' with
      | nil =>
          obtain ⟨rfl, -⟩ := List.cons.inj h
          simp [hx'] at hpre
      | cons z zs =>
          obtain ⟨rfl, htail⟩ := List.cons.inj h
          obtain ⟨rfl, hrest⟩ := ih htail (quiet_cons.mp hpre).2 (quiet_cons.mp hpre').2
          exact ⟨rfl, hrest⟩

theorem Answered.unique {b : β} {n : ℕ} {xs rest rest' : List α} {x x' : α}
    (h : W.Answered b n xs x rest) (h' : W.Answered b n xs x' rest') : x = x' ∧ rest = rest' := by
  obtain ⟨pre, rfl, hquiet, hx, -⟩ := h
  obtain ⟨pre', heq, hquiet', hx', -⟩ := h'
  exact (first_answer_unique heq hquiet hx hquiet' hx').2

theorem answered_of_length {b : β} {n : ℕ} {pre : List α} {x : α} (rest : List α)
    (hpre : W.Quiet pre) (hx : W.answers x = true) (hlen : pre.length < n) :
    W.Answered b n (pre ++ x :: rest) x rest :=
  ⟨pre, rfl, hpre, hx, Nat.lt_of_le_of_lt (counted_le_length b pre) hlen⟩

theorem quiet_or_exists_first (xs : List α) :
    W.Quiet xs ∨ ∃ pre x rest, xs = pre ++ x :: rest ∧ W.Quiet pre ∧ W.answers x = true := by
  induction xs with
  | nil => exact Or.inl quiet_nil
  | cons x xs ih =>
      cases hx : W.answers x with
      | true => exact Or.inr ⟨[], x, xs, rfl, quiet_nil, hx⟩
      | false =>
          rcases ih with h | ⟨pre, y, rest, rfl, hquiet, hy⟩
          · exact Or.inl (quiet_cons.mpr ⟨hx, h⟩)
          · exact Or.inr ⟨x :: pre, y, rest, rfl, quiet_cons.mpr ⟨hx, hquiet⟩, hy⟩

/-! ### Renamed results -/

/-- A renaming of results and buffers that the wait does not notice. -/
structure Renaming (W : Wait α β) (f : α → α) (g : β → β) : Prop where
  recv : ∀ b x, W.recv (g b) (f x) = g (W.recv b x)
  free : ∀ b, W.free (g b) = W.free b
  answers : ∀ x, W.answers (f x) = W.answers x

section Renaming

variable {f : α → α} {g : β → β}

theorem Renaming.cost (h : W.Renaming f g) (b : β) (x : α) : W.cost (g b) (f x) = W.cost b x := by
  rw [Wait.cost, Wait.cost, h.recv, h.free]

theorem Renaming.after (h : W.Renaming f g) (b : β) (xs : List α) :
    W.after (g b) (xs.map f) = g (W.after b xs) := by
  induction xs generalizing b with
  | nil => rfl
  | cons x xs ih => rw [List.map_cons, after_cons, h.recv, ih, after_cons]

theorem Renaming.counted (h : W.Renaming f g) (b : β) (xs : List α) :
    W.counted (g b) (xs.map f) = W.counted b xs := by
  induction xs generalizing b with
  | nil => rfl
  | cons x xs ih => rw [List.map_cons, counted_cons, h.cost, h.recv, ih, counted_cons]

theorem Renaming.quiet (h : W.Renaming f g) (xs : List α) : W.Quiet (xs.map f) ↔ W.Quiet xs := by
  simp [Quiet, h.answers]

theorem Answered.map (hfg : W.Renaming f g) {b : β} {n : ℕ} {xs rest : List α} {x : α}
    (h : W.Answered b n xs x rest) : W.Answered (g b) n (xs.map f) (f x) (rest.map f) := by
  obtain ⟨pre, rfl, hquiet, hx, hcount⟩ := h
  refine ⟨pre.map f, by simp, (hfg.quiet pre).mpr hquiet, (hfg.answers x).trans hx, ?_⟩
  rwa [hfg.counted]

theorem TimedOut.map (hfg : W.Renaming f g) {b : β} {n : ℕ} {xs rest : List α}
    (h : W.TimedOut b n xs rest) : W.TimedOut (g b) n (xs.map f) (rest.map f) := by
  obtain ⟨pre, x, rfl, hquiet, hcost, hcount⟩ := h
  refine ⟨pre.map f, f x, by simp, ?_, ?_, ?_⟩
  · rw [← hfg.quiet, List.map_append] at hquiet
    exact hquiet
  · rw [hfg.after, hfg.cost, hcost]
  · rw [hfg.counted, hcount]

end Renaming

end Wait
