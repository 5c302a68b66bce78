import Mathlib.Logic.Function.Basic
import Mathlib.Tactic.Common

/-!
# A store of buffers and the memory that holds them

The store has for each address at most one buffer, with a size and with the bytes
that its owner has written so far.  It lies in a memory when no two buffers meet
and every byte written is found at its place.  The rules say which changes of the
memory realise the operations on the store.
-/

structure Buffer (β : Type*) where
  size : ℕ
  bytes : ℕ → Option β

/-- Buffers by their addresses. -/
abbrev BufferStore (β : Type*) := ℕ → Option (Buffer β)

section Buffer

variable {β : Type*}

def Buffer.write (i : ℕ) (v : β) (b : Buffer β) : Buffer β :=
  { b with bytes := Function.update b.bytes i (some v) }

/-- What is known of a buffer that has been copied into one of another size. -/
def Buffer.resize (n : ℕ) (b : Buffer β) : Buffer β :=
  ⟨n, fun i => if i < min n b.size then b.bytes i else none⟩

end Buffer

namespace BufferStore

variable {β : Type*}

def empty : BufferStore β := fun _ => none

/-- A new buffer, in which nothing has been written. -/
def alloc (p n : ℕ) (st : BufferStore β) : BufferStore β :=
  Function.update st p (some ⟨n, fun _ => none⟩)

def free (p : ℕ) (st : BufferStore β) : BufferStore β := Function.update st p none

def write (p i : ℕ) (v : β) (st : BufferStore β) : BufferStore β :=
  Function.update st p ((st p).map (Buffer.write i v))

/-- The buffer at `p` moves to `q`. -/
def move (p q n : ℕ) (st : BufferStore β) : BufferStore β :=
  Function.update (Function.update st q ((st p).map (Buffer.resize n))) p none

/-- The bytes from `p` on, `n` of them, belong to no buffer. -/
def Unused (p n : ℕ) (st : BufferStore β) : Prop :=
  ∀ q c, st q = some c → p + n ≤ q ∨ q + c.size ≤ p

structure LiesIn (mem : ℕ → β) (st : BufferStore β) : Prop where
  apart : ∀ p b q c, st p = some b → st q = some c → p ≠ q → p + b.size ≤ q ∨ q + c.size ≤ p
  read : ∀ p b i v, st p = some b → i < b.size → b.bytes i = some v → mem (p + i) = v

section Rules

variable {mem mem' : ℕ → β} {st : BufferStore β} {p q n i : ℕ} {b : Buffer β}

theorem liesIn_empty (mem : ℕ → β) : LiesIn mem empty where
  apart := fun _ _ _ _ h => by cases h
  read := fun _ _ _ _ h => by cases h

/-- Only the bytes of the buffers matter. -/
theorem LiesIn.frame (h : LiesIn mem st)
    (hframe : ∀ p b i, st p = some b → i < b.size → mem' (p + i) = mem (p + i)) :
    LiesIn mem' st where
  apart := h.apart
  read p b i v hp hi hv := by rw [hframe p b i hp hi, h.read p b i v hp hi hv]

theorem LiesIn.free (h : LiesIn mem st) (p : ℕ) : LiesIn mem (st.free p) := by
  have hold : ∀ q c, st.free p q = some c → st q = some c := by
    intro q c hq
    by_cases hpq : q = p
    · subst hpq
      simp [BufferStore.free] at hq
    · simpa [BufferStore.free, hpq] using hq
  refine ⟨fun q b r c hq hr hne => ?_, fun q b i v hq hi hv => ?_⟩
  · exact h.apart q b r c (hold q b hq) (hold r c hr) hne
  · exact h.read q b i v (hold q b hq) hi hv

/-- A buffer is put where no other is. -/
theorem LiesIn.insert (h : LiesIn mem st) (hunused : st.Unused p b.size)
    (hread : ∀ i v, i < b.size → b.bytes i = some v → mem (p + i) = v) :
    LiesIn mem (Function.update st p (some b)) := by
  have hcases : ∀ q c, Function.update st p (some b) q = some c →
      (q = p ∧ c = b) ∨ (q ≠ p ∧ st q = some c) := by
    intro q c hq
    by_cases hqp : q = p
    · subst hqp
      rw [Function.update_self] at hq
      exact Or.inl ⟨rfl, (Option.some.inj hq).symm⟩
    · rw [Function.update_of_ne hqp] at hq
      exact Or.inr ⟨hqp, hq⟩
  constructor
  · intro q c r d hq hr hne
    rcases hcases q c hq with ⟨rfl, rfl⟩ | ⟨-, hqold⟩ <;>
      rcases hcases r d hr with ⟨rfl, rfl⟩ | ⟨-, hrold⟩
    · exact absurd rfl hne
    · exact hunused r d hrold
    · exact (hunused q c hqold).symm
    · exact h.apart q c r d hqold hrold hne
  · intro q c i v hq hi hv
    rcases hcases q c hq with ⟨rfl, rfl⟩ | ⟨-, hqold⟩
    · exact hread i v hi hv
    · exact h.read q c i v hqold hi hv

theorem LiesIn.alloc (h : LiesIn mem st) (hunused : st.Unused p n) :
    LiesIn mem (st.alloc p n) := by
  refine h.insert hunused fun i v _ hv => ?_
  cases hv

/-- Writing a byte of a buffer. -/
theorem LiesIn.write (h : LiesIn mem st) (hp : st p = some b) (hi : i < b.size) (v : β) :
    LiesIn (Function.update mem (p + i) v) (st.write p i v) := by
  have hothers : LiesIn (Function.update mem (p + i) v) (st.free p) := by
    refine (h.free p).frame fun q c j hq hj => ?_
    have hqp : q ≠ p := by
      rintro rfl
      simp [BufferStore.free] at hq
    have hq' : st q = some c := by simpa [BufferStore.free, hqp] using hq
    have hapart := h.apart q c p b hq' hp hqp
    exact Function.update_of_ne (by omega) _ _
  have hunused : (st.free p).Unused p (b.write i v).size := by
    intro q c hq
    have hqp : q ≠ p := by
      rintro rfl
      simp [BufferStore.free] at hq
    exact h.apart p b q c hp (by simpa [BufferStore.free, hqp] using hq) hqp.symm
  have hstore : st.write p i v = Function.update (st.free p) p (some (b.write i v)) := by
    rw [BufferStore.write, hp, BufferStore.free, Function.update_idem]
    rfl
  rw [hstore]
  refine hothers.insert hunused fun j w hj hw => ?_
  by_cases hji : j = i
  · subst hji
    rw [Function.update_self]
    simpa [Buffer.write] using hw
  · rw [Function.update_of_ne (by omega)]
    exact h.read p b j w hp hj (by simpa [Buffer.write, hji] using hw)

/-- A buffer is copied to a place where none is, and given up. -/
theorem LiesIn.move (h : LiesIn mem st) (hp : st p = some b) (hunused : st.Unused q n)
    (hne : q ≠ p) (hcopy : ∀ i, i < min n b.size → mem' (q + i) = mem (p + i))
    (hframe : ∀ a, a < q ∨ q + n ≤ a → mem' a = mem a) : LiesIn mem' (st.move p q n) := by
  have hstore : st.move p q n = Function.update (st.free p) q (some (b.resize n)) := by
    rw [BufferStore.move, hp, BufferStore.free, Function.update_comm hne]
    rfl
  have hlies : LiesIn mem' (st.free p) := by
    refine (h.free p).frame fun r c j hr hj => ?_
    have hrp : r ≠ p := by
      rintro rfl
      simp [BufferStore.free] at hr
    have hapart := hunused r c (by simpa [BufferStore.free, hrp] using hr)
    exact hframe _ (by omega)
  rw [hstore]
  refine hlies.insert (fun r c hr => ?_) fun i v hi hv => ?_
  · by_cases hrp : r = p
    · subst hrp
      simp [BufferStore.free] at hr
    · exact hunused r c (by simpa [BufferStore.free, hrp] using hr)
  · simp only [Buffer.resize, Option.ite_none_right_eq_some] at hv
    rw [hcopy i hv.1]
    exact h.read p b i v hp (by omega) hv.2

end Rules

end BufferStore
