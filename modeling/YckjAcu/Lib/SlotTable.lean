import Mathlib.Data.List.Nodup
import Mathlib.Data.List.Count
import Mathlib.Logic.Function.Basic

/-!
# Tables that give each key one slot

A table maps slots to the key they hold, if any.  `register` returns the slot
that already holds a key, or puts the key into the first free slot; `release`
empties a slot.  No two slots of a table built this way hold the same key, and a
key keeps its slot until that slot is released.
-/

namespace SlotTable

variable {ι κ : Type*} [DecidableEq ι] [DecidableEq κ]

abbrev Table (ι κ : Type*) := ι → Option κ

/-- The first slot that holds `p`. -/
def lookup (slots : List ι) (t : Table ι κ) (p : κ) : Option ι :=
  slots.find? fun i => t i = some p

def firstFree (slots : List ι) (t : Table ι κ) : Option ι :=
  slots.find? fun i => t i = none

def register (slots : List ι) (t : Table ι κ) (p : κ) : Option ι × Table ι κ :=
  match lookup slots t p with
  | some i => (some i, t)
  | none =>
      match firstFree slots t with
      | some i => (some i, Function.update t i (some p))
      | none => (none, t)

def release (t : Table ι κ) (i : ι) : Table ι κ := Function.update t i none

/-- Different slots hold different keys. -/
def Injective (slots : List ι) (t : Table ι κ) : Prop :=
  ∀ i ∈ slots, ∀ j ∈ slots, ∀ p, t i = some p → t j = some p → i = j

def occupied (slots : List ι) (t : Table ι κ) : ℕ :=
  slots.countP fun i => (t i).isSome

section Lookup

variable {slots : List ι} {t : Table ι κ} {p : κ} {i : ι}

omit [DecidableEq ι] in
theorem lookup_mem (h : lookup slots t p = some i) : i ∈ slots ∧ t i = some p :=
  ⟨List.mem_of_find?_eq_some h, by simpa using List.find?_some h⟩

omit [DecidableEq ι] in
theorem lookup_eq_none : lookup slots t p = none ↔ ∀ i ∈ slots, t i ≠ some p := by
  simp [lookup, List.find?_eq_none]

omit [DecidableEq ι] in
theorem lookup_of_injective (hinj : Injective slots t) (hi : i ∈ slots) (h : t i = some p) :
    lookup slots t p = some i := by
  cases hl : lookup slots t p with
  | none => exact absurd h (lookup_eq_none.mp hl i hi)
  | some j =>
      obtain ⟨hj, hjp⟩ := lookup_mem hl
      rw [hinj j hj i hi p hjp h]

omit [DecidableEq ι] [DecidableEq κ] in
theorem firstFree_mem (h : firstFree slots t = some i) : i ∈ slots ∧ t i = none :=
  ⟨List.mem_of_find?_eq_some h, by simpa using List.find?_some h⟩

omit [DecidableEq ι] [DecidableEq κ] in
theorem firstFree_eq_none : firstFree slots t = none ↔ ∀ i ∈ slots, (t i).isSome := by
  simp [firstFree, List.find?_eq_none, Option.isSome_iff_ne_none]

end Lookup

/-- What one registration can do: find the key, take a free slot, or fail on a
full table. -/
theorem register_cases (slots : List ι) (t : Table ι κ) (p : κ) :
    (∃ i, lookup slots t p = some i ∧ register slots t p = (some i, t)) ∨
    (∃ i, lookup slots t p = none ∧ firstFree slots t = some i ∧
      register slots t p = (some i, Function.update t i (some p))) ∨
    (lookup slots t p = none ∧ firstFree slots t = none ∧ register slots t p = (none, t)) := by
  cases hl : lookup slots t p with
  | some i => exact Or.inl ⟨i, rfl, by simp [register, hl]⟩
  | none =>
      cases hf : firstFree slots t with
      | some i => exact Or.inr (Or.inl ⟨i, rfl, rfl, by simp [register, hl, hf]⟩)
      | none => exact Or.inr (Or.inr ⟨rfl, rfl, by simp [register, hl, hf]⟩)

theorem register_holds {slots : List ι} {t : Table ι κ} {p : κ} {i : ι}
    (h : (register slots t p).1 = some i) : i ∈ slots ∧ (register slots t p).2 i = some p := by
  rcases register_cases slots t p with ⟨j, hl, hr⟩ | ⟨j, _, hf, hr⟩ | ⟨_, _, hr⟩
  · obtain rfl : j = i := by simpa [hr] using h
    simpa [hr] using lookup_mem hl
  · obtain rfl : j = i := by simpa [hr] using h
    simpa [hr] using (firstFree_mem hf).1
  · simp [hr] at h

omit [DecidableEq ι] in
/-- A search ends at the last element when no element before it will do. -/
theorem find?_concat_eq_last {P : ι → Bool} {init : List ι} {last : ι} (hnew : last ∉ init) :
    (init ++ [last]).find? P = some last ↔ (∀ i ∈ init, P i = false) ∧ P last = true := by
  rw [List.find?_append]
  cases hi : init.find? P with
  | some j =>
      have hj := List.mem_of_find?_eq_some hi
      rw [Option.some_or, Option.some.injEq]
      constructor
      · rintro rfl
        exact absurd hj hnew
      · rintro ⟨hinit, -⟩
        exact absurd (List.find?_some hi) (by rw [hinit j hj]; decide)
  | none =>
      rw [List.find?_eq_none] at hi
      rw [Option.none_or, List.find?_singleton]
      simp only [Bool.not_eq_true] at hi
      split_ifs with hlast
      · exact iff_of_true rfl ⟨hi, hlast⟩
      · exact iff_of_false not_false fun h => hlast h.2

theorem register_fst (slots : List ι) (t : Table ι κ) (p : κ) :
    (register slots t p).1 = (lookup slots t p).or (firstFree slots t) := by
  rcases register_cases slots t p with ⟨i, hl, hr⟩ | ⟨i, hl, hf, hr⟩ | ⟨hl, hf, hr⟩
  · rw [hr, hl, Option.some_or]
  · rw [hr, hl, hf, Option.none_or]
  · rw [hr, hl, hf, Option.none_or]

/-- The last slot is returned when it holds the key or is the only free one. -/
theorem register_eq_last {init : List ι} {last : ι} (hnew : last ∉ init) {t : Table ι κ} {p : κ} :
    (register (init ++ [last]) t p).1 = some last ↔
      (∀ i ∈ init, t i ≠ some p) ∧
        (t last = some p ∨ t last = none ∧ ∀ i ∈ init, (t i).isSome) := by
  have hlookup : lookup (init ++ [last]) t p = some last ↔
      (∀ i ∈ init, t i ≠ some p) ∧ t last = some p := by
    rw [lookup, find?_concat_eq_last hnew]
    simp only [decide_eq_true_eq, decide_eq_false_iff_not, ne_eq]
  have hfree : firstFree (init ++ [last]) t = some last ↔
      (∀ i ∈ init, (t i).isSome) ∧ t last = none := by
    rw [firstFree, find?_concat_eq_last hnew]
    simp only [decide_eq_true_eq, decide_eq_false_iff_not, Option.isSome_iff_ne_none, ne_eq]
  rw [register_fst]
  cases hl : lookup (init ++ [last]) t p with
  | some i =>
      rw [Option.some_or, ← hl, hlookup]
      refine ⟨fun h => ⟨h.1, Or.inl h.2⟩, fun ⟨hinit, h⟩ => ⟨hinit, h.resolve_right ?_⟩⟩
      rintro ⟨hnone, -⟩
      obtain ⟨hi, hip⟩ := lookup_mem hl
      rcases List.mem_append.mp hi with hi | hi
      · exact hinit i hi hip
      · rw [List.mem_singleton.mp hi, hnone] at hip
        cases hip
  | none =>
      have hno := lookup_eq_none.mp hl
      rw [Option.none_or, hfree]
      constructor
      · rintro ⟨hinit, hlast⟩
        exact ⟨fun i hi => hno i (List.mem_append_left _ hi), Or.inr ⟨hlast, hinit⟩⟩
      · rintro ⟨-, h⟩
        have h := h.resolve_left (hno last (List.mem_append_right _ (List.mem_singleton_self _)))
        exact ⟨h.2, h.1⟩

theorem register_eq_none {slots : List ι} {t : Table ι κ} {p : κ} :
    (register slots t p).1 = none ↔ ∀ i ∈ slots, (t i).isSome ∧ t i ≠ some p := by
  rcases register_cases slots t p with ⟨j, hl, hr⟩ | ⟨j, _, hf, hr⟩ | ⟨hl, hf, hr⟩
  · obtain ⟨hj, hjp⟩ := lookup_mem hl
    simp only [hr, reduceCtorEq, false_iff, not_forall]
    exact ⟨j, hj, fun h => h.2 hjp⟩
  · obtain ⟨hj, hjn⟩ := firstFree_mem hf
    simp only [hr, reduceCtorEq, false_iff, not_forall]
    exact ⟨j, hj, fun h => by simp [hjn] at h⟩
  · simp only [hr, true_iff]
    exact fun i hi => ⟨firstFree_eq_none.mp hf i hi, lookup_eq_none.mp hl i hi⟩

/-- Registering a key never takes a slot away from another one. -/
theorem register_keeps {slots : List ι} {t : Table ι κ} {p q : κ} {i : ι}
    (h : t i = some q) : (register slots t p).2 i = some q := by
  rcases register_cases slots t p with ⟨j, _, hr⟩ | ⟨j, _, hf, hr⟩ | ⟨_, _, hr⟩
  · simpa [hr] using h
  · have hji : i ≠ j := by
      rintro rfl
      simp [(firstFree_mem hf).2] at h
    simpa [hr, hji] using h
  · simpa [hr] using h

theorem register_injective {slots : List ι} {t : Table ι κ} (hinj : Injective slots t) (p : κ) :
    Injective slots (register slots t p).2 := by
  rcases register_cases slots t p with ⟨j, _, hr⟩ | ⟨j, hl, _, hr⟩ | ⟨_, _, hr⟩
  · simpa [hr] using hinj
  · have hnew := lookup_eq_none.mp hl
    intro a ha b hb q hqa hqb
    simp only [hr] at hqa hqb
    by_cases haj : a = j <;> by_cases hbj : b = j
    · exact haj.trans hbj.symm
    · simp only [haj, Function.update_self, Option.some.injEq] at hqa
      rw [Function.update_of_ne hbj, ← hqa] at hqb
      exact absurd hqb (hnew b hb)
    · simp only [hbj, Function.update_self, Option.some.injEq] at hqb
      rw [Function.update_of_ne haj, ← hqb] at hqa
      exact absurd hqa (hnew a ha)
    · rw [Function.update_of_ne haj] at hqa
      rw [Function.update_of_ne hbj] at hqb
      exact hinj a ha b hb q hqa hqb
  · simpa [hr] using hinj

omit [DecidableEq κ] in
theorem release_injective {slots : List ι} {t : Table ι κ} (hinj : Injective slots t) (i : ι) :
    Injective slots (release t i) := by
  intro a ha b hb q hqa hqb
  have hne : ∀ c, release t i c = some q → t c = some q := fun c hc => by
    by_cases hci : c = i
    · simp [release, hci] at hc
    · simpa [release, hci] using hc
  exact hinj a ha b hb q (hne a hqa) (hne b hqb)

section Sweep

variable (keep : ι → κ → Bool)

/-- Only the slots whose key passes the test stay taken. -/
def retain (t : Table ι κ) : Table ι κ := fun i => (t i).filter (keep i)

/-- The test of one slot. -/
def sweepSlot (t : Table ι κ) (i : ι) : Table ι κ := Function.update t i ((t i).filter (keep i))

variable {keep}

omit [DecidableEq ι] [DecidableEq κ] in
theorem retain_eq_some {t : Table ι κ} {i : ι} {p : κ} :
    retain keep t i = some p ↔ t i = some p ∧ keep i p = true := by
  rw [retain, Option.filter_eq_some_iff]

omit [DecidableEq κ] in
/-- Slot by slot, in any order, the sweep keeps what `retain` does. -/
theorem foldl_sweepSlot {slots : List ι} (hnodup : slots.Nodup) (t : Table ι κ) (i : ι) :
    slots.foldl (sweepSlot keep) t i = if i ∈ slots then retain keep t i else t i := by
  induction slots generalizing t with
  | nil => simp
  | cons a slots ih =>
      obtain ⟨hna, hrest⟩ := List.nodup_cons.mp hnodup
      rw [List.foldl_cons, ih hrest]
      by_cases hi : i = a
      · subst hi
        simp [hna, sweepSlot, retain]
      · have hslot : sweepSlot keep t a i = t i := Function.update_of_ne hi _ _
        simp [hi, retain, hslot]

omit [DecidableEq ι] [DecidableEq κ] in
theorem retain_injective {slots : List ι} {t : Table ι κ} (hinj : Injective slots t) :
    Injective slots (retain keep t) := by
  intro i hi j hj p hpi hpj
  exact hinj i hi j hj p (retain_eq_some.mp hpi).1 (retain_eq_some.mp hpj).1

end Sweep

section Counting

variable {slots : List ι} {t : Table ι κ} {i : ι}

omit [DecidableEq ι] [DecidableEq κ] in
theorem occupied_cons (a : ι) (slots : List ι) (t : Table ι κ) :
    occupied (a :: slots) t = occupied slots t + if (t a).isSome then 1 else 0 := by
  simp [occupied, List.countP_cons]

omit [DecidableEq κ] in
theorem occupied_update_of_notMem (hi : i ∉ slots) (x : Option κ) :
    occupied slots (Function.update t i x) = occupied slots t := by
  refine List.countP_congr fun a ha => ?_
  have hai : a ≠ i := fun h => hi (h ▸ ha)
  simp [hai]

omit [DecidableEq κ] in
theorem occupied_update (hnodup : slots.Nodup) (hi : i ∈ slots) (x : Option κ) :
    occupied slots (Function.update t i x) + (if (t i).isSome then 1 else 0) =
      occupied slots t + if x.isSome then 1 else 0 := by
  induction slots with
  | nil => simp at hi
  | cons a slots ih =>
      obtain ⟨hna, hrest⟩ := List.nodup_cons.mp hnodup
      rw [occupied_cons, occupied_cons]
      rcases List.mem_cons.mp hi with rfl | hmem
      · rw [occupied_update_of_notMem hna, Function.update_self]
        omega
      · have hai : a ≠ i := fun h => hna (h ▸ hmem)
        rw [Function.update_of_ne hai]
        have := ih hrest hmem
        omega

omit [DecidableEq κ] in
theorem occupied_release (hnodup : slots.Nodup) (hi : i ∈ slots) (h : (t i).isSome) :
    occupied slots (release t i) + 1 = occupied slots t := by
  simpa [release, h] using occupied_update (t := t) hnodup hi none

omit [DecidableEq κ] in
theorem occupied_fill (hnodup : slots.Nodup) (hi : i ∈ slots) (h : t i = none) (p : κ) :
    occupied slots (Function.update t i (some p)) = occupied slots t + 1 := by
  simpa [h] using occupied_update (t := t) hnodup hi (some p)

omit [DecidableEq ι] [DecidableEq κ] in
theorem occupied_le_length : occupied slots t ≤ slots.length := List.countP_le_length

end Counting

end SlotTable
