import Mathlib
import YckjAcu.Lib.BlockPool

/-!
# The memory pool

`my_mem_malloc` and `my_mem_free` of `malloc.c` on the pool `SRAMIN`: 1280
blocks of 32 bytes, searched from the top.  Pointers are offsets into the pool.
-/

namespace YckjAcu

open BlockPool

/-- `mallco_dev.memmap[SRAMIN]`, with the entries past its end left free. -/
abbrev MemMap := ℕ → UInt16

/-- The search loop from `offset - 1` down, with `cmemb` free blocks found so far. -/
def mallocSearch (memmap : MemMap) (nmemb : UInt16) : ℕ → UInt16 → Option ℕ
  | 0, _ => none
  | offset + 1, cmemb =>
      let cmemb := if memmap offset = 0 then cmemb + 1 else 0
      if cmemb = nmemb then some offset else mallocSearch memmap nmemb offset cmemb

/-- The number of blocks for a size, kept in 16 bits. -/
def nmembOf (size : UInt32) : UInt16 :=
  let nmemb := (size / 32).toUInt16
  if size % 32 ≠ 0 then nmemb + 1 else nmemb

def myMemMalloc (size : UInt32) (memmap : MemMap) : Option (ℕ × MemMap) :=
  if size = 0 then none
  else (mallocSearch memmap (nmembOf size) 1280 0).map fun offset =>
    (offset * 32, mark memmap offset (nmembOf size).toNat (nmembOf size))

def myMemFree (offset : ℕ) (memmap : MemMap) : MemMap :=
  if offset < 40960 then mark memmap (offset / 32) (memmap (offset / 32)).toNat 0 else memmap

theorem mallocSearch_free {memmap : MemMap} {nmemb : UInt16} {k : ℕ} {cmemb : UInt16}
    (hlt : cmemb < nmemb) (hfree : ∀ b, k ≤ b → b < k + cmemb.toNat → memmap b = 0) {offset : ℕ}
    (h : mallocSearch memmap nmemb k cmemb = some offset) :
    offset < k ∧ ∀ b, offset ≤ b → b < offset + nmemb.toNat → memmap b = 0 := by
  induction k generalizing cmemb with
  | zero => cases h
  | succ k ih =>
      rw [mallocSearch] at h
      have hlt' : cmemb.toNat < nmemb.toNat := hlt
      by_cases hk : memmap k = 0
      · have hsucc : (cmemb + 1).toNat = cmemb.toNat + 1 := by
          have hbound := nmemb.toNat_lt
          rw [UInt16.toNat_add]
          simp only [UInt16.toNat_one]
          omega
        have hrun : ∀ b, k ≤ b → b < k + (cmemb + 1).toNat → memmap b = 0 := by
          intro b h1 h2
          rcases Nat.eq_or_lt_of_le h1 with rfl | h1
          · exact hk
          · exact hfree b h1 (by omega)
        simp only [hk, if_true] at h
        split at h
        · next heq =>
            cases h
            rw [heq] at hrun
            exact ⟨by omega, hrun⟩
        · next hne =>
            have hne' : cmemb.toNat + 1 ≠ nmemb.toNat := by
              intro heq
              exact hne (UInt16.toNat_inj.mp (hsucc.trans heq))
            have hlt : cmemb + 1 < nmemb := by
              rw [UInt16.lt_iff_toNat_lt]
              omega
            obtain ⟨hoff, hall⟩ := ih hlt hrun h
            exact ⟨by omega, hall⟩
      · have hpos : (0 : UInt16) < nmemb := by
          rw [UInt16.lt_iff_toNat_lt]
          exact lt_of_le_of_lt (Nat.zero_le _) hlt'
        simp only [hk, if_false] at h
        split at h
        · next heq => exact absurd heq (UInt16.ne_of_lt hpos)
        · obtain ⟨hoff, hall⟩ := ih hpos (fun b h1 h2 => by simp at h2; omega) h
          exact ⟨by omega, hall⟩

def counts (memmap : MemMap) : ℕ → ℕ := fun b => (memmap b).toNat

theorem counts_mark (memmap : MemMap) (start count : ℕ) (v : UInt16) :
    counts (mark memmap start count v) = mark (counts memmap) start count v.toNat := by
  funext b
  simp only [counts, mark]
  split <;> rfl

variable {U : Type*} {memmap : MemMap} {allocs : List (Alloc U)}

/-- A successful request whose number of blocks is not 0 adds an allocation. -/
theorem represents_myMemMalloc (h : Represents (counts memmap) allocs) {size : UInt32}
    (hcount : nmembOf size ≠ 0) {p : ℕ} {memmap' : MemMap}
    (hmalloc : myMemMalloc size memmap = some (p, memmap')) (u : U) :
    p / 32 < 1280 ∧ p % 32 = 0 ∧
      Represents (counts memmap') (⟨p / 32, (nmembOf size).toNat, u⟩ :: allocs) := by
  rw [myMemMalloc] at hmalloc
  split at hmalloc
  · cases hmalloc
  · obtain ⟨offset, hsearch, hpair⟩ := Option.map_eq_some_iff.mp hmalloc
    obtain ⟨rfl, rfl⟩ := Prod.mk.inj hpair
    have hpos : (0 : UInt16) < nmembOf size := UInt16.pos_iff_ne_zero.mpr hcount
    have hdiv : offset * 32 / 32 = offset := Nat.mul_div_cancel _ (by decide)
    obtain ⟨hoff, hall⟩ := mallocSearch_free hpos (fun b h1 h2 => by simp at h2; omega) hsearch
    refine ⟨by omega, by omega, ?_⟩
    rw [hdiv, counts_mark]
    apply h.cons hpos
    intro b h1 h2
    exact congrArg UInt16.toNat (hall b h1 h2)

theorem represents_myMemFree (h : Represents (counts memmap) allocs) {a : Alloc U}
    (ha : a ∈ allocs) {p : ℕ} (hp : p < 40960) (hstart : a.start = p / 32) :
    Represents (counts (myMemFree p memmap))
      (release (p / 32) (memmap (p / 32)).toNat allocs) := by
  have hrel := h.release ha
  rw [myMemFree, if_pos hp, counts_mark, ← hstart]
  exact hrel

end YckjAcu
