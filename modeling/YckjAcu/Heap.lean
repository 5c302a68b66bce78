import YckjAcu.Lib.BufferStore
import YckjAcu.Lib.Runs
import YckjAcu.Malloc

/-!
# The allocator as a store of buffers

`mymalloc`, `myfree` and `myrealloc` on the pool `SRAMIN` with its bytes, over
whole runs of users that free and write what they own.
-/

namespace YckjAcu

open BlockPool

/-! ### The first fit from the top -/

/-- `n` free blocks from `offset` on. -/
def FreeRun (memmap : MemMap) (n offset : ℕ) : Prop :=
  ∀ b, offset ≤ b → b < offset + n → memmap b = 0

/-- The places for `n` blocks below `k`, with `c` free blocks found above. -/
def places (memmap : MemMap) (n k c : ℕ) : Set ℕ :=
  {offset | offset < k ∧ offset + n ≤ k + c ∧ FreeRun memmap n offset}

section Search

variable {memmap : MemMap} {n k c : ℕ}

theorem places_of_used (hn : 0 < n) (hk : memmap k ≠ 0) :
    places memmap n (k + 1) c = places memmap n k 0 := by
  ext o
  constructor
  · rintro ⟨hlt, -, hfree⟩
    have hle : o + n ≤ k := by
      by_contra hgt
      exact hk (hfree k (by omega) (by omega))
    exact ⟨by omega, by omega, hfree⟩
  · rintro ⟨hlt, hle, hfree⟩
    exact ⟨by omega, by omega, hfree⟩

theorem places_of_short (hc : c + 1 < n) :
    places memmap n (k + 1) c = places memmap n k (c + 1) := by
  ext o
  constructor
  · rintro ⟨hlt, hle, hfree⟩
    exact ⟨by omega, by omega, hfree⟩
  · rintro ⟨hlt, hle, hfree⟩
    exact ⟨by omega, by omega, hfree⟩

/-- The search finds the highest place, if there is one. -/
theorem mallocSearch_isGreatest {nmemb cmemb : UInt16} (hlt : cmemb.toNat < nmemb.toNat)
    (hfree : FreeRun memmap cmemb.toNat k) :
    (mallocSearch memmap nmemb k cmemb = none ∧ places memmap nmemb.toNat k cmemb.toNat = ∅) ∨
      ∃ offset, mallocSearch memmap nmemb k cmemb = some offset ∧
        IsGreatest (places memmap nmemb.toNat k cmemb.toNat) offset := by
  induction k generalizing cmemb with
  | zero =>
      refine Or.inl ⟨rfl, ?_⟩
      ext o
      simp [places]
  | succ k ih =>
      rw [mallocSearch]
      by_cases hk : memmap k = 0
      · have hbound := nmemb.toNat_lt
        have hsucc : (cmemb + 1).toNat = cmemb.toNat + 1 := by
          rw [UInt16.toNat_add, UInt16.toNat_one, Nat.mod_eq_of_lt (by omega)]
        have hrun : FreeRun memmap (cmemb + 1).toNat k := by
          intro b h1 h2
          rcases Nat.eq_or_lt_of_le h1 with rfl | h1
          · exact hk
          · exact hfree b h1 (by omega)
        simp only [hk, if_true]
        by_cases hfound : cmemb + 1 = nmemb
        · rw [if_pos hfound]
          rw [hfound] at hrun hsucc
          refine Or.inr ⟨k, rfl, ⟨by omega, by omega, hrun⟩, fun o ho => ?_⟩
          exact Nat.lt_succ_iff.mp ho.1
        · rw [if_neg hfound]
          have hne : (cmemb + 1).toNat ≠ nmemb.toNat := mt UInt16.toNat_inj.mp hfound
          rw [places_of_short (by omega), ← hsucc]
          exact ih (by omega) hrun
      · simp only [hk, if_false]
        have hpos : 0 < nmemb.toNat := by omega
        rw [if_neg fun heq => by simp [← heq] at hpos, places_of_used hpos hk]
        exact ih hpos fun b h1 h2 => absurd h2 (by simp; omega)

end Search

/-! ### The code -/

/-- The pool `SRAMIN` of `mallco_dev`; past its end there is other memory. -/
structure Pool where
  memrdy : Bool
  memmap : MemMap
  membase : ℕ → UInt8

/-- `des` and `src` are offsets from the base. -/
def mymemcpy : ℕ → ℕ → ℕ → (ℕ → UInt8) → (ℕ → UInt8)
  | _, _, 0, mem => mem
  | des, src, n + 1, mem => mymemcpy (des + 1) (src + 1) n (Function.update mem des (mem src))

namespace Pool

def myMemInit (s : Pool) : Pool where
  memrdy := true
  memmap := fun b => if b < 1280 then 0 else s.memmap b
  membase := fun a => if a < 40960 then 0 else s.membase a

def ready (s : Pool) : Pool := if s.memrdy then s else s.myMemInit

def myMemPerused (s : Pool) : UInt8 :=
  UInt8.ofNat (Nat.count (fun i => s.memmap i ≠ 0) 1280 * 100 / 1280)

def mymalloc (size : UInt32) (s : Pool) : Option ℕ × Pool :=
  match myMemMalloc size s.ready.memmap with
  | none => (none, s.ready)
  | some (offset, memmap) => (some offset, { s.ready with memmap })

/-- The first call initialises the pool instead. -/
def myfree (ptr : ℕ) (s : Pool) : Pool :=
  if s.memrdy then { s with memmap := myMemFree ptr s.memmap } else s.myMemInit

def myrealloc (ptr : ℕ) (size : UInt32) (s : Pool) : Option ℕ × Pool :=
  match s.mymalloc size with
  | (none, s) => (none, s)
  | (some offset, s) =>
      (some offset, myfree ptr { s with membase := mymemcpy offset ptr size.toNat s.membase })

end Pool

/-! ### One request -/

section Request

variable {size : UInt32} {s : Pool}

/-- The number of blocks is rounded up, in 16 bits. -/
theorem nmembOf_toNat (size : UInt32) : (nmembOf size).toNat = (size.toNat + 31) / 32 % 65536 := by
  have hdiv : (size / 32).toUInt16.toNat = size.toNat / 32 % 65536 := by
    rw [UInt32.toNat_toUInt16, UInt32.toNat_div]
    rfl
  have hmod : size % 32 ≠ 0 ↔ size.toNat % 32 ≠ 0 := by
    rw [not_iff_not, ← UInt32.toNat_inj, UInt32.toNat_mod]
    rfl
  unfold nmembOf
  dsimp only
  split_ifs with hrest
  · rw [UInt16.toNat_add, hdiv, UInt16.toNat_one]
    have := hmod.mp hrest
    omega
  · rw [hdiv]
    have := not_not.mp (mt hmod.mpr hrest)
    omega

theorem nmembOf_of_le (hsize : size.toNat ≤ 65535 * 32) :
    (nmembOf size).toNat = (size.toNat + 31) / 32 := by
  rw [nmembOf_toNat]
  omega

theorem places_top {memmap : MemMap} {n : ℕ} (hn : 0 < n) :
    places memmap n 1280 0 = {o | o + n ≤ 1280 ∧ FreeRun memmap n o} := by
  ext o
  constructor
  · rintro ⟨-, hle, hfree⟩
    exact ⟨by omega, hfree⟩
  · rintro ⟨hle, hfree⟩
    exact ⟨by omega, by omega, hfree⟩

theorem mallocSearch_top {memmap : MemMap} {nmemb : UInt16} (hpos : 0 < nmemb.toNat) :
    (mallocSearch memmap nmemb 1280 0 = none ∧
      ∀ o, o + nmemb.toNat ≤ 1280 → ¬ FreeRun memmap nmemb.toNat o) ∨
    ∃ o, mallocSearch memmap nmemb 1280 0 = some o ∧
      IsGreatest {o | o + nmemb.toNat ≤ 1280 ∧ FreeRun memmap nmemb.toNat o} o := by
  have hnothing : FreeRun memmap (0 : UInt16).toNat 1280 := fun b h1 h2 => by
    simp only [UInt16.toNat_zero] at h2
    omega
  have hsearch := mallocSearch_isGreatest (show (0 : UInt16).toNat < nmemb.toNat from hpos) hnothing
  rw [UInt16.toNat_zero, places_top hpos] at hsearch
  refine hsearch.imp_left fun ⟨hnone, hempty⟩ => ⟨hnone, fun o hle hfree => ?_⟩
  exact Set.eq_empty_iff_forall_notMem.mp hempty o ⟨hle, hfree⟩

/-- What `mymalloc` does, for all sizes whose number of blocks is not 0 in 16 bits. -/
theorem mymalloc_cases (hsize : 0 < size) (hpos : 0 < (nmembOf size).toNat) :
    (s.mymalloc size = (none, s.ready) ∧
      ∀ o, o + (nmembOf size).toNat ≤ 1280 → ¬ FreeRun s.ready.memmap (nmembOf size).toNat o) ∨
    ∃ o, s.mymalloc size = (some (o * 32), { s.ready with
        memmap := mark s.ready.memmap o (nmembOf size).toNat (nmembOf size) }) ∧
      IsGreatest {o | o + (nmembOf size).toNat ≤ 1280 ∧
        FreeRun s.ready.memmap (nmembOf size).toNat o} o := by
  have hne : size ≠ 0 := by
    rintro rfl
    exact absurd hsize (by decide)
  rcases mallocSearch_top hpos with ⟨hsearch, hnone⟩ | ⟨o, hsearch, ho⟩
  · refine Or.inl ⟨?_, hnone⟩
    simp only [Pool.mymalloc, myMemMalloc, if_neg hne, hsearch, Option.map_none]
  · refine Or.inr ⟨o, ?_, ho⟩
    simp only [Pool.mymalloc, myMemMalloc, if_neg hne, hsearch, Option.map_some]

end Request

/-! ### Copying -/

section Copy

variable {des src n : ℕ} {mem : ℕ → UInt8}

theorem mymemcpy_of_outside {a : ℕ} (ha : a < des ∨ des + n ≤ a) :
    mymemcpy des src n mem a = mem a := by
  induction n generalizing des src mem with
  | zero => rfl
  | succ n ih =>
      rw [mymemcpy, ih (by omega)]
      exact Function.update_of_ne (by omega) _ _

/-- A byte is copied unless it has been overwritten before its turn. -/
theorem mymemcpy_get {i : ℕ} (hi : i < n) (hapart : des + n ≤ src ∨ src + i < des) :
    mymemcpy des src n mem (des + i) = mem (src + i) := by
  induction n generalizing des src mem i with
  | zero => omega
  | succ n ih =>
      rw [mymemcpy]
      cases i with
      | zero =>
          rw [mymemcpy_of_outside (by omega)]
          exact Function.update_self _ _ _
      | succ i =>
          rw [show des + (i + 1) = des + 1 + i by omega, ih (by omega) (by omega),
            Function.update_of_ne (by omega)]
          congr 1
          omega

end Copy

/-! ### Runs of the users -/

/-- The pool and what its users own. -/
structure HeapState where
  pool : Pool
  live : BufferStore UInt8

inductive HeapOp
  | malloc (size : UInt32)
  | free (p : ℕ)
  | realloc (p : ℕ) (size : UInt32)
  | write (p i : ℕ) (v : UInt8)
deriving DecidableEq

/-- A user asks for at most 65535 blocks of 32 bytes, gives back what it owns and writes
within it.  For larger requests the number of blocks loses its upper bits. -/
def HeapState.step : HeapOp → HeapState → Option HeapState
  | .malloc size, s =>
      let r := s.pool.mymalloc size
      if size.toNat ≤ 65535 * 32 then
        some ⟨r.2, r.1.elim s.live fun p => BufferStore.alloc p size.toNat s.live⟩
      else none
  | .free p, s =>
      if (s.live p).isSome then some ⟨s.pool.myfree p, BufferStore.free p s.live⟩ else none
  | .realloc p size, s =>
      let r := s.pool.myrealloc p size
      if (s.live p).isSome ∧ size.toNat ≤ 65535 * 32 then
        some ⟨r.2, r.1.elim s.live fun q => BufferStore.move p q size.toNat s.live⟩
      else none
  | .write p i v, s =>
      if ((s.live p).map fun b => decide (i < b.size)) = some true then
        some ⟨{ s.pool with membase := Function.update s.pool.membase (p + i) v },
          BufferStore.write p i v s.live⟩
      else none

/-- Every buffer has its blocks in the map, and nothing else is marked. -/
structure HeapOk (s : HeapState) (allocs : List (Alloc ℕ)) : Prop where
  ready : s.pool.memrdy = false → allocs = []
  map : Represents (counts s.pool.memmap) allocs
  alloc : ∀ a ∈ allocs, a.start + a.count ≤ 1280 ∧ 0 < a.user ∧ a.count = (a.user + 31) / 32
  live (p : ℕ) (n : ℕ) : (s.live p).map Buffer.size = some n ↔
    p % 32 = 0 ∧ ⟨p / 32, (n + 31) / 32, n⟩ ∈ allocs
  lies : BufferStore.LiesIn s.pool.membase s.live

section Heap

variable {s t : HeapState} {allocs : List (Alloc ℕ)} {p : ℕ} {size : UInt32}

theorem HeapOk.mem (h : HeapOk s allocs) {b : Buffer UInt8} (hp : s.live p = some b) :
    p % 32 = 0 ∧ ⟨p / 32, (b.size + 31) / 32, b.size⟩ ∈ allocs :=
  (h.live p b.size).mp (by rw [hp]; rfl)

theorem HeapOk.memrdy (h : HeapOk s allocs) {b : Buffer UInt8} (hp : s.live p = some b) :
    s.pool.memrdy = true := by
  by_contra hno
  have hmem := (h.mem hp).2
  rw [h.ready (by simpa using hno)] at hmem
  cases hmem

/-- The pool is initialised at the first request, when there are no buffers yet. -/
theorem HeapOk.init (h : HeapOk s allocs) : HeapOk ⟨s.pool.ready, s.live⟩ allocs := by
  by_cases hready : s.pool.memrdy = true
  · rw [Pool.ready, if_pos hready]
    exact h
  · rw [Pool.ready, if_neg hready]
    obtain rfl := h.ready (by simpa using hready)
    have hfree := h.map.free
    refine ⟨fun _ => rfl, ?_, h.alloc, h.live, ?_⟩
    · have hzero : counts s.pool.myMemInit.memmap = fun _ => 0 := by
        funext b
        simp only [counts, Pool.myMemInit]
        split_ifs
        · rfl
        · exact hfree b (by simp)
      rw [hzero]
      exact represents_nil
    · refine h.lies.frame fun q b i hq _ => ?_
      exact absurd (h.mem hq).2 (by simp)

theorem HeapOk.represents_cons (h : HeapOk s allocs) (hsize : 0 < size)
    (hle : size.toNat ≤ 65535 * 32) {o : ℕ}
    (ho : FreeRun s.pool.memmap (nmembOf size).toNat o) :
    Represents (counts (mark s.pool.memmap o (nmembOf size).toNat (nmembOf size)))
      (⟨o, (nmembOf size).toNat, size.toNat⟩ :: allocs) := by
  rw [counts_mark]
  refine h.map.cons ?_ (fun b h1 h2 => congrArg UInt16.toNat (ho b h1 h2)) size.toNat
  have hpos : 0 < size.toNat := hsize
  rw [nmembOf_of_le hle]
  omega

/-- The bytes of free blocks belong to no buffer. -/
theorem HeapOk.unused (h : HeapOk s allocs) (hle : size.toNat ≤ 65535 * 32) {o : ℕ}
    (hcons : Represents (counts (mark s.pool.memmap o (nmembOf size).toNat (nmembOf size)))
      (⟨o, (nmembOf size).toNat, size.toNat⟩ :: allocs)) :
    BufferStore.Unused (o * 32) size.toNat s.live := by
  intro q c hq
  obtain ⟨hq32, hmem⟩ := h.mem hq
  have hcount := nmembOf_of_le hle
  have hapart := List.rel_of_pairwise_cons hcons.disjoint hmem
  simp only [Apart] at hapart
  omega

/-- A successful request. -/
theorem HeapOk.malloc (h : HeapOk s allocs) (hready : s.pool.memrdy = true) (hsize : 0 < size)
    (hle : size.toNat ≤ 65535 * 32) {o : ℕ} (htop : o + (nmembOf size).toNat ≤ 1280)
    (ho : FreeRun s.pool.memmap (nmembOf size).toNat o) :
    HeapOk ⟨{ s.pool with memmap := mark s.pool.memmap o (nmembOf size).toNat (nmembOf size) },
        BufferStore.alloc (o * 32) size.toNat s.live⟩
      (⟨o, (nmembOf size).toNat, size.toNat⟩ :: allocs) := by
  have hcons := h.represents_cons hsize hle ho
  have hcount := nmembOf_of_le hle
  refine ⟨fun hno => ?_, hcons, fun a ha => ?_, fun p n => ?_, h.lies.alloc (h.unused hle hcons)⟩
  · exact absurd (hready.symm.trans hno) (by decide)
  · rcases List.mem_cons.mp ha with rfl | ha
    · exact ⟨htop, hsize, hcount⟩
    · exact h.alloc a ha
  · by_cases hp : p = o * 32
    · subst hp
      have hdiv : o * 32 / 32 = o := Nat.mul_div_cancel _ (by decide)
      simp only [BufferStore.alloc, Function.update_self, Option.map_some, Option.some.injEq, hdiv,
        Nat.mul_mod_left, true_and, List.mem_cons, Alloc.mk.injEq]
      constructor
      · rintro rfl
        exact Or.inl ⟨hcount.symm, rfl⟩
      · rintro (⟨-, rfl⟩ | hold)
        · rfl
        · have hapart := List.rel_of_pairwise_cons hcons.disjoint hold
          have hpos := (h.alloc _ hold).2
          simp only [Apart] at hapart hpos
          have hn : 0 < size.toNat := hsize
          omega
    · have hsame : BufferStore.alloc (o * 32) size.toNat s.live p = s.live p :=
        Function.update_of_ne hp _ _
      dsimp only
      rw [hsame, h.live, List.mem_cons]
      refine and_congr_right fun hp32 => ⟨Or.inr, fun hor => hor.resolve_left fun heq => ?_⟩
      have hstart := congrArg Alloc.start heq
      dsimp only at hstart
      omega

theorem HeapOk.free (h : HeapOk s allocs) {b : Buffer UInt8} (hp : s.live p = some b) :
    HeapOk ⟨{ s.pool with memmap := myMemFree p s.pool.memmap }, BufferStore.free p s.live⟩
      (release (p / 32) (s.pool.memmap (p / 32)).toNat allocs) := by
  obtain ⟨hp32, hmem⟩ := h.mem hp
  have htop := h.alloc _ hmem
  dsimp only at htop
  have hrelease : ∀ c, c ∈ release (p / 32) (s.pool.memmap (p / 32)).toNat allocs ↔
      c ∈ allocs ∧ c ≠ ⟨p / 32, (b.size + 31) / 32, b.size⟩ := fun c => h.map.mem_release hmem
  refine ⟨fun hno => ?_, represents_myMemFree h.map hmem (by omega) rfl, fun a ha => ?_,
    fun q n => ?_, h.lies.free p⟩
  · exact absurd (h.memrdy hp) (by simpa using hno)
  · exact h.alloc a ((hrelease a).mp ha).1
  · rw [hrelease]
    by_cases hq : q = p
    · subst hq
      refine iff_of_false (by simp [BufferStore.free]) ?_
      rintro ⟨-, hold, hne⟩
      refine hne ?_
      have hsame := (h.live q n).mpr ⟨hp32, hold⟩
      rw [hp] at hsame
      rw [Option.some.inj hsame]
    · have hsame : BufferStore.free p s.live q = s.live q := Function.update_of_ne hq _ _
      dsimp only
      rw [hsame, h.live]
      refine and_congr_right fun hq32 => ⟨fun hold => ⟨hold, fun heq => ?_⟩, And.left⟩
      have hstart := congrArg Alloc.start heq
      dsimp only at hstart
      omega

theorem HeapOk.write (h : HeapOk s allocs) {b : Buffer UInt8} (hp : s.live p = some b) {i : ℕ}
    (hi : i < b.size) (v : UInt8) :
    HeapOk ⟨{ s.pool with membase := Function.update s.pool.membase (p + i) v },
      BufferStore.write p i v s.live⟩ allocs := by
  refine ⟨h.ready, h.map, h.alloc, fun q n => ?_, h.lies.write hp hi v⟩
  rw [← h.live q n]
  by_cases hq : q = p
  · subst hq
    simp [BufferStore.write, hp, Buffer.write]
  · simp [BufferStore.write, hq]

/-- A new buffer, a copy of the old one up to the shorter size, and the old one freed. -/
theorem HeapOk.realloc (h : HeapOk s allocs) (hready : s.pool.memrdy = true) (hsize : 0 < size)
    (hle : size.toNat ≤ 65535 * 32) {b : Buffer UInt8} (hp : s.live p = some b) {o : ℕ}
    (htop : o + (nmembOf size).toNat ≤ 1280)
    (ho : FreeRun s.pool.memmap (nmembOf size).toNat o) :
    ∃ allocs', HeapOk ⟨{ s.pool with
        memmap := myMemFree p (mark s.pool.memmap o (nmembOf size).toNat (nmembOf size))
        membase := mymemcpy (o * 32) p size.toNat s.pool.membase },
      BufferStore.move p (o * 32) size.toNat s.live⟩ allocs' := by
  have hcons := h.represents_cons hsize hle ho
  have hunused := h.unused hle hcons
  obtain ⟨hp32, hmem⟩ := h.mem hp
  have hne : o * 32 ≠ p := by
    rintro rfl
    have hpos := (h.alloc _ hmem).2
    have hn : 0 < size.toNat := hsize
    have hapart := hunused (o * 32) b hp
    dsimp only at hpos
    omega
  have hmalloc := h.malloc hready hsize hle htop ho
  have hlive : (BufferStore.alloc (o * 32) size.toNat s.live) p = some b := by
    rw [BufferStore.alloc, Function.update_of_ne hne.symm, hp]
  have hfree := hmalloc.free hlive
  refine ⟨_, hfree.ready, hfree.map, hfree.alloc, fun q n => ?_, ?_⟩
  · rw [← hfree.live q n]
    by_cases hqo : q = o * 32
    · subst hqo
      simp [BufferStore.move, BufferStore.free, BufferStore.alloc, hp, hne, Buffer.resize]
    · by_cases hqp : q = p
      · subst hqp
        simp [BufferStore.move, BufferStore.free]
      · simp [BufferStore.move, BufferStore.free, BufferStore.alloc, hqo, hqp]
  · have hapart := hunused p b hp
    refine h.lies.move hp hunused hne (fun i hi => ?_) fun a ha => ?_
    · exact mymemcpy_get (by omega) (by omega)
    · exact mymemcpy_of_outside ha

theorem Pool.ready_memrdy (s : Pool) : s.ready.memrdy = true := by
  unfold Pool.ready
  split_ifs with h
  · exact h
  · rfl

theorem mymalloc_zero (s : Pool) : s.mymalloc 0 = (none, s.ready) := by
  simp [Pool.mymalloc, myMemMalloc]

/-- The two ways in which a request ends, for the sizes that users ask for. -/
theorem mymalloc_ends (s : Pool) (hle : size.toNat ≤ 65535 * 32) :
    s.mymalloc size = (none, s.ready) ∨ 0 < size ∧ ∃ o,
      s.mymalloc size = (some (o * 32), { s.ready with
        memmap := mark s.ready.memmap o (nmembOf size).toNat (nmembOf size) }) ∧
      o + (nmembOf size).toNat ≤ 1280 ∧ FreeRun s.ready.memmap (nmembOf size).toNat o := by
  by_cases hsize : size = 0
  · rw [hsize]
    exact Or.inl (mymalloc_zero s)
  · have hpos : 0 < size := UInt32.pos_iff_ne_zero.mpr hsize
    have hn : 0 < (nmembOf size).toNat := by
      have : 0 < size.toNat := hpos
      rw [nmembOf_of_le hle]
      omega
    rcases mymalloc_cases hpos hn with ⟨hnone, -⟩ | ⟨o, heq, ho⟩
    · exact Or.inl hnone
    · exact Or.inr ⟨hpos, o, heq, ho.1⟩

/-- Every operation of a user keeps the store of buffers. -/
theorem HeapOk.step (h : HeapOk s allocs) (op : HeapOp) (hstep : HeapState.step op s = some t) :
    ∃ allocs', HeapOk t allocs' := by
  cases op with
  | malloc size =>
      obtain ⟨hle, ⟨⟩⟩ := Option.ite_none_right_eq_some.mp hstep
      rcases mymalloc_ends s.pool hle with heq | ⟨hpos, o, heq, htop, ho⟩
      · rw [heq]
        exact ⟨_, h.init⟩
      · rw [heq]
        exact ⟨_, h.init.malloc s.pool.ready_memrdy hpos hle htop ho⟩
  | free p =>
      obtain ⟨hsome, ⟨⟩⟩ := Option.ite_none_right_eq_some.mp hstep
      obtain ⟨b, hb⟩ := Option.isSome_iff_exists.mp hsome
      have hready := h.memrdy hb
      rw [Pool.myfree, if_pos hready]
      exact ⟨_, h.free hb⟩
  | realloc p size =>
      obtain ⟨⟨hsome, hle⟩, ⟨⟩⟩ := Option.ite_none_right_eq_some.mp hstep
      obtain ⟨b, hb⟩ := Option.isSome_iff_exists.mp hsome
      have hready := h.memrdy hb
      have hsame : s.pool.ready = s.pool := if_pos hready
      rcases mymalloc_ends s.pool hle with heq | ⟨hpos, o, heq, htop, ho⟩
      · simp only [Pool.myrealloc, heq, Option.elim_none]
        exact ⟨_, h.init⟩
      · simp only [Pool.myrealloc, heq, Option.elim_some, hsame, Pool.myfree, hready, if_true]
        rw [hsame] at ho
        obtain ⟨allocs', h'⟩ := h.realloc hready hpos hle hb htop ho
        exact ⟨allocs', by simpa only [hready] using h'⟩
  | write p i v =>
      obtain ⟨hin, ⟨⟩⟩ := Option.ite_none_right_eq_some.mp hstep
      obtain ⟨b, hb, hi⟩ := Option.map_eq_some_iff.mp hin
      exact ⟨_, h.write hb (of_decide_eq_true hi) v⟩

/-- After the start-up code, with no buffers. -/
def heapStart (mem : ℕ → UInt8) : HeapState := ⟨⟨false, fun _ => 0, mem⟩, BufferStore.empty⟩

theorem heapStart_ok (mem : ℕ → UInt8) : HeapOk (heapStart mem) [] where
  ready := fun _ => rfl
  map := represents_nil
  alloc := fun _ ha => by cases ha
  live p n := by simp [heapStart, BufferStore.empty]
  lies := BufferStore.liesIn_empty mem

/-! ### The usage rate -/

theorem count_or {p q : ℕ → Prop} [DecidablePred p] [DecidablePred q]
    (hapart : ∀ b, p b → ¬ q b) (n : ℕ) :
    Nat.count (fun b => p b ∨ q b) n = Nat.count p n + Nat.count q n := by
  induction n with
  | zero => simp
  | succ n ih =>
      have hn := hapart n
      rw [Nat.count_succ, Nat.count_succ, Nat.count_succ, ih]
      split_ifs <;> first | omega | tauto

theorem count_covers (a : Alloc ℕ) (n : ℕ) :
    Nat.count (fun b => a.start ≤ b ∧ b < a.start + a.count) n =
      min n (a.start + a.count) - min n a.start := by
  induction n with
  | zero => simp
  | succ n ih =>
      rw [Nat.count_succ, ih]
      split_ifs <;> omega

/-- The marked entries are those of the allocations. -/
theorem count_allocs {allocs : List (Alloc ℕ)} (hdisjoint : allocs.Pairwise Apart) {n : ℕ}
    (htop : ∀ a ∈ allocs, a.start + a.count ≤ n) :
    Nat.count (fun b => ∃ a ∈ allocs, a.start ≤ b ∧ b < a.start + a.count) n =
      (allocs.map Alloc.count).sum := by
  induction allocs with
  | nil => simp
  | cons a allocs ih =>
      obtain ⟨hhead, htail⟩ := List.pairwise_cons.mp hdisjoint
      have hor := count_or (p := fun b => a.start ≤ b ∧ b < a.start + a.count)
        (q := fun b => ∃ c ∈ allocs, c.start ≤ b ∧ b < c.start + c.count) (fun b hb hc => ?_) n
      · simp only [List.mem_cons, exists_eq_or_imp]
        rw [hor, ih htail fun c hc => htop c (List.mem_cons_of_mem a hc), count_covers,
          List.map_cons, List.sum_cons]
        have := htop a List.mem_cons_self
        omega
      · obtain ⟨c, hc, hcb⟩ := hc
        have hapart := hhead c hc
        simp only [Apart] at hapart
        omega

/-- The blocks of the buffer that begins with block `offset`, if there is one. -/
def blocksFrom (live : BufferStore UInt8) (offset : ℕ) : ℕ :=
  (live (offset * 32)).elim 0 fun b => (b.size + 31) / 32

/-- The blocks of all live buffers. -/
def liveBlocks (live : BufferStore UInt8) : ℕ :=
  ∑ offset ∈ Finset.range 1280, blocksFrom live offset

/-- An allocation is a live buffer, with a block for every 32 bytes begun. -/
theorem HeapOk.buffer (h : HeapOk s allocs) {a : Alloc ℕ} (ha : a ∈ allocs) :
    ∃ b, s.live (a.start * 32) = some b ∧ b.size = a.user ∧ a.count = (b.size + 31) / 32 := by
  obtain ⟨-, -, hcount⟩ := h.alloc a ha
  have hdiv : a.start * 32 / 32 = a.start := Nat.mul_div_cancel _ (by decide)
  have hlive := (h.live (a.start * 32) a.user).mpr
    ⟨Nat.mul_mod_left _ _, by rw [hdiv, ← hcount]; exact ha⟩
  obtain ⟨b, hb, hsize⟩ := Option.map_eq_some_iff.mp hlive
  exact ⟨b, hb, hsize, by rw [hsize, hcount]⟩

theorem HeapOk.marked_iff (h : HeapOk s allocs) (block : ℕ) :
    s.pool.memmap block ≠ 0 ↔
      ∃ a ∈ allocs, a.start ≤ block ∧ block < a.start + a.count := by
  constructor
  · intro hb
    by_contra hno
    push Not at hno
    refine hb (UInt16.toNat_inj.mp (h.map.free block fun a ha hcov => ?_))
    have := hno a ha hcov.1
    have := hcov.2
    omega
  · rintro ⟨a, ha, hcov⟩ hzero
    have hmark := h.map.marked a ha block hcov
    have hpos := h.map.nonempty a ha
    simp [counts, hzero] at hmark
    omega

/-- The map is marked at the blocks of the live buffers. -/
theorem HeapOk.marked_live (h : HeapOk s allocs) (block : ℕ) :
    s.pool.memmap block ≠ 0 ↔ ∃ p b, s.live p = some b ∧
      p / 32 ≤ block ∧ block < p / 32 + (b.size + 31) / 32 := by
  rw [h.marked_iff]
  constructor
  · rintro ⟨a, ha, hcov⟩
    obtain ⟨b, hb, -, hcount⟩ := h.buffer ha
    refine ⟨a.start * 32, b, hb, ?_⟩
    rw [Nat.mul_div_cancel _ (by decide), ← hcount]
    exact hcov
  · rintro ⟨p, b, hp, hcov⟩
    exact ⟨_, (h.mem hp).2, hcov⟩

theorem HeapOk.start_inj (h : HeapOk s allocs) {a c : Alloc ℕ} (ha : a ∈ allocs)
    (hc : c ∈ allocs) (heq : a.start = c.start) : a = c := by
  by_contra hne
  have hapart := h.map.apart ha hc hne
  have hpos := h.map.nonempty a ha
  have hpos' := h.map.nonempty c hc
  simp only [Apart] at hapart
  omega

theorem HeapOk.nodup (h : HeapOk s allocs) : allocs.Nodup :=
  h.map.disjoint.imp_of_mem fun {a c} ha _ hapart heq => by
    have hpos := h.map.nonempty a ha
    subst heq
    simp only [Apart] at hapart
    omega

theorem HeapOk.blocksFrom_start (h : HeapOk s allocs) {a : Alloc ℕ} (ha : a ∈ allocs) :
    blocksFrom s.live a.start = a.count := by
  obtain ⟨b, hb, -, hcount⟩ := h.buffer ha
  rw [blocksFrom, hb, hcount]
  rfl

theorem HeapOk.blocksFrom_other (h : HeapOk s allocs) {offset : ℕ}
    (hno : ∀ a ∈ allocs, a.start ≠ offset) : blocksFrom s.live offset = 0 := by
  cases hlive : s.live (offset * 32) with
  | none => rw [blocksFrom, hlive, Option.elim_none]
  | some b =>
      have hmem := (h.mem hlive).2
      rw [Nat.mul_div_cancel _ (by decide)] at hmem
      exact absurd rfl (hno _ hmem)

/-- Each live buffer is counted once, at the first of its blocks. -/
theorem HeapOk.sum_count (h : HeapOk s allocs) :
    (allocs.map Alloc.count).sum = liveBlocks s.live := by
  have hinj : ∀ a ∈ allocs.toFinset, ∀ c ∈ allocs.toFinset, a.start = c.start → a = c :=
    fun a ha c hc => h.start_inj (List.mem_toFinset.mp ha) (List.mem_toFinset.mp hc)
  have hstarts : allocs.toFinset.image Alloc.start ⊆ Finset.range 1280 := by
    intro o ho
    obtain ⟨a, ha, rfl⟩ := Finset.mem_image.mp ho
    have htop := (h.alloc a (List.mem_toFinset.mp ha)).1
    have hpos := h.map.nonempty a (List.mem_toFinset.mp ha)
    exact Finset.mem_range.mpr (by omega)
  calc (allocs.map Alloc.count).sum
      = ∑ a ∈ allocs.toFinset, a.count := (List.sum_toFinset _ h.nodup).symm
    _ = ∑ a ∈ allocs.toFinset, blocksFrom s.live a.start :=
        Finset.sum_congr rfl fun a ha => (h.blocksFrom_start (List.mem_toFinset.mp ha)).symm
    _ = ∑ o ∈ allocs.toFinset.image Alloc.start, blocksFrom s.live o :=
        (Finset.sum_image hinj).symm
    _ = liveBlocks s.live := Finset.sum_subset hstarts fun o _ hno =>
        h.blocksFrom_other fun a ha heq =>
          hno (heq ▸ Finset.mem_image_of_mem _ (List.mem_toFinset.mpr ha))

theorem HeapOk.perused (h : HeapOk s allocs) :
    s.pool.myMemPerused.toNat = liveBlocks s.live * 100 / 1280 := by
  have hcount := count_allocs h.map.disjoint fun a ha => (h.alloc a ha).1
  have hle := Nat.count_le (p := fun i => s.pool.memmap i ≠ 0) (n := 1280)
  simp only [Pool.myMemPerused, h.marked_iff] at hle ⊢
  rw [hcount, h.sum_count] at hle ⊢
  rw [UInt8.toNat_ofNat']
  omega

theorem HeapOk.eq_nil (h : HeapOk s allocs) (hnone : ∀ p, s.live p = none) : allocs = [] := by
  refine List.eq_nil_iff_forall_not_mem.mpr fun a ha => ?_
  obtain ⟨b, hb, -⟩ := h.buffer ha
  rw [hnone] at hb
  cases hb

/-- Without buffers the pool is whole again. -/
theorem HeapOk.whole (h : HeapOk s allocs) (hnone : ∀ p, s.live p = none) (hpos : 0 < size)
    (hle : size.toNat ≤ 40960) :
    (s.pool.mymalloc size).1 = some (40960 - (size.toNat + 31) / 32 * 32) := by
  have hmap := h.init.map
  rw [h.eq_nil hnone] at hmap
  have hfree : ∀ b, s.pool.ready.memmap b = 0 := fun b =>
    UInt16.toNat_inj.mp (hmap.free b (by simp))
  have hn : (nmembOf size).toNat = (size.toNat + 31) / 32 := nmembOf_of_le (by omega)
  have hsize : 0 < size.toNat := hpos
  rcases mymalloc_cases (s := s.pool) hpos (by omega) with ⟨-, hno⟩ | ⟨o, heq, ho⟩
  · exact absurd (fun b _ _ => hfree b) (hno 0 (by omega))
  · have hle := ho.1.1
    have hge := ho.2 (show 1280 - (nmembOf size).toNat ∈ _ from ⟨by omega, fun b _ _ => hfree b⟩)
    rw [heq, Option.some.injEq]
    omega

end Heap

/-- The highest place with enough free blocks, for every state of the pool. -/
theorem mymalloc_exact (s : Pool) {size : UInt32} (hpos : 0 < size)
    (hle : size.toNat ≤ 65535 * 32) :
    ((s.mymalloc size).1 = none ↔
      ∀ o, o + (size.toNat + 31) / 32 ≤ 1280 →
        ¬ FreeRun s.ready.memmap ((size.toNat + 31) / 32) o) ∧
    ∀ p, (s.mymalloc size).1 = some p ↔ p % 32 = 0 ∧
      IsGreatest {o | o + (size.toNat + 31) / 32 ≤ 1280 ∧
        FreeRun s.ready.memmap ((size.toNat + 31) / 32) o} (p / 32) := by
  have hn := nmembOf_of_le hle
  have hsize : 0 < size.toNat := hpos
  rcases mymalloc_cases (s := s) hpos (by omega) with ⟨heq, hno⟩ | ⟨o, heq, ho⟩
  · rw [hn] at hno
    rw [heq]
    refine ⟨iff_of_true rfl hno, fun p => iff_of_false (by simp) ?_⟩
    rintro ⟨-, hgreat⟩
    exact hno _ hgreat.1.1 hgreat.1.2
  · rw [hn] at ho
    rw [heq]
    refine ⟨iff_of_false (by simp) fun hno => hno o ho.1.1 ho.1.2, fun p => ?_⟩
    rw [Option.some.injEq]
    constructor
    · rintro rfl
      rw [Nat.mul_div_cancel _ (by decide)]
      exact ⟨Nat.mul_mod_left _ _, ho⟩
    · rintro ⟨hp, hgreat⟩
      have := hgreat.unique ho
      omega

theorem mymalloc_exact_hundred : (Pool.mymalloc 100 ⟨true, fun _ => 0, fun _ => 0⟩).1 ≠ none := by
  refine mt (mymalloc_exact _ (by decide) (by decide)).1.mp fun hno => ?_
  exact hno 0 (by decide) fun _ _ _ => rfl

/-- The sizes for which a returned block lies in the pool: from 2 MiB on the number of
blocks can lose its upper bits. -/
theorem mymalloc_inside_iff (size : UInt32) :
    (∀ (s : Pool) p, (s.mymalloc size).1 = some p → p + size.toNat ≤ 40960) ↔
      size.toNat ≤ 40960 ∨ 1280 < (nmembOf size).toNat := by
  constructor
  · intro hall
    by_contra hno
    push Not at hno
    obtain ⟨hlarge, hfew⟩ := hno
    have hpos : 0 < size := show 0 < size.toNat by omega
    by_cases hn : 0 < (nmembOf size).toNat
    · -- a free pool has room for the blocks that are left
      rcases mymalloc_cases (s := ⟨true, fun _ => 0, fun _ => 0⟩) hpos hn with
        ⟨-, hnone⟩ | ⟨o, heq, -⟩
      · exact hnone 0 (by omega) fun _ _ _ => rfl
      · have := hall _ (o * 32) (by rw [heq])
        omega
    · -- no block at all: any used block ends the search
      have hzero : nmembOf size = 0 := UInt16.toNat_inj.mp (by simpa using hn)
      have hne : size ≠ 0 := by
        rintro rfl
        exact absurd hpos (by decide)
      have hlast : (Pool.mymalloc size ⟨true, fun b => if b = 1279 then 1 else 0, fun _ => 0⟩).1 =
          some (1279 * 32) := by
        simp [Pool.mymalloc, Pool.ready, myMemMalloc, hne, hzero, mallocSearch]
      have := hall _ _ hlast
      omega
  · rintro hsize s p hp
    by_cases hzero : size = 0
    · rw [hzero, mymalloc_zero] at hp
      cases hp
    · have hpos : 0 < size := UInt32.pos_iff_ne_zero.mpr hzero
      have hsize' : 0 < size.toNat := hpos
      have hn := nmembOf_toNat size
      rcases mymalloc_cases (s := s) hpos (by omega) with ⟨heq, -⟩ | ⟨o, heq, ho⟩
      · rw [heq] at hp
        cases hp
      · rw [heq] at hp
        have hle := ho.1.1
        have := Option.some.inj hp
        omega

/-- Whatever the users do with their buffers, the pool is a store of them: they do not
meet, lie in the pool at multiples of 32, keep what was written to them, also through a
`myrealloc`; the map is marked at their blocks, which the usage rate counts; and when
all are free the pool is whole again. -/
theorem heap_run {mem : ℕ → UInt8} {ops : List HeapOp} {s : HeapState}
    (h : Runs.run HeapState.step (heapStart mem) ops = some s) :
    BufferStore.LiesIn s.pool.membase s.live ∧
    (∀ p b, s.live p = some b → p % 32 = 0 ∧ 0 < b.size ∧ p + b.size ≤ 40960) ∧
    (∀ block, s.pool.memmap block ≠ 0 ↔ ∃ p b, s.live p = some b ∧
      p / 32 ≤ block ∧ block < p / 32 + (b.size + 31) / 32) ∧
    s.pool.myMemPerused.toNat = liveBlocks s.live * 100 / 1280 ∧
    ((∀ p, s.live p = none) → ∀ size : UInt32, 0 < size → size.toNat ≤ 40960 →
      (s.pool.mymalloc size).1 = some (40960 - (size.toNat + 31) / 32 * 32)) := by
  obtain ⟨allocs, hok⟩ := Runs.invariant (I := fun s => ∃ allocs, HeapOk s allocs)
    (fun _ op _ ⟨_, hs⟩ hstep => hs.step op hstep) ⟨[], heapStart_ok mem⟩ h
  refine ⟨hok.lies, fun p b hp => ?_, hok.marked_live, hok.perused,
    fun hnone size hpos hle => hok.whole hnone hpos hle⟩
  obtain ⟨hp32, hmem⟩ := hok.mem hp
  have halloc := hok.alloc _ hmem
  dsimp only at halloc
  omega

/-- Half of a buffer of 400 blocks kept by a `myrealloc`, and then freed as well. -/
theorem heap_run_three :
    (∃ s, Runs.run HeapState.step (heapStart fun _ => 0xA5)
      [.malloc 12800, .write 28160 5 7, .realloc 28160 6400] = some s ∧
      (s.live 21760).map (fun b => (b.size, b.bytes 5)) = some (6400, some 7) ∧
      BufferStore.LiesIn s.pool.membase s.live ∧
      (∀ p b, s.live p = some b → p % 32 = 0 ∧ 0 < b.size ∧ p + b.size ≤ 40960) ∧
      (∀ block, s.pool.memmap block ≠ 0 ↔ ∃ p b, s.live p = some b ∧
        p / 32 ≤ block ∧ block < p / 32 + (b.size + 31) / 32) ∧
      s.pool.myMemPerused.toNat = 200 * 100 / 1280) ∧
    ∃ s, Runs.run HeapState.step (heapStart fun _ => 0xA5)
      [.malloc 12800, .write 28160 5 7, .realloc 28160 6400, .free 21760] = some s ∧
      ∀ size : UInt32, 0 < size → size.toNat ≤ 40960 →
        (s.pool.mymalloc size).1 = some (40960 - (size.toNat + 31) / 32 * 32) := by
  obtain ⟨s, hs, hread⟩ := Option.map_eq_some_iff.mp (show (Runs.run HeapState.step
    (heapStart fun _ => 0xA5) [.malloc 12800, .write 28160 5 7, .realloc 28160 6400]).map
      (fun s => ((s.live 21760).map fun b => (b.size, b.bytes 5), liveBlocks s.live)) =
        some (some (6400, some 7), 200) by decide +kernel)
  obtain ⟨t, ht, hnone⟩ := Option.map_eq_some_iff.mp (show (Runs.run HeapState.step
    (heapStart fun _ => 0xA5) [.malloc 12800, .write 28160 5 7, .realloc 28160 6400,
      .free 21760]).map (fun t => (List.range 1280).all fun o => (t.live (o * 32)).isNone) =
        some true by decide +kernel)
  obtain ⟨hlies, hinside, hmarked, hperused, -⟩ := heap_run hs
  obtain ⟨-, hinside', -, -, hwhole⟩ := heap_run ht
  obtain ⟨hbuffer, hblocks⟩ := Prod.mk.inj hread
  rw [hblocks] at hperused
  refine ⟨⟨s, hs, hbuffer, hlies, hinside, hmarked, hperused⟩,
    t, ht, hwhole fun p => ?_⟩
  cases hp : t.live p with
  | none => rfl
  | some b =>
      have hin := hinside' p b hp
      have hplace := List.all_eq_true.mp hnone (p / 32) (List.mem_range.mpr (by omega))
      rw [Nat.div_mul_cancel (Nat.dvd_of_mod_eq_zero hin.1), hp] at hplace
      cases hplace

end YckjAcu
