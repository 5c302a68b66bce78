import YckjAcu.Malloc

/-!
# Network start-up

`lwip_comm_init` takes five blocks from the pool `SRAMIN` before it tries the network
chip, and gives them back only when one of them was not to be had.
-/

namespace YckjAcu

open BlockPool

/-- What `lwip_comm_mem_malloc` asks for, in this order. -/
inductive LwipBlock
  | mempMemory
  | ramHeap
  | tcpipThreadTaskStk
  | lwipDhcpTaskStk
  | lwipDm9000InputTaskStk
deriving DecidableEq

namespace LwipBlock

def all : List LwipBlock :=
  [mempMemory, ramHeap, tcpipThreadTaskStk, lwipDhcpTaskStk, lwipDm9000InputTaskStk]

/-- In bytes; `mempsize` is the result of `memp_get_memorysize`, and `ramheapsize` is
`LWIP_MEM_ALIGN_SIZE(MEM_SIZE) + 2 * LWIP_MEM_ALIGN_SIZE(4 * 3) + MEM_ALIGNMENT`. -/
def size (mempsize : UInt32) : LwipBlock → UInt32
  | mempMemory => mempsize
  | ramHeap => 6 * 1024 + 2 * 12 + 4
  | tcpipThreadTaskStk => 1000 * 4
  | lwipDhcpTaskStk => 128 * 4
  | lwipDm9000InputTaskStk => 512 * 4

end LwipBlock

/-- The map of the pool and the pointers that are set during start-up, as offsets into
the pool; `none` is `NULL`. -/
structure SramIn where
  memmap : MemMap
  ptr : LwipBlock → Option ℕ
  mbox : Option ℕ

/-- What a call of `lwip_comm_init` gets from outside: the result of `DM9000_Init`, and
whether `OSQCreate` has a queue left. -/
structure InitCall where
  dm9000Init : UInt8
  osqCreate : Bool

namespace SramIn

section Code

variable (mempsize : UInt32)

/-- `x = mymalloc(SRAMIN, ...)`. -/
def mymalloc (s : SramIn) (x : LwipBlock) : SramIn :=
  match myMemMalloc (x.size mempsize) s.memmap with
  | none => { s with ptr := Function.update s.ptr x none }
  | some (p, memmap) => { s with memmap, ptr := Function.update s.ptr x (some p) }

/-- `myfree(SRAMIN, x)`. -/
def myfree (s : SramIn) (x : LwipBlock) : SramIn :=
  match s.ptr x with
  | none => s
  | some p => { s with memmap := myMemFree p s.memmap }

def lwipCommMemFree (s : SramIn) : SramIn := LwipBlock.all.foldl myfree s

def mymallocAll (s : SramIn) : SramIn := LwipBlock.all.foldl (mymalloc mempsize) s

def lwipCommMemMalloc (s : SramIn) : UInt8 × SramIn :=
  let s := s.mymallocAll mempsize
  if LwipBlock.all.any fun x => (s.ptr x).isNone then (1, s.lwipCommMemFree) else (0, s)

/-- `sys_mbox_new`; a `TQ_DESCR` has 84 bytes.  When there is no room, the code clears
84 bytes from address 0 on before it tests the pointer; only the result is kept here. -/
def sysMboxNew (osqCreate : Bool) (s : SramIn) : ℤ × SramIn :=
  match myMemMalloc 84 s.memmap with
  | none => (-1, { s with mbox := none })
  | some (p, memmap) =>
      if osqCreate then (0, { s with memmap, mbox := some p })
      else (-1, { s with memmap := myMemFree p memmap, mbox := some p })

/-- A failed assertion is printed, and `tcpip_init` goes on. -/
def tcpipInit (osqCreate : Bool) (s : SramIn) : SramIn := (s.sysMboxNew osqCreate).2

def lwipCommInit (c : InitCall) (s : SramIn) : UInt8 × SramIn :=
  let (res, s) := s.lwipCommMemMalloc mempsize
  if res ≠ 0 then (1, s)
  else if c.dm9000Init ≠ 0 then (2, s)
  else (0, s.tcpipInit c.osqCreate)

/-- A call in the loop of `main`. -/
structure Attempt where
  before : SramIn
  ret : UInt8
  after : SramIn

/-- `while (lwip_comm_init()) ...`. -/
def initLoop : List InitCall → SramIn → List Attempt
  | [], _ => []
  | c :: cs, s =>
      let r := s.lwipCommInit mempsize c
      ⟨s, r.1, r.2⟩ :: if r.1 ≠ 0 then initLoop cs r.2 else []

end Code

/-- The entries of the map for `count` blocks at a pointer. -/
def blocksAt (ptr : Option ℕ) (count : ℕ) : Set ℕ :=
  {b | ∃ p ∈ ptr, p / 32 ≤ b ∧ b < p / 32 + count}

def allocated (s : SramIn) : Set ℕ := {b | s.memmap b ≠ 0}

/-- Those of a block of lwIP. -/
def blocks (mempsize : UInt32) (s : SramIn) (x : LwipBlock) : Set ℕ :=
  blocksAt (s.ptr x) (nmembOf (x.size mempsize)).toNat

/-- The blocks `xs` of `t` lie apart from each other and from those that are taken in `s`;
`after` is both. -/
structure Adds (mempsize : UInt32) (xs : List LwipBlock) (s t : SramIn) (after : Set ℕ) :
    Prop where
  apart : xs.Pairwise fun x y => Disjoint (t.blocks mempsize x) (t.blocks mempsize y)
  free : ∀ x ∈ xs, Disjoint (t.blocks mempsize x) s.allocated
  after_eq : after = s.allocated ∪ ⋃ x ∈ xs, t.blocks mempsize x

/-- The calls that fail leave the pool as it was, and the last one returns 0 with one set
of the five blocks more than at the start; the mailbox of `tcpip_thread` comes on top. -/
structure StartsUp (mempsize : UInt32) (calls : List InitCall) (s : SramIn) : Prop where
  kept : ∀ a ∈ s.initLoop mempsize calls, a.ret ≠ 0 → a.after.allocated = a.before.allocated
  last : ∃ a, (s.initLoop mempsize calls)[calls.length - 1]? = some a ∧ a.ret = 0 ∧
    (∀ x, (a.after.ptr x).isSome) ∧
    Adds mempsize LwipBlock.all s a.after (a.after.allocated \ blocksAt a.after.mbox 3)

/-! ### One block -/

@[simp] theorem blocksAt_none (count : ℕ) : blocksAt none count = ∅ := by simp [blocksAt]

@[simp] theorem blocksAt_some (p count : ℕ) :
    blocksAt (some p) count = {b | p / 32 ≤ b ∧ b < p / 32 + count} := by
  simp [blocksAt]

theorem allocated_mark (memmap : MemMap) (start : ℕ) (v : UInt16) :
    {b | mark memmap start v.toNat v b ≠ 0} =
      {b | memmap b ≠ 0} ∪ {b | start ≤ b ∧ b < start + v.toNat} := by
  ext b
  change mark memmap start v.toNat v b ≠ 0 ↔ memmap b ≠ 0 ∨ start ≤ b ∧ b < start + v.toNat
  rw [mark]
  split_ifs with hb
  · refine iff_of_true ?_ (Or.inr hb)
    rintro rfl
    have hzero := UInt16.toNat_zero
    omega
  · exact (or_iff_left hb).symm

/-- `myfree` undoes `mymalloc`. -/
theorem myMemFree_mark {memmap : MemMap} {p : ℕ} {n : UInt16} (hp : p < 40960) (hn : 0 < n.toNat)
    (hfree : ∀ b, p / 32 ≤ b → b < p / 32 + n.toNat → memmap b = 0) :
    myMemFree p (mark memmap (p / 32) n.toNat n) = memmap := by
  have hcount : mark memmap (p / 32) n.toNat n (p / 32) = n :=
    if_pos ⟨Nat.le_refl _, Nat.lt_add_of_pos_right hn⟩
  rw [myMemFree, if_pos hp, hcount]
  funext b
  rw [mark, mark]
  split_ifs with hb
  · exact (hfree b hb.1 hb.2).symm
  · rfl

theorem mallocSearch_lt {memmap : MemMap} {nmemb : UInt16} {k : ℕ} {cmemb : UInt16} {offset : ℕ}
    (h : mallocSearch memmap nmemb k cmemb = some offset) : offset < k := by
  induction k generalizing cmemb with
  | zero => cases h
  | succ k ih =>
      rw [mallocSearch] at h
      split_ifs at h
      all_goals first
        | exact Nat.lt_succ_of_le (Nat.le_of_eq (Option.some.inj h).symm)
        | exact Nat.lt_succ_of_lt (ih h)

theorem mallocSearch_add_le {memmap : MemMap} {nmemb : UInt16} {k : ℕ} {cmemb : UInt16}
    {offset : ℕ} (h : mallocSearch memmap nmemb k cmemb = some offset) :
    offset + nmemb.toNat ≤ k + cmemb.toNat := by
  induction k generalizing cmemb with
  | zero => cases h
  | succ k ih =>
      rw [mallocSearch] at h
      have hsucc : (cmemb + 1).toNat ≤ cmemb.toNat + 1 := by
        rw [UInt16.toNat_add]
        exact Nat.mod_le _ _
      have hzero := UInt16.toNat_zero
      split_ifs at h with hfree heq heq
      · rw [← heq, ← Option.some.inj h]
        omega
      · have hle := ih h
        omega
      · rw [← heq, ← Option.some.inj h]
        omega
      · have hle := ih h
        omega

/-- A pointer from `mymalloc` is the start of free blocks, which are marked with their
number. -/
theorem myMemMalloc_spec {size : UInt32} {memmap memmap' : MemMap} {p : ℕ}
    (h : myMemMalloc size memmap = some (p, memmap')) :
    p < 40960 ∧ p / 32 + (nmembOf size).toNat ≤ 1280 ∧
      (∀ b, p / 32 ≤ b → b < p / 32 + (nmembOf size).toNat → memmap b = 0) ∧
      memmap' = mark memmap (p / 32) (nmembOf size).toNat (nmembOf size) := by
  rw [myMemMalloc] at h
  split_ifs at h
  obtain ⟨offset, hsearch, hpair⟩ := Option.map_eq_some_iff.mp h
  obtain ⟨rfl, rfl⟩ := Prod.mk.inj hpair
  have hlt := mallocSearch_lt hsearch
  have hle : offset + (nmembOf size).toNat ≤ 1280 := mallocSearch_add_le hsearch
  rw [Nat.mul_div_cancel _ (by decide)]
  refine ⟨by omega, hle, fun b h1 h2 => ?_, rfl⟩
  have hpos : (0 : UInt16) < nmembOf size := by
    rw [UInt16.lt_iff_toNat_lt]
    have hzero := UInt16.toNat_zero
    omega
  refine (mallocSearch_free hpos (fun b h1 h2 => ?_) hsearch).2 b h1 h2
  have hzero := UInt16.toNat_zero
  omega

section Blocks

variable {mempsize : UInt32} {s : SramIn} {x y : LwipBlock}

theorem mymalloc_ptr_of_ne (h : y ≠ x) : (s.mymalloc mempsize x).ptr y = s.ptr y := by
  unfold mymalloc
  split
  · exact Function.update_of_ne h _ _
  · exact Function.update_of_ne h _ _

theorem foldl_mymalloc_ptr {xs : List LwipBlock} (h : y ∉ xs) (s : SramIn) :
    (xs.foldl (mymalloc mempsize) s).ptr y = s.ptr y := by
  induction xs generalizing s with
  | nil => rfl
  | cons x xs ih =>
      rw [List.foldl_cons, ih (List.not_mem_of_not_mem_cons h),
        mymalloc_ptr_of_ne (List.ne_of_not_mem_cons h)]

/-- The blocks `xs` of `t` are marked with their numbers, and nothing else has changed. -/
structure Placed (mempsize : UInt32) (xs : List LwipBlock) (s t : SramIn) : Prop where
  apart : xs.Pairwise fun x y => Disjoint (t.blocks mempsize x) (t.blocks mempsize y)
  free : ∀ x ∈ xs, Disjoint (t.blocks mempsize x) s.allocated
  lt : ∀ x ∈ xs, ∀ p ∈ t.ptr x, p < 40960
  marked : ∀ x ∈ xs, ∀ b ∈ t.blocks mempsize x, t.memmap b = nmembOf (x.size mempsize)
  rest : ∀ b, (∀ x ∈ xs, b ∉ t.blocks mempsize x) → t.memmap b = s.memmap b

theorem blocks_congr {t : SramIn} (h : s.ptr x = t.ptr x) :
    s.blocks mempsize x = t.blocks mempsize x := by
  rw [blocks, blocks, h]

theorem blocks_of_none (h : s.ptr x = none) : s.blocks mempsize x = ∅ := by
  rw [blocks, h, blocksAt_none]

theorem blocks_of_some {p : ℕ} (h : s.ptr x = some p) : s.blocks mempsize x =
    {b | p / 32 ≤ b ∧ b < p / 32 + (nmembOf (x.size mempsize)).toNat} := by
  rw [blocks, h, blocksAt_some]

theorem mymalloc_cases (mempsize : UInt32) (s : SramIn) (x : LwipBlock) :
    ((s.mymalloc mempsize x).ptr x = none ∧ (s.mymalloc mempsize x).memmap = s.memmap) ∨
    ∃ p, (s.mymalloc mempsize x).ptr x = some p ∧
      myMemMalloc (x.size mempsize) s.memmap = some (p, (s.mymalloc mempsize x).memmap) := by
  unfold mymalloc
  split
  · exact Or.inl ⟨Function.update_self _ _ _, rfl⟩
  · next p memmap hmalloc => exact Or.inr ⟨p, Function.update_self _ _ _, hmalloc⟩

theorem Placed.ne_zero {xs : List LwipBlock} {t : SramIn} (h : Placed mempsize xs s t)
    (hx : x ∈ xs) {b : ℕ} (hb : b ∈ t.blocks mempsize x) : t.memmap b ≠ 0 := by
  rw [h.marked x hx b hb]
  intro hzero
  obtain ⟨p, -, h1, h2⟩ := hb
  rw [hzero] at h2
  exact Nat.not_lt.mpr h1 h2

theorem Placed.allocated_subset {xs : List LwipBlock} {t : SramIn}
    (h : Placed mempsize xs s t) : s.allocated ⊆ t.allocated := by
  intro b hb
  have hrest := h.rest b fun x hx hin => Set.disjoint_left.mp (h.free x hx) hin hb
  change t.memmap b ≠ 0
  rw [hrest]
  exact hb

theorem placed_mymalloc (mempsize : UInt32) (s : SramIn) (x : LwipBlock) :
    Placed mempsize [x] s (s.mymalloc mempsize x) := by
  rcases mymalloc_cases mempsize s x with ⟨hptr, hmap⟩ | ⟨p, hptr, hmalloc⟩
  · have hblocks : (s.mymalloc mempsize x).blocks mempsize x = ∅ := blocks_of_none hptr
    refine ⟨List.pairwise_singleton _ _, ?_, ?_, ?_, fun b _ => congrFun hmap b⟩
    all_goals
      intro y hy
      rw [List.mem_singleton.mp hy]
    · rw [hblocks]
      exact Set.empty_disjoint _
    · rw [hptr]
      exact fun p hp => absurd hp (Option.not_mem_none p)
    · rw [hblocks]
      exact fun b hb => absurd hb (Set.notMem_empty b)
  · obtain ⟨hp, -, hfree, hmap⟩ := myMemMalloc_spec hmalloc
    have hblocks : (s.mymalloc mempsize x).blocks mempsize x =
        {b | p / 32 ≤ b ∧ b < p / 32 + (nmembOf (x.size mempsize)).toNat} := blocks_of_some hptr
    refine ⟨List.pairwise_singleton _ _, ?_, ?_, ?_, fun b hb => ?_⟩
    · intro y hy
      rw [List.mem_singleton.mp hy, hblocks]
      exact Set.disjoint_left.mpr fun b hb hset => hset (hfree b hb.1 hb.2)
    · intro y hy q hq
      rw [List.mem_singleton.mp hy, hptr] at hq
      exact (Option.some.inj hq) ▸ hp
    · intro y hy b hb
      rw [List.mem_singleton.mp hy, hblocks] at hb
      rw [List.mem_singleton.mp hy, hmap, mark]
      exact if_pos hb
    · have hout := hb x List.mem_cons_self
      rw [hblocks] at hout
      rw [hmap, mark]
      exact if_neg hout

/-- Whatever is to be had is taken from what is free. -/
theorem placed_foldl {xs : List LwipBlock} (hxs : xs.Nodup) (s : SramIn) :
    Placed mempsize xs s (xs.foldl (mymalloc mempsize) s) := by
  induction xs generalizing s with
  | nil =>
      exact ⟨List.Pairwise.nil, fun x hx => absurd hx List.not_mem_nil,
        fun x hx => absurd hx List.not_mem_nil, fun x hx => absurd hx List.not_mem_nil,
        fun _ _ => rfl⟩
  | cons x xs ih =>
      obtain ⟨hx, hxs⟩ := List.nodup_cons.mp hxs
      have hone := placed_mymalloc mempsize s x
      have h := ih hxs (s.mymalloc mempsize x)
      rw [List.foldl_cons]
      generalize hs1 : s.mymalloc mempsize x = s1 at hone h ⊢
      have hptr : (xs.foldl (mymalloc mempsize) s1).ptr x = s1.ptr x := foldl_mymalloc_ptr hx s1
      generalize xs.foldl (mymalloc mempsize) s1 = t at h hptr ⊢
      have hblocks : t.blocks mempsize x = s1.blocks mempsize x := blocks_congr hptr
      have hx1 : x ∈ [x] := List.mem_cons_self
      have hapart : ∀ y ∈ xs, Disjoint (t.blocks mempsize x) (t.blocks mempsize y) := by
        intro y hy
        rw [hblocks]
        refine (h.free y hy).symm.mono_left fun b hb => ?_
        exact hone.ne_zero hx1 hb
      refine ⟨List.Pairwise.cons hapart h.apart, ?_, ?_, ?_, ?_⟩
      · intro y hy
        rcases List.mem_cons.mp hy with rfl | hy
        · rw [hblocks]
          exact hone.free y hx1
        · exact (h.free y hy).mono_right hone.allocated_subset
      · intro y hy
        rcases List.mem_cons.mp hy with rfl | hy
        · rw [hptr]
          exact hone.lt y hx1
        · exact h.lt y hy
      · intro y hy b hb
        rcases List.mem_cons.mp hy with rfl | hy
        · rw [h.rest b fun z hz => Set.disjoint_left.mp (hapart z hz) hb]
          exact hone.marked y hx1 b (hblocks ▸ hb)
        · exact h.marked y hy b hb
      · intro b hb
        rw [h.rest b fun y hy => hb y (List.mem_cons_of_mem x hy)]
        apply hone.rest b
        intro y hy
        rw [List.mem_singleton.mp hy, ← hblocks]
        exact hb x List.mem_cons_self

theorem Placed.adds {xs : List LwipBlock} {t : SramIn} (h : Placed mempsize xs s t) :
    Adds mempsize xs s t t.allocated := by
  refine ⟨h.apart, h.free, Set.Subset.antisymm (fun b hb => ?_) ?_⟩
  · by_contra hout
    have hrest := h.rest b fun x hx hin => hout (Or.inr (Set.mem_biUnion hx hin))
    apply hout
    apply Or.inl
    change s.memmap b ≠ 0
    rw [← hrest]
    exact hb
  · refine Set.union_subset h.allocated_subset (Set.iUnion₂_subset fun x hx b hb => ?_)
    exact h.ne_zero hx hb

theorem myfree_ptr (s : SramIn) (x : LwipBlock) : (s.myfree x).ptr = s.ptr := by
  unfold myfree
  split <;> rfl

/-- `myfree` clears the blocks of its pointer. -/
theorem Placed.memmap_myfree {xs : List LwipBlock} {t : SramIn} (h : Placed mempsize xs s t)
    (hx : x ∈ xs) (hpos : 0 < (nmembOf (x.size mempsize)).toNat) :
    (∀ b ∈ t.blocks mempsize x, (t.myfree x).memmap b = 0) ∧
      ∀ b, b ∉ t.blocks mempsize x → (t.myfree x).memmap b = t.memmap b := by
  unfold myfree
  split
  · next hnone =>
      rw [blocks_of_none hnone]
      exact ⟨fun b hb => absurd hb (Set.notMem_empty b), fun _ _ => rfl⟩
  · next p hp =>
      have hblocks : t.blocks mempsize x =
          {b | p / 32 ≤ b ∧ b < p / 32 + (nmembOf (x.size mempsize)).toNat} := blocks_of_some hp
      have hstart : t.memmap (p / 32) = nmembOf (x.size mempsize) := by
        apply h.marked x hx
        rw [hblocks]
        exact ⟨Nat.le_refl _, Nat.lt_add_of_pos_right hpos⟩
      rw [hblocks, myMemFree, if_pos (h.lt x hx p hp), hstart]
      exact ⟨fun b hb => if_pos hb, fun b hb => if_neg hb⟩

theorem Placed.foldl_myfree {xs : List LwipBlock} {t : SramIn} (h : Placed mempsize xs s t)
    (hpos : ∀ x ∈ xs, 0 < (nmembOf (x.size mempsize)).toNat) :
    (xs.foldl myfree t).memmap = s.memmap := by
  induction xs generalizing t with
  | nil => exact funext fun b => h.rest b fun x hx => absurd hx List.not_mem_nil
  | cons x xs ih =>
      obtain ⟨hcleared, hkept⟩ := h.memmap_myfree List.mem_cons_self (hpos x List.mem_cons_self)
      have hblocks : ∀ y, (t.myfree x).blocks mempsize y = t.blocks mempsize y :=
        fun y => blocks_congr (congrFun (myfree_ptr t x) y)
      obtain ⟨hapart, hapart'⟩ := List.pairwise_cons.mp h.apart
      rw [List.foldl_cons]
      refine ih ⟨?_, fun y hy => ?_, fun y hy => ?_, fun y hy b hb => ?_, fun b hb => ?_⟩
        fun y hy => hpos y (List.mem_cons_of_mem x hy)
      · simp only [hblocks]
        exact hapart'
      · rw [hblocks]
        exact h.free y (List.mem_cons_of_mem x hy)
      · rw [myfree_ptr]
        exact h.lt y (List.mem_cons_of_mem x hy)
      · rw [hblocks] at hb
        rw [hkept b (Set.disjoint_right.mp (hapart y hy) hb)]
        exact h.marked y (List.mem_cons_of_mem x hy) b hb
      · by_cases hbx : b ∈ t.blocks mempsize x
        · rw [hcleared b hbx]
          have hfree := Set.disjoint_left.mp (h.free x List.mem_cons_self) hbx
          exact (not_not.mp hfree).symm
        · rw [hkept b hbx]
          apply h.rest b
          intro y hy
          rcases List.mem_cons.mp hy with rfl | hy
          · exact hbx
          · exact hblocks y ▸ hb y hy

theorem Adds.congr {xs : List LwipBlock} {t u : SramIn} {after : Set ℕ}
    (h : Adds mempsize xs s t after) (hptr : u.ptr = t.ptr) : Adds mempsize xs s u after := by
  have hblocks : ∀ x, u.blocks mempsize x = t.blocks mempsize x :=
    fun x => blocks_congr (congrFun hptr x)
  constructor
  · simp only [hblocks]
    exact h.apart
  · simp only [hblocks]
    exact h.free
  · simp only [hblocks]
    exact h.after_eq

end Blocks

/-! ### One call -/

section Call

variable {mempsize : UInt32} {s : SramIn} {c : InitCall}

def Fits (mempsize : UInt32) (s : SramIn) : Prop :=
  ∀ x, ((s.mymallocAll mempsize).ptr x).isSome

theorem placed_mymallocAll (mempsize : UInt32) (s : SramIn) :
    Placed mempsize LwipBlock.all s (s.mymallocAll mempsize) :=
  placed_foldl (by decide) s

theorem lwipCommMemMalloc_of_fits (h : s.Fits mempsize) :
    s.lwipCommMemMalloc mempsize = (0, s.mymallocAll mempsize) := by
  rw [lwipCommMemMalloc]
  refine if_neg fun hany => ?_
  obtain ⟨x, -, hnone⟩ := List.any_eq_true.mp hany
  rw [Option.isNone_iff_eq_none] at hnone
  have hsome := h x
  rw [hnone] at hsome
  cases hsome

theorem lwipCommMemMalloc_of_not_fits (h : ¬ s.Fits mempsize) :
    s.lwipCommMemMalloc mempsize =
      (1, (s.mymallocAll mempsize).lwipCommMemFree) := by
  obtain ⟨x, hx⟩ := not_forall.mp h
  rw [lwipCommMemMalloc]
  apply if_pos
  refine List.any_eq_true.mpr ⟨x, ?_, ?_⟩
  · cases x <;> decide
  · simpa using hx

theorem lwipCommInit_of_fits (h : s.Fits mempsize) :
    s.lwipCommInit mempsize c =
      if c.dm9000Init ≠ 0 then (2, s.mymallocAll mempsize)
      else (0, (s.mymallocAll mempsize).tcpipInit c.osqCreate) := by
  rw [lwipCommInit, lwipCommMemMalloc_of_fits h]
  rfl

theorem lwipCommInit_of_not_fits (h : ¬ s.Fits mempsize) :
    s.lwipCommInit mempsize c =
      (1, (s.mymallocAll mempsize).lwipCommMemFree) := by
  rw [lwipCommInit, lwipCommMemMalloc_of_not_fits h]
  rfl

theorem lwipCommInit_eq_zero_iff :
    (s.lwipCommInit mempsize c).1 = 0 ↔ s.Fits mempsize ∧ c.dm9000Init = 0 := by
  have h1 : (1 : UInt8) ≠ 0 := by decide
  have h2 : (2 : UInt8) ≠ 0 := by decide
  by_cases h : s.Fits mempsize
  · rw [lwipCommInit_of_fits h, and_iff_right h]
    split_ifs with hc
    · exact iff_of_false h2 hc
    · exact iff_of_true rfl (not_not.mp hc)
  · rw [lwipCommInit_of_not_fits h]
    exact iff_of_false h1 fun hand => h hand.1

theorem nmembOf_size_pos (hsize : 0 < (nmembOf mempsize).toNat) (x : LwipBlock) :
    0 < (nmembOf (x.size mempsize)).toNat := by
  cases x
  · exact hsize
  · exact (by decide : 0 < (nmembOf (6 * 1024 + 2 * 12 + 4)).toNat)
  · exact (by decide : 0 < (nmembOf (1000 * 4)).toNat)
  · exact (by decide : 0 < (nmembOf (128 * 4)).toNat)
  · exact (by decide : 0 < (nmembOf (512 * 4)).toNat)

/-- When one block is not to be had, the others are given back. -/
theorem memmap_of_not_fits (hsize : 0 < (nmembOf mempsize).toNat) (h : ¬ s.Fits mempsize) :
    (s.lwipCommInit mempsize c).2.memmap = s.memmap := by
  rw [lwipCommInit_of_not_fits h]
  exact (s.placed_mymallocAll mempsize).foldl_myfree fun x _ => nmembOf_size_pos hsize x

/-- The mailbox lies apart from what was taken before. -/
theorem allocated_tcpipInit (osqCreate : Bool) (s : SramIn) :
    (s.tcpipInit osqCreate).allocated \ blocksAt (s.tcpipInit osqCreate).mbox 3 =
      s.allocated := by
  unfold tcpipInit sysMboxNew
  split
  · change s.allocated \ blocksAt none 3 = s.allocated
    rw [blocksAt_none, Set.sdiff_empty]
  · next p memmap hmalloc =>
      obtain ⟨hp, -, hfree, hmap⟩ := myMemMalloc_spec hmalloc
      have hcount : (nmembOf 84).toNat = 3 := by decide
      have hmbox : blocksAt (some p) 3 = {b | p / 32 ≤ b ∧ b < p / 32 + (nmembOf 84).toNat} := by
        rw [hcount, blocksAt_some]
      have hdisj : Disjoint s.allocated (blocksAt (some p) 3) := by
        rw [hmbox, Set.disjoint_right]
        exact fun b hb hset => hset (hfree b hb.1 hb.2)
      split_ifs with hq
      · have halloc := allocated_mark s.memmap (p / 32) (nmembOf 84)
        rw [← hmap, ← hmbox] at halloc
        change {b | memmap b ≠ 0} \ blocksAt (some p) 3 = s.allocated
        rw [halloc, Set.union_sdiff_right]
        exact hdisj.sdiff_eq_left
      · have hback := myMemFree_mark hp (hcount ▸ (by decide : 0 < 3)) hfree
        rw [← hmap] at hback
        change {b | myMemFree p memmap b ≠ 0} \ blocksAt (some p) 3 = s.allocated
        rw [hback]
        exact hdisj.sdiff_eq_left

theorem tcpipInit_ptr (osqCreate : Bool) (s : SramIn) : (s.tcpipInit osqCreate).ptr = s.ptr := by
  unfold tcpipInit sysMboxNew
  split
  · rfl
  · split_ifs <;> rfl

/-- The stack of `tcpip_thread` has 125 blocks. -/
theorem allocated_mymallocAll_ne (h : s.Fits mempsize) :
    (s.mymallocAll mempsize).allocated ≠ s.allocated := by
  have hplaced := s.placed_mymallocAll mempsize
  have hmem : .tcpipThreadTaskStk ∈ LwipBlock.all := by decide
  obtain ⟨p, hp⟩ := Option.isSome_iff_exists.mp (h .tcpipThreadTaskStk)
  have hcount : 0 < (nmembOf (LwipBlock.tcpipThreadTaskStk.size mempsize)).toNat :=
    (by decide : 0 < (nmembOf (1000 * 4)).toNat)
  have hin : p / 32 ∈ (s.mymallocAll mempsize).blocks mempsize
      .tcpipThreadTaskStk := by
    rw [blocks_of_some hp]
    exact ⟨Nat.le_refl _, Nat.lt_add_of_pos_right hcount⟩
  intro heq
  refine Set.disjoint_left.mp (hplaced.free _ hmem) hin ?_
  rw [← heq]
  exact hplaced.ne_zero hmem hin

/-- The five blocks of a first call without a network chip stay taken. -/
theorem not_startsUp_of_failure (hfits : s.Fits mempsize) (hc : c.dm9000Init ≠ 0)
    (calls : List InitCall) : ¬ StartsUp mempsize (c :: calls) s := by
  intro h
  have hinit : s.lwipCommInit mempsize c = (2, s.mymallocAll mempsize) := by
    rw [lwipCommInit_of_fits hfits, if_pos hc]
  have hleak := allocated_mymallocAll_ne hfits
  generalize s.mymallocAll mempsize = t at hinit hleak
  have hmem : ⟨s, 2, t⟩ ∈ s.initLoop mempsize (c :: calls) := by
    rw [initLoop, hinit]
    exact List.mem_cons_self
  exact hleak (h.kept _ hmem (by decide : (2 : UInt8) ≠ 0))

end Call

/-- From a pool in which the five blocks fit, start-up can be retried exactly when there
is nothing to retry. -/
theorem startsUp_iff (mempsize : UInt32) (fails : List InitCall) (ok : InitCall) (s : SramIn)
    (hfails : ∀ c ∈ fails, c.dm9000Init ≠ 0) (hok : ok.dm9000Init = 0)
    (hroom : (s.lwipCommInit mempsize ok).1 = 0) :
    StartsUp mempsize (fails ++ [ok]) s ↔ fails = [] := by
  have hfits := (lwipCommInit_eq_zero_iff.mp hroom).1
  constructor
  · intro h
    by_contra hne
    obtain ⟨c, fails, rfl⟩ := List.exists_cons_of_ne_nil hne
    exact not_startsUp_of_failure hfits (hfails c List.mem_cons_self) (fails ++ [ok]) h
  · rintro rfl
    have hinit : s.lwipCommInit mempsize ok =
        (0, (s.mymallocAll mempsize).tcpipInit ok.osqCreate) := by
      rw [lwipCommInit_of_fits hfits, if_neg (not_not.mpr hok)]
    have hadds := (s.placed_mymallocAll mempsize).adds
    have hsome : ∀ x, ((s.mymallocAll mempsize).ptr x).isSome := hfits
    have hmbox := allocated_tcpipInit ok.osqCreate (s.mymallocAll mempsize)
    have hptr := tcpipInit_ptr ok.osqCreate (s.mymallocAll mempsize)
    generalize (s.mymallocAll mempsize).tcpipInit ok.osqCreate = u at hinit hmbox hptr
    have hloop : s.initLoop mempsize [ok] = [⟨s, 0, u⟩] := by
      rw [initLoop, hinit]
      rfl
    constructor
    · rw [List.nil_append, hloop]
      intro a ha hret
      rw [List.mem_singleton.mp ha] at hret
      exact absurd rfl hret
    · rw [List.nil_append, hloop]
      refine ⟨_, rfl, rfl, fun x => ?_, ?_⟩
      · rw [hptr]
        exact hsome x
      · rw [hmbox]
        exact hadds.congr hptr

def emptyPool : SramIn := ⟨fun _ => 0, fun _ => none, none⟩

/-- Without a failure, and after two. -/
theorem startsUp_emptyPool : StartsUp 14000 ([] ++ [⟨0, true⟩]) emptyPool ∧
    ¬ StartsUp 14000 ([⟨1, true⟩, ⟨1, true⟩] ++ [⟨0, true⟩]) emptyPool := by
  have hroom : (emptyPool.lwipCommInit 14000 ⟨0, true⟩).1 = 0 := by decide +kernel
  refine ⟨(startsUp_iff 14000 [] ⟨0, true⟩ emptyPool (by decide) rfl hroom).mpr rfl, fun h => ?_⟩
  have hnone := (startsUp_iff 14000 [⟨1, true⟩, ⟨1, true⟩] ⟨0, true⟩ emptyPool (by decide) rfl
    hroom).mp h
  cases hnone

/-- One failure of `DM9000_Init` costs 27 kilobytes. -/
theorem one_failure_leaks : ¬ ∀ (mempsize : UInt32) (fails : List InitCall) (ok : InitCall)
    (s : SramIn), (∀ c ∈ fails, c.dm9000Init ≠ 0) → ok.dm9000Init = 0 →
      (s.lwipCommInit mempsize ok).1 = 0 → StartsUp mempsize (fails ++ [ok]) s := by
  intro h
  have hroom : (emptyPool.lwipCommInit 14000 ⟨0, true⟩).1 = 0 := by decide +kernel
  exact not_startsUp_of_failure (lwipCommInit_eq_zero_iff.mp hroom).1
    (by decide : (⟨1, true⟩ : InitCall).dm9000Init ≠ 0) _
    (h 14000 [⟨1, true⟩] ⟨0, true⟩ emptyPool (by decide) rfl hroom)

/-! ### After a failure -/

/-- The number of blocks taken, as `my_mem_perused` counts them. -/
def used (s : SramIn) : ℕ := ((Finset.range 1280).filter fun b => s.memmap b ≠ 0).card

/-- The blocks that a call of `lwip_comm_mem_malloc` needs. -/
def needed (mempsize : UInt32) : ℕ :=
  (LwipBlock.all.map fun x => (nmembOf (x.size mempsize)).toNat).sum

theorem used_le (s : SramIn) : s.used ≤ 1280 := by
  have hle := Finset.card_filter_le (Finset.range 1280) fun b => s.memmap b ≠ 0
  rwa [Finset.card_range] at hle

section Retry

variable {mempsize : UInt32} {s : SramIn}

theorem used_mymalloc {x : LwipBlock} (h : ((s.mymalloc mempsize x).ptr x).isSome) :
    (s.mymalloc mempsize x).used = s.used + (nmembOf (x.size mempsize)).toNat := by
  rcases mymalloc_cases mempsize s x with ⟨hptr, -⟩ | ⟨p, -, hmalloc⟩
  · rw [hptr] at h
    cases h
  · obtain ⟨-, hle, hfree, hmap⟩ := myMemMalloc_spec hmalloc
    have hmark : ∀ b, (s.mymalloc mempsize x).memmap b ≠ 0 ↔ s.memmap b ≠ 0 ∨
        p / 32 ≤ b ∧ b < p / 32 + (nmembOf (x.size mempsize)).toNat := by
      rw [hmap]
      exact Set.ext_iff.mp (allocated_mark s.memmap (p / 32) (nmembOf (x.size mempsize)))
    have hunion : (Finset.range 1280).filter (fun b => (s.mymalloc mempsize x).memmap b ≠ 0) =
        (Finset.range 1280).filter (fun b => s.memmap b ≠ 0) ∪
          Finset.Ico (p / 32) (p / 32 + (nmembOf (x.size mempsize)).toNat) := by
      ext b
      simp only [Finset.mem_filter, Finset.mem_range, Finset.mem_union, Finset.mem_Ico, hmark]
      constructor
      · rintro ⟨hb, hset | hin⟩
        · exact Or.inl ⟨hb, hset⟩
        · exact Or.inr hin
      · rintro (⟨hb, hset⟩ | hin)
        · exact ⟨hb, Or.inl hset⟩
        · exact ⟨Nat.lt_of_lt_of_le hin.2 hle, Or.inr hin⟩
    have hdisj : Disjoint ((Finset.range 1280).filter fun b => s.memmap b ≠ 0)
        (Finset.Ico (p / 32) (p / 32 + (nmembOf (x.size mempsize)).toNat)) := by
      rw [Finset.disjoint_left]
      intro b hset hin
      rw [Finset.mem_Ico] at hin
      exact (Finset.mem_filter.mp hset).2 (hfree b hin.1 hin.2)
    rw [used, hunion, Finset.card_union_of_disjoint hdisj, Nat.card_Ico, Nat.add_sub_cancel_left,
      used]

theorem used_foldl {xs : List LwipBlock} (hxs : xs.Nodup)
    (h : ∀ x ∈ xs, ((xs.foldl (mymalloc mempsize) s).ptr x).isSome) :
    (xs.foldl (mymalloc mempsize) s).used =
      s.used + (xs.map fun x => (nmembOf (x.size mempsize)).toNat).sum := by
  induction xs generalizing s with
  | nil => simp
  | cons x xs ih =>
      obtain ⟨hx, hxs⟩ := List.nodup_cons.mp hxs
      have hhead := h x List.mem_cons_self
      rw [List.foldl_cons, foldl_mymalloc_ptr hx] at hhead
      rw [List.foldl_cons, ih hxs fun y hy => h y (List.mem_cons_of_mem x hy),
        used_mymalloc hhead, List.map_cons, List.sum_cons, Nat.add_assoc]

theorem mymalloc_congr (mempsize : UInt32) {s t : SramIn} (hmap : s.memmap = t.memmap)
    (x : LwipBlock) :
    (s.mymalloc mempsize x).memmap = (t.mymalloc mempsize x).memmap ∧
      (s.mymalloc mempsize x).ptr x = (t.mymalloc mempsize x).ptr x := by
  unfold mymalloc
  rw [hmap]
  cases myMemMalloc (x.size mempsize) t.memmap with
  | none => exact ⟨rfl, by simp⟩
  | some r => exact ⟨rfl, by simp⟩

theorem foldl_mymalloc_congr {xs : List LwipBlock} (hxs : xs.Nodup) {t : SramIn}
    (hmap : s.memmap = t.memmap) : ∀ x ∈ xs,
      (xs.foldl (mymalloc mempsize) s).ptr x = (xs.foldl (mymalloc mempsize) t).ptr x := by
  induction xs generalizing s t with
  | nil => exact fun x hx => absurd hx List.not_mem_nil
  | cons x xs ih =>
      obtain ⟨hx, hxs⟩ := List.nodup_cons.mp hxs
      obtain ⟨hmap', hptr⟩ := mymalloc_congr mempsize hmap x
      intro y hy
      rw [List.foldl_cons, List.foldl_cons]
      rcases List.mem_cons.mp hy with rfl | hy
      · rw [foldl_mymalloc_ptr hx, foldl_mymalloc_ptr hx, hptr]
      · exact ih hxs hmap' y hy

theorem fits_congr {t : SramIn} (hmap : s.memmap = t.memmap) :
    s.Fits mempsize ↔ t.Fits mempsize := by
  refine forall_congr' fun x => ?_
  have hmem : x ∈ LwipBlock.all := by cases x <;> decide
  rw [mymallocAll, mymallocAll, foldl_mymalloc_congr (by decide) hmap x hmem]

theorem initLoop_of_not_fits (hsize : 0 < (nmembOf mempsize).toNat) (h : ¬ s.Fits mempsize)
    (calls : List InitCall) : ∀ a ∈ s.initLoop mempsize calls, a.ret = 1 := by
  induction calls generalizing s with
  | nil => exact fun a ha => absurd ha List.not_mem_nil
  | cons c calls ih =>
      have hret : (s.lwipCommInit mempsize c).1 = 1 := by
        rw [lwipCommInit_of_not_fits h]
      have hagain : ¬ (s.lwipCommInit mempsize c).2.Fits mempsize :=
        fun hfits => h ((fits_congr (memmap_of_not_fits hsize h)).mp hfits)
      rw [initLoop]
      generalize s.lwipCommInit mempsize c = r at hret hagain
      rw [hret, if_pos (by decide)]
      intro a ha
      rcases List.mem_cons.mp ha with rfl | ha
      · rfl
      · exact ih hagain a ha

theorem used_mymallocAll (h : s.Fits mempsize) :
    (s.mymallocAll mempsize).used = s.used + needed mempsize := by
  have hsome : ∀ x ∈ LwipBlock.all, ((s.mymallocAll mempsize).ptr x).isSome := fun x _ => h x
  rw [mymallocAll] at hsome ⊢
  rw [used_foldl (by decide) hsome, needed]

/-- With too many failures of `DM9000_Init` the pool never has the five blocks again, and
the loop in `main` goes on for ever. -/
theorem initLoop_never_ends (hsize : 0 < (nmembOf mempsize).toNat) {fails : List InitCall}
    (hfails : ∀ c ∈ fails, c.dm9000Init ≠ 0) (calls : List InitCall)
    (hmany : 1280 < s.used + (fails.length + 1) * needed mempsize) :
    ∀ a ∈ s.initLoop mempsize (fails ++ calls), a.ret ≠ 0 := by
  have h1 : (1 : UInt8) ≠ 0 := by decide
  have h2 : (2 : UInt8) ≠ 0 := by decide
  induction fails generalizing s with
  | nil =>
      have hno : ¬ s.Fits mempsize := by
        intro hfits
        have hle := used_le (s.mymallocAll mempsize)
        rw [used_mymallocAll hfits] at hle
        rw [List.length_nil, Nat.zero_add, Nat.one_mul] at hmany
        omega
      exact fun a ha => ne_of_eq_of_ne (initLoop_of_not_fits hsize hno _ a ha) h1
  | cons c fails ih =>
      by_cases hfits : s.Fits mempsize
      · have hused := used_mymallocAll hfits
        have hinit : s.lwipCommInit mempsize c = (2, s.mymallocAll mempsize) := by
          rw [lwipCommInit_of_fits hfits, if_pos (hfails c List.mem_cons_self)]
        generalize s.mymallocAll mempsize = t at hused hinit
        rw [List.length_cons, Nat.succ_mul] at hmany
        intro a ha
        rw [List.cons_append, initLoop, hinit, if_pos h2] at ha
        rcases List.mem_cons.mp ha with rfl | ha
        · exact h2
        · refine ih (fun d hd => hfails d (List.mem_cons_of_mem c hd)) ?_ a ha
          rw [hused]
          omega
      · exact fun a ha => ne_of_eq_of_ne (initLoop_of_not_fits hsize hfits _ a ha) h1

theorem le_needed (mempsize : UInt32) : 398 ≤ needed mempsize := by
  have hram : (nmembOf (6 * 1024 + 2 * 12 + 4)).toNat = 193 := by decide
  have htcpip : (nmembOf (1000 * 4)).toNat = 125 := by decide
  have hdhcp : (nmembOf (128 * 4)).toNat = 16 := by decide
  have hinput : (nmembOf (512 * 4)).toNat = 64 := by decide
  simp only [needed, LwipBlock.all, List.map_cons, List.map_nil, List.sum_cons, List.sum_nil,
    LwipBlock.size, hram, htcpip, hdhcp, hinput]
  omega

/-- Three failures are too many for any pool. -/
theorem initLoop_three_failures (hsize : 0 < (nmembOf mempsize).toNat) {fails : List InitCall}
    (hfails : ∀ c ∈ fails, c.dm9000Init ≠ 0) (hlen : 3 ≤ fails.length) (calls : List InitCall) :
    ∀ a ∈ s.initLoop mempsize (fails ++ calls), a.ret ≠ 0 := by
  apply initLoop_never_ends hsize hfails
  calc 1280 < 4 * 398 := by decide
    _ ≤ (fails.length + 1) * needed mempsize :=
      Nat.mul_le_mul (Nat.succ_le_succ hlen) (le_needed mempsize)
    _ ≤ s.used + (fails.length + 1) * needed mempsize := Nat.le_add_left _ _

end Retry

end SramIn

end YckjAcu
