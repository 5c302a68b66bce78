import YckjAcu.Messages

/-!
# Ownership of the message buffers

Each task allocates its buffer once, and the other task frees it with the first
message.  As long as no task starts a second message, every use of a buffer and
every free is of a block that is still allocated to the task; the allocations of
other users stay their own.
-/

namespace YckjAcu

open BlockPool

/-- The task writes to its buffer, posts it or frees it. -/
def Pc.UsesBuffer : Pc → Bool
  | .fill _ | .post | .freeOwn => true
  | _ => false

def Pc.message : Pc → List ℕ
  | .reading p | .freeMessage p => [p]
  | _ => []

namespace System

/-- The block at `p` is allocated to the task. -/
def Holds (t : Task) (p : ℕ) (s : System) : Prop :=
  ∃ a ∈ s.allocs, a.user = .task t ∧ a.start * 32 = p

/-- The step does not ask for more than the pool can give, and starts no second
message of a task. -/
def KeepsOwnership (s : System) (l : Label) : Prop :=
  (∀ t, l.Starts t → (s.task t).posted = []) ∧
    match l with
    | .mymalloc t => (myMemMalloc (UInt32.ofNat t.size) s.memmap).isSome
    | .otherMalloc size => size ≠ 0 → nmembOf size ≠ 0
    | _ => True

/-! ### The invariant -/

/-- The allocation of the task's buffer is in the list. -/
def Keeps (t : Task) (x : TaskState) (allocs : List (Alloc User)) : Prop :=
  ∃ a ∈ allocs, a.user = .task t ∧ x.buf = some (a.start * 32)

/-- The buffer of a task, whose message `r` the other task holds. -/
structure BufferOk (t : Task) (x : TaskState) (r : List ℕ) (allocs : List (Alloc User)) :
    Prop where
  stock : x.freed + (r ++ x.queue).length = x.posted.length
  single : x.posted.length ≤ 1
  mine : ∀ p ∈ r ++ x.queue, x.buf = some p
  held : x.pc ≠ .start → x.freed = 0 → Keeps t x allocs
  fresh : x.pc = .start ∨ x.pc.UsesBuffer → x.posted = []
  posts : x.pc ≠ .freeOwn

/-- The map of the pool stands for the allocations, all within the pool. -/
structure PoolOk (memmap : MemMap) (allocs : List (Alloc User)) : Prop where
  represents : Represents (counts memmap) allocs
  range : ∀ a ∈ allocs, a.start < 1280

structure OwnershipOk (s : System) : Prop where
  pool : PoolOk s.memmap s.allocs
  buffers : ∀ t, BufferOk t (s.task t) (s.task t.other).pc.message s.allocs

namespace BufferOk

variable {t : Task} {x : TaskState} {r : List ℕ} {allocs allocs' : List (Alloc User)}

theorem keeps_of_mem (h : BufferOk t x r allocs) {p : ℕ} (hp : p ∈ r ++ x.queue) :
    x.freed = 0 ∧ (r ++ x.queue).length = 1 ∧
      ∃ a ∈ allocs, a.user = .task t ∧ a.start * 32 = p := by
  have hpos := List.length_pos_of_mem hp
  have hstock := h.stock
  have hsingle := h.single
  have hstart : x.pc ≠ .start := by
    intro hpc
    have hnil := h.fresh (Or.inl hpc)
    rw [hnil, List.length_nil] at hstock
    omega
  refine ⟨by omega, by omega, ?_⟩
  obtain ⟨a, ha, huser, hbuf⟩ := h.held hstart (by omega)
  exact ⟨a, ha, huser, Option.some.inj (hbuf.symm.trans (h.mine p hp))⟩

theorem congr_allocs (h : BufferOk t x r allocs)
    (hkeep : ∀ a ∈ allocs, a.user = .task t → a ∈ allocs') : BufferOk t x r allocs' where
  stock := h.stock
  single := h.single
  mine := h.mine
  held := by
    intro hpc hfreed
    obtain ⟨a, ha, huser, hrest⟩ := h.held hpc hfreed
    exact ⟨a, hkeep a ha huser, huser, hrest⟩
  fresh := h.fresh
  posts := h.posts

theorem goto (h : BufferOk t x r allocs) (hstart : x.pc ≠ .start) (pc : Pc) (hpc : pc ≠ .start)
    (hpost : pc ≠ .freeOwn) (huse : pc.UsesBuffer → x.posted = []) :
    BufferOk t { x with pc } r allocs where
  stock := h.stock
  single := h.single
  mine := h.mine
  held := fun _ hfreed => h.held hstart hfreed
  fresh := fun h => h.elim (fun h => absurd h hpc) huse
  posts := hpost

end BufferOk

variable {s u : System} {t : Task}

theorem ownershipOk_set {x : TaskState} :
    (s.set t x).OwnershipOk ↔ PoolOk s.memmap s.allocs ∧
      BufferOk t x (s.task t.other).pc.message s.allocs ∧
      BufferOk t.other (s.task t.other) x.pc.message s.allocs := by
  constructor
  · rintro ⟨hpool, hbuf⟩
    have h := hbuf t
    have h' := hbuf t.other
    simp at h h'
    exact ⟨hpool, h, h'⟩
  · rintro ⟨hpool, h, h'⟩
    refine ⟨hpool, (Task.forall_iff t).mpr ⟨?_, ?_⟩⟩
    · simpa using h
    · simpa using h'

theorem OwnershipOk.goto (h : s.OwnershipOk) (hstart : (s.task t).pc ≠ .start) {pc : Pc}
    (hpc : pc ≠ .start) (hpost : pc ≠ .freeOwn)
    (huse : pc.UsesBuffer → (s.task t).posted = [])
    (hmsg : pc.message = (s.task t).pc.message) : (s.goto t pc).OwnershipOk := by
  refine ownershipOk_set.mpr ⟨h.pool, (h.buffers t).goto hstart pc hpc hpost huse, ?_⟩
  have hother := h.buffers t.other
  rw [Task.other_other, ← hmsg] at hother
  exact hother

theorem OwnershipOk.move (h : s.OwnershipOk) {pc : Pc} (hm : Moves t (s.task t).pc pc)
    (hfirst : (∃ ws, pc = .fill ws) → (s.task t).posted = []) : (s.goto t pc).OwnershipOk := by
  generalize hpc₀ : (s.task t).pc = pc₀ at hm
  have hstart : (s.task t).pc ≠ .start := by
    rw [hpc₀]
    cases hm <;> simp
  have hmsg : pc.message = (s.task t).pc.message := by
    rw [hpc₀]
    cases hm <;> rfl
  cases hm with
  | filling _ ws _ _ =>
      exact h.goto hstart (by simp) (by simp) (fun _ => hfirst ⟨ws, rfl⟩) hmsg
  | _ => exact h.goto hstart (by simp) (by simp) (by simp [Pc.UsesBuffer]) hmsg

/-! ### The pool -/

theorem PoolOk.malloc {memmap memmap' : MemMap} {allocs : List (Alloc User)}
    (h : PoolOk memmap allocs) {size : UInt32} (hcount : nmembOf size ≠ 0) {p : ℕ}
    (hmalloc : myMemMalloc size memmap = some (p, memmap')) (user : User) :
    p % 32 = 0 ∧ PoolOk memmap' (⟨p / 32, (nmembOf size).toNat, user⟩ :: allocs) := by
  obtain ⟨hlt, hmod, hrep⟩ := represents_myMemMalloc h.represents hcount hmalloc user
  refine ⟨hmod, hrep, ?_⟩
  intro a ha
  rcases List.mem_cons.mp ha with rfl | ha
  · exact hlt
  · exact h.range a ha

theorem PoolOk.myfree (h : PoolOk s.memmap s.allocs) {a : Alloc User} (ha : a ∈ s.allocs) {p : ℕ}
    (hp : a.start * 32 = p) :
    PoolOk (s.myfree p).memmap (s.myfree p).allocs ∧
      ∀ c ∈ s.allocs, c.user ≠ a.user → c ∈ (s.myfree p).allocs := by
  have hlt := h.range a ha
  have hstart : a.start = p / 32 := by omega
  have hrep := represents_myMemFree h.represents ha (by omega) hstart
  have hmem : ∀ c, c ∈ (s.myfree p).allocs ↔ c ∈ s.allocs ∧ c ≠ a := by
    intro c
    rw [System.myfree, ← hstart]
    exact h.represents.mem_release ha
  refine ⟨⟨hrep, fun c hc => h.range c ((hmem c).mp hc).1⟩, fun c hc hne => ?_⟩
  refine (hmem c).mpr ⟨hc, ?_⟩
  rintro rfl
  exact hne rfl

theorem OwnershipOk.mallocStep (h : s.OwnershipOk) (hroom : s.KeepsOwnership (.mymalloc t))
    (hstep : s.mallocStep t = some u) : u.OwnershipOk := by
  obtain ⟨hpc, ⟨p, memmap, hmalloc, rfl⟩ | ⟨hnone, -⟩⟩ := mallocStep_eq_some hstep
  · have hcount : nmembOf (UInt32.ofNat t.size) ≠ 0 := by cases t <;> decide
    obtain ⟨hmod, hpool⟩ := h.pool.malloc hcount hmalloc (User.task t)
    have hown := h.buffers t
    have hother := h.buffers t.other
    have hfirst : t.first ≠ .start ∧ t.first.UsesBuffer = false ∧ t.first ≠ .freeOwn ∧
        t.first.message = [] := by
      cases t <;> exact ⟨by decide, rfl, by decide, rfl⟩
    obtain ⟨hf1, hf2, hf3, hf4⟩ := hfirst
    have hstock := hown.stock
    rw [hown.fresh (Or.inl hpc), List.length_nil] at hstock
    have hnil := List.eq_nil_of_length_eq_zero (Nat.eq_zero_of_add_eq_zero_left hstock)
    refine ownershipOk_set.mpr ⟨hpool, ?_, ?_⟩
    · exact {
        stock := hown.stock
        single := hown.single
        mine := by
          simp only [hnil]
          simp
        held := fun _ _ => ⟨_, List.mem_cons_self, rfl, by
          rw [Nat.div_mul_cancel (Nat.dvd_of_mod_eq_zero hmod)]⟩
        fresh := by simp [hf1, hf2]
        posts := hf3 }
    · rw [Task.other_other, hpc] at hother
      simp only [hf4]
      exact hother.congr_allocs fun a ha _ => List.mem_cons_of_mem _ ha
  · have hsome := hroom.2
    simp [hnone] at hsome

theorem OwnershipOk.fillStep (h : s.OwnershipOk) (hstep : s.fillStep t = some u) :
    u.OwnershipOk := by
  obtain ⟨w, ws, p, hpc, -, rfl⟩ := fillStep_eq_some hstep
  have hposted := (h.buffers t).fresh (Or.inr (by rw [hpc]; rfl))
  have hgoto : (s.goto t (fillPc ws)).OwnershipOk := by
    refine h.goto (by rw [hpc]; simp) ?_ ?_ (fun _ => hposted) ?_
    · cases ws <;> simp [fillPc]
    · cases ws <;> simp [fillPc]
    · rw [hpc]
      cases ws <;> rfl
  exact ⟨hgoto.pool, hgoto.buffers⟩

/-- The only message of a task finds an empty queue. -/
theorem OwnershipOk.postStep (h : s.OwnershipOk) (hstep : s.postStep t = some u) :
    u.OwnershipOk := by
  obtain ⟨p, hpc, hbuf, hcases⟩ := postStep_eq_some hstep
  have hown := h.buffers t
  have hposted := hown.fresh (Or.inr (by rw [hpc]; rfl))
  have hstock := hown.stock
  rw [hposted, List.length_nil, List.length_append] at hstock
  have hqueue : (s.task t).queue = [] := List.eq_nil_of_length_eq_zero (by omega)
  have hmessage : (s.task t.other).pc.message = [] := List.eq_nil_of_length_eq_zero (by omega)
  have hother := h.buffers t.other
  rw [Task.other_other, hpc] at hother
  rcases hcases with ⟨-, rfl⟩ | ⟨hfull, -⟩
  · refine ownershipOk_set.mpr ⟨h.pool, ?_, hother⟩
    rw [hmessage, hqueue]
    exact {
      stock := by
        simp only [hposted, List.nil_append, List.length_singleton]
        omega
      single := by simp [hposted]
      mine := by simpa using hbuf
      held := fun _ hfreed => hown.held (by rw [hpc]; simp) hfreed
      fresh := by simp [Pc.UsesBuffer]
      posts := by simp }
  · rw [hqueue] at hfull
    exact absurd (by decide) hfull

theorem OwnershipOk.pendStep (h : s.OwnershipOk) (hstep : s.pendStep t = some u) :
    u.OwnershipOk := by
  obtain ⟨hpc, ⟨-, rfl⟩ | ⟨p, ps, hqueue, rfl⟩⟩ := pendStep_eq_some hstep
  · exact h.goto (by rw [hpc]; simp) (by simp) (by simp) (by simp [Pc.UsesBuffer])
      (by rw [hpc]; rfl)
  · have hother := h.buffers t.other
    rw [Task.other_other, hpc] at hother
    have hown := (h.buffers t).goto (by rw [hpc]; simp) (.reading p) (by simp) (by simp)
      (by simp [Pc.UsesBuffer])
    refine ownershipOk_set.mpr ⟨h.pool, ?_, ?_⟩
    · rw [set_other_task, set_task]
      exact hown
    · rw [set_task]
      have hstock := hother.stock
      have hmine := hother.mine
      rw [hqueue] at hstock hmine
      exact ⟨hstock, hother.single, hmine, hother.held, hother.fresh, hother.posts⟩

theorem OwnershipOk.freeMessageStep (h : s.OwnershipOk) (hstep : s.freeMessageStep t = some u) :
    u.OwnershipOk := by
  obtain ⟨p, hpc, rfl⟩ := freeMessageStep_eq_some hstep
  have hother := h.buffers t.other
  rw [Task.other_other, hpc] at hother
  obtain ⟨hfreed, hlen, a, ha, huser, hp⟩ := hother.keeps_of_mem (List.mem_cons_self (a := p))
  obtain ⟨hpool, hrest⟩ := h.pool.myfree ha hp
  have hown := (h.buffers t).goto (by rw [hpc]; simp) .produce (by simp) (by simp)
    (by simp [Pc.UsesBuffer])
  refine ownershipOk_set.mpr ⟨hpool, ?_, ?_⟩
  · rw [set_other_task, set_task]
    exact hown.congr_allocs fun c hc hcuser =>
      hrest c hc (by rw [hcuser, huser]; simp [Ne.symm])
  · rw [set_task]
    have hstock := hother.stock
    have hsingle := hother.single
    simp only [Pc.message, List.length_append, List.length_singleton] at hlen hstock
    exact {
      stock := by
        simp only [Pc.message, List.nil_append]
        omega
      single := hsingle
      mine := fun q hq => hother.mine q (List.mem_append_right _ hq)
      held := fun _ hzero => absurd hzero (Nat.succ_ne_zero _)
      fresh := hother.fresh
      posts := hother.posts }

theorem OwnershipOk.congr_pool (h : s.OwnershipOk) {memmap : MemMap} {allocs : List (Alloc User)}
    (hpool : PoolOk memmap allocs)
    (hkeep : ∀ a ∈ s.allocs, ∀ t, a.user = .task t → a ∈ allocs) :
    OwnershipOk { s with memmap, allocs } where
  pool := hpool
  buffers := fun t => (h.buffers t).congr_allocs fun a ha huser => hkeep a ha t huser

theorem OwnershipOk.step {l : Label} (h : s.OwnershipOk) (hkeep : s.KeepsOwnership l)
    (hstep : System.step l s = some u) : u.OwnershipOk := by
  cases l with
  | mymalloc t => exact h.mallocStep hkeep hstep
  | fill t => exact h.fillStep hstep
  | post t => exact h.postStep hstep
  | freeOwn t =>
      obtain ⟨p, hpc, -, -⟩ := freeOwnStep_eq_some hstep
      exact absurd hpc (h.buffers t).posts
  | pend t => exact h.pendStep hstep
  | freeMessage t => exact h.freeMessageStep hstep
  | otherMalloc size =>
      obtain ⟨p, memmap, hmalloc, rfl⟩ | rfl := otherMalloc_eq_some hstep
      · have hsize : size ≠ 0 := by
          rintro rfl
          cases hmalloc
        obtain ⟨-, hpool⟩ := h.pool.malloc (hkeep.2 hsize) hmalloc (User.other size.toNat)
        exact h.congr_pool hpool fun a ha _ _ => List.mem_cons_of_mem _ ha
      · exact h
  | otherFree p =>
      obtain ⟨⟨a, ha, hother, hp⟩, rfl⟩ := otherFree_eq_some hstep
      obtain ⟨hpool, hrest⟩ := h.pool.myfree ha hp
      refine h.congr_pool hpool fun c hc t huser => hrest c hc ?_
      intro heq
      rw [← heq, huser] at hother
      cases hother
  | otherWrite x v =>
      obtain ⟨-, rfl⟩ := otherWrite_eq_some hstep
      exact ⟨h.pool, h.buffers⟩
  | connect | forward | receive | closed | idle | processed =>
      obtain ⟨t, pc, -, hm, rfl, hstarts⟩ := moves_of_step rfl hstep
      exact h.move hm fun hfill => hkeep.1 t (hstarts hfill)

instance (t : Task) : (l : Label) → Decidable (l.Starts t)
  | .forward _ _ => inferInstanceAs (Decidable (t = .led))
  | .receive b =>
      decidable_of_iff (t = .tcp ∧ (replyBytes b).join.isSome) (by
        cases h : replyBytes b with
        | none => simp [Label.Starts, h]
        | some bytes => cases bytes <;> simp [Label.Starts, h])
  | .mymalloc _ | .connect _ | .closed | .idle _ | .fill _ | .post _ | .freeOwn _ | .pend _
  | .processed _ | .freeMessage _ | .otherMalloc _ | .otherFree _ | .otherWrite _ _ => isFalse id

instance (s : System) : (l : Label) → Decidable (s.KeepsOwnership l)
  | .mymalloc _ | .otherMalloc _ => inferInstanceAs (Decidable (_ ∧ _))
  | .forward _ _ | .receive _ | .connect _ | .closed | .idle _ | .fill _ | .post _ | .freeOwn _
  | .pend _ | .processed _ | .freeMessage _ | .otherFree _ | .otherWrite _ _ =>
      inferInstanceAs (Decidable (_ ∧ True))

end System

/-! ### A block that has found a new owner -/

end YckjAcu
