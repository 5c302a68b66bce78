import YckjAcu.LedTask
import YckjAcu.Malloc
import YckjAcu.TcpClient

/-!
# The two tasks and their queues

`led_task` and `tcp_client_thread` each allocate one message buffer before the
loop, fill it byte by byte, post its address and go on to the message of the
other task, which they read and free.  Their steps interleave with each other
and with other users of the pool.  The list of allocations and the histories of
the messages are kept beside the program's own state.
-/

namespace YckjAcu

open BlockPool

inductive Task
  | led
  | tcp
deriving DecidableEq

namespace Task

def other : Task → Task
  | led => tcp
  | tcp => led

@[simp] theorem other_other (t : Task) : t.other.other = t := by cases t <;> rfl

@[simp] theorem other_ne (t : Task) : t.other ≠ t := by cases t <;> decide

/-- The bytes asked for `g_SendDate` and `ser_Date`. -/
def size : Task → ℕ
  | led => 16
  | tcp => 11

theorem forall_iff {P : Task → Prop} (t : Task) : (∀ t', P t') ↔ P t ∧ P t.other := by
  constructor
  · intro h
    exact ⟨h t, h t.other⟩
  · rintro ⟨h, h'⟩ t'
    cases t <;> cases t' <;> assumption

instance {P : Task → Prop} [DecidablePred P] : Decidable (∀ t, P t) :=
  decidable_of_iff (P .led ∧ P .tcp) (forall_iff .led).symm

end Task

/-- Another user of the pool keeps the size it asked for. -/
inductive User
  | task (t : Task)
  | other (size : ℕ)
deriving DecidableEq

def User.isOther : User → Bool
  | task _ => false
  | other _ => true

/-- The byte at `x` belongs to another user. -/
def otherOwns (x : ℕ) (a : Alloc User) : Bool :=
  match a.user with
  | .task _ => false
  | .other size => a.start * 32 ≤ x && x < a.start * 32 + size

/-- Where a task stands. `produce` is the forwarding test of `led_task` and the
`netconn_recv` of `tcp_client_thread`. -/
inductive Pc
  | start
  | connect
  | produce
  | fill (ws : List (ℕ × UInt8))
  | post
  | freeOwn
  | pend
  | reading (p : ℕ)
  | freeMessage (p : ℕ)
deriving DecidableEq

/-- A task with the queue it posts to. The messages posted, the number of them
the other task has taken and the frees of the buffer are history. -/
structure TaskState where
  pc : Pc
  buf : Option ℕ
  queue : List ℕ
  posted : List (List UInt8)
  taken : ℕ
  freed : ℕ

structure System where
  memmap : MemMap
  mem : ℕ → UInt8
  allocs : List (Alloc User)
  task : Task → TaskState

namespace System

def set (t : Task) (x : TaskState) (s : System) : System :=
  { s with task := Function.update s.task t x }

def goto (t : Task) (pc : Pc) (s : System) : System := s.set t { s.task t with pc }

@[simp] theorem set_task (s : System) (t : Task) (x : TaskState) : (s.set t x).task t = x := by
  simp [set]

@[simp] theorem set_other_task (s : System) (t : Task) (x : TaskState) :
    (s.set t.other x).task t = s.task t := by
  simp [set, Function.update_of_ne (Task.other_ne t).symm]

@[simp] theorem set_task_other (s : System) (t : Task) (x : TaskState) :
    (s.set t x).task t.other = s.task t.other := by
  simp [set]

@[simp] theorem set_mem (s : System) (t : Task) (x : TaskState) : (s.set t x).mem = s.mem := rfl

@[simp] theorem set_memmap (s : System) (t : Task) (x : TaskState) :
    (s.set t x).memmap = s.memmap := rfl

@[simp] theorem set_allocs (s : System) (t : Task) (x : TaskState) :
    (s.set t x).allocs = s.allocs := rfl

/-- `myfree(SRAMIN, p)`. -/
def myfree (p : ℕ) (s : System) : System :=
  { s with
    memmap := myMemFree p s.memmap
    allocs := release (p / 32) (s.memmap (p / 32)).toNat s.allocs }

@[simp] theorem myfree_task (s : System) (p : ℕ) : (s.myfree p).task = s.task := rfl

@[simp] theorem myfree_mem (s : System) (p : ℕ) : (s.myfree p).mem = s.mem := rfl

end System

def content (size : ℕ) (mem : ℕ → UInt8) (p : ℕ) : List UInt8 :=
  (List.range size).map fun j => mem (p + j)

inductive Label
  | mymalloc (t : Task)
  | connect (ok : Bool)
  | forward (no : ℕ) (row : Row)
  | receive (b : RecvBuf)
  | closed
  | idle (t : Task)
  | fill (t : Task)
  | post (t : Task)
  | freeOwn (t : Task)
  | pend (t : Task)
  | processed (t : Task)
  | freeMessage (t : Task)
  | otherMalloc (size : UInt32)
  | otherFree (p : ℕ)
  | otherWrite (x : ℕ) (v : UInt8)

/-- The loops begin at once in `led_task` and with a connection in `tcp_client_thread`. -/
def Task.first : Task → Pc
  | led => .produce
  | tcp => .connect

def fillPc : List (ℕ × UInt8) → Pc
  | [] => .post
  | ws => .fill ws

def forwardWrites (no : ℕ) (row : Row) : List (ℕ × UInt8) :=
  (eventWrites no row).map fun w => (w.1.val, w.2)

def replyWrites (bytes : List UInt8) : List (ℕ × UInt8) :=
  bytes.zipIdx.map fun w => (w.2, w.1)

def msgGrpSize : ℕ := 64

namespace System

/-- The buffer allocated before the loop. -/
def mallocStep (t : Task) (s : System) : Option System :=
  if (s.task t).pc = .start then
    match myMemMalloc (UInt32.ofNat t.size) s.memmap with
    | some (p, memmap) =>
        let a : Alloc User := ⟨p / 32, (nmembOf (UInt32.ofNat t.size)).toNat, .task t⟩
        some ({ s with memmap, allocs := a :: s.allocs }.set t
          { s.task t with pc := t.first, buf := some p })
    | none => some (s.goto t t.first)
  else none

/-- One assignment to the buffer; undefined through a null pointer. -/
def fillStep (t : Task) (s : System) : Option System :=
  match (s.task t).pc, (s.task t).buf with
  | .fill (w :: ws), some p =>
      some ({ s with mem := Function.update s.mem (p + w.1) w.2 }.goto t (fillPc ws))
  | _, _ => none

def postStep (t : Task) (s : System) : Option System :=
  match (s.task t).pc, (s.task t).buf with
  | .post, some p =>
      if (s.task t).queue.length < msgGrpSize then
        some (s.set t { s.task t with
          pc := .pend
          queue := (s.task t).queue ++ [p]
          posted := (s.task t).posted ++ [content t.size s.mem p] })
      else some (s.goto t .freeOwn)
  | _, _ => none

/-- `myfree` of the own buffer after a failed post. -/
def freeOwnStep (t : Task) (s : System) : Option System :=
  match (s.task t).pc, (s.task t).buf with
  | .freeOwn, some p =>
      some ((s.myfree p).set t { s.task t with pc := .pend, freed := (s.task t).freed + 1 })
  | _, _ => none

/-- `OSQPend` on the queue of the other task, with its timeout. -/
def pendStep (t : Task) (s : System) : Option System :=
  if (s.task t).pc = .pend then
    let x := s.task t.other
    match x.queue with
    | [] => some (s.goto t .produce)
    | p :: ps =>
        some ((s.set t.other { x with queue := ps, taken := x.taken + 1 }).goto t (.reading p))
  else none

def freeMessageStep (t : Task) (s : System) : Option System :=
  match (s.task t).pc with
  | .freeMessage p =>
      let x := s.task t.other
      some (((s.myfree p).set t.other { x with freed := x.freed + 1 }).goto t .produce)
  | _ => none

def step : Label → System → Option System
  | .mymalloc t, s => s.mallocStep t
  | .connect ok, s =>
      if (s.task .tcp).pc = .connect then some (s.goto .tcp (if ok then .pend else .connect))
      else none
  | .forward no row, s =>
      if (s.task .led).pc = .produce ∧ no < busnumSize ∧ row.Pending then
        some (s.goto .led (fillPc (forwardWrites no row)))
      else none
  | .receive b, s =>
      if (s.task .tcp).pc = .produce then
        (replyBytes b).map fun bytes =>
          s.goto .tcp (bytes.elim .pend fun bs => fillPc (replyWrites bs))
      else none
  | .closed, s => if (s.task .tcp).pc = .produce then some (s.goto .tcp .connect) else none
  | .idle t, s => if (s.task t).pc = .produce then some (s.goto t .pend) else none
  | .fill t, s => s.fillStep t
  | .post t, s => s.postStep t
  | .freeOwn t, s => s.freeOwnStep t
  | .pend t, s => s.pendStep t
  | .processed t, s =>
      match (s.task t).pc with
      | .reading p => some (s.goto t (.freeMessage p))
      | _ => none
  | .freeMessage t, s => s.freeMessageStep t
  | .otherMalloc size, s =>
      match myMemMalloc size s.memmap with
      | some (p, memmap) =>
          let a : Alloc User := ⟨p / 32, (nmembOf size).toNat, .other size.toNat⟩
          some { s with memmap, allocs := a :: s.allocs }
      | none => some s
  | .otherFree p, s =>
      if s.allocs.any fun a => a.user.isOther && a.start * 32 == p then some (s.myfree p) else none
  | .otherWrite x v, s =>
      if s.allocs.any (otherOwns x) then some { s with mem := Function.update s.mem x v } else none

/-! ### What the steps do -/

variable {s u : System} {t : Task}

theorem mallocStep_eq_some (h : s.mallocStep t = some u) :
    (s.task t).pc = .start ∧
      ((∃ p memmap, myMemMalloc (UInt32.ofNat t.size) s.memmap = some (p, memmap) ∧
        u = { s with
          memmap
          allocs := ⟨p / 32, (nmembOf (UInt32.ofNat t.size)).toNat, .task t⟩ :: s.allocs }.set t
            { s.task t with pc := t.first, buf := some p }) ∨
      (myMemMalloc (UInt32.ofNat t.size) s.memmap = none ∧ u = s.goto t t.first)) := by
  rw [mallocStep] at h
  split at h
  · next hpc =>
      refine ⟨hpc, ?_⟩
      cases hm : myMemMalloc (UInt32.ofNat t.size) s.memmap with
      | none =>
          rw [hm] at h
          exact Or.inr ⟨rfl, (Option.some.inj h).symm⟩
      | some r =>
          rw [hm] at h
          exact Or.inl ⟨r.1, r.2, rfl, (Option.some.inj h).symm⟩
  · cases h

theorem fillStep_eq_some (h : s.fillStep t = some u) :
    ∃ w ws p, (s.task t).pc = .fill (w :: ws) ∧ (s.task t).buf = some p ∧
      u = { s with mem := Function.update s.mem (p + w.1) w.2 }.goto t (fillPc ws) := by
  rw [fillStep] at h
  split at h
  · next w ws p hpc hbuf => exact ⟨w, ws, p, hpc, hbuf, (Option.some.inj h).symm⟩
  · cases h

theorem postStep_eq_some (h : s.postStep t = some u) :
    ∃ p, (s.task t).pc = .post ∧ (s.task t).buf = some p ∧
      (((s.task t).queue.length < msgGrpSize ∧ u = s.set t { s.task t with
          pc := .pend
          queue := (s.task t).queue ++ [p]
          posted := (s.task t).posted ++ [content t.size s.mem p] }) ∨
        (¬ (s.task t).queue.length < msgGrpSize ∧ u = s.goto t .freeOwn)) := by
  rw [postStep] at h
  split at h
  · next p hpc hbuf =>
      refine ⟨p, hpc, hbuf, ?_⟩
      split at h
      · next hroom => exact Or.inl ⟨hroom, (Option.some.inj h).symm⟩
      · next hfull => exact Or.inr ⟨hfull, (Option.some.inj h).symm⟩
  · cases h

theorem freeOwnStep_eq_some (h : s.freeOwnStep t = some u) :
    ∃ p, (s.task t).pc = .freeOwn ∧ (s.task t).buf = some p ∧
      u = (s.myfree p).set t { s.task t with pc := .pend, freed := (s.task t).freed + 1 } := by
  rw [freeOwnStep] at h
  split at h
  · next p hpc hbuf => exact ⟨p, hpc, hbuf, (Option.some.inj h).symm⟩
  · cases h

theorem pendStep_eq_some (h : s.pendStep t = some u) :
    (s.task t).pc = .pend ∧
      (((s.task t.other).queue = [] ∧ u = s.goto t .produce) ∨
        ∃ p ps, (s.task t.other).queue = p :: ps ∧
          u = (s.set t.other { s.task t.other with
            queue := ps, taken := (s.task t.other).taken + 1 }).goto t (.reading p)) := by
  rw [pendStep] at h
  split at h
  · next hpc =>
      refine ⟨hpc, ?_⟩
      cases hq : (s.task t.other).queue with
      | nil =>
          simp only [hq] at h
          exact Or.inl ⟨rfl, (Option.some.inj h).symm⟩
      | cons p ps =>
          simp only [hq] at h
          exact Or.inr ⟨p, ps, rfl, (Option.some.inj h).symm⟩
  · cases h

theorem freeMessageStep_eq_some (h : s.freeMessageStep t = some u) :
    ∃ p, (s.task t).pc = .freeMessage p ∧
      u = ((s.myfree p).set t.other { s.task t.other with
        freed := (s.task t.other).freed + 1 }).goto t .produce := by
  rw [freeMessageStep] at h
  split at h
  · next p hpc => exact ⟨p, hpc, (Option.some.inj h).symm⟩
  · cases h

/-- The steps that only move a task on. -/
inductive Moves : Task → Pc → Pc → Prop
  | connected : Moves .tcp .connect .pend
  | refused : Moves .tcp .connect .connect
  | closed : Moves .tcp .produce .connect
  | idle (t : Task) : Moves t .produce .pend
  | filling (t : Task) (ws : List (ℕ × UInt8)) : ws ≠ [] → (∀ w ∈ ws, w.1 < t.size) →
      Moves t .produce (.fill ws)
  | processed (t : Task) (p : ℕ) : Moves t (.reading p) (.freeMessage p)

end System

/-- The label starts a message of the task. -/
def Label.Starts (t : Task) : Label → Prop
  | .forward _ _ => t = .led
  | .receive b => t = .tcp ∧ ∃ bytes, replyBytes b = some (some bytes)
  | _ => False

/-- The task that takes the step, if it is not another user of the memory. -/
def Label.actor : Label → Option Task
  | .mymalloc t | .idle t | .fill t | .post t | .freeOwn t | .pend t | .processed t
  | .freeMessage t => some t
  | .connect _ | .receive _ | .closed => some .tcp
  | .forward _ _ => some .led
  | .otherMalloc _ | .otherFree _ | .otherWrite _ _ => none

/-- The label only moves a task on. -/
def Label.IsMove : Label → Bool
  | .connect _ | .forward _ _ | .receive _ | .closed | .idle _ | .processed _ => true
  | _ => false

theorem fillPc_of_ne_nil {ws : List (ℕ × UInt8)} (h : ws ≠ []) : fillPc ws = .fill ws := by
  cases ws with
  | nil => exact absurd rfl h
  | cons w ws => rfl

theorem forwardWrites_ne_nil (no : ℕ) (row : Row) : forwardWrites no row ≠ [] := by
  simp [forwardWrites, eventWrites]

theorem forwardWrites_lt {no : ℕ} {row : Row} {w : ℕ × UInt8} (hw : w ∈ forwardWrites no row) :
    w.1 < Task.led.size := by
  obtain ⟨v, -, rfl⟩ := List.mem_map.mp hw
  exact v.1.isLt

theorem length_replyBytes {b : RecvBuf} {bytes : List UInt8}
    (h : replyBytes b = some (some bytes)) :
    0 < bytes.length ∧ bytes.length ≤ Task.tcp.size := by
  simp only [replyBytes, errorReply, normalReply] at h
  split_ifs at h
  all_goals simp [Option.bind_eq_some_iff] at h
  all_goals
    obtain ⟨_, -, rfl⟩ := h
    exact ⟨by simp, by simp [Task.size]⟩

theorem replyWrites_ne_nil {bytes : List UInt8} (h : 0 < bytes.length) :
    replyWrites bytes ≠ [] := by
  intro hnil
  have hlen := congrArg List.length hnil
  simp [replyWrites] at hlen
  simp [hlen] at h

theorem replyWrites_lt {bytes : List UInt8} {w : ℕ × UInt8} (hw : w ∈ replyWrites bytes) :
    w.1 < bytes.length := by
  obtain ⟨v, hv, rfl⟩ := List.mem_map.mp hw
  exact List.snd_lt_of_mem_zipIdx hv

namespace System

variable {s u : System} {l : Label} {t : Task}

theorem connect_eq_some {ok : Bool} (h : step (.connect ok) s = some u) :
    (s.task .tcp).pc = .connect ∧ u = s.goto .tcp (if ok then .pend else .connect) := by
  simp only [step] at h
  split at h <;> cases h
  next hpc => exact ⟨hpc, rfl⟩

theorem forward_eq_some {no : ℕ} {row : Row} (h : step (.forward no row) s = some u) :
    (s.task .led).pc = .produce ∧ u = s.goto .led (fillPc (forwardWrites no row)) := by
  simp only [step] at h
  split at h <;> cases h
  next hpc => exact ⟨hpc.1, rfl⟩

theorem receive_eq_some {b : RecvBuf} (h : step (.receive b) s = some u) :
    (s.task .tcp).pc = .produce ∧ ∃ bytes, replyBytes b = some bytes ∧
      u = s.goto .tcp (bytes.elim .pend fun bs => fillPc (replyWrites bs)) := by
  simp only [step] at h
  split at h
  · next hpc =>
      obtain ⟨bytes, hb, rfl⟩ := Option.map_eq_some_iff.mp h
      exact ⟨hpc, bytes, hb, rfl⟩
  · cases h

theorem closed_eq_some (h : step .closed s = some u) :
    (s.task .tcp).pc = .produce ∧ u = s.goto .tcp .connect := by
  simp only [step] at h
  split at h <;> cases h
  next hpc => exact ⟨hpc, rfl⟩

theorem idle_eq_some (h : step (.idle t) s = some u) :
    (s.task t).pc = .produce ∧ u = s.goto t .pend := by
  simp only [step] at h
  split at h <;> cases h
  next hpc => exact ⟨hpc, rfl⟩

theorem processed_eq_some (h : step (.processed t) s = some u) :
    ∃ p, (s.task t).pc = .reading p ∧ u = s.goto t (.freeMessage p) := by
  simp only [step] at h
  split at h <;> cases h
  next p hpc => exact ⟨p, hpc, rfl⟩

theorem otherMalloc_eq_some {size : UInt32} (h : step (.otherMalloc size) s = some u) :
    (∃ p memmap, myMemMalloc size s.memmap = some (p, memmap) ∧
      u = { s with
        memmap
        allocs := ⟨p / 32, (nmembOf size).toNat, .other size.toNat⟩ :: s.allocs }) ∨ u = s := by
  simp only [step] at h
  split at h
  · next p memmap hmalloc => exact Or.inl ⟨p, memmap, hmalloc, (Option.some.inj h).symm⟩
  · exact Or.inr (Option.some.inj h).symm

theorem otherFree_eq_some {p : ℕ} (h : step (.otherFree p) s = some u) :
    (∃ a ∈ s.allocs, a.user.isOther ∧ a.start * 32 = p) ∧ u = s.myfree p := by
  simp only [step] at h
  split at h
  · next hany =>
      obtain ⟨a, ha, hheld⟩ := List.any_eq_true.mp hany
      exact ⟨⟨a, ha, by simpa using hheld⟩, (Option.some.inj h).symm⟩
  · cases h

theorem otherWrite_eq_some {x : ℕ} {v : UInt8} (h : step (.otherWrite x v) s = some u) :
    s.allocs.any (otherOwns x) ∧ u = { s with mem := Function.update s.mem x v } := by
  simp only [step] at h
  split at h <;> cases h
  next hany => exact ⟨hany, rfl⟩

theorem moves_of_step (hl : l.IsMove) (h : step l s = some u) :
    ∃ t pc, l.actor = some t ∧ Moves t (s.task t).pc pc ∧ u = s.goto t pc ∧
      ((∃ ws, pc = .fill ws) → l.Starts t) := by
  cases l with
  | connect ok =>
      obtain ⟨hpc, rfl⟩ := connect_eq_some h
      refine ⟨.tcp, _, rfl, ?_, rfl, by cases ok <;> simp⟩
      rw [hpc]
      cases ok
      · exact .refused
      · exact .connected
  | forward no row =>
      obtain ⟨hpc, rfl⟩ := forward_eq_some h
      have hne := forwardWrites_ne_nil no row
      refine ⟨.led, _, rfl, ?_, rfl, fun _ => rfl⟩
      rw [hpc, fillPc_of_ne_nil hne]
      exact .filling .led _ hne fun w hw => forwardWrites_lt hw
  | receive b =>
      obtain ⟨hpc, bytes, hb, rfl⟩ := receive_eq_some h
      cases bytes with
      | none =>
          refine ⟨.tcp, _, rfl, ?_, rfl, by simp⟩
          rw [hpc]
          exact .idle .tcp
      | some bytes =>
          obtain ⟨hpos, hlen⟩ := length_replyBytes hb
          have hne := replyWrites_ne_nil hpos
          refine ⟨.tcp, _, rfl, ?_, rfl, fun _ => ⟨rfl, bytes, hb⟩⟩
          rw [hpc, Option.elim_some, fillPc_of_ne_nil hne]
          exact .filling .tcp _ hne fun w hw => lt_of_lt_of_le (replyWrites_lt hw) hlen
  | closed =>
      obtain ⟨hpc, rfl⟩ := closed_eq_some h
      refine ⟨.tcp, _, rfl, ?_, rfl, by simp⟩
      rw [hpc]
      exact .closed
  | idle t =>
      obtain ⟨hpc, rfl⟩ := idle_eq_some h
      refine ⟨t, _, rfl, ?_, rfl, by simp⟩
      rw [hpc]
      exact .idle t
  | processed t =>
      obtain ⟨p, hpc, rfl⟩ := processed_eq_some h
      refine ⟨t, _, rfl, ?_, rfl, by simp⟩
      rw [hpc]
      exact .processed t p
  | mymalloc | fill | post | freeOwn | pend | freeMessage | otherMalloc | otherFree | otherWrite =>
      cases hl

theorem task_of_other (hl : l.actor = none) (h : step l s = some u) : u.task = s.task := by
  cases l with
  | otherMalloc size => obtain ⟨p, memmap, -, rfl⟩ | rfl := otherMalloc_eq_some h <;> rfl
  | otherFree p =>
      obtain ⟨-, rfl⟩ := otherFree_eq_some h
      rfl
  | otherWrite x v =>
      obtain ⟨-, rfl⟩ := otherWrite_eq_some h
      rfl
  | mymalloc | connect | forward | receive | closed | idle | fill | post | freeOwn | pend
  | processed | freeMessage => cases hl

/-- A step leaves the tasks that do not take it where they are, with their buffers. -/
theorem place_of_step (hl : l.actor ≠ some t) (h : step l s = some u) :
    (u.task t).pc = (s.task t).pc ∧ (u.task t).buf = (s.task t).buf := by
  have hset : ∀ {t'} (v : System) (x : TaskState), some t' ≠ some t →
      (v.set t' x).task t = v.task t := by
    intro t' v x hne
    apply Function.update_of_ne
    rintro rfl
    exact hne rfl
  cases l with
  | mymalloc t' =>
      obtain ⟨-, ⟨p, memmap, -, rfl⟩ | ⟨-, rfl⟩⟩ := mallocStep_eq_some h
      · rw [hset _ _ hl]
        exact ⟨rfl, rfl⟩
      · rw [goto, hset _ _ hl]
        exact ⟨rfl, rfl⟩
  | fill t' =>
      obtain ⟨w, ws, p, -, -, rfl⟩ := fillStep_eq_some h
      rw [goto, hset _ _ hl]
      exact ⟨rfl, rfl⟩
  | post t' =>
      obtain ⟨p, -, -, ⟨-, rfl⟩ | ⟨-, rfl⟩⟩ := postStep_eq_some h
      · rw [hset _ _ hl]
        exact ⟨rfl, rfl⟩
      · rw [goto, hset _ _ hl]
        exact ⟨rfl, rfl⟩
  | freeOwn t' =>
      obtain ⟨p, -, -, rfl⟩ := freeOwnStep_eq_some h
      rw [hset _ _ hl]
      exact ⟨rfl, rfl⟩
  | pend t' =>
      obtain ⟨-, ⟨-, rfl⟩ | ⟨p, ps, -, rfl⟩⟩ := pendStep_eq_some h
      · rw [goto, hset _ _ hl]
        exact ⟨rfl, rfl⟩
      · -- the message comes from the queue of the other task, which stays where it is
        rw [goto, hset _ _ hl]
        cases t <;> cases t' <;> simp_all [set, Task.other]
  | freeMessage t' =>
      obtain ⟨p, -, rfl⟩ := freeMessageStep_eq_some h
      rw [goto, hset _ _ hl]
      cases t <;> cases t' <;> simp_all [set, Task.other]
  | otherMalloc | otherFree | otherWrite =>
      rw [task_of_other rfl h]
      exact ⟨rfl, rfl⟩
  | connect | forward | receive | closed | idle | processed =>
      obtain ⟨t', pc, hact, -, rfl, -⟩ := moves_of_step rfl h
      rw [goto, hset _ _ (hact ▸ hl)]
      exact ⟨rfl, rfl⟩

end System

end YckjAcu
