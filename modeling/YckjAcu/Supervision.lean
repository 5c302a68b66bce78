import YckjAcu.Heartbeat
import YckjAcu.Segmentation

/-!
# Supervision of the connection

`SendRecvCount` is to count the heartbeats that the server has not answered.  It
is raised for the heartbeats of readers in use only, stops at 200, and is lowered
once by every netbuf that starts like a frame, whatever the frames in it answer.
-/

namespace YckjAcu

/-- A netbuf of whole frames, in any chain of pbufs. -/
structure Netbuf where
  frames : List (List UInt8)
  chain : List (List UInt8)
  nonempty : frames ≠ []
  isFrame : ∀ f ∈ frames, IsServerFrame f
  flatten : chain.flatten = frames.flatten

/-- The number of heartbeat replies in the netbuf, normal or error. -/
def Netbuf.heartbeatReplies (nb : Netbuf) : ℕ := nb.frames.countP fun f => byteAt f 2 = 0x02

/-- One connection.  `unanswered` only records the heartbeat frames written on it
that no heartbeat reply has answered. -/
structure ServerConn where
  sender : HeartbeatSender
  link : ServerLink
  isOpen : Bool
  unanswered : ℕ

/-- What the thread does on a connection: a heartbeat for a request, with the tables
at this moment, or one result of `netconn_recv`. -/
inductive ConnOp
  | heartbeat (g_RUNDate : RunTable) (kjVersions : ℕ → UInt8)
  | recv (recvbuf : Netbuf)
  | closed
  | empty

namespace ServerConn

def heartbeat (g_RUNDate : RunTable) (kjVersions : ℕ → UInt8) (s : ServerConn) : ServerConn :=
  let (sender, sendRecvCount, frame) :=
    sendHeartbeat g_RUNDate kjVersions s.sender s.link.sendRecvCount
  { s with
    sender := sender
    link.sendRecvCount := sendRecvCount
    unanswered := s.unanswered + if frame.isSome then 1 else 0 }

/-- Any other result of `netconn_recv` than `ERR_OK` and `ERR_CLSD`. -/
def receiveNothing (s : ServerConn) : ServerConn :=
  if s.link.sendRecvCount > 10 then { s with link.sendRecvCount := 0, isOpen := false } else s

def step (op : ConnOp) (s : ServerConn) : Option ServerConn :=
  if s.isOpen then
    match op with
    | .heartbeat g_RUNDate kjVersions => some (s.heartbeat g_RUNDate kjVersions)
    | .recv recvbuf => (receive recvbuf.chain s.link).map fun link =>
        { s with link := link, unanswered := s.unanswered - recvbuf.heartbeatReplies }
    | .closed => some { s with isOpen := false }
    | .empty => some s.receiveNothing
  else none

/-- A receive without data ends the connection exactly when more than ten heartbeats
are unanswered. -/
def Supervises (s : ServerConn) (op : ConnOp) : Prop :=
  op = .empty → (s.receiveNothing.isOpen = false ↔ 10 < s.unanswered)

/-- On an open connection `SendRecvCount` is the number of unanswered heartbeats. -/
def CountsUnanswered (s : ServerConn) : Prop :=
  s.isOpen = true → s.link.sendRecvCount.toNat = s.unanswered

/-- The step is counted as it should be: a heartbeat is for a reader in use and
finds the counter below 200; a netbuf holds one heartbeat reply, or several when
one is missing, or anything when none is. -/
def KeepsCount (s : ServerConn) : ConnOp → Prop
  | .heartbeat g_RUNDate _ =>
      let status := (g_RUNDate (nextSendCount s.sender.iSendCount)).get 0
      if status &&& 0xC0 ≠ 0x00 then s.link.sendRecvCount < 200 else status &&& 0x20 ≠ 0x20
  | .recv recvbuf => min s.unanswered recvbuf.heartbeatReplies = min s.unanswered 1
  | .closed | .empty => True

instance (s : ServerConn) : (op : ConnOp) → Decidable (KeepsCount s op)
  | .heartbeat _ _ => by
      unfold KeepsCount
      infer_instance
  | .recv _ => inferInstanceAs (Decidable (_ = _))
  | .closed | .empty => inferInstanceAs (Decidable True)

/-! ### One step -/

theorem isOpen_of_step {s t : ServerConn} {op : ConnOp} (h : step op s = some t) :
    s.isOpen = true := by
  by_contra hno
  unfold step at h
  rw [if_neg hno] at h
  cases h

/-- A netbuf lowers the counter once. -/
theorem step_recv {s : ServerConn} (h : s.isOpen = true) (nb : Netbuf) : ∃ link,
    step (.recv nb) s =
      some { s with link := link, unanswered := s.unanswered - nb.heartbeatReplies } ∧
    link.sendRecvCount.toNat = s.link.sendRecvCount.toNat - 1 := by
  obtain ⟨f, fs, hfs⟩ := List.exists_cons_of_ne_nil nb.nonempty
  have hf : IsServerFrame f := nb.isFrame f (by rw [hfs]; exact List.mem_cons_self)
  have hflat : nb.chain.flatten = f ++ fs.flatten := by rw [nb.flatten, hfs, List.flatten_cons]
  refine ⟨afterFrame f s.link, ?_, ?_⟩
  · rw [step, if_pos h]
    simp only [hf.receive_eq_afterFrame hflat, Option.map_some]
  · have hcount : (afterFrame f s.link).sendRecvCount =
        if 0 < s.link.sendRecvCount then s.link.sendRecvCount - 1 else s.link.sendRecvCount := rfl
    rw [hcount]
    split_ifs with hpos
    · have hpos' : 0 < s.link.sendRecvCount.toNat := hpos
      rw [UInt8.toNat_sub_of_le _ _ (by rw [UInt8.le_iff_toNat_le]; exact hpos')]
      rfl
    · have hzero : s.link.sendRecvCount.toNat = 0 := Nat.eq_zero_of_not_pos hpos
      rw [hzero]

/-- A heartbeat raises the counter with the number of unanswered ones exactly when
it is counted as it should be. -/
theorem heartbeat_counts_iff {s : ServerConn} (h : s.link.sendRecvCount.toNat = s.unanswered)
    (t : RunTable) (kjVersions : ℕ → UInt8) :
    (s.heartbeat t kjVersions).link.sendRecvCount.toNat = (s.heartbeat t kjVersions).unanswered ↔
      KeepsCount s (.heartbeat t kjVersions) := by
  unfold heartbeat sendHeartbeat KeepsCount
  dsimp only
  by_cases huse : (t (nextSendCount s.sender.iSendCount)).get 0 &&& 0xC0 ≠ 0x00
  · rw [if_pos huse, if_pos huse]
    by_cases hlt : s.link.sendRecvCount < 200
    · have hnat : s.link.sendRecvCount.toNat < 200 := hlt
      have hsucc : (s.link.sendRecvCount + 1).toNat = s.link.sendRecvCount.toNat + 1 := by
        rw [UInt8.toNat_add]
        exact Nat.mod_eq_of_lt (by rw [UInt8.toNat_one]; omega)
      simp [hlt, hsucc, h]
    · simp [hlt, h]
  · rw [if_neg huse, if_neg huse]
    by_cases hlost : (t (nextSendCount s.sender.iSendCount)).get 0 &&& 0x20 = 0x20
    · simp [hlost, h]
    · simp [hlost, h]

theorem counts_step_iff {s t : ServerConn} {op : ConnOp} (h : CountsUnanswered s)
    (hstep : step op s = some t) : CountsUnanswered t ↔ KeepsCount s op := by
  have hopen := isOpen_of_step hstep
  have hcount := h hopen
  cases op with
  | heartbeat g_RUNDate kjVersions =>
      rw [step, if_pos hopen] at hstep
      cases hstep
      rw [← heartbeat_counts_iff hcount]
      constructor
      · intro ht
        exact ht hopen
      · intro ht _
        exact ht
  | recv nb =>
      obtain ⟨link, hnext, hlower⟩ := step_recv hopen nb
      obtain rfl := Option.some.inj (hnext.symm.trans hstep)
      have hiff : link.sendRecvCount.toNat = s.unanswered - nb.heartbeatReplies ↔
          min s.unanswered nb.heartbeatReplies = min s.unanswered 1 := by
        rw [hlower, hcount]
        omega
      rw [KeepsCount, ← hiff]
      constructor
      · intro ht
        exact ht hopen
      · intro ht _
        exact ht
  | closed =>
      rw [step, if_pos hopen] at hstep
      cases hstep
      refine iff_of_true ?_ trivial
      intro hno
      cases hno
  | empty =>
      rw [step, if_pos hopen] at hstep
      cases hstep
      refine iff_of_true ?_ trivial
      unfold receiveNothing
      split_ifs
      · intro hno
        cases hno
      · exact h

theorem supervises_of_counts {s t : ServerConn} {op : ConnOp} (h : CountsUnanswered s)
    (hstep : step op s = some t) : Supervises s op := by
  have hopen := isOpen_of_step hstep
  rintro -
  have hcount := h hopen
  have hlt : s.link.sendRecvCount > 10 ↔ 10 < s.unanswered := by
    rw [← hcount]
    exact Iff.rfl
  rw [← hlt, receiveNothing]
  split_ifs with hmore
  · exact iff_of_true rfl hmore
  · rw [hopen]
    exact iff_of_false (by decide) hmore

/-! ### Runs -/

/-- The connection after `netconn_connect` has returned `ERR_OK`. -/
def connected (sender : HeartbeatSender) (serDate : SerDate) : ServerConn where
  sender := sender
  link := ⟨serDate, 0, []⟩
  isOpen := true
  unanswered := 0

/-- `SendRecvCount` counts the unanswered heartbeats in every state of a run exactly
when every step is counted; then the connection is ended for them only, and always
when there are more than ten. -/
theorem supervised_run {sender : HeartbeatSender} {serDate : SerDate} {ops : List ConnOp}
    {u : ServerConn} (hrun : Runs.run step (connected sender serDate) ops = some u) :
    ((∀ t, Runs.Visits step (connected sender serDate) ops t → CountsUnanswered t) ↔
      Runs.AllSteps step KeepsCount (connected sender serDate) ops) ∧
    (Runs.AllSteps step KeepsCount (connected sender serDate) ops →
      Runs.AllSteps step Supervises (connected sender serDate) ops) := by
  have hstart : CountsUnanswered (connected sender serDate) := fun _ => rfl
  refine ⟨?_, ?_⟩
  · exact Runs.forall_visits_iff_allSteps (I := fun _ => True) (P := CountsUnanswered)
      (fun _ _ _ _ _ => trivial) (fun _ _ _ _ hs h => counts_step_iff hs h) trivial hstart hrun
  · generalize connected sender serDate = s at hrun hstart
    induction ops generalizing s with
    | nil => exact fun _ => trivial
    | cons op ops ih =>
        obtain ⟨t, ht, hrest⟩ := Runs.run_cons_eq_some.mp hrun
        rintro ⟨hkeeps, hlater⟩
        refine ⟨supervises_of_counts hstart ht, ?_⟩
        intro t' ht'
        obtain rfl := Option.some.inj (ht.symm.trans ht')
        exact ih t hrest ((counts_step_iff hstart ht).mpr hkeeps) (hlater t ht)

/-! ### A card reply -/

/-- A normal reply to a card frame. -/
def cardReply : List UInt8 := [0xF3, 0x12, 0x12, 0xAA, 0, 0, 0, 0, 0, 0, 0, 0, 0, 0, 0, 0, 1, 0]

def cardNetbuf : Netbuf where
  frames := [cardReply]
  chain := [cardReply]
  nonempty := List.cons_ne_nil _ _
  isFrame := by
    intro f hf
    obtain rfl := List.mem_singleton.mp hf
    exact ⟨rfl, rfl, Or.inr (Or.inr (Or.inr ⟨rfl, rfl, rfl⟩))⟩
  flatten := rfl

def usedTable : RunTable := fun _ => Vector.replicate 14 0x80

def freshConn : ServerConn := connected ⟨0, Vector.replicate 32 0⟩ (Vector.replicate 11 0)

/-- A normal reply to a heartbeat. -/
def heartbeatReply : List UInt8 := [0xF3, 0x0C, 0x02, 0xAA, 0xAA, 0, 0, 0, 0, 5, 29, 1]

def heartbeatNetbuf : Netbuf where
  frames := [heartbeatReply]
  chain := [heartbeatReply]
  nonempty := List.cons_ne_nil _ _
  isFrame := by
    intro f hf
    obtain rfl := List.mem_singleton.mp hf
    exact ⟨rfl, rfl, Or.inr (Or.inl ⟨rfl, rfl, rfl, rfl⟩)⟩
  flatten := rfl

/-- Two heartbeats, a reply to one of them, and ten more that nothing answers. -/
def linkDies : List ConnOp :=
  List.replicate 2 (.heartbeat usedTable fun _ => 1) ++ .recv heartbeatNetbuf ::
    List.replicate 10 (.heartbeat usedTable fun _ => 1) ++ [.empty]

theorem supervised_run_linkDies : ∃ u, Runs.run step freshConn linkDies = some u ∧
    (u.isOpen, u.unanswered) = (false, 11) ∧
    (∀ t, Runs.Visits step freshConn linkDies t → CountsUnanswered t) ∧
    Runs.AllSteps step Supervises freshConn linkDies := by
  obtain ⟨u, hu, hstate⟩ := Option.map_eq_some_iff.mp (show (Runs.run step freshConn linkDies).map
    (fun u => (u.isOpen, u.unanswered)) = some (false, 11) by decide +kernel)
  have hkeeps : Runs.AllSteps step KeepsCount freshConn linkDies := by decide +kernel
  obtain ⟨hcounts, hsupervises⟩ := supervised_run hu
  exact ⟨u, hu, hstate, hcounts.mpr hkeeps, hsupervises hkeeps⟩

/-- Eleven heartbeats are unanswered, and a card reply lowers the counter to ten:
the connection is kept. -/
theorem card_reply_keeps_dead_link : ¬ Runs.AllSteps step Supervises freshConn
    (List.replicate 11 (.heartbeat usedTable fun _ => 1) ++ [.recv cardNetbuf, .empty]) := by
  intro h
  have hdef : (Runs.run step freshConn
      (List.replicate 11 (.heartbeat usedTable fun _ => 1))).map (fun s =>
        (s.isOpen, s.link.sendRecvCount, s.unanswered)) = some (true, 11, 11) := by
    decide +kernel
  obtain ⟨s, hs, hstate⟩ := Option.map_eq_some_iff.mp hdef
  have hopen : s.isOpen = true := congrArg (fun x => x.1) hstate
  have hcount : s.link.sendRecvCount = 11 := congrArg (fun x => x.2.1) hstate
  have hunanswered : s.unanswered = 11 := congrArg (fun x => x.2.2) hstate
  obtain ⟨link, hrecv, hlower⟩ := step_recv hopen cardNetbuf
  have hempty := (((Runs.allSteps_append hs).mp h).2.2 _ hrecv).1 rfl
  have hreplies : cardNetbuf.heartbeatReplies = 0 := by decide
  have hten : link.sendRecvCount.toNat = 10 := by
    rw [hlower, hcount]
    rfl
  have hkept : ¬ link.sendRecvCount > 10 := by
    intro hmore
    have hmore' : 10 < link.sendRecvCount.toNat := hmore
    omega
  rw [receiveNothing, if_neg hkept] at hempty
  simp only [hopen, hunanswered, hreplies] at hempty
  exact absurd (hempty.mpr (by omega)) (by decide)

end ServerConn

end YckjAcu
