import YckjAcu.Lib.Runs
import YckjAcu.ServerInput

/-!
# One frame per netbuf

The dispatcher keeps no bytes from one netbuf to the next and looks at absolute
offsets, so a netbuf that holds several whole frames has the effect of its
first one.
-/

namespace YckjAcu

/-! ### The four kinds of reply -/

section Kinds

variable {b : RecvBuf}

theorem replyBytes_heartbeatError {i : ℕ} (hi : i < 1024) (h0 : b.get 0 = 0xF3)
    (h1 : (b.get 1).toNat = i + 1) (h2 : b.get 2 = 0x02) (h3 : b.get 3 = 0x00) :
    replyBytes b = some (some [(0x55 : UInt8), b[i], b.get 4, b.get 5, b.get 6, b.get 7]) := by
  have hread : readRecv b ((b.get 1).toNat - 1) = some b[i] := by
    rw [h1, Nat.cast_add, Nat.cast_one, add_sub_cancel_right]
    exact readRecv_natCast b hi
  simp [replyBytes, errorReply, h0, h2, h3, hread]

theorem replyBytes_cardError (h0 : b.get 0 = 0xF3) (h1 : b.get 1 = 0x12) (h2 : b.get 2 = 0x12)
    (h3 : b.get 3 = 0x00) : replyBytes b =
      some (some [(0xBB : UInt8), b.get 16, b.get 12, b.get 13, b.get 14, b.get 15,
        errorCode (b.get 5) (b.get 7), b.get 17]) := by
  have hread : readRecv b 16 = some (b.get 16) := readRecv_natCast b (i := 16) (by decide)
  simp [replyBytes, errorReply, h0, h1, h2, h3, hread]

theorem replyBytes_heartbeat (h0 : b.get 0 = 0xF3) (h1 : b.get 1 = 0x0C) (h2 : b.get 2 = 0x02)
    (h3 : b.get 3 = 0xAA) (h4 : b.get 4 = 0xAA) : replyBytes b =
      some (some [(0xCC : UInt8), b.get 5, b.get 6, b.get 7, b.get 8, b.get 9, b.get 10,
        b.get 11]) := by
  have hread : readRecv b 11 = some (b.get 11) := readRecv_natCast b (i := 11) (by decide)
  simp [replyBytes, normalReply, h0, h1, h2, h3, h4, hread]

theorem replyBytes_card (h0 : b.get 0 = 0xF3) (h1 : b.get 1 = 0x12) (h2 : b.get 2 = 0x12)
    (h3 : b.get 3 = 0xAA) : replyBytes b =
      some (some [(0xAA : UInt8), b.get 8, b.get 9, b.get 10, b.get 11, b.get 12, b.get 13,
        b.get 14, b.get 15, b.get 16, b.get 17]) := by
  have hread : readRecv b 16 = some (b.get 16) := readRecv_natCast b (i := 16) (by decide)
  simp [replyBytes, normalReply, h0, h1, h2, h3, hread]

end Kinds

def byteAt (f : List UInt8) (i : ℕ) : UInt8 := f[i]?.getD 0

/-- The front of `ser_Date` for a whole frame, by its kind. -/
def frameReply (f : List UInt8) : List UInt8 :=
  let at' := byteAt f
  if at' 2 = 0x02 then
    if at' 3 = 0x00 then [0x55, at' (f.length - 1), at' 4, at' 5, at' 6, at' 7]
    else [0xCC, at' 5, at' 6, at' 7, at' 8, at' 9, at' 10, at' 11]
  else if at' 3 = 0x00 then
    [0xBB, at' 16, at' 12, at' 13, at' 14, at' 15, errorCode (at' 5) (at' 7), at' 17]
  else [0xAA, at' 8, at' 9, at' 10, at' 11, at' 12, at' 13, at' 14, at' 15, at' 16, at' 17]

/-- A frame of one of the recognised kinds: heartbeat or card reply, normal or
error, with its length in the second byte. -/
structure IsServerFrame (f : List UInt8) : Prop where
  start : f[0]? = some 0xF3
  length : f[1]?.map UInt8.toNat = some f.length
  kind :
    (f[2]? = some 0x02 ∧ f[3]? = some 0x00 ∧ 8 ≤ f.length) ∨
    (f[2]? = some 0x02 ∧ f[3]? = some 0xAA ∧ f[4]? = some 0xAA ∧ f.length = 12) ∨
    (f[2]? = some 0x12 ∧ f[3]? = some 0x00 ∧ f.length = 18) ∨
    (f[2]? = some 0x12 ∧ f[3]? = some 0xAA ∧ f.length = 18)

theorem IsServerFrame.byteLength {f : List UInt8} (h : IsServerFrame f) {n : ℕ}
    (hn : f.length = n) : (byteAt f 1).toNat = n := by
  obtain ⟨b, hb, hlen⟩ := Option.map_eq_some_iff.mp h.length
  rw [byteAt, hb, Option.getD_some, hlen, hn]

theorem IsServerFrame.length_lt {f : List UInt8} (h : IsServerFrame f) :
    f.length < 1024 := by
  have hb := (byteAt f 1).toNat_lt
  rw [h.byteLength rfl] at hb
  omega

/-- A frame posts one message, which does not depend on what follows it in the
netbuf. -/
theorem IsServerFrame.replyBytes_append {f : List UInt8} (h : IsServerFrame f)
    (rest : List UInt8) : replyBytes (received (f ++ rest)) = some (some (frameReply f)) := by
  have hbound := h.length_lt
  have hget : ∀ i : Fin 1024, i.val < f.length → (received (f ++ rest)).get i = byteAt f i := by
    intro i hlt
    rw [received_get, List.getElem?_append_left hlt, byteAt]
  have hbyte : ∀ {i v}, f[i]? = some v → byteAt f i = v := by
    intro i v hv
    rw [byteAt, hv, Option.getD_some]
  have hstart : ∀ (i : Fin 1024) {v}, f[i.val]? = some v → (received (f ++ rest)).get i = v := by
    intro i v hv
    rw [hget i (List.getElem?_eq_some_iff.mp hv).1, hbyte hv]
  have hlen : ((received (f ++ rest)).get 1).toNat = f.length := by
    have hpos : 1 < f.length := by rcases h.kind with hk | hk | hk | hk <;> omega
    rw [hget 1 hpos]
    exact h.byteLength rfl
  rcases h.kind with ⟨h2, h3, hk⟩ | ⟨h2, h3, h4, hk⟩ | ⟨h2, h3, hk⟩ | ⟨h2, h3, hk⟩
  · have hlast : (received (f ++ rest))[f.length - 1] = byteAt f (f.length - 1) :=
      hget ⟨f.length - 1, by omega⟩ (Nat.sub_lt (by omega) Nat.one_pos)
    rw [replyBytes_heartbeatError (i := f.length - 1) (by omega) (hstart _ h.start) (by omega)
      (hstart _ h2) (hstart _ h3), hlast]
    simp (disch := simp; omega) only [hget]
    simp [frameReply, hbyte h2, hbyte h3]
  · have h1 : (received (f ++ rest)).get 1 = 0x0C := UInt8.toNat_inj.mp (by rw [hlen, hk]; rfl)
    rw [replyBytes_heartbeat (hstart _ h.start) h1 (hstart _ h2) (hstart _ h3) (hstart _ h4)]
    simp (disch := simp; omega) only [hget]
    simp [frameReply, hbyte h2, hbyte h3]
  · have h1 : (received (f ++ rest)).get 1 = 0x12 := UInt8.toNat_inj.mp (by rw [hlen, hk]; rfl)
    rw [replyBytes_cardError (hstart _ h.start) h1 (hstart _ h2) (hstart _ h3)]
    simp (disch := simp; omega) only [hget]
    simp [frameReply, hbyte h2, hbyte h3]
  · have h1 : (received (f ++ rest)).get 1 = 0x12 := UInt8.toNat_inj.mp (by rw [hlen, hk]; rfl)
    rw [replyBytes_card (hstart _ h.start) h1 (hstart _ h2) (hstart _ h3)]
    simp (disch := simp; omega) only [hget]
    simp [frameReply, hbyte h2, hbyte h3]

/-! ### Sequences of netbufs -/

/-- The state after a netbuf that starts with the whole frame `f`. -/
def afterFrame (f : List UInt8) (s : ServerLink) : ServerLink :=
  { s with
    sendRecvCount := if 0 < s.sendRecvCount then s.sendRecvCount - 1 else s.sendRecvCount
    : ServerLink }.post (frameReply f)

theorem IsServerFrame.receive_eq_afterFrame {f rest : List UInt8} {chain : List (List UInt8)}
    (h : IsServerFrame f) (hchain : chain.flatten = f ++ rest) (s : ServerLink) :
    receive chain s = some (afterFrame f s) := by
  have h0 : (received (f ++ rest)).get 0 = 0xF3 := by
    have hlt := (List.getElem?_eq_some_iff.mp h.start).1
    rw [received_get, Fin.val_zero, List.getElem?_append_left hlt, h.start, Option.getD_some]
  rw [receive_eq, hchain, dispatch, h.replyBytes_append, Option.map_some, Option.elim_some]
  by_cases hpos : 0 < s.sendRecvCount
  · simp [afterFrame, h0, hpos]
  · simp [afterFrame, h0, hpos]

/-- Netbufs of whole frames leave the state that their first frames leave. -/
theorem run_receive_groups {groups : List (List (List UInt8))} {chains : List (List (List UInt8))}
    (hframes : ∀ g ∈ groups, g ≠ [] ∧ ∀ f ∈ g, IsServerFrame f)
    (hchains : chains.map List.flatten = groups.map List.flatten) (s : ServerLink) :
    Runs.run receive s chains =
      some ((groups.map fun g => g.headD []).foldl (fun t f => afterFrame f t) s) := by
  induction groups generalizing chains s with
  | nil =>
      obtain rfl : chains = [] := by simpa using hchains
      rfl
  | cons g groups ih =>
      cases chains with
      | nil => simp at hchains
      | cons chain chains =>
          simp only [List.map_cons, List.cons.injEq] at hchains
          obtain ⟨hne, hg⟩ := hframes g List.mem_cons_self
          obtain ⟨f, fs, rfl⟩ := List.exists_cons_of_ne_nil hne
          have hf := hg f List.mem_cons_self
          rw [Runs.run_cons, hf.receive_eq_afterFrame hchains.1 s, Option.bind_some,
            ih (fun g' hg' => hframes g' (List.mem_cons_of_mem _ hg')) hchains.2]
          rfl

theorem run_receive_singles {frames : List (List UInt8)} (hframes : ∀ f ∈ frames, IsServerFrame f)
    (s : ServerLink) : Runs.run receive s (frames.map fun f => [f]) =
      some (frames.foldl (fun t f => afterFrame f t) s) := by
  have hgroups : ∀ g ∈ frames.map (fun f => [f]), g ≠ [] ∧ ∀ f ∈ g, IsServerFrame f := by
    intro g hg
    obtain ⟨f, hf, rfl⟩ := List.mem_map.mp hg
    simpa using hframes f hf
  rw [run_receive_groups hgroups rfl s]
  simp [Function.comp_def]

theorem posted_foldl_afterFrame (fs : List (List UInt8)) (s : ServerLink) :
    (fs.foldl (fun t f => afterFrame f t) s).posted.length = s.posted.length + fs.length := by
  induction fs generalizing s with
  | nil => rfl
  | cons f fs ih =>
      rw [List.foldl_cons, ih]
      simp [afterFrame, ServerLink.post]
      omega

/-- The netbuf starts like a frame. -/
def StartsFrame (chain : List (List UInt8)) : Prop := chain.flatten.head? = some 0xF3

instance (chain : List (List UInt8)) : Decidable (StartsFrame chain) :=
  inferInstanceAs (Decidable (_ = _))

theorem replyBytes_of_not_start {chain : List (List UInt8)} (h : ¬ StartsFrame chain) :
    replyBytes (received chain.flatten) = some none := by
  have h0 : (received chain.flatten).get 0 ≠ 0xF3 := by
    rw [received_get, Fin.val_zero, ← List.head?_eq_getElem?]
    unfold StartsFrame at h
    cases hhead : chain.flatten.head? with
    | none => simp
    | some v =>
        rw [Option.getD_some]
        rintro rfl
        exact h hhead
  rw [replyBytes, if_neg h0]

/-- However the stream is cut, a netbuf posts at most one message, and none when
it does not start like a frame. -/
theorem run_receive_posted {s t : ServerLink} {chains : List (List (List UInt8))}
    (h : Runs.run receive s chains = some t) :
    ∃ msgs, t.posted = s.posted ++ msgs ∧ msgs.length ≤ chains.countP (StartsFrame ·) := by
  induction chains generalizing s with
  | nil =>
      obtain rfl := Option.some.inj h
      exact ⟨[], by simp, by simp⟩
  | cons chain chains ih =>
      obtain ⟨u, hu, hrest⟩ := Runs.run_cons_eq_some.mp h
      obtain ⟨reply, hreply, _, hposted⟩ := receive_eq_some_iff hu
      obtain ⟨msgs, hmsgs, hcount⟩ := ih hrest
      refine ⟨_, by rw [hmsgs, hposted, List.append_assoc], ?_⟩
      rw [List.length_append, List.length_map, List.countP_cons]
      by_cases hstart : StartsFrame chain
      · have hone : reply.toList.length ≤ 1 := by cases reply <;> simp
        simp only [hstart, decide_true, if_true]
        omega
      · obtain rfl := Option.some.inj (hreply.symm.trans (replyBytes_of_not_start hstart))
        simpa [hstart] using hcount

theorem length_le_sum_length {groups : List (List (List UInt8))} (h : ∀ g ∈ groups, g ≠ []) :
    groups.length ≤ (groups.map List.length).sum := by
  induction groups with
  | nil => simp
  | cons g groups ih =>
      have hg := List.length_pos_of_ne_nil (h g List.mem_cons_self)
      have hrest := ih fun g' hg' => h g' (List.mem_cons_of_mem g hg')
      simp only [List.length_cons, List.map_cons, List.sum_cons]
      omega

theorem length_eq_one_of_sum_length {groups : List (List (List UInt8))} (h : ∀ g ∈ groups, g ≠ [])
    (hsum : (groups.map List.length).sum = groups.length) : ∀ g ∈ groups, g.length = 1 := by
  induction groups with
  | nil => simp
  | cons g groups ih =>
      have hg := List.length_pos_of_ne_nil (h g List.mem_cons_self)
      have hne : ∀ g' ∈ groups, g' ≠ [] := fun g' hg' => h g' (List.mem_cons_of_mem g hg')
      have hrest := length_le_sum_length hne
      simp only [List.length_cons, List.map_cons, List.sum_cons] at hsum
      intro g' hg'
      rcases List.mem_cons.mp hg' with rfl | hg'
      · omega
      · exact ih hne (by omega) g' hg'

theorem flatten_eq_heads {groups : List (List (List UInt8))} (h : ∀ g ∈ groups, g.length = 1) :
    groups.flatten = groups.map fun g => g.headD [] := by
  induction groups with
  | nil => rfl
  | cons g groups ih =>
      obtain ⟨f, rfl⟩ := List.length_eq_one_iff.mp (h g List.mem_cons_self)
      have hrest := ih fun g' hg' => h g' (List.mem_cons_of_mem _ hg')
      simpa using hrest

/-- Whole frames merged into netbufs: each netbuf posts the message of its first
frame, so the messages are those of the single frames exactly when every netbuf
holds one. -/
theorem merged_frames_posted :
    (∀ (s : ServerLink) (groups : List (List (List UInt8))) (chains : List (List (List UInt8))),
      (∀ g ∈ groups, g ≠ [] ∧ ∀ f ∈ g, IsServerFrame f) →
      chains.map List.flatten = groups.map List.flatten →
      ∃ t u, Runs.run receive s chains = some t ∧
        Runs.run receive s (groups.map fun g => [g.headD []]) = some t ∧
        Runs.run receive s (groups.flatten.map fun f => [f]) = some u ∧
        (t.posted = u.posted ↔ ∀ g ∈ groups, g.length = 1)) ∧
    ∀ (s t : ServerLink) (chains : List (List (List UInt8))),
      Runs.run receive s chains = some t →
      ∃ msgs, t.posted = s.posted ++ msgs ∧ msgs.length ≤ chains.countP (StartsFrame ·) := by
  refine ⟨fun s groups chains hframes hchains => ?_, fun s t chains h => run_receive_posted h⟩
  have hne : ∀ g ∈ groups, g ≠ [] := fun g hg => (hframes g hg).1
  have hheads : ∀ f ∈ groups.map (fun g => g.headD []), IsServerFrame f := by
    intro f hf
    obtain ⟨g, hg, rfl⟩ := List.mem_map.mp hf
    obtain ⟨f, fs, rfl⟩ := List.exists_cons_of_ne_nil (hne g hg)
    exact (hframes _ hg).2 f List.mem_cons_self
  have hall : ∀ f ∈ groups.flatten, IsServerFrame f := by
    intro f hf
    obtain ⟨g, hg, hfg⟩ := List.mem_flatten.mp hf
    exact (hframes g hg).2 f hfg
  have hfirst := run_receive_singles hheads s
  rw [List.map_map] at hfirst
  refine ⟨_, _, run_receive_groups hframes hchains s, hfirst, run_receive_singles hall s, ?_⟩
  constructor
  · intro heq
    apply length_eq_one_of_sum_length hne
    have hlen := congrArg List.length heq
    simp only [posted_foldl_afterFrame, List.length_map, List.length_flatten] at hlen
    omega
  · intro hone
    rw [flatten_eq_heads hone]

/-- A normal heartbeat reply for reader `n`. -/
def heartbeatFrame (n : UInt8) : List UInt8 :=
  [0xF3, 0x0C, 0x02, 0xAA, 0xAA, 0xC1, 0xC2, 0xC3, 0xC4, 5, 29, n]

theorem isServerFrame_heartbeat (n : UInt8) : IsServerFrame (heartbeatFrame n) :=
  ⟨rfl, rfl, Or.inr (Or.inl ⟨rfl, rfl, rfl, rfl⟩)⟩

theorem merged_frames_posted_heartbeats :
    ∃ t u, Runs.run receive ⟨Vector.replicate 11 0, 0, []⟩
        [[heartbeatFrame 1], [heartbeatFrame 2 ++ heartbeatFrame 3]] = some t ∧
      Runs.run receive ⟨Vector.replicate 11 0, 0, []⟩
        [[heartbeatFrame 1], [heartbeatFrame 2]] = some t ∧
      Runs.run receive ⟨Vector.replicate 11 0, 0, []⟩
        [[heartbeatFrame 1], [heartbeatFrame 2], [heartbeatFrame 3]] = some u ∧
      (t.posted = u.posted ↔
        ∀ g ∈ [[heartbeatFrame 1], [heartbeatFrame 2, heartbeatFrame 3]], g.length = 1) :=
  merged_frames_posted.1 ⟨Vector.replicate 11 0, 0, []⟩
    [[heartbeatFrame 1], [heartbeatFrame 2, heartbeatFrame 3]] _
    (by simp [isServerFrame_heartbeat]) rfl

/-- Two heartbeat replies that arrive in one netbuf. -/
theorem merged_heartbeats_lost :
    ¬ ∀ (s : ServerLink) (frames : List (List UInt8)) (chains : List (List (List UInt8))),
      (∀ f ∈ frames, IsServerFrame f) → (chains.map List.flatten).flatten = frames.flatten →
      (∀ chain ∈ chains, chain.flatten.length ≤ 1024) →
      (Runs.run receive s chains).map (·.posted) =
        (Runs.run receive s (frames.map fun f => [f])).map (·.posted) := by
  intro h
  have hsame := h ⟨Vector.replicate 11 0, 0, []⟩ [heartbeatFrame 1, heartbeatFrame 2]
    [[heartbeatFrame 1 ++ heartbeatFrame 2]] (by simp [isServerFrame_heartbeat]) rfl (by decide)
  have hgroup : ∀ g ∈ [[heartbeatFrame 1, heartbeatFrame 2]],
      g ≠ [] ∧ ∀ f ∈ g, IsServerFrame f := by
    simp [isServerFrame_heartbeat]
  have hchain : [[heartbeatFrame 1 ++ heartbeatFrame 2]].map List.flatten =
      [[heartbeatFrame 1, heartbeatFrame 2]].map List.flatten := rfl
  rw [run_receive_groups hgroup hchain, run_receive_singles (by simp [isServerFrame_heartbeat])]
    at hsame
  have hlen := congrArg List.length (Option.some.inj hsame)
  rw [posted_foldl_afterFrame, posted_foldl_afterFrame] at hlen
  simp at hlen

end YckjAcu
