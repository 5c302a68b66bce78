import YckjAcu.PowerBus
import YckjAcu.TcpClient

/-!
# Input from the server

The dispatcher takes an index from the length byte of a frame, and a row of the
reader table from its address byte; neither is checked.  Each netbuf is read as
one frame, so only the first of several frames in it is seen.
-/

namespace YckjAcu

/-! ### Indices -/

/-- The length byte leads to no index before the buffer, and the address byte to
no row past the table. -/
def FrameSafe (b : RecvBuf) : Prop :=
  b.get 0 = 0xF3 →
    (b.get 3 = 0x00 ∧ b.get 2 = 0x02 →
      1 ≤ (b.get 1).toNat ∧ (b[(b.get 1).toNat - 1]?.getD 0).toNat ≤ 80) ∧
    (b.get 3 = 0xAA → (if (b.get 2) = 0x02 then 1 else 2) ≤ (b.get 1).toNat) ∧
    (b.get 3 = 0xAA ∧ b.get 1 = 0x0C ∧ b.get 2 = 0x02 ∧ b.get 4 = 0xAA → (b.get 11).toNat ≤ 80) ∧
    (b.get 3 = 0xAA ∧ b.get 1 = 0x12 ∧ b.get 2 = 0x12 → (b.get 16).toNat ≤ 80)

/-- The dispatcher reads inside its buffer, and the message it posts, if any,
makes `WriteRFIDData` stay inside the table. -/
def ReplySafe (serDate : SerDate) (r : Option (Option (List UInt8))) : Prop :=
  ∃ reply, r = some reply ∧ ∀ bytes ∈ reply, ∀ i ∈ rowIndex (overwrite bytes serDate), i ≤ 80

theorem errorReply_safe_iff (b : RecvBuf) (serDate : SerDate) :
    ReplySafe serDate (errorReply b) ↔
      (b.get 2 = 0x02 → 1 ≤ (b.get 1).toNat ∧ (b[(b.get 1).toNat - 1]?.getD 0).toNat ≤ 80) := by
  unfold errorReply
  split_ifs with h2 h12
  · by_cases hlen : 1 ≤ (b.get 1).toNat
    · have hread := readRecv_of_le b (b.get 1) hlen
      simp only [Nat.cast_one] at hread
      simp [ReplySafe, hread, h2, hlen, rowIndex, overwrite]
    · have hread := readRecv_of_lt b (b.get 1) (Nat.lt_of_not_le hlen)
      simp only [Nat.cast_one] at hread
      simp [ReplySafe, hread, h2, hlen]
  · have hlen : 2 ≤ (b.get 1).toNat := by
      rw [h12.2]
      decide
    have hread := readRecv_of_le b (b.get 1) hlen
    simp only [Nat.cast_ofNat] at hread
    simp [ReplySafe, hread, h2, rowIndex, overwrite]
  · simp [ReplySafe, h2]

theorem normalReply_safe_iff (b : RecvBuf) (serDate : SerDate) :
    ReplySafe serDate (normalReply b) ↔
      (if (b.get 2) = 0x02 then 1 else 2) ≤ (b.get 1).toNat ∧
      (b.get 1 = 0x0C ∧ b.get 2 = 0x02 ∧ b.get 4 = 0xAA → (b.get 11).toNat ≤ 80) ∧
      (b.get 1 = 0x12 ∧ b.get 2 = 0x12 → (b.get 16).toNat ≤ 80) := by
  unfold normalReply
  by_cases h2 : b.get 2 = 0x02
  · have hcard : ¬ (b.get 1 = 0x12 ∧ b.get 2 = 0x12) := by simp [h2]
    by_cases hlen : 1 ≤ (b.get 1).toNat
    · have hread := readRecv_of_le b (b.get 1) hlen
      simp only [Nat.cast_one] at hread
      by_cases hbeat : b.get 1 = 0x0C ∧ b.get 4 = 0xAA
      · -- the address is the last of the twelve bytes
        have hlast : readRecv b 11 = some (b.get 11) := readRecv_natCast b (i := 11) (by decide)
        simp [ReplySafe, hlast, h2, hbeat, rowIndex, overwrite]
      · have hbeat' : ¬ (b.get 1 = 0x0C ∧ b.get 2 = 0x02 ∧ b.get 4 = 0xAA) :=
          fun h => hbeat ⟨h.1, h.2.2⟩
        simp [ReplySafe, hread, h2, hlen, hbeat]
    · have hread := readRecv_of_lt b (b.get 1) (Nat.lt_of_not_le hlen)
      simp only [Nat.cast_one] at hread
      simp [ReplySafe, hread, h2, hlen]
  · by_cases hlen : 2 ≤ (b.get 1).toNat
    · have hread := readRecv_of_le b (b.get 1) hlen
      simp only [Nat.cast_ofNat] at hread
      by_cases hcard : b.get 2 = 0x12 ∧ b.get 1 = 0x12
      · have hlast : readRecv b 16 = some (b.get 16) := readRecv_natCast b (i := 16) (by decide)
        simp [ReplySafe, hlast, hcard, rowIndex, overwrite]
      · have hcard' : ¬ (b.get 1 = 0x12 ∧ b.get 2 = 0x12) := fun h => hcard h.symm
        simp [ReplySafe, hread, h2, hlen, hcard, hcard']
    · have hread := readRecv_of_lt b (b.get 1) (Nat.lt_of_not_le hlen)
      simp only [Nat.cast_ofNat] at hread
      simp [ReplySafe, hread, h2, hlen]

theorem replyBytes_safe_iff (b : RecvBuf) (serDate : SerDate) :
    ReplySafe serDate (replyBytes b) ↔ FrameSafe b := by
  unfold replyBytes FrameSafe
  by_cases h0 : b.get 0 = 0xF3
  · by_cases h3 : b.get 3 = 0x00
    · rw [if_pos h0, if_pos h3, errorReply_safe_iff]
      simp [h0, h3]
    · by_cases hAA : b.get 3 = 0xAA
      · rw [if_pos h0, if_neg h3, if_pos hAA, normalReply_safe_iff]
        simp [h0, hAA]
      · simp [ReplySafe, h0, h3, hAA]
  · simp [ReplySafe, h0]

/-- A received netbuf adds at most one message. -/
theorem receive_eq_some_iff {chain : List (List UInt8)} {s t : ServerLink}
    (h : receive chain s = some t) : ∃ reply, replyBytes (received chain.flatten) = some reply ∧
      t.serDate = reply.elim s.serDate (fun bytes => overwrite bytes s.serDate) ∧
      t.posted = s.posted ++ reply.toList.map fun bytes => overwrite bytes s.serDate := by
  rw [receive_eq, dispatch, Option.map_eq_some_iff] at h
  obtain ⟨reply, hreply, rfl⟩ := h
  refine ⟨reply, hreply, ?_⟩
  cases reply with
  | none =>
      simp only [Option.elim_none, Option.toList_none, List.map_nil, List.append_nil]
      split <;> exact ⟨rfl, rfl⟩
  | some bytes =>
      simp only [Option.elim_some, Option.toList_some, ServerLink.post]
      split <;> exact ⟨rfl, rfl⟩

theorem receive_isSome (chain : List (List UInt8)) (s : ServerLink) :
    (receive chain s).isSome = (replyBytes (received chain.flatten)).isSome := by
  rw [receive_eq, dispatch, Option.isSome_map]

/-- A netbuf is handled inside the buffer and the table exactly when its frame
is safe. -/
theorem receive_safe_iff (chain : List (List UInt8)) (s : ServerLink) :
    (∃ t msgs, receive chain s = some t ∧ t.posted = s.posted ++ msgs ∧
      ∀ m ∈ msgs, ∀ bus, (writeRFIDData m bus).isSome) ↔
      FrameSafe (received chain.flatten) := by
  rw [← replyBytes_safe_iff _ s.serDate]
  simp only [writeRFIDData_isSome_iff]
  constructor
  · rintro ⟨t, msgs, hrecv, hmsgs, hsafe⟩
    obtain ⟨reply, hreply, _, hposted⟩ := receive_eq_some_iff hrecv
    obtain rfl := List.append_cancel_left (hmsgs.symm.trans hposted)
    refine ⟨reply, hreply, fun bytes hbytes => ?_⟩
    have hmem : overwrite bytes s.serDate ∈
        reply.toList.map fun bytes => overwrite bytes s.serDate :=
      List.mem_map.mpr ⟨bytes, by simpa using hbytes, rfl⟩
    exact hsafe _ hmem ⟨fun _ => Vector.replicate 14 0, ⟨[], []⟩, 0, 0⟩
  · rintro ⟨reply, hreply, hsafe⟩
    have hsome : (receive chain s).isSome := by rw [receive_isSome, hreply]; rfl
    obtain ⟨t, ht⟩ := Option.isSome_iff_exists.mp hsome
    obtain ⟨reply', hreply', _, hposted⟩ := receive_eq_some_iff ht
    obtain rfl : reply = reply' := Option.some.inj (hreply.symm.trans hreply')
    refine ⟨t, _, ht, hposted, fun m hm _ => ?_⟩
    obtain ⟨bytes, hbytes, rfl⟩ := List.mem_map.mp hm
    exact hsafe bytes (by simpa using hbytes)

/-- A heartbeat reply that gives its length as zero makes the dispatcher read
before its buffer. -/
theorem receive_zero_length : ¬ ∃ t msgs, receive [[0xF3, 0x00, 0x02, 0xAA]]
      ⟨Vector.replicate 11 0, 0, []⟩ = some t ∧ t.posted = [] ++ msgs ∧
    ∀ m ∈ msgs, ∀ bus, (writeRFIDData m bus).isSome := by
  rintro ⟨t, msgs, ht, _⟩
  rw [receive_eq] at ht
  simp [dispatch, replyBytes, normalReply, readRecv] at ht

end YckjAcu
