import YckjAcu.PollExchange

/-!
# Frames of others during a handshake or a poll

The waiting loops match a single byte, so a frame of another kind can end them:
for an assignment one with the logic address in byte 5, for a poll one with it in
byte 1.
-/

namespace YckjAcu

/-- The acknowledgement of the assignment of `n` to the reader `physicalADD`. -/
def CanRxMsg.Acknowledges (m : CanRxMsg) (n : UInt8) (physicalADD : Vector UInt8 4) : Prop :=
  m.data.get 0 = 0xC2 ∧ m.data.get 1 = physicalADD.get 0 ∧ m.data.get 2 = physicalADD.get 1 ∧
    m.data.get 3 = physicalADD.get 2 ∧ m.data.get 4 = physicalADD.get 3 ∧ m.data.get 5 = n

/-- Among the first twenty results the acknowledgement with version `v` comes after
`pre`, and none before it. -/
structure AckArrives (n : UInt8) (physicalADD : Vector UInt8 4) (v : UInt8)
    (pre : List (Option CanRxMsg)) (ack : CanRxMsg) : Prop where
  early : pre.length < 20
  acknowledges : ack.Acknowledges n physicalADD
  version : ack.data.get 6 = v
  length : ack.dlc = 8
  nonzero : v ≠ 0
  first : ∀ m, some m ∈ pre → ¬ m.Acknowledges n physicalADD

/-- An answer of the reader `n` to a poll, by its first two bytes. -/
def CanRxMsg.IsAnswer (m : CanRxMsg) (n : UInt8) : Prop :=
  m.data.get 1 = n ∧ m.data.get 0 ∈ [0x02, 0x03, 0x04, 0x05, 0x06]

instance (m : CanRxMsg) (n : UInt8) : Decidable (m.IsAnswer n) :=
  inferInstanceAs (Decidable (_ ∧ _))

/-- The next answer of the reader `n` comes after `pre`, within ten results. -/
structure NextAnswer (n : UInt8) (rx pre : List (Option CanRxMsg)) (a : CanRxMsg)
    (rest : List (Option CanRxMsg)) : Prop where
  results : rx = pre ++ some a :: rest
  early : pre.length < 10
  first : ∀ m, some m ∈ pre → m.dlc ≠ 0 → ¬ m.IsAnswer n
  length : a.dlc ≠ 0
  answer : a.IsAnswer n

/-- The schedule without the frames that are no answers of the reader `n`. -/
def withoutForeign (n : UInt8) (rx : List (Option CanRxMsg)) : List (Option CanRxMsg) :=
  rx.filter fun r => r.all fun m => m.IsAnswer n

/-- The value and the buffer of the poll do not change without the foreign frames. -/
def UnmovedByForeign (n : UInt8) (rx : List (Option CanRxMsg)) : Prop :=
  ∀ uBuff tx, (canSendPBusCom n uBuff ⟨withoutForeign n rx, tx⟩).map (fun out => (out.1, out.2.1)) =
    (canSendPBusCom n uBuff ⟨rx, tx⟩).map fun out => (out.1, out.2.1)

/-! ### The assignment -/

theorem canWriteLogitADD_of_answer {n : UInt8} {physicalADD : Vector UInt8 4} {m : CanRxMsg}
    {rx rest : List (Option CanRxMsg)} (tx : List CanTxMsg)
    (h : (canWait 5 n).Answered (Vector.replicate 8 0) 20 rx (some m) rest) :
    ∃ bus, canWriteLogitADD n physicalADD ⟨rx, tx⟩ = some (m.data.get 6, bus) ∧
        m.Acknowledges n physicalADD ∨
      canWriteLogitADD n physicalADD ⟨rx, tx⟩ = some (0x00, bus) ∧
        ¬ m.Acknowledges n physicalADD := by
  obtain ⟨_, _, _, hm, _⟩ := id h
  obtain ⟨hdlc, -⟩ := (canWait_answers_some m).mp hm
  have hrecv := receiveFor_answered h
  simp only [canWriteLogitADD, packageSend_rx, hrecv, Option.bind_eq_bind, Option.bind_some]
  by_cases hack : m.Acknowledges n physicalADD
  · rw [if_pos ⟨hdlc, hack⟩]
    exact ⟨_, Or.inl ⟨rfl, hack⟩⟩
  · rw [if_neg fun h => hack h.2]
    exact ⟨_, Or.inr ⟨rfl, hack⟩⟩

theorem returnsVersion_iff {n v : UInt8} {physicalADD : Vector UInt8 4}
    {pre : List (Option CanRxMsg)} {ack : CanRxMsg} (h : AckArrives n physicalADD v pre ack)
    (rest : List (Option CanRxMsg)) (tx : List CanTxMsg) :
    (∃ bus, canWriteLogitADD n physicalADD ⟨pre ++ some ack :: rest, tx⟩ = some (v, bus)) ↔
      ∀ m, some m ∈ pre → m.dlc ≠ 0 → m.data.get 5 ≠ n := by
  have hn : ack.data.get 5 = n := h.acknowledges.2.2.2.2.2
  have hdlc : ack.dlc ≠ 0 := by
    rw [h.length]
    decide
  rcases Wait.quiet_or_exists_first (W := canWait 5 n) pre with
    hquiet | ⟨pre₁, r, pre₂, rfl, hquiet, hr⟩
  · refine iff_of_true ?_ (canWait_quiet_iff.mp hquiet)
    have hans := Wait.answered_of_length (b := Vector.replicate 8 0) rest hquiet
      ((canWait_answers_some ack).mpr ⟨hdlc, hn⟩) h.early
    obtain ⟨bus, ⟨hret, -⟩ | ⟨-, hno⟩⟩ := canWriteLogitADD_of_answer tx hans
    · exact ⟨bus, h.version ▸ hret⟩
    · exact absurd h.acknowledges hno
  · obtain ⟨m, rfl, hdlc', hm'⟩ := canWait_answers_iff.mp hr
    have hmem : some m ∈ pre₁ ++ some m :: pre₂ := by simp
    refine iff_of_false ?_ fun hall => hall m hmem hdlc' hm'
    have hlen := h.early
    rw [List.length_append, List.length_cons] at hlen
    have hans := Wait.answered_of_length (b := Vector.replicate 8 0) (n := 20)
      (pre₂ ++ some ack :: rest) hquiet hr (by omega)
    rw [List.append_assoc, List.cons_append]
    rintro ⟨bus, hret⟩
    obtain ⟨bus', ⟨-, hack⟩ | ⟨hzero, -⟩⟩ := canWriteLogitADD_of_answer tx hans
    · exact h.first m hmem hack
    · rw [hzero] at hret
      cases hret
      exact h.nonzero rfl

/-! ### The poll -/

section Poll

variable {n : UInt8} {rx pre rest : List (Option CanRxMsg)} {a : CanRxMsg}

theorem NextAnswer.endsWith (h : NextAnswer n rx pre a rest) (hquiet : (canWait 1 n).Quiet pre)
    (buf : Vector UInt8 8) : EndsWith (canWait 1 n) buf 10 rx (some a) rest := by
  rw [h.results]
  have hanswer := (canWait_answers_some a).mpr ⟨h.length, h.answer.1⟩
  exact Wait.answered_of_length rest hquiet hanswer h.early

theorem NextAnswer.endsWith_foreign (h : NextAnswer n rx pre a rest)
    (hquiet : ¬ (canWait 1 n).Quiet pre) (buf : Vector UInt8 8) :
    ∃ m rest', EndsWith (canWait 1 n) buf 10 rx (some m) rest' ∧
      m.data.get 0 ∉ [0x02, 0x03, 0x04, 0x05, 0x06] := by
  rcases Wait.quiet_or_exists_first (W := canWait 1 n) pre with
    hquiet' | ⟨pre₁, r, pre₂, rfl, hquiet₁, hr⟩
  · exact absurd hquiet' hquiet
  · obtain ⟨m, rfl, hdlc, hn⟩ := canWait_answers_iff.mp hr
    have hlen := h.early
    rw [List.length_append, List.length_cons] at hlen
    refine ⟨m, pre₂ ++ some a :: rest, ?_, fun h0 => h.first m (by simp) hdlc ⟨hn, h0⟩⟩
    rw [h.results, List.append_assoc, List.cons_append]
    exact Wait.answered_of_length _ hquiet₁ hr (by omega)

theorem mem_withoutForeign {m : CanRxMsg} (h : some m ∈ withoutForeign n pre) :
    some m ∈ pre ∧ m.IsAnswer n := by
  simpa using List.mem_filter.mp h

theorem NextAnswer.withoutForeign (h : NextAnswer n rx pre a rest) :
    NextAnswer n (withoutForeign n rx) (withoutForeign n pre) a (withoutForeign n rest) where
  results := by
    rw [h.results]
    simp [YckjAcu.withoutForeign, h.answer]
  early := Nat.lt_of_le_of_lt (List.length_filter_le _ _) h.early
  first m hm := h.first m (mem_withoutForeign hm).1
  length := h.length
  answer := h.answer

theorem NextAnswer.quiet_withoutForeign (h : NextAnswer n rx pre a rest) :
    (canWait 1 n).Quiet (YckjAcu.withoutForeign n pre) := by
  intro r hr
  by_contra hans
  obtain ⟨m, rfl, hdlc, -⟩ := canWait_answers_iff.mp (Bool.eq_true_of_not_eq_false hans)
  obtain ⟨hm, hanswer⟩ := mem_withoutForeign hr
  exact h.first m hm hdlc hanswer

theorem unmoved_iff {e e' : Exchange} {rest' : List (Option CanRxMsg)}
    (h' : Polled n (withoutForeign n rx) e' rest') (h : Polled n rx e rest) :
    UnmovedByForeign n rx ↔ e'.ret = e.ret ∧ ∀ uBuff, e'.fill uBuff = e.fill uBuff := by
  have hpoll : ∀ uBuff tx, ((canSendPBusCom n uBuff ⟨withoutForeign n rx, tx⟩).map
      (fun out => (out.1, out.2.1)) = (canSendPBusCom n uBuff ⟨rx, tx⟩).map
      fun out => (out.1, out.2.1)) ↔ e'.ret = e.ret ∧ e'.fill uBuff = e.fill uBuff := by
    intro uBuff tx
    rw [canSendPBusCom_of_polled uBuff ⟨withoutForeign n rx, tx⟩ h',
      canSendPBusCom_of_polled uBuff ⟨rx, tx⟩ h]
    simp
  constructor
  · intro hall
    exact ⟨((hpoll (Vector.replicate 10 0) []).mp (hall _ _)).1,
      fun uBuff => ((hpoll uBuff []).mp (hall _ _)).2⟩
  · intro hall uBuff tx
    exact (hpoll uBuff tx).mpr ⟨hall.1, hall.2 uBuff⟩

/-- Something of the reader's is seen in the value or in the buffer. -/
def Exchange.Seen (e : Exchange) : Prop := e.ret ≠ 0x00 ∨ ∃ uBuff, e.fill uBuff ≠ uBuff

theorem seen_first (kind : EventKind) (m1 : CanRxMsg) : (Exchange.first kind m1).Seen := by
  refine Or.inr ⟨Vector.replicate 10 0, fun h => ?_⟩
  have h0 : kind.mark = 0 := congrArg (fun v : Vector UInt8 10 => v.get 0) h
  cases kind <;> cases h0

theorem seen_ofSingle (h : a.IsAnswer n) (h3 : a.data.get 0 ≠ 0x03) :
    (Exchange.ofSingle a).Seen := by
  unfold Exchange.ofSingle
  split_ifs with h2 h5 h4 h6
  · exact Or.inl (by decide : (0x02 : UInt8) ≠ 0x00)
  · exact seen_first _ _
  · exact Or.inl (by decide : (0xAA : UInt8) ≠ 0x00)
  · exact Or.inl (by decide : (0xAA : UInt8) ≠ 0x00)
  · exact absurd h.2 (by simp [h2, h3, h4, h5, h6])

theorem seen_ofPair (m1 : CanRxMsg) (r : Option CanRxMsg) : (Exchange.ofPair m1 r).Seen := by
  cases r with
  | none => exact seen_first _ _
  | some m2 =>
      unfold Exchange.ofPair
      dsimp only
      split_ifs
      · exact Or.inl (by decide : (0xAA : UInt8) ≠ 0x00)
      · exact seen_first _ _

theorem ofSingle_foreign {m : CanRxMsg}
    (h : m.data.get 0 ∉ [0x02, 0x03, 0x04, 0x05, 0x06]) : Exchange.ofSingle m = .other m := by
  simp only [List.mem_cons, List.not_mem_nil, or_false, not_or] at h
  simp [Exchange.ofSingle, h]

/-- A foreign frame that ends the first wait hides the answer. -/
theorem moved_of_foreign {e' : Exchange} {rest' : List (Option CanRxMsg)}
    (h : NextAnswer n rx pre a rest) (hquiet : ¬ (canWait 1 n).Quiet pre)
    (h' : Polled n (withoutForeign n rx) e' rest') (hseen : e'.Seen) :
    ¬ UnmovedByForeign n rx := by
  obtain ⟨m, rest₁, hend, hm⟩ := h.endsWith_foreign hquiet (Vector.replicate 8 0)
  have hpolled := Polled.single hend fun h3 => hm (by simp [h3])
  rw [ofSingle_foreign hm] at hpolled
  rw [unmoved_iff h' hpolled]
  rintro ⟨hret, hfill⟩
  rcases hseen with hne | ⟨uBuff, hne⟩
  · exact hne hret
  · exact hne (hfill uBuff)

end Poll

/-- Foreign frames leave the poll alone exactly when none with the address `n` comes
before the first answer, or between the two halves of an insertion. -/
theorem unmovedByForeign_iff_quiet {n : UInt8} {rx pre rest pre₂ rest₂ : List (Option CanRxMsg)}
    {a a₂ : CanRxMsg} (h : NextAnswer n rx pre a rest)
    (h2 : a.data.get 0 = 0x03 → NextAnswer n rest pre₂ a₂ rest₂) :
    UnmovedByForeign n rx ↔ (canWait 1 n).Quiet pre ∧
      (a.data.get 0 = 0x03 → a₂.data.get 0 = 0x04 → (canWait 1 n).Quiet pre₂) := by
  have hend' := h.withoutForeign.endsWith h.quiet_withoutForeign (Vector.replicate 8 0)
  by_cases h3 : a.data.get 0 = 0x03
  · have hnext := h2 h3
    have hpolled' := Polled.pair hend' h3
      (hnext.withoutForeign.endsWith hnext.quiet_withoutForeign a.data)
    by_cases hquiet : (canWait 1 n).Quiet pre
    · have hend := h.endsWith hquiet (Vector.replicate 8 0)
      by_cases hquiet₂ : (canWait 1 n).Quiet pre₂
      · rw [unmoved_iff hpolled' (Polled.pair hend h3 (hnext.endsWith hquiet₂ a.data))]
        exact iff_of_true ⟨rfl, fun _ => rfl⟩ ⟨hquiet, fun _ _ => hquiet₂⟩
      · obtain ⟨m, rest', hend₂, hm⟩ := hnext.endsWith_foreign hquiet₂ a.data
        have hm4 : m.data.get 0 ≠ 0x04 := fun h4 => hm (by simp [h4])
        rw [unmoved_iff hpolled' (Polled.pair hend h3 hend₂), Exchange.ofPair, Exchange.ofPair,
          if_neg hm4]
        by_cases h4 : a₂.data.get 0 = 0x04
        · rw [if_pos h4]
          exact iff_of_false (fun hsame => absurd hsame.1 (by decide : (0xAA : UInt8) ≠ 0x00))
            fun hall => hquiet₂ (hall.2 h3 h4)
        · rw [if_neg h4]
          exact iff_of_true ⟨rfl, fun _ => rfl⟩ ⟨hquiet, fun _ h4' => absurd h4' h4⟩
    · exact iff_of_false (moved_of_foreign h hquiet hpolled' (seen_ofPair _ _))
        fun hall => hquiet hall.1
  · have hpolled' := Polled.single hend' h3
    by_cases hquiet : (canWait 1 n).Quiet pre
    · rw [unmoved_iff hpolled' (Polled.single (h.endsWith hquiet _) h3)]
      exact iff_of_true ⟨rfl, fun _ => rfl⟩ ⟨hquiet, fun h3' => absurd h3' h3⟩
    · exact iff_of_false (moved_of_foreign h hquiet hpolled' (seen_ofSingle h.answer h3))
        fun hall => hquiet hall.1

/-- When foreign frames are harmless: before the acknowledgement of an assignment
none has the logic address in byte 5; before the first answer to a poll, and
between the two halves of an insertion, none has it in byte 1. -/
theorem foreignFrames_harmless_iff (n : UInt8) (physicalADD : Vector UInt8 4) :
    (∀ v pre ack rest tx, AckArrives n physicalADD v pre ack →
      ((∃ bus, canWriteLogitADD n physicalADD ⟨pre ++ some ack :: rest, tx⟩ = some (v, bus)) ↔
        ∀ m, some m ∈ pre → m.dlc ≠ 0 → m.data.get 5 ≠ n)) ∧
    ∀ rx pre a rest pre₂ a₂ rest₂, NextAnswer n rx pre a rest →
      (a.data.get 0 = 0x03 → NextAnswer n rest pre₂ a₂ rest₂) →
      (UnmovedByForeign n rx ↔ (∀ m, some m ∈ pre → m.dlc ≠ 0 → m.data.get 1 ≠ n) ∧
        (a.data.get 0 = 0x03 → a₂.data.get 0 = 0x04 →
          ∀ m, some m ∈ pre₂ → m.dlc ≠ 0 → m.data.get 1 ≠ n)) := by
  refine ⟨fun v pre ack rest tx h => returnsVersion_iff h rest tx,
    fun rx pre a rest pre₂ a₂ rest₂ h h2 => ?_⟩
  rw [unmovedByForeign_iff_quiet h h2, canWait_quiet_iff, canWait_quiet_iff]

/-- The announcement of reader `00 00 00 19`, whose check byte is 1, then the acknowledgement of
reader `01 02 03 04` with version 9. -/
def announcementThenAck : List (Option CanRxMsg) :=
  [some ⟨#v[0xB3, 0, 0, 0, 0x19, 0x01, 0, 0], 8⟩, some ⟨#v[0xC2, 1, 2, 3, 4, 0x01, 0x09, 0], 8⟩]

theorem ackArrives_announcement : AckArrives 1 #v[1, 2, 3, 4] 0x09
    [some ⟨#v[0xB3, 0, 0, 0, 0x19, 0x01, 0, 0], 8⟩] ⟨#v[0xC2, 1, 2, 3, 4, 0x01, 0x09, 0], 8⟩ where
  early := by decide
  acknowledges := ⟨rfl, rfl, rfl, rfl, rfl, rfl⟩
  version := rfl
  length := rfl
  nonzero := by decide
  first m hm hack := by
    obtain rfl := Option.some.inj (List.mem_singleton.mp hm)
    exact absurd hack.1 (by decide)

/-- An insertion at reader 1: before it the announcement of another reader, and between
its halves the acknowledgement of an assignment, which has 1 in byte 1. -/
def insertionAmongForeign : List (Option CanRxMsg) :=
  [some ⟨#v[0xB3, 0, 0, 0, 0x19, 0x01, 0, 0], 8⟩,
    some ⟨#v[0x03, 1, 0xE1, 0xE2, 0xE3, 0xE4, 0, 0], 8⟩,
    some ⟨#v[0xC2, 1, 2, 3, 4, 0x05, 0x09, 0], 8⟩,
    some ⟨#v[0x04, 1, 0, 0x4E, 0x20, 7, 0x5B, 0], 8⟩]

theorem nextAnswer_part1 : NextAnswer 1 insertionAmongForeign (insertionAmongForeign.take 1)
    ⟨#v[0x03, 1, 0xE1, 0xE2, 0xE3, 0xE4, 0, 0], 8⟩ (insertionAmongForeign.drop 2) where
  results := rfl
  early := by decide
  first m hm _ := by
    obtain rfl := Option.some.inj (List.mem_singleton.mp hm)
    decide
  length := by decide
  answer := by decide

theorem nextAnswer_part2 : NextAnswer 1 (insertionAmongForeign.drop 2)
    ((insertionAmongForeign.drop 2).take 1) ⟨#v[0x04, 1, 0, 0x4E, 0x20, 7, 0x5B, 0], 8⟩ [] where
  results := rfl
  early := by decide
  first m hm _ := by
    obtain rfl := Option.some.inj (List.mem_singleton.mp hm)
    decide
  length := by decide
  answer := by decide

/-- Both parts: the announcement and the acknowledgement disturb. -/
theorem foreignFrames_harmless_iff_disturbed :
    (¬ ∃ bus, canWriteLogitADD 1 #v[1, 2, 3, 4] ⟨announcementThenAck, []⟩ = some (0x09, bus)) ∧
      ¬ UnmovedByForeign 1 insertionAmongForeign := by
  obtain ⟨hassign, hpoll⟩ := foreignFrames_harmless_iff 1 #v[1, 2, 3, 4]
  constructor
  · intro hret
    exact (hassign 0x09 _ _ [] [] ackArrives_announcement).mp hret _ List.mem_cons_self
      (by decide) rfl
  · intro hsame
    have hquiet := (hpoll _ _ _ _ _ _ _ nextAnswer_part1 fun _ => nextAnswer_part2).mp hsame
    exact hquiet.2 rfl rfl _ List.mem_cons_self (by decide) rfl

/-- An announcement of another reader makes the assignment fail. -/
theorem announcement_disturbs_assignment :
    ¬ ∀ v pre ack rest tx, AckArrives 1 #v[1, 2, 3, 4] v pre ack →
      ∃ bus, canWriteLogitADD 1 #v[1, 2, 3, 4] ⟨pre ++ some ack :: rest, tx⟩ = some (v, bus) := by
  intro h
  obtain ⟨bus, hbus⟩ := h 0x09 _ _ [] [] ackArrives_announcement
  have hret : (canWriteLogitADD 1 #v[1, 2, 3, 4] ⟨announcementThenAck, []⟩).map (fun out => out.1) =
      some 0x00 := by decide
  have hversion : (some ((0x09 : UInt8), bus)).map Prod.fst = some 0x00 := by
    rw [← hbus]
    exact hret
  have hzero : (0x09 : UInt8) = 0x00 := Option.some.inj hversion
  exact absurd hzero (by decide)

end YckjAcu
