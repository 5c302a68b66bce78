import YckjAcu.PollExchange

/-!
# Which halves a call of `ReadRunningData` puts together

The event that two polls collect has a second half, which came last, and a first
half, if one was kept.  It is one event when the first half is there and of the
same kind.
-/

namespace YckjAcu

/-! ### The frames of a reader -/

/-- The frames with the address `n` among the results. -/
def framesOf (n : UInt8) (rx : List (Option CanRxMsg)) : List CanRxMsg :=
  rx.reduceOption.filter fun m => m.dlc ≠ 0 ∧ m.data.get 1 = n

theorem framesOf_append (n : UInt8) (xs ys : List (Option CanRxMsg)) :
    framesOf n (xs ++ ys) = framesOf n xs ++ framesOf n ys := by
  simp [framesOf, List.reduceOption_append]

theorem answers_of_mem_framesOf {n : UInt8} {rx : List (Option CanRxMsg)} {m : CanRxMsg}
    (h : m ∈ framesOf n rx) : m.dlc ≠ 0 ∧ m.data.get 1 = n := by
  simpa using (List.mem_filter.mp h).2

theorem framesOf_quiet {n : UInt8} {rx : List (Option CanRxMsg)} (h : (canWait 1 n).Quiet rx) :
    framesOf n rx = [] := by
  apply List.filter_eq_nil_iff.mpr
  intro m hm hans
  have hquiet := h (some m) (List.reduceOption_mem_iff.mp hm)
  have hanswers : m.dlc ≠ 0 ∧ m.data.get 1 = n := by simpa using hans
  exact Bool.false_ne_true (hquiet.symm.trans ((canWait_answers_some m).mpr hanswers))

theorem framesOf_some {n : UInt8} {m : CanRxMsg} (hdlc : m.dlc ≠ 0) (hn : m.data.get 1 = n) :
    framesOf n [some m] = [m] := by
  simp [framesOf, List.reduceOption, hdlc, hn]

/-- A wait takes no frame of the reader but its answer. -/
theorem EndsWith.framesOf {n : UInt8} {buf : Vector UInt8 8} {k : ℕ}
    {rx rest : List (Option CanRxMsg)} {r : Option CanRxMsg}
    (h : EndsWith (canWait 1 n) buf k rx r rest) :
    ∃ c, rx = c ++ rest ∧ YckjAcu.framesOf n c = r.toList := by
  obtain ⟨pre, hquiet, hrx⟩ := h.consumed
  refine ⟨pre ++ r.toList.map some, hrx, ?_⟩
  rw [framesOf_append, framesOf_quiet hquiet, List.nil_append]
  cases r with
  | none => rfl
  | some m =>
      obtain ⟨_, _, _, hm, _⟩ := id h
      obtain ⟨hdlc, hn⟩ := (canWait_answers_some m).mp hm
      exact framesOf_some hdlc hn

namespace Exchange

/-- The first half that the poll leaves in the buffer. -/
def part1 : Exchange → Option (EventKind × CanRxMsg)
  | .whole m1 _ => some (.insertion, m1)
  | .first kind m1 => some (kind, m1)
  | _ => none

/-- The second half with which the poll succeeds. -/
def part2 : Exchange → Option (EventKind × CanRxMsg)
  | .whole _ m2 => some (.insertion, m2)
  | .second kind m2 => some (kind, m2)
  | _ => none

/-- The frames of the reader that belong to the exchange. -/
def Brought : Exchange → List CanRxMsg → Prop
  | .silent, l => l = []
  | .noData, l => ∃ m, l = [m] ∧ m.data.get 0 = 0x02
  | .whole m1 m2, l => l = [m1, m2] ∧ m1.data.get 0 = 0x03 ∧ m2.data.get 0 = 0x04
  | .first .insertion m1, l =>
      m1.data.get 0 = 0x03 ∧ (l = [m1] ∨ ∃ m2, l = [m1, m2] ∧ m2.data.get 0 ≠ 0x04)
  | .first .removal m1, l => l = [m1] ∧ m1.data.get 0 = 0x05
  | .second kind m2, l => l = [m2] ∧ m2.data.get 0 = kind.part2
  | .other m, l => l = [m] ∧ m.data.get 0 ∉ [0x02, 0x03, 0x04, 0x05, 0x06]

theorem brought_ofSingle {m : CanRxMsg} (h3 : m.data.get 0 ≠ 0x03) : (ofSingle m).Brought [m] := by
  unfold ofSingle
  split_ifs with h2 h5 h4 h6
  · exact ⟨m, rfl, h2⟩
  · exact ⟨rfl, h5⟩
  · exact ⟨rfl, h4⟩
  · exact ⟨rfl, h6⟩
  · exact ⟨rfl, by simp [h2, h3, h4, h5, h6]⟩

theorem brought_ofPair {m1 : CanRxMsg} (h3 : m1.data.get 0 = 0x03) (r : Option CanRxMsg) :
    (ofPair m1 r).Brought (m1 :: r.toList) := by
  cases r with
  | none => exact ⟨h3, Or.inl rfl⟩
  | some m2 =>
      by_cases h4 : m2.data.get 0 = 0x04
      · simp [ofPair, h4, Brought, h3]
      · simp [ofPair, h4, Brought, h3]

end Exchange

theorem Polled.brought {n : UInt8} {rx rest : List (Option CanRxMsg)} {e : Exchange}
    (h : Polled n rx e rest) : ∃ c, rx = c ++ rest ∧ e.Brought (framesOf n c) := by
  cases h with
  | silent h =>
      obtain ⟨c, hrx, hc⟩ := h.framesOf
      exact ⟨c, hrx, hc⟩
  | single h h3 =>
      obtain ⟨c, hrx, hc⟩ := h.framesOf
      refine ⟨c, hrx, ?_⟩
      rw [hc]
      exact Exchange.brought_ofSingle h3
  | pair h h3 h2 =>
      obtain ⟨c, rfl, hc⟩ := h.framesOf
      obtain ⟨c2, rfl, hc2⟩ := h2.framesOf
      refine ⟨c ++ c2, by simp, ?_⟩
      rw [framesOf_append, hc, hc2]
      exact Exchange.brought_ofPair h3 _

/-! ### Two polls -/

/-- The halves of the event that one or two polls of the reader `n` collect. -/
inductive Collects (n : UInt8) (rx : List (Option CanRxMsg)) :
    Option (EventKind × CanRxMsg) → EventKind × CanRxMsg → List (Option CanRxMsg) → Prop
  | once {e rest second} (h : Polled n rx e rest) (h2 : e.part2 = some second) :
      Collects n rx e.part1 second rest
  | twice {e rx1 e' rest second} (h : Polled n rx e rx1) (h0 : e.ret = 0x00)
      (h' : Polled n rx1 e' rest) (h2 : e'.part2 = some second) :
      Collects n rx (e'.part1.or e.part1) second rest

def fillHalves (first : Option (EventKind × CanRxMsg)) (second : EventKind × CanRxMsg)
    (tempBuff : Vector UInt8 10) : Vector UInt8 10 :=
  secondHalf second.2.data
    (first.elim tempBuff fun half => firstHalf half.1.mark half.2.data tempBuff)

namespace Exchange

theorem fill_of_part2 {e : Exchange} {second : EventKind × CanRxMsg} (h : e.part2 = some second)
    (tempBuff : Vector UInt8 10) : e.fill tempBuff = fillHalves e.part1 second tempBuff := by
  cases e <;> cases h <;> rfl

theorem fill_fill {e e' : Exchange} {second : EventKind × CanRxMsg} (h0 : e.ret = 0x00)
    (h : e'.part2 = some second) (tempBuff : Vector UInt8 10) :
    e'.fill (e.fill tempBuff) = fillHalves (e'.part1.or e.part1) second tempBuff := by
  rw [fill_of_part2 h]
  cases e' with
  | whole m1 m2 => rfl
  | second kind m2 =>
      cases e with
      | silent => rfl
      | first kind' m1 => rfl
      | other m => rfl
      | noData => cases h0
      | whole m1 m2' => cases h0
      | second kind' m2' => rfl
  | silent => cases h
  | noData => cases h
  | first kind m1 => cases h
  | other m => cases h

theorem ret_of_part2 {e : Exchange} {second : EventKind × CanRxMsg} (h : e.part2 = some second) :
    e.ret = 0xAA := by
  cases e <;> cases h <;> rfl

theorem exists_part2 {e : Exchange} (h : e.ret = 0xAA) : ∃ second, e.part2 = some second := by
  cases e with
  | whole m1 m2 => exact ⟨_, rfl⟩
  | second kind m2 => exact ⟨_, rfl⟩
  | silent => cases h
  | noData => cases h
  | first kind m1 => cases h
  | other m => cases h

end Exchange

theorem collects_of_pollTwice {no : ℕ} {tempBuff temp : Vector UInt8 10} {can can' : CanBus}
    (h : pollTwice no tempBuff can = some (0xAA, temp, can')) :
    ∃ first second, Collects (UInt8.ofNat no) can.rx first second can'.rx ∧
      temp = fillHalves first second tempBuff := by
  obtain ⟨⟨ret, temp1, can1⟩, hfirst, h⟩ := Option.bind_eq_some_iff.mp h
  obtain ⟨e, he, rfl, rfl, -⟩ := canSendPBusCom_eq_some_iff.mp hfirst
  dsimp only at h
  split_ifs at h with h0
  · obtain ⟨e', he', hret, rfl, -⟩ := canSendPBusCom_eq_some_iff.mp h
    obtain ⟨second, hsecond⟩ := Exchange.exists_part2 hret.symm
    exact ⟨_, second, .twice he h0 he' hsecond, Exchange.fill_fill h0 hsecond tempBuff⟩
  · simp only [Option.pure_def, Option.some.injEq, Prod.mk.injEq] at h
    obtain ⟨hret, rfl, rfl⟩ := h
    obtain ⟨second, hsecond⟩ := Exchange.exists_part2 hret
    exact ⟨_, second, .once he hsecond, Exchange.fill_of_part2 hsecond tempBuff⟩

theorem pollTwice_of_collects {no : ℕ} {first : Option (EventKind × CanRxMsg)}
    {second : EventKind × CanRxMsg} {rest : List (Option CanRxMsg)} (can : CanBus)
    (tempBuff : Vector UInt8 10)
    (h : Collects (UInt8.ofNat no) can.rx first second rest) :
    ∃ tx, pollTwice no tempBuff can =
      some (0xAA, fillHalves first second tempBuff, ⟨rest, tx⟩) := by
  cases h with
  | once h h2 =>
      have hfirst := canSendPBusCom_of_polled tempBuff can h
      rw [Exchange.ret_of_part2 h2, Exchange.fill_of_part2 h2] at hfirst
      rw [pollTwice, hfirst]
      exact ⟨_, rfl⟩
  | @twice e rx1 e' _ _ h h0 h' h2 =>
      have hfirst := canSendPBusCom_of_polled tempBuff can h
      have hsecond := fun tx => canSendPBusCom_of_polled (e.fill tempBuff) ⟨rx1, tx⟩ h'
      rw [h0] at hfirst
      rw [pollTwice, hfirst]
      simp only [Option.bind_eq_bind, Option.bind_some, if_true, hsecond,
        Exchange.ret_of_part2 h2, Exchange.fill_fill h0 h2]
      exact ⟨_, rfl⟩

/-- How the halves lie among the frames of the reader that the polls consume. -/
structure Halves (first : Option (EventKind × CanRxMsg)) (second : EventKind × CanRxMsg)
    (l : List CanRxMsg) : Prop where
  part2 : second.2.data.get 0 = second.1.part2
  none : first = none → ∀ m ∈ l, ∀ kind : EventKind, m.data.get 0 ≠ kind.part1
  part1 : ∀ half, first = some half →
    half.2.data.get 0 = half.1.part1 ∧ [half.2, second.2].Sublist l
  mixed : ∀ half, first = some half → second.1 ≠ half.1 →
    ∀ m ∈ l, m.data.get 0 ≠ half.1.part2

/-- The halves with what comes between them. -/
theorem Halves.of_first_between {kind kind' : EventKind} {m1 m2 : CanRxMsg}
    (hm1 : m1.data.get 0 = kind.part1) (hm2 : m2.data.get 0 = kind'.part2) (l : List CanRxMsg)
    (hl : ∀ m ∈ l, m.data.get 0 ≠ kind.part2) :
    Halves (some (kind, m1)) (kind', m2) (m1 :: (l ++ [m2])) := by
  refine ⟨hm2, fun h => absurd h (Option.some_ne_none _), ?_, ?_⟩
  · rintro half ⟨⟩
    exact ⟨hm1, (List.sublist_append_right l [m2]).cons_cons m1⟩
  · rintro half ⟨⟩ hne m hm
    rcases List.mem_cons.mp hm with rfl | hm
    · rw [hm1]
      show kind.part1 ≠ kind.part2
      cases kind <;> decide
    · rcases List.mem_append.mp hm with hm | hm
      · exact hl m hm
      · rw [List.mem_singleton.mp hm, hm2]
        intro heq
        cases kind <;> cases kind' <;> first | exact hne rfl | cases heq

theorem Exchange.Brought.halves {e : Exchange} {second : EventKind × CanRxMsg}
    {l : List CanRxMsg} (h : e.Brought l) (h2 : e.part2 = some second) :
    Halves e.part1 second l := by
  cases e with
  | whole m1 m2 =>
      cases h2
      obtain ⟨rfl, h3, h4⟩ := h
      refine ⟨h4, fun h => absurd h (Option.some_ne_none _), ?_, ?_⟩
      · rintro half ⟨⟩
        exact ⟨h3, List.Sublist.refl _⟩
      · rintro half ⟨⟩ hne
        exact absurd rfl hne
  | second kind m2 =>
      cases h2
      obtain ⟨rfl, h0⟩ := h
      refine ⟨h0, ?_, fun _ h => absurd h.symm (Option.some_ne_none _),
        fun _ h => absurd h.symm (Option.some_ne_none _)⟩
      rintro - m hm kind'
      rw [List.mem_singleton.mp hm, h0]
      cases kind <;> cases kind' <;> decide
  | silent => cases h2
  | noData => cases h2
  | first kind m1 => cases h2
  | other m => cases h2

theorem Exchange.Brought.halves_or {e e' : Exchange} {second : EventKind × CanRxMsg}
    {l l' : List CanRxMsg} (h : e.Brought l) (h0 : e.ret = 0x00) (h' : e'.Brought l')
    (h2 : e'.part2 = some second) : Halves (e'.part1.or e.part1) second (l ++ l') := by
  cases e' with
  | whole m1 m2 =>
      have hwhole := h'.halves h2
      cases h2
      refine ⟨hwhole.part2, fun h => absurd h (Option.some_ne_none _), ?_, ?_⟩
      · rintro half ⟨⟩
        exact ⟨(hwhole.part1 _ rfl).1, (hwhole.part1 _ rfl).2.trans (List.sublist_append_right _ _)⟩
      · rintro half ⟨⟩ hne
        exact absurd rfl hne
  | second kind m2 =>
      have hsecond := h'.halves h2
      cases h2
      obtain ⟨rfl, hm2⟩ := h'
      cases e with
      | silent =>
          cases h
          exact hsecond
      | other m =>
          obtain ⟨rfl, hm⟩ := h
          refine ⟨hm2, ?_, fun _ h => absurd h.symm (Option.some_ne_none _),
            fun _ h => absurd h.symm (Option.some_ne_none _)⟩
          rintro - m' hm' kind'
          rcases List.mem_append.mp hm' with hm' | hm'
          · rw [List.mem_singleton.mp hm']
            rintro heq
            rw [heq] at hm
            cases kind' <;> exact hm (by decide)
          · exact hsecond.none rfl m' hm' kind'
      | first kind' m1 =>
          cases kind' with
          | insertion =>
              obtain ⟨hm1, rfl | ⟨m', rfl, hm'⟩⟩ := h
              · exact Halves.of_first_between hm1 hm2 [] fun _ h => absurd h List.not_mem_nil
              · refine Halves.of_first_between hm1 hm2 [m'] fun m hm => ?_
                rw [List.mem_singleton.mp hm]
                exact hm'
          | removal =>
              obtain ⟨rfl, hm1⟩ := h
              exact Halves.of_first_between hm1 hm2 [] fun _ h => absurd h List.not_mem_nil
      | noData => cases h0
      | whole m1 m2' => cases h0
      | second kind' m2' => cases h0
  | silent => cases h2
  | noData => cases h2
  | first kind m1 => cases h2
  | other m => cases h2

theorem Collects.halves {n : UInt8} {rx rest : List (Option CanRxMsg)}
    {first : Option (EventKind × CanRxMsg)} {second : EventKind × CanRxMsg}
    (h : Collects n rx first second rest) :
    ∃ c, rx = c ++ rest ∧ Halves first second (framesOf n c) := by
  cases h with
  | once h h2 =>
      obtain ⟨c, hrx, hc⟩ := h.brought
      exact ⟨c, hrx, hc.halves h2⟩
  | twice h h0 h' h2 =>
      obtain ⟨c, rfl, hc⟩ := h.brought
      obtain ⟨c', rfl, hc'⟩ := h'.brought
      refine ⟨c ++ c', by simp, ?_⟩
      rw [framesOf_append]
      exact hc.halves_or h0 hc' h2

theorem Collects.unique {n : UInt8} {rx rest rest' : List (Option CanRxMsg)}
    {first first' : Option (EventKind × CanRxMsg)} {second second' : EventKind × CanRxMsg}
    (h : Collects n rx first second rest) (h' : Collects n rx first' second' rest') :
    first = first' ∧ second = second' ∧ rest = rest' := by
  have hclash : ∀ {e : Exchange} {s : EventKind × CanRxMsg}, e.ret = 0x00 → e.part2 ≠ some s := by
    intro e s h0 h2
    rw [Exchange.ret_of_part2 h2] at h0
    cases h0
  cases h with
  | once h h2 =>
      cases h' with
      | once h' h2' =>
          obtain ⟨rfl, rfl⟩ := h.unique h'
          exact ⟨rfl, Option.some.inj (h2.symm.trans h2'), rfl⟩
      | twice h' h0' _ _ =>
          obtain ⟨rfl, -⟩ := h.unique h'
          exact absurd h2 (hclash h0')
  | twice h h0 hb h2 =>
      cases h' with
      | once h' h2' =>
          obtain ⟨rfl, -⟩ := h.unique h'
          exact absurd h2' (hclash h0)
      | twice h' _ hb' h2' =>
          obtain ⟨rfl, rfl⟩ := h.unique h'
          obtain ⟨rfl, rfl⟩ := hb.unique hb'
          exact ⟨rfl, Option.some.inj (h2.symm.trans h2'), rfl⟩

/-! ### The stored event -/

theorem vector_eight (v : Vector UInt8 8) :
    v = #v[v.get 0, v.get 1, v.get 2, v.get 3, v.get 4, v.get 5, v.get 6, v.get 7] := by
  apply Buffers.ext_get
  intro i
  fin_cases i <;> rfl

namespace CardEvent

def ofHalves (kind : EventKind) (m1 m2 : CanRxMsg) : CardEvent where
  kind := kind
  card := #v[m1.data.get 2, m1.data.get 3, m1.data.get 4, m1.data.get 5]
  amount := #v[m2.data.get 2, m2.data.get 3, m2.data.get 4]
  check := m2.data.get 5
  code := m2.data.get 6

theorem isPart1_ofHalves {kind : EventKind} {n : UInt8} {m1 : CanRxMsg} (m2 : CanRxMsg)
    (hdlc : m1.dlc ≠ 0) (h0 : m1.data.get 0 = kind.part1) (hn : m1.data.get 1 = n) :
    (ofHalves kind m1 m2).IsPart1 n m1 := by
  refine ⟨hdlc, m1.data.get 6, m1.data.get 7, ?_⟩
  rw [vector_eight m1.data, h0, hn]
  rfl

theorem isPart2_ofHalves {kind : EventKind} {n : UInt8} (m1 : CanRxMsg) {m2 : CanRxMsg}
    (hdlc : m2.dlc ≠ 0) (h0 : m2.data.get 0 = kind.part2) (hn : m2.data.get 1 = n) :
    (ofHalves kind m1 m2).IsPart2 n m2 := by
  refine ⟨hdlc, m2.data.get 7, ?_⟩
  rw [vector_eight m2.data, h0, hn]
  rfl

theorem fillHalves_eq (kind kind' : EventKind) (m1 m2 : CanRxMsg) (tempBuff : Vector UInt8 10) :
    fillHalves (some (kind, m1)) (kind', m2) tempBuff = (ofHalves kind m1 m2).collected := rfl

def enter (ev : CardEvent) (r : Row) : Row :=
  #v[r.get 0 ||| ev.kind.bit, r.get 1, r.get 2, r.get 3, r.get 4, ev.card.get 0, ev.card.get 1,
    ev.card.get 2, ev.card.get 3, ev.amount.get 0, ev.amount.get 1, ev.amount.get 2, ev.check,
    ev.code]

theorem eventRow_collected (ev : CardEvent) (r : Row) : eventRow ev.collected r = ev.enter r := by
  obtain ⟨kind, card, amount, check, code⟩ := ev
  cases kind <;> rfl

end CardEvent

/-- The row holds the two halves of one event of reader `no`, both received during
the call, the first half before the second. -/
def Untorn (no : ℕ) (s t : PowerBus) : Prop :=
  ∃ (ev : CardEvent) (m1 m2 : CanRxMsg) (c : List (Option CanRxMsg)),
    s.can.rx = c ++ t.can.rx ∧ [m1, m2].Sublist c.reduceOption ∧
    ev.IsPart1 (UInt8.ofNat no) m1 ∧ ev.IsPart2 (UInt8.ofNat no) m2 ∧
    t.g_RUNDate no = ev.enter (dropUnnumbered no s.g_RUNDate no)

/-- The call of `ReadRunningData` stores an event. -/
def StoresEvent (no : ℕ) (tempBuff : Vector UInt8 10) (s : PowerBus) : Prop :=
  (s.g_RUNDate no).InUse ∧ ∃ temp can, pollTwice no tempBuff s.can = some (0xAA, temp, can)

/-- Whatever the polls of the reader `n` collect from the results has a first half
and a second half of the same kind. -/
def CollectsWhole (n : UInt8) (rx : List (Option CanRxMsg)) : Prop :=
  ∀ first second rest, Collects n rx first second rest → ∃ m1, first = some (second.1, m1)

theorem storeAnswer_event (no : ℕ) (uBuff : Vector UInt8 8) (s : PowerBus)
    (temp : Vector UInt8 10) (can : CanBus) :
    (storeAnswer no uBuff s (0xAA, temp, can)).g_RUNDate no = eventRow temp (s.g_RUNDate no) ∧
      (storeAnswer no uBuff s (0xAA, temp, can)).can.rx = can.rx :=
  ⟨Function.update_self _ _ _, rfl⟩

theorem readRunningData_of_poll {no : ℕ} {tempBuff : Vector UInt8 10} {s : PowerBus}
    {answer : UInt8 × Vector UInt8 10 × CanBus} (huse : (s.g_RUNDate no).InUse)
    (hpoll : pollTwice no tempBuff s.can = some answer) (uBuff : Vector UInt8 8) :
    readRunningData no tempBuff uBuff s = some
      (storeAnswer no uBuff { s with g_RUNDate := dropUnnumbered no s.g_RUNDate } answer) := by
  rw [readRunningData, if_pos huse, hpoll]
  rfl

/-- A call that stores an event has its halves from the polls. -/
theorem readRunningData_stores {no : ℕ} {tempBuff : Vector UInt8 10} {uBuff : Vector UInt8 8}
    {s t : PowerBus} (hstore : StoresEvent no tempBuff s)
    (h : readRunningData no tempBuff uBuff s = some t) :
    ∃ first second, Collects (UInt8.ofNat no) s.can.rx first second t.can.rx ∧
      t.g_RUNDate no =
        eventRow (fillHalves first second tempBuff) (dropUnnumbered no s.g_RUNDate no) := by
  obtain ⟨huse, temp, can, hpoll⟩ := hstore
  obtain ⟨first, second, hcollects, rfl⟩ := collects_of_pollTwice hpoll
  rw [readRunningData_of_poll huse hpoll] at h
  obtain rfl := Option.some.inj h
  obtain ⟨hrow, hrx⟩ := storeAnswer_event no uBuff
    { s with g_RUNDate := dropUnnumbered no s.g_RUNDate } (fillHalves first second tempBuff) can
  rw [← hrx] at hcollects
  exact ⟨first, second, hcollects, hrow⟩

theorem untorn_of_whole {no : ℕ} {tempBuff : Vector UInt8 10} {uBuff : Vector UInt8 8}
    {s t : PowerBus} (hwhole : CollectsWhole (UInt8.ofNat no) s.can.rx)
    (hstore : StoresEvent no tempBuff s) (h : readRunningData no tempBuff uBuff s = some t) :
    Untorn no s t := by
  obtain ⟨first, ⟨kind, m2⟩, hcollects, hrow⟩ := readRunningData_stores hstore h
  obtain ⟨m1, rfl⟩ := hwhole _ _ _ hcollects
  obtain ⟨c, hrx, hhalves⟩ := hcollects.halves
  obtain ⟨h1, hsub⟩ := hhalves.part1 _ rfl
  have hmem := fun m (hm : m ∈ [m1, m2]) => answers_of_mem_framesOf (hsub.subset hm)
  obtain ⟨hdlc1, hn1⟩ := hmem m1 (by simp)
  obtain ⟨hdlc2, hn2⟩ := hmem m2 (by simp)
  refine ⟨.ofHalves kind m1 m2, m1, m2, c, hrx, hsub.trans List.filter_sublist,
    CardEvent.isPart1_ofHalves m2 hdlc1 h1 hn1,
    CardEvent.isPart2_ofHalves m1 hdlc2 hhalves.part2 hn2, ?_⟩
  rw [hrow, CardEvent.fillHalves_eq, CardEvent.eventRow_collected]

theorem sublist_framesOf {n : UInt8} {m1 m2 : CanRxMsg} {c : List (Option CanRxMsg)}
    (h : [m1, m2].Sublist c.reduceOption) (h1 : m1.dlc ≠ 0 ∧ m1.data.get 1 = n)
    (h2 : m2.dlc ≠ 0 ∧ m2.data.get 1 = n) : [m1, m2].Sublist (framesOf n c) := by
  have hfilter := h.filter fun m => m.dlc ≠ 0 ∧ m.data.get 1 = n
  simpa [framesOf, h1, h2] using hfilter

theorem CardEvent.IsPart1.answers {ev : CardEvent} {n : UInt8} {m : CanRxMsg}
    (h : ev.IsPart1 n m) : (m.dlc ≠ 0 ∧ m.data.get 1 = n) ∧ m.data.get 0 = ev.kind.part1 := by
  obtain ⟨hdlc, x, y, hdata⟩ := h
  rw [hdata]
  exact ⟨⟨hdlc, rfl⟩, rfl⟩

theorem CardEvent.IsPart2.answers {ev : CardEvent} {n : UInt8} {m : CanRxMsg}
    (h : ev.IsPart2 n m) : (m.dlc ≠ 0 ∧ m.data.get 1 = n) ∧ m.data.get 0 = ev.kind.part2 := by
  obtain ⟨hdlc, x, hdata⟩ := h
  rw [hdata]
  exact ⟨⟨hdlc, rfl⟩, rfl⟩

theorem bit_injective {kind kind' : EventKind}
    (h : (0x80 : UInt8) ||| kind.bit = 0x80 ||| kind'.bit) : kind = kind' := by
  cases kind <;> cases kind' <;> first | rfl | exact absurd h (by decide)

/-- The readers that are all in use, with nothing pending. -/
def busyTable : RunTable := fun _ => #v[0x80, 1, 1, 1, 1, 0, 0, 0, 0, 0, 0, 0, 0, 0]

theorem busyTable_inUse (no : ℕ) : (busyTable no).InUse :=
  show (0x80 : UInt8) &&& 0x80 = 0x80 from rfl

/-- Whatever is in the buffers and the table, the event that the results make the
call store is untorn exactly when the polls collect both halves of one kind. -/
theorem events_untorn_iff (no : ℕ) (tempBuff : Vector UInt8 10) (rx : List (Option CanRxMsg)) :
    (∀ (s t : PowerBus) (uBuff : Vector UInt8 8), s.can.rx = rx → StoresEvent no tempBuff s →
      readRunningData no tempBuff uBuff s = some t → Untorn no s t) ↔
      CollectsWhole (UInt8.ofNat no) rx := by
  constructor
  · intro hall first second rest hcollects
    -- the table has status 0x80 everywhere, so the bit that is set shows the kind
    obtain ⟨tx, hpoll⟩ := pollTwice_of_collects ⟨rx, []⟩ tempBuff hcollects
    have huse : (busyTable no).InUse := busyTable_inUse no
    have hread := readRunningData_of_poll (s := ⟨busyTable, ⟨rx, []⟩, 0, 0⟩) huse hpoll
      (Vector.replicate 8 0)
    have hdrop : dropUnnumbered no busyTable no = busyTable no := rfl
    obtain ⟨hrow, hrest⟩ := storeAnswer_event no (Vector.replicate 8 0)
      ⟨dropUnnumbered no busyTable, ⟨rx, []⟩, 0, 0⟩ (fillHalves first second tempBuff) ⟨rest, tx⟩
    obtain ⟨ev, m1, m2, c, hrx, hsub, h1, h2, henter⟩ :=
      hall _ _ _ rfl ⟨huse, _, _, hpoll⟩ hread
    obtain ⟨c', hrx', hhalves⟩ := hcollects.halves
    rw [hrest, hrx'] at hrx
    obtain rfl := List.append_cancel_right hrx
    have hframes := sublist_framesOf hsub h1.answers.1 h2.answers.1
    cases first with
    | none =>
        exact absurd h1.answers.2 (hhalves.none rfl m1 (hframes.subset (by simp)) ev.kind)
    | some half =>
        obtain ⟨kind, m1'⟩ := half
        have hkind : kind = ev.kind := by
          have hstatus := congrArg (fun r : Row => r.get 0) (hrow.symm.trans henter)
          rw [hdrop, CardEvent.fillHalves_eq _ second.1 _ second.2,
            CardEvent.eventRow_collected] at hstatus
          exact bit_injective hstatus
        by_cases hsecond : second.1 = kind
        · exact ⟨m1', by rw [hsecond]⟩
        · exact absurd (hkind ▸ h2.answers.2)
            (hhalves.mixed _ rfl hsecond m2 (hframes.subset (by simp)))
  · intro hwhole s t uBuff hrx hstore h
    exact untorn_of_whole (hrx ▸ hwhole) hstore h

/-- The second half of an insertion at reader 1. -/
def lonePart2 : List (Option CanRxMsg) :=
  [some ⟨#v[0x04, 0x01, 0x00, 0x10, 0x00, 0x77, 0x42, 0], 8⟩]

/-- A second half alone is stored as an event. -/
theorem lone_part2_torn : ¬ ∀ (s t : PowerBus) (uBuff : Vector UInt8 8), s.can.rx = lonePart2 →
    StoresEvent 1 (Vector.replicate 10 0) s →
    readRunningData 1 (Vector.replicate 10 0) uBuff s = some t → Untorn 1 s t := by
  intro h
  have hpoll : pollTwice 1 (Vector.replicate 10 0) ⟨lonePart2, []⟩ =
      some (0xAA, #v[0, 0, 0, 0, 0, 0x00, 0x10, 0x00, 0x77, 0x42],
        ⟨[], [canTxMsg #v[0x01, 0x01, 0, 0, 0, 0, 0, 0]]⟩) := by decide
  have huse := busyTable_inUse 1
  have hread := readRunningData_of_poll (s := ⟨busyTable, ⟨lonePart2, []⟩, 0, 0⟩) huse hpoll
    (Vector.replicate 8 0)
  obtain ⟨ev, m1, m2, c, hrx, hsub, -⟩ := h _ _ _ rfl ⟨huse, _, _, hpoll⟩ hread
  have hlen := hsub.length_le.trans (List.reduceOption_length_le c)
  have hc := congrArg List.length hrx
  rw [List.length_append] at hc
  simp only [List.length_cons, List.length_nil, lonePart2] at hlen hc
  omega

end YckjAcu
