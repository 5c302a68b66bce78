import YckjAcu.CanWait
import YckjAcu.Uplink

/-!
# What a poll brings

`Can_SendPBus_Com` by its result: which frames of the reader decided it and what
they leave in the buffer.  The first half of an insertion opens a second wait,
that of a removal does not.
-/

namespace YckjAcu

/-- The result of a poll, with the frames that it comes from. -/
inductive Exchange
  | silent
  | noData
  | whole (m1 m2 : CanRxMsg)
  | first (kind : EventKind) (m1 : CanRxMsg)
  | second (kind : EventKind) (m2 : CanRxMsg)
  | other (m : CanRxMsg)

namespace Exchange

/-- An answer that opens no second wait. -/
def ofSingle (m : CanRxMsg) : Exchange :=
  if m.data.get 0 = 0x02 then .noData
  else if m.data.get 0 = 0x05 then .first .removal m
  else if m.data.get 0 = 0x04 then .second .insertion m
  else if m.data.get 0 = 0x06 then .second .removal m
  else .other m

/-- The first half of an insertion, with the end of the second wait. -/
def ofPair (m1 : CanRxMsg) : Option CanRxMsg → Exchange
  | some m2 => if m2.data.get 0 = 0x04 then .whole m1 m2 else .first .insertion m1
  | none => .first .insertion m1

def ret : Exchange → UInt8
  | .noData => 0x02
  | .whole _ _ => 0xAA
  | .second _ _ => 0xAA
  | _ => 0x00

/-- What the poll leaves in the buffer. -/
def fill (uBuff : Vector UInt8 10) : Exchange → Vector UInt8 10
  | .whole m1 m2 => secondHalf m2.data (firstHalf 0x05 m1.data uBuff)
  | .first kind m1 => firstHalf kind.mark m1.data uBuff
  | .second _ m2 => secondHalf m2.data uBuff
  | _ => uBuff

end Exchange

/-- The poll of the reader `n` on the results `rx` is the exchange and leaves the
rest. -/
inductive Polled (n : UInt8) (rx : List (Option CanRxMsg)) :
    Exchange → List (Option CanRxMsg) → Prop
  | silent {rest} (h : EndsWith (canWait 1 n) (Vector.replicate 8 0) 10 rx none rest) :
      Polled n rx .silent rest
  | single {m rest} (h : EndsWith (canWait 1 n) (Vector.replicate 8 0) 10 rx (some m) rest)
      (h3 : m.data.get 0 ≠ 0x03) : Polled n rx (.ofSingle m) rest
  | pair {m1 rx1 r rest} (h : EndsWith (canWait 1 n) (Vector.replicate 8 0) 10 rx (some m1) rx1)
      (h3 : m1.data.get 0 = 0x03) (h2 : EndsWith (canWait 1 n) m1.data 10 rx1 r rest) :
      Polled n rx (.ofPair m1 r) rest

theorem Polled.unique {n : UInt8} {rx rest rest' : List (Option CanRxMsg)} {e e' : Exchange}
    (h : Polled n rx e rest) (h' : Polled n rx e' rest') : e = e' ∧ rest = rest' := by
  cases h with
  | silent h =>
      cases h' with
      | silent h' => exact ⟨rfl, (h.unique h').2⟩
      | single h' => exact absurd (h.unique h').1 (by simp)
      | pair h' => exact absurd (h.unique h').1 (by simp)
  | single h h3 =>
      cases h' with
      | silent h' => exact absurd (h.unique h').1 (by simp)
      | single h' =>
          obtain ⟨heq, rfl⟩ := h.unique h'
          cases heq
          exact ⟨rfl, rfl⟩
      | pair h' h3' =>
          cases (h.unique h').1
          exact absurd h3' h3
  | pair h h3 h2 =>
      cases h' with
      | silent h' => exact absurd (h.unique h').1 (by simp)
      | single h' h3' =>
          cases (h.unique h').1
          exact absurd h3 h3'
      | pair h' h3' h2' =>
          obtain ⟨heq, rfl⟩ := h.unique h'
          cases heq
          obtain ⟨rfl, rfl⟩ := h2.unique h2'
          exact ⟨rfl, rfl⟩

/-! ### The poll of the code -/

theorem pollAnswer_single {n : UInt8} {m : CanRxMsg} (uBuff : Vector UInt8 10) (bus : CanBus)
    (hdlc : m.dlc ≠ 0) (hn : m.data.get 1 = n) (h3 : m.data.get 0 ≠ 0x03) :
    pollAnswer n m.dlc m.data uBuff bus =
      some ((Exchange.ofSingle m).ret, (Exchange.ofSingle m).fill uBuff, bus) := by
  simp only [pollAnswer, Exchange.ofSingle, hdlc, hn, h3, ne_eq, not_false_eq_true, true_and,
    if_true, if_false]
  split_ifs with h2 h5 h4 h6
  · rfl
  · simp [receivePart2, receiveFor_of_res hdlc, h5, Exchange.ret, Exchange.fill, EventKind.mark]
  · rfl
  · rfl
  · rfl

theorem pollAnswer_pair {n : UInt8} {m : CanRxMsg} (uBuff : Vector UInt8 10) {bus : CanBus}
    {r : Option CanRxMsg} {rest : List (Option CanRxMsg)} (hdlc : m.dlc ≠ 0)
    (hn : m.data.get 1 = n) (h3 : m.data.get 0 = 0x03)
    (h : EndsWith (canWait 1 n) m.data 10 bus.rx r rest) :
    pollAnswer n m.dlc m.data uBuff bus =
      some ((Exchange.ofPair m r).ret, (Exchange.ofPair m r).fill uBuff,
        { bus with rx := rest }) := by
  obtain ⟨res, buf', hrecv, hr⟩ := h.receiveFor
  have hpart2 : pollAnswer n m.dlc m.data uBuff bus =
      receivePart2 0x04 n 0 m.data (firstHalf 0x05 m.data uBuff) bus := by
    simp [pollAnswer, hdlc, hn, h3]
  simp only [hpart2, receivePart2, hrecv, Option.bind_eq_bind, Option.bind_some]
  rcases hr with ⟨m2, rfl, hdlc2, hn2, rfl, rfl⟩ | ⟨rfl, rfl⟩
  · have hn2 : m2.data.get 1 = n := hn2
    by_cases h4 : m2.data.get 0 = 0x04
    · simp [Exchange.ofPair, hdlc2, hn2, h4, Exchange.ret, Exchange.fill]
    · simp [Exchange.ofPair, h4, Exchange.ret, Exchange.fill, EventKind.mark]
  · simp [Exchange.ofPair, Exchange.ret, Exchange.fill, EventKind.mark]

theorem canSendPBusCom_of_polled {n : UInt8} {e : Exchange} {rest : List (Option CanRxMsg)}
    (uBuff : Vector UInt8 10) (bus : CanBus) (h : Polled n bus.rx e rest) :
    canSendPBusCom n uBuff bus = some (e.ret, e.fill uBuff,
      ⟨rest, bus.tx ++ [canTxMsg #v[0x01, n, 0, 0, 0, 0, 0, 0]]⟩) := by
  cases h with
  | silent h =>
      obtain ⟨buf', hrecv⟩ := receiveFor_givesUp h
      rw [canSendPBusCom_of_receive hrecv]
      simp [pollAnswer, Exchange.ret, Exchange.fill]
  | single h h3 =>
      obtain ⟨_, _, _, hm, _⟩ := id h
      obtain ⟨hdlc, hn⟩ := (canWait_answers_some _).mp hm
      rw [canSendPBusCom_of_receive (receiveFor_answered h), pollAnswer_single _ _ hdlc hn h3]
  | pair h h3 h2 =>
      obtain ⟨_, _, _, hm, _⟩ := id h
      obtain ⟨hdlc, hn⟩ := (canWait_answers_some _).mp hm
      rw [canSendPBusCom_of_receive (receiveFor_answered h), pollAnswer_pair _ hdlc hn h3 h2]

theorem polled_of_canSendPBusCom {n : UInt8} {bus : CanBus} {uBuff : Vector UInt8 10}
    {out : UInt8 × Vector UInt8 10 × CanBus} (h : canSendPBusCom n uBuff bus = some out) :
    ∃ e rest, Polled n bus.rx e rest := by
  obtain ⟨⟨res, buf, rx1⟩, hrecv, hpoll⟩ := Option.bind_eq_some_iff.mp h
  rw [packageSend_rx] at hrecv
  obtain ⟨r, hend, hr⟩ := endsWith_of_receiveFor (by omega) hrecv
  rcases hr with ⟨m, rfl, hdlc, hn, rfl, rfl⟩ | ⟨rfl, -⟩
  · have hn : m.data.get 1 = n := hn
    by_cases h3 : m.data.get 0 = 0x03
    · simp only [pollAnswer, ne_eq, hdlc, not_false_eq_true, if_true, hn, h3, true_and] at hpoll
      rw [if_neg (by decide)] at hpoll
      obtain ⟨⟨res2, buf2, rx2⟩, hrecv2, -⟩ := Option.bind_eq_some_iff.mp hpoll
      obtain ⟨r2, hend2, -⟩ := endsWith_of_receiveFor (by omega) hrecv2
      exact ⟨_, _, .pair hend h3 hend2⟩
    · exact ⟨_, _, .single hend h3⟩
  · exact ⟨_, _, .silent hend⟩

/-- The code computes what the exchange says. -/
theorem canSendPBusCom_eq_some_iff {n ret : UInt8} {bus bus' : CanBus}
    {uBuff uBuff' : Vector UInt8 10} :
    canSendPBusCom n uBuff bus = some (ret, uBuff', bus') ↔
      ∃ e, Polled n bus.rx e bus'.rx ∧ ret = e.ret ∧ uBuff' = e.fill uBuff ∧
        bus'.tx = bus.tx ++ [canTxMsg #v[0x01, n, 0, 0, 0, 0, 0, 0]] := by
  constructor
  · intro h
    obtain ⟨e, rest, he⟩ := polled_of_canSendPBusCom h
    rw [canSendPBusCom_of_polled uBuff _ he] at h
    cases h
    exact ⟨e, he, rfl, rfl, rfl⟩
  · rintro ⟨e, he, rfl, rfl, htx⟩
    rw [canSendPBusCom_of_polled uBuff _ he, ← htx]

end YckjAcu
