import YckjAcu.Uplink

/-!
# The parts of the main loop as steps of their own

An iteration of `led_task` is a run of its parts.  A run of parts in any order
is more general than the loop; what the server replies do to collected events is
shown for these runs.
-/

namespace YckjAcu

open Writes

/-- The parts of one iteration, with the row they work on and what they take
from outside. -/
inductive LedOp
  | receive (rx : List (Option CanRxMsg))
  | broadcastCost
  | broadcastKey (fm1702Key : Vector UInt8 7) (fm1702KeyCRC : UInt8)
  | poll (no : ℕ) (tempBuff : Vector UInt8 10) (uBuff : Vector UInt8 8)
  | forward (n : ℕ) (postOk : Bool)
  | answer (server : Option (Vector UInt8 11))
  | advance
  | broadcastTimer

namespace LedState

def poll (no : ℕ) (tempBuff : Vector UInt8 10) (uBuff : Vector UInt8 8) (s : LedState) :
    Option LedState :=
  (readRunningData no tempBuff uBuff s.bus).map fun bus => { s with bus := bus }

/-- The forwarding of row `n`, whatever `Led_TaskCount` is. -/
def forwardRow (n : ℕ) (postOk : Bool) (s : LedState) : LedState :=
  { ({ s with vars.ledTaskCount := n } : LedState).forward postOk with vars := s.vars }

end LedState

def LedOp.step : LedOp → LedState → Option LedState
  | .receive rx, s => some (s.receive rx)
  | .broadcastCost, s => some s.broadcastCost
  | .broadcastKey fm1702Key fm1702KeyCRC, s => some (s.broadcastKey fm1702Key fm1702KeyCRC)
  | .poll no tempBuff uBuff, s => s.poll no tempBuff uBuff
  | .forward n postOk, s => some (s.forwardRow n postOk)
  | .answer server, s => s.answerServer server
  | .advance, s => some s.advance
  | .broadcastTimer, s => some s.broadcastTimer

def iterationOps (a : LedInput) (ledTaskCount : ℕ) : List LedOp :=
  [.receive a.rx, .broadcastCost, .broadcastKey a.fm1702Key a.fm1702KeyCRC] ++
    (if ledTaskCount < busnumSize then
      [.poll (ledTaskCount + 1) a.tempBuff a.uBuff, .forward ledTaskCount a.postOk] else []) ++
    [.answer a.server, .advance, .broadcastTimer]

theorem LedState.forward_vars (postOk : Bool) (s : LedState) :
    (s.forward postOk).vars = s.vars := by
  unfold forward
  dsimp only
  split_ifs <;> rfl

theorem LedState.forwardRow_self (postOk : Bool) (s : LedState) :
    s.forwardRow s.vars.ledTaskCount postOk = s.forward postOk := by
  have hvars := s.forward_vars postOk
  show { s.forward postOk with vars := s.vars } = s.forward postOk
  rw [← hvars]

/-- An iteration is the run of its parts. -/
theorem ledIteration_eq_run (a : LedInput) (s : LedState) :
    ledIteration a s = Runs.run LedOp.step s (iterationOps a s.vars.ledTaskCount) := by
  have hcount := (LedState.sameScan_atPoll a s).count
  rw [ledIteration, iterationOps, Runs.run_append, Runs.run_append]
  have hpoll : ∀ t : LedState, t.vars.ledTaskCount = s.vars.ledTaskCount →
      t.pollScan a = Runs.run LedOp.step t
        (if s.vars.ledTaskCount < busnumSize then
          [.poll (s.vars.ledTaskCount + 1) a.tempBuff a.uBuff,
           .forward s.vars.ledTaskCount a.postOk]
        else []) := by
    intro t ht
    rw [LedState.pollScan, ht]
    split_ifs with hlt
    · simp only [Runs.run_cons, Runs.run_nil, LedOp.step, LedState.poll]
      cases readRunningData (s.vars.ledTaskCount + 1) a.tempBuff a.uBuff t.bus with
      | none => rfl
      | some bus =>
          have hself := ({ t with bus := bus } : LedState).forwardRow_self a.postOk
          rw [ht] at hself
          exact congrArg some hself.symm
    · rfl
  rw [hpoll _ hcount]
  rfl

end YckjAcu
