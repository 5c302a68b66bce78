import YckjAcu.Lib.Buffers
import YckjAcu.Lib.TwoWire
import Mathlib.Tactic.SplitIfs

/-!
# A serial memory of four blocks on the two-wire bus

The device byte is `1010 0 b b r`: two bits for the block of 256 bytes and the
direction.  A write sets the address counter by its word byte and latches what
follows; the stop programs it and leaves the chip busy.  A read sends from the
counter on.  Chips differ in whether the device byte of a read sets the block
as well; `keepsBlock` says that it does not.
-/

namespace SerialEeprom

open TwoWire

/-- What the byte being received stands for. -/
inductive Role where
  | select
  | word
  | data
deriving DecidableEq, Repr

/-- `ack` pulls the line low for a received byte, `put` shows a bit of a byte
being sent, and `listen` takes the answer to such a byte. -/
inductive Phase where
  | standby
  | shift (role : Role) (bits : List Bool)
  | ack (role : Role) (byte : UInt8)
  | put (bit : Bool) (rest : List Bool)
  | listen (answer : Option Bool)
deriving DecidableEq, Repr

structure Chip where
  phase : Phase
  mem : Fin 1024 → UInt8
  counter : ℕ
  latch : List (ℕ × UInt8)
  busy : Bool

def program (mem : Fin 1024 → UInt8) (latch : List (ℕ × UInt8)) : Fin 1024 → UInt8 :=
  latch.foldl (fun m w => Function.update m (Fin.ofNat 1024 w.1) w.2) mem

def Selects (byte : UInt8) : Prop := byte &&& 0xF8 = 0xA0

instance (byte : UInt8) : Decidable (Selects byte) :=
  inferInstanceAs (Decidable (byte &&& 0xF8 = 0xA0))

def withBlock (byte : UInt8) (counter : ℕ) : ℕ := byte.toNat / 2 % 4 * 256 + counter % 256

namespace Chip

def goto (phase : Phase) (c : Chip) : Chip := { c with phase }

/-- The next byte to send is at the address counter. -/
def send (c : Chip) : Chip :=
  let v := c.mem (Fin.ofNat 1024 c.counter)
  { c with
    phase := .put ((v &&& 0x80) >>> 7 ≠ 0) (msbBits 7 (v <<< 1))
    counter := (c.counter + 1) % 1024 }

/-- After the last bit of a byte only a device byte can be left without answer. -/
def received (role : Role) (byte : UInt8) (c : Chip) : Chip :=
  if role = .select ∧ ¬ Selects byte then c.goto .standby else c.goto (.ack role byte)

/-- What follows the answer to a byte; within a page of sixteen bytes the
counter wraps around. -/
def accepted (keepsBlock : Bool) (role : Role) (byte : UInt8) (c : Chip) : Chip :=
  match role with
  | .select =>
      if byte.toNat % 2 = 1 then
        (if keepsBlock then c else { c with counter := withBlock byte c.counter }).send
      else
        { c with phase := .shift .word [], counter := withBlock byte c.counter }
  | .word =>
      { c with phase := .shift .data [], counter := c.counter / 256 * 256 + byte.toNat }
  | .data =>
      { c with
        phase := .shift .data []
        counter := c.counter / 16 * 16 + (c.counter + 1) % 16
        latch := c.latch ++ [(c.counter, byte)] }

def onFall (keepsBlock : Bool) (c : Chip) : Chip :=
  match c.phase with
  | .standby => c
  | .shift role bits =>
      if bits.length = 8 then c.received role (bits.foldl shiftIn 0) else c
  | .ack role byte => c.accepted keepsBlock role byte
  | .put _ (b :: rest) => c.goto (.put b rest)
  | .put _ [] => c.goto (.listen none)
  | .listen (some false) => c.send
  | .listen _ => c.goto .standby

def onRise (v : Bool) (c : Chip) : Chip :=
  match c.phase with
  | .shift role bits => if bits.length < 8 then c.goto (.shift role (bits ++ [v])) else c
  | .listen _ => c.goto (.listen (some v))
  | _ => c

def react (keepsBlock : Bool) (e : Edge) (c : Chip) : Chip :=
  match e with
  | .start => { c with phase := if c.busy then .standby else .shift .select [], latch := [] }
  | .stop =>
      { c with
        phase := .standby
        mem := program c.mem c.latch
        latch := []
        busy := c.busy || !c.latch.isEmpty }
  | .rise v => c.onRise v
  | .fall => c.onFall keepsBlock

def pulls (c : Chip) : Bool :=
  match c.phase with
  | .ack _ _ => true
  | .put b _ => !b
  | _ => false

end Chip

/-- The chip on the bus; after a rest its write cycle is over. -/
def chip (keepsBlock : Bool) : Target Chip where
  pulls := Chip.pulls
  react := Chip.react keepsBlock
  settle c := { c with busy := false }

section Shift

variable {keepsBlock : Bool} {c : Chip}

theorem shift_eq {role : Role} {bits : List Bool} (v : Bool) (h : bits.length < 8) :
    (chip keepsBlock).shift (c.goto (.shift role bits)) v =
      if bits.length = 7 then c.received role ((bits ++ [v]).foldl shiftIn 0)
      else c.goto (.shift role (bits ++ [v])) := by
  have hrise : (chip keepsBlock).react (.rise v) (c.goto (.shift role bits)) =
      c.goto (.shift role (bits ++ [v])) := by
    simp [chip, Chip.react, Chip.onRise, Chip.goto, h]
  rw [Target.shift, hrise]
  by_cases hlast : bits.length = 7
  · simp only [chip, Chip.react, Chip.onFall, Chip.goto, List.length_append, List.length_singleton,
      hlast, reduceIte]
    simp only [Chip.received, Chip.goto]
  · have hmore : bits.length + 1 ≠ 8 := by omega
    simp [chip, Chip.react, Chip.onFall, Chip.goto, hlast, hmore]

/-- The bits before the last one of a byte are collected. -/
theorem foldl_shift {role : Role} {vs bits : List Bool} (h : bits.length + vs.length < 8) :
    vs.foldl (chip keepsBlock).shift (c.goto (.shift role bits)) =
      c.goto (.shift role (bits ++ vs)) := by
  induction vs generalizing bits with
  | nil => simp
  | cons v vs ih =>
      rw [List.length_cons] at h
      rw [List.foldl_cons, shift_eq v (by omega), if_neg (by omega),
        ih (by rw [List.length_append, List.length_singleton]; omega), List.append_assoc]
      rfl

theorem foldl_shift_byte (role : Role) (v : UInt8) :
    (msbBits 8 v).foldl (chip keepsBlock).shift (c.goto (.shift role [])) = c.received role v := by
  have hne : msbBits 8 v ≠ [] := List.ne_nil_of_length_pos (by simp)
  have hsplit := List.dropLast_append_getLast hne
  have hlength : (msbBits 8 v).dropLast.length = 7 := by simp
  rw [← hsplit, List.foldl_append, foldl_shift (by simp), List.nil_append, List.foldl_cons,
    List.foldl_nil, shift_eq _ (by omega), if_pos hlength, hsplit, foldl_shiftIn_msbBits]

/-- While a byte is being received the line is left to the controller. -/
theorem pulls_foldl_shift {role : Role} {vs ws : List Bool} {v : Bool} (hlength : vs.length ≤ 8)
    (h : ws ++ [v] <+: vs) :
    (chip keepsBlock).pulls (ws.foldl (chip keepsBlock).shift (c.goto (.shift role []))) = false ∧
      (chip keepsBlock).pulls ((chip keepsBlock).react (.rise v)
        (ws.foldl (chip keepsBlock).shift (c.goto (.shift role [])))) = false := by
  have hle := h.length_le
  rw [List.length_append, List.length_singleton] at hle
  have hlt : ws.length < 8 := by omega
  rw [foldl_shift (by simpa using hlt), List.nil_append]
  simp [chip, Chip.pulls, Chip.react, Chip.onRise, Chip.goto, hlt]

end Shift

end SerialEeprom
