import Mathlib.Data.List.Basic
import Mathlib.Tactic.Common

/-!
# A two-wire bus with one target

The controller drives the clock line and, when its data pin is an output, the
data line; the target may pull the data line low at any time.  A target sees
edges only: a start or a stop when the data line moves while the clock is high,
and otherwise the two edges of the clock.
-/

namespace TwoWire

inductive Edge where
  | start
  | stop
  | rise (sda : Bool)
  | fall
deriving DecidableEq, Repr

/-- `settle` is what becomes of the target when the bus rests long enough. -/
structure Target (τ : Type*) where
  pulls : τ → Bool
  react : Edge → τ → τ
  settle : τ → τ

/-- The output bits of the two pins and the direction of the data pin. -/
structure Pins where
  scl : Bool
  sda : Bool
  out : Bool
deriving DecidableEq, Repr

/-- `clash` records that the controller has driven the data line high against
the target while the clock was high. -/
structure Bus (τ : Type*) where
  pins : Pins
  target : τ
  clash : Bool
deriving DecidableEq

def edge (scl sda scl' sda' : Bool) : Option Edge :=
  match scl, scl' with
  | true, true => if sda && !sda' then some .start else if !sda && sda' then some .stop else none
  | false, true => some (.rise sda')
  | true, false => some .fall
  | false, false => none

variable {τ : Type*} (T : Target τ)

/-- The level of the data line: the pull-up or the controller holds it high
unless the target or the controller pulls it low. -/
def level (p : Pins) (t : τ) : Bool := p.sda && !T.pulls t

/-- The controller changes its pins. -/
def Bus.put (p : Pins) (b : Bus τ) : Bus τ :=
  let t := (edge b.pins.scl (level T b.pins b.target) p.scl (level T p b.target)).elim b.target
    fun e => T.react e b.target
  { pins := p
    target := t
    clash := b.clash || (p.scl && p.out && p.sda && (T.pulls b.target || T.pulls t)) }

def Bus.setScl (v : Bool) (b : Bus τ) : Bus τ := b.put T { b.pins with scl := v }

def Bus.setSda (v : Bool) (b : Bus τ) : Bus τ := b.put T { b.pins with sda := v }

def Bus.setOut (v : Bool) (b : Bus τ) : Bus τ := b.put T { b.pins with out := v }

/-- One bit from the controller: the data line is set while the clock is low. -/
def Bus.clockOut (v : Bool) (b : Bus τ) : Bus τ :=
  (((b.setSda T v).setScl T true).setScl T false)

/-- What a bit from the controller does to a target. -/
def Target.shift (t : τ) (v : Bool) : τ := T.react .fall (T.react (.rise v) t)

section Clock

variable {T} {t : τ} {s o c : Bool}

theorem setSda_low (v : Bool) :
    Bus.setSda T v ⟨⟨false, s, o⟩, t, c⟩ = ⟨⟨false, v, o⟩, t, c⟩ := by
  simp [Bus.setSda, Bus.put, edge]

theorem setOut_low (v : Bool) :
    Bus.setOut T v ⟨⟨false, s, o⟩, t, c⟩ = ⟨⟨false, s, v⟩, t, c⟩ := by
  simp [Bus.setOut, Bus.put, edge]

theorem setScl_low_low :
    Bus.setScl T false ⟨⟨false, s, o⟩, t, c⟩ = ⟨⟨false, s, o⟩, t, c⟩ := by
  simp [Bus.setScl, Bus.put, edge]

theorem setScl_fall :
    Bus.setScl T false ⟨⟨true, s, o⟩, t, c⟩ = ⟨⟨false, s, o⟩, T.react .fall t, c⟩ := by
  simp [Bus.setScl, Bus.put, edge]

/-- With the data pin as an input, the line is what the target makes of it. -/
theorem setScl_rise_in :
    Bus.setScl T true ⟨⟨false, true, false⟩, t, c⟩ =
      ⟨⟨true, true, false⟩, T.react (.rise (!T.pulls t)) t, c⟩ := by
  simp [Bus.setScl, Bus.put, edge, level]

theorem setScl_rise_out (h : T.pulls t = false) (h' : T.pulls (T.react (.rise s) t) = false) :
    Bus.setScl T true ⟨⟨false, s, true⟩, t, c⟩ = ⟨⟨true, s, true⟩, T.react (.rise s) t, c⟩ := by
  simp [Bus.setScl, Bus.put, edge, level, h, h']

theorem clockOut_eq {v : Bool} (h : T.pulls t = false)
    (h' : T.pulls (T.react (.rise v) t) = false) :
    Bus.clockOut T v ⟨⟨false, s, true⟩, t, c⟩ = ⟨⟨false, v, true⟩, T.shift t v, c⟩ := by
  rw [Bus.clockOut, setSda_low, setScl_rise_out h h', setScl_fall]
  rfl

/-- A target that stays silent during a run of bits receives all of them. -/
theorem foldl_clockOut {vs : List Bool}
    (h : ∀ ws v, ws ++ [v] <+: vs →
      T.pulls (ws.foldl T.shift t) = false ∧
        T.pulls (T.react (.rise v) (ws.foldl T.shift t)) = false) :
    vs.foldl (fun b v => Bus.clockOut T v b) ⟨⟨false, s, true⟩, t, c⟩ =
      ⟨⟨false, vs.getLastD s, true⟩, vs.foldl T.shift t, c⟩ := by
  induction vs generalizing t s with
  | nil => rfl
  | cons v vs ih =>
      obtain ⟨hlow, hhigh⟩ := h [] v (by simp)
      rw [List.foldl_nil] at hlow hhigh
      rw [List.foldl_cons, clockOut_eq hlow hhigh, List.getLastD_cons]
      exact ih fun ws w hw => h (v :: ws) w (by simpa using hw)

end Clock

/-! ### Bytes, highest bit first -/

def msbBits : ℕ → UInt8 → List Bool
  | 0, _ => []
  | k + 1, v => decide ((v &&& 0x80) >>> 7 ≠ 0) :: msbBits k (v <<< 1)

def shiftIn (receive : UInt8) (v : Bool) : UInt8 :=
  if v then receive <<< 1 + 1 else receive <<< 1

@[simp] theorem msbBits_length (k : ℕ) (v : UInt8) : (msbBits k v).length = k := by
  induction k generalizing v with
  | zero => rfl
  | succ k ih => rw [msbBits, List.length_cons, ih]

theorem foldl_shiftIn_msbBits (v : UInt8) : (msbBits 8 v).foldl shiftIn 0 = v := by
  have h : ∀ n : Fin 256, (msbBits 8 (UInt8.ofNat n)).foldl shiftIn 0 = UInt8.ofNat n := by
    decide +kernel
  have hv := h ⟨v.toNat, v.toNat_lt⟩
  rwa [UInt8.ofNat_toNat] at hv

end TwoWire
