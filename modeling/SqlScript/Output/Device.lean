import SqlScript.Error

/-!
# Output devices

A device takes bytes, perhaps fewer than it is offered, or fails. Failures are of two sorts: an
interruption, after which the same bytes are offered again, and a fault for good. A device may
interrupt only finitely often in a row; its patience says how often it still can.

`Device.scripted` follows a list of answers and then takes bytes up to a limit.
-/

namespace SqlScript

/-- What a device says to an offer of bytes. -/
inductive Answer where
  /-- The device has taken this many bytes from the front. -/
  | accepted (n : Nat)
  /-- The device has taken nothing and wants to be asked again. -/
  | interrupted
  /-- The device has taken nothing and never will. -/
  | failed (reason : String)
  deriving DecidableEq, Repr

/-- Something that takes bytes and changes its state thereby. -/
structure Device (σ : Type u) where
  /-- Offers bytes to the device. -/
  write : σ → List UInt8 → Answer × σ
  /-- How often the device can still interrupt while it is offered these bytes. -/
  patience : σ → List UInt8 → Nat
  /-- No device takes more than it is offered. -/
  accepted_le : ∀ s bytes n, (write s bytes).1 = .accepted n → n ≤ bytes.length
  /-- Each interruption uses up patience. -/
  interrupted_lt : ∀ s bytes, (write s bytes).1 = .interrupted →
    patience (write s bytes).2 bytes < patience s bytes

/-- One answer that a scripted device was told to give. -/
inductive Cue where
  | interrupt
  | fail (reason : String)
  /-- Take at most this many bytes. -/
  | take (n : Nat)
  deriving DecidableEq, Repr

/-- The state of a device that follows a script. -/
structure ScriptedState where
  /-- The answers still to give. -/
  script : List Cue
  /-- How many bytes to take at most per offer once the script has ended. -/
  chunk : Option Nat
  /-- How many bytes the device can hold. -/
  limit : Option Nat
  /-- The number of offers so far. -/
  calls : Nat := 0
  /-- The bytes taken so far. -/
  held : List UInt8 := []
  deriving Repr

namespace ScriptedState

/-- A number, or a bound that is smaller. -/
def atMost : Option Nat → Nat → Nat
  | some bound, n => min bound n
  | none, n => n

/-- How many more bytes the device can hold, if that is limited. -/
def room (s : ScriptedState) : Option Nat :=
  s.limit.map (· - s.held.length)

/-- Takes bytes up to a bound and up to the limit; a device that is full fails. -/
def accept (s : ScriptedState) (bound : Option Nat) (bytes : List UInt8) :
    Answer × ScriptedState :=
  if s.room = some 0 then (.failed "closed", s)
  else
    let taken := atMost s.room (atMost bound bytes.length)
    (.accepted taken, { s with held := s.held ++ bytes.take taken })

/-- The answer to an offer: the next one of the script, or as many bytes as a chunk has. -/
def write (s : ScriptedState) (bytes : List UInt8) : Answer × ScriptedState :=
  let asked := { s with calls := s.calls + 1, script := s.script.tail }
  match s.script with
  | .interrupt :: _ => (.interrupted, asked)
  | .fail reason :: _ => (.failed reason, asked)
  | .take n :: _ => asked.accept (some n) bytes
  | [] => asked.accept s.chunk bytes

theorem atMost_le (bound : Option Nat) (n : Nat) : atMost bound n ≤ n := by
  cases bound with
  | none => exact Nat.le_refl n
  | some b => exact Nat.min_le_right b n

theorem accept_le {s : ScriptedState} {bound : Option Nat} {bytes : List UInt8} {n : Nat}
    (h : (s.accept bound bytes).1 = .accepted n) : n ≤ bytes.length := by
  unfold accept at h
  split at h
  · cases h
  · cases h
    exact Nat.le_trans (atMost_le _ _) (atMost_le _ _)

theorem accept_ne_interrupted (s : ScriptedState) (bound : Option Nat) (bytes : List UInt8) :
    (s.accept bound bytes).1 ≠ .interrupted := by
  unfold accept
  split <;> simp

theorem write_le {s : ScriptedState} {bytes : List UInt8} {n : Nat}
    (h : (s.write bytes).1 = .accepted n) : n ≤ bytes.length := by
  unfold write at h
  split at h
  · cases h
  · cases h
  · exact accept_le h
  · exact accept_le h

theorem length_script_write {s : ScriptedState} {bytes : List UInt8}
    (h : (s.write bytes).1 = .interrupted) :
    (s.write bytes).2.script.length < s.script.length := by
  unfold write at h ⊢
  split at h
  · rename_i hs
    simp [hs]
  · cases h
  · exact absurd h (accept_ne_interrupted _ _ _)
  · exact absurd h (accept_ne_interrupted _ _ _)

end ScriptedState

/-- The device that follows a script: it interrupts at most once for each answer still to give. -/
def Device.scripted : Device ScriptedState where
  write := ScriptedState.write
  patience s _ := s.script.length
  accepted_le _ _ _ h := ScriptedState.write_le h
  interrupted_lt _ _ h := ScriptedState.length_script_write h

end SqlScript
