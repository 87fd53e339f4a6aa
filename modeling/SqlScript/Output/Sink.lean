import SqlScript.Node.Text
import SqlScript.Output.Device

/-!
# Writing to a device

A sink passes texts on to a device and counts the bytes that the device has taken. It offers what
is left of a text until nothing is left, again after an interruption. The first fault is final: a
sink that has failed offers nothing more.
-/

namespace SqlScript

/-- The bytes of a text. -/
def bytesOf (text : String) : List UInt8 :=
  text.toUTF8.data.toList

/-- A device at work, with the number of bytes it has taken and its fault. -/
structure Sink (σ : Type u) where
  device : σ
  written : Nat := 0
  fault : Option Fault := none

namespace Sink

variable {σ : Type u} (d : Device σ)

/-- Offers bytes to a working device until it has taken them all or has failed. -/
def offer (s : σ) (written : Nat) (bytes : List UInt8) : Sink σ :=
  if bytes = [] then { device := s, written }
  else
    match h : d.write s bytes with
    | (.accepted 0, s') => { device := s', written, fault := some .writeZero }
    | (.accepted (n + 1), s') => offer s' (written + (n + 1)) (bytes.drop (n + 1))
    | (.interrupted, s') => offer s' written bytes
    | (.failed reason, s') => { device := s', written, fault := some (.failed reason) }
termination_by (bytes.length, d.patience s bytes)
decreasing_by
  · rename_i hne
    have hpos := List.length_pos_iff.mpr hne
    left
    simp only [List.length_drop]
    omega
  · have hlt := d.interrupted_lt s bytes (by rw [h])
    rw [h] at hlt
    right
    exact hlt

/-- Writes a text, unless the sink has failed. -/
def put (s : Sink σ) (text : String) : Sink σ :=
  match s.fault with
  | some _ => s
  | none => offer d s.device s.written (bytesOf text)

/-- Writes texts one after the other. -/
def putAll (s : Sink σ) (texts : List String) : Sink σ :=
  texts.foldl (put d) s

/-- Writes a layout, with every child written out. -/
def layout (s : Sink σ) (pieces : List Piece) : Sink σ :=
  s.putAll d (Layout.fragments pieces)

/-- Writes a node. -/
def node (s : Sink σ) (n : Node) : Sink σ :=
  s.putAll d n.fragments

/-- Writes nodes with a separator between them. -/
def list (s : Sink σ) (nodes : List Node) (separator : String) : Sink σ :=
  s.layout d (Layout.separated separator nodes)

/-- Writes nodes between parentheses, with commas between them. -/
def parenthesized (s : Sink σ) (nodes : List Node) : Sink σ :=
  s.layout d (Layout.parenthesized nodes)

variable {d}

/-- Whether the device has failed. -/
def isFailed (s : Sink σ) : Bool :=
  s.fault.isSome

/-- The number of bytes written, or why not all of them were. -/
def finish (s : Sink σ) : Except Error Nat :=
  match s.fault with
  | some fault => .error (.output s.written fault)
  | none => .ok s.written

end Sink

/-- Writes a node to a device. -/
def Node.render (d : Device σ) (s : σ) (n : Node) : Sink σ :=
  Sink.node d { device := s } n

end SqlScript
