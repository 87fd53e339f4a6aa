import SqlScript.Source.Position

/-!
# What can go wrong

Building a tree, writing it out and attaching its comments fail for the causes listed in `Error`.
Each cause has one text, and is at most one of two things: a defect of the caller's tree, or
something the user can mend by trying again with other input.
-/

namespace SqlScript

/-- Why an output device refused bytes for good. -/
inductive Fault where
  /-- The device took no byte of a non-empty buffer. -/
  | writeZero
  /-- The device reported a failure of its own. -/
  | failed (reason : String)
  deriving DecidableEq, Repr

/-- The text of a fault. -/
def Fault.text : Fault → String
  | .writeZero => "write zero"
  | .failed reason => reason

/-- The causes of failure. -/
inductive Error where
  /-- A list that needs an element has none. -/
  | emptyList (kind : String)
  /-- The output device failed after it had taken some bytes. -/
  | output (written : Nat) (fault : Fault)
  /-- No storage format has this keyword. -/
  | unknownFileFormat (keyword : String)
  /-- The attachment policy asks for something that its other setting rules out. -/
  | contradictoryPolicy
  /-- A comment group starts before the group in front of it stops. -/
  | unorderedComments (start previousStop : Position)
  /-- A comment group has no node on either side. -/
  | unattachedComment (start : Position)
  deriving DecidableEq, Repr

namespace Error

/-- The text of an error. -/
def message : Error → String
  | emptyList kind => kind ++ " list must not be empty"
  | output written fault =>
    "render failed after " ++ Decimal.ofNat written ++ " bytes: " ++ fault.text
  | unknownFileFormat keyword => "unknown file format: '" ++ keyword ++ "'"
  | contradictoryPolicy =>
    "invalid configuration: require_blank_line_after = false has no effect with " ++
      "trailing_line_gap = 0"
  | unorderedComments start previousStop =>
    "internal inconsistency: comment group at " ++ start.text ++
      " precedes the group ending at " ++ previousStop.text
  | unattachedComment start =>
    "internal inconsistency: comment group at " ++ start.text ++ " has no node to attach to"

/-- Whether the tree itself is inconsistent. -/
def isDefect : Error → Bool
  | unorderedComments .. | unattachedComment .. => true
  | _ => false

/-- Whether other input or another device may succeed. -/
def isRecoverable : Error → Bool
  | output .. | unknownFileFormat .. | contradictoryPolicy => true
  | _ => false

/-- How many bytes an output device took before it failed. -/
def written? : Error → Option Nat
  | output written _ => some written
  | _ => none

/-- No defect can be mended by the user. -/
theorem not_isRecoverable_of_isDefect {e : Error} (h : e.isDefect = true) :
    e.isRecoverable = false := by
  cases e <;> simp_all [isDefect, isRecoverable]

end Error

end SqlScript
