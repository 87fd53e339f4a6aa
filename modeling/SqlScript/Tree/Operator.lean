import SqlScript.Tree.Token

/-!
# Operators

The unary and binary operators of SQL, each with one spelling. Keyword operators need a blank
before their operand, symbols do not.
-/

namespace SqlScript

/-- The operators of SQL. -/
inductive OperatorKind where
  | plus
  | minus
  | multiply
  | divide
  | modulus
  | concat
  | greater
  | less
  | greaterOrEqual
  | lessOrEqual
  | equal
  | notEqual
  | and
  | or
  | not
  | like
  | notLike
  | caseInsensitiveLike
  | notCaseInsensitiveLike
  deriving DecidableEq, Repr

namespace OperatorKind

/-- The spelling of an operator. -/
def text : OperatorKind → String
  | plus => "+"
  | minus => "-"
  | multiply => "*"
  | divide => "/"
  | modulus => "%"
  | concat => "||"
  | greater => ">"
  | less => "<"
  | greaterOrEqual => ">="
  | lessOrEqual => "<="
  | equal => "="
  | notEqual => "<>"
  | and => "AND"
  | or => "OR"
  | not => "NOT"
  | like => "LIKE"
  | notLike => "NOT LIKE"
  | caseInsensitiveLike => "ILIKE"
  | notCaseInsensitiveLike => "NOT ILIKE"

/-- Whether an operator is spelled with letters. -/
def isKeyword : OperatorKind → Bool
  | and | or | not | like | notLike | caseInsensitiveLike | notCaseInsensitiveLike => true
  | _ => false

end OperatorKind

/-- An operator where it stands in the source. -/
abbrev Operator := Token OperatorKind

end SqlScript
