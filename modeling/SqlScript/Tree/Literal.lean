import SqlScript.Binary64
import SqlScript.Calendar.Timestamp
import SqlScript.Tree.Token

/-!
# Literals

The constants of SQL. Strings are kept as they stand between their quotes. Two literals agree when
they are the same constant: floating-point numbers by their value, time stamps by their instant.
-/

namespace SqlScript

/-- The constants of SQL. -/
inductive LiteralValue where
  | integer (n : Int64)
  | float (x : Binary64)
  | string (s : String)
  | nationalString (s : String)
  | boolean (b : Bool)
  | date (d : Date)
  | time (t : TimeOfDay)
  | dateTime (dt : DateTime)
  | timestamp (ts : Timestamp)
  | null
  deriving DecidableEq, Repr

namespace LiteralValue

/-- The pieces of text that make up a literal, in order. -/
def fragments : LiteralValue → List String
  | integer n => [Decimal.ofInt n.toInt]
  | float x => [x.text]
  | string s => ["'", s, "'"]
  | nationalString s => ["N'", s, "'"]
  | boolean true => ["TRUE"]
  | boolean false => ["FALSE"]
  | date d => ["DATE '" ++ d.text ++ "'"]
  | time t => ["TIME '" ++ t.text ++ "'"]
  | dateTime dt => ["TIMESTAMP '" ++ dt.text ++ "'"]
  | timestamp ts => ["TIMESTAMP WITH TIME ZONE '" ++ ts.text ++ "'"]
  | null => ["NULL"]

/-- Whether two literals are the same constant. -/
def agrees : LiteralValue → LiteralValue → Bool
  | float x, float y => x.agrees y
  | timestamp x, timestamp y => x.instant == y.instant
  | x, y => x == y

end LiteralValue

/-- A literal where it stands in the source. -/
abbrev Literal := Token LiteralValue

end SqlScript
