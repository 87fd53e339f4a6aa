import SqlScript.Tree.Token

/-!
# Data types

A type is built in, an array of another type, or named by the user. Every type records the span of
its own tokens; the extent of an array begins with its element, and that of a named type is the
extent of the name.
-/

namespace SqlScript

/-- The types that need no name. -/
inductive BuiltinType where
  | character (size : Option UInt32) (varying : Bool)
  | uuid
  | clob (size : Option UInt32)
  | binary (size : Option UInt32)
  | varbinary (size : Option UInt32)
  | blob (size : Option UInt32)
  | decimal (precision scale : Option UInt32) (numeric : Bool)
  | float (precision : Option UInt32)
  | smallInt (unsigned : Bool)
  | int (unsigned : Bool)
  | bigInt (unsigned : Bool)
  | real
  | double
  | boolean
  | date
  | time
  | timestamp (withTimeZone : Bool)
  | regclass
  | text
  | bytea
  deriving DecidableEq, Repr

namespace BuiltinType

/-- A type name, with its size between parentheses if it has one. -/
def sized (name : String) : Option UInt32 → List String
  | none => [name]
  | some n => [name, "(" ++ Decimal.ofNat n.toNat ++ ")"]

/-- A type name, marked if its numbers have no sign. -/
def marked (name : String) (isUnsigned : Bool) : List String :=
  if isUnsigned then [name, " unsigned"] else [name]

/-- Precision and scale between parentheses; a scale alone is not written. -/
def precisionText : Option UInt32 → Option UInt32 → List String
  | some p, some s => ["(" ++ Decimal.ofNat p.toNat ++ "," ++ Decimal.ofNat s.toNat ++ ")"]
  | some p, none => ["(" ++ Decimal.ofNat p.toNat ++ ")"]
  | none, _ => []

/-- The pieces of text that make up a type, in order. -/
def fragments : BuiltinType → List String
  | character size varying => sized (if varying then "character varying" else "character") size
  | uuid => ["uuid"]
  | clob size => sized "clob" size
  | binary size => sized "binary" size
  | varbinary size => sized "varbinary" size
  | blob size => sized "blob" size
  | decimal precision scale numeric =>
    (if numeric then "numeric" else "decimal") :: precisionText precision scale
  | float precision => sized "float" precision
  | smallInt isUnsigned => marked "smallint" isUnsigned
  | int isUnsigned => marked "int" isUnsigned
  | bigInt isUnsigned => marked "bigint" isUnsigned
  | real => ["real"]
  | double => ["double precision"]
  | boolean => ["boolean"]
  | date => ["date"]
  | time => ["time"]
  | timestamp withTimeZone =>
    if withTimeZone then ["timestamp", " with time zone"] else ["timestamp"]
  | regclass => ["regclass"]
  | text => ["text"]
  | bytea => ["bytea"]

end BuiltinType

/-- A data type where it stands in the source. -/
inductive DataType where
  | builtin (type : BuiltinType) (span : Span)
  | array (element : DataType) (span : Span)
  | custom (name : ObjectName) (span : Span)
  deriving DecidableEq, Repr

namespace DataType

/-- Where a type starts: an array with its element, a named type with its name. -/
def start : DataType → Position
  | builtin _ span => span.start
  | array element _ => element.start
  | custom name _ => ObjectName.start name

/-- Where a type stops: a named type with its name, any other with its own tokens. -/
def stop : DataType → Position
  | builtin _ span => span.stop
  | array _ span => span.stop
  | custom name _ => ObjectName.stop name

end DataType

end SqlScript
