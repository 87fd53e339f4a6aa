import SqlScript.Error

/-!
# Storage formats of external tables

A format is known by one keyword, read without regard to the case of ASCII letters.
-/

namespace SqlScript

/-- The formats in which an external table may be stored. -/
inductive FileFormat where
  | textFile
  | sequenceFile
  | orc
  | parquet
  | avro
  | rcFile
  | jsonFile
  deriving DecidableEq, Repr

namespace FileFormat

/-- Every format. -/
def all : List FileFormat :=
  [textFile, sequenceFile, orc, parquet, avro, rcFile, jsonFile]

/-- The keyword of a format. -/
def text : FileFormat → String
  | textFile => "TEXTFILE"
  | sequenceFile => "SEQUENCEFILE"
  | orc => "ORC"
  | parquet => "PARQUET"
  | avro => "AVRO"
  | rcFile => "RCFILE"
  | jsonFile => "JSONFILE"

/-- A keyword with its ASCII letters in lower case. -/
def fold (keyword : String) : String :=
  keyword.map Char.toLower

/-- The format that a keyword names, in any mixture of case. -/
def ofKeyword (keyword : String) : Except Error FileFormat :=
  match all.find? (fun format => fold format.text == fold keyword) with
  | some format => .ok format
  | none => .error (.unknownFileFormat keyword)

end FileFormat

end SqlScript
