import SqlScript.Proofs.Decimal.Reading
import SqlScript.Proofs.Node.Characters

/-!
# The text of a type tells the type

A built-in type is written as a name, with its arguments between parentheses if it has any. Some
names start with others, but no name has a parenthesis or a bracket in it, so the name ends where
the arguments begin. Each array adds a pair of brackets, which no built-in type ends with.

* `BuiltinType.toList_fragments`: a built-in type is written as a name and arguments;
* `BuiltinType.argsText_inj`: what is written for arguments tells the arguments;
* `BuiltinType.ofName?_name`: the name and the arguments tell the type;
* `DataType.toSql_eq_iff_sameType`: types without names of users have one text exactly if they are
  the same.
-/

namespace SqlScript

open Decimal

/-- Digits end where something else begins. -/
theorem Decimal.digits_append_inj {m n : Nat} {us vs : List Char}
    (hu : ∀ c ∈ us.head?, c.isDigit = false) (hv : ∀ c ∈ vs.head?, c.isDigit = false)
    (h : digits m ++ us = digits n ++ vs) : m = n ∧ us = vs := by
  have htake : ∀ (k : Nat) (ws : List Char), (∀ c ∈ ws.head?, c.isDigit = false) →
      (digits k ++ ws).takeWhile Char.isDigit = digits k := by
    intro k ws hws
    rw [List.takeWhile_append_of_pos fun c hc => isDigit_of_mem_digits hc]
    cases ws with
    | nil => simp
    | cons c ws => simp [hws c rfl]
  have hdigits : digits m = digits n := by
    rw [← htake m us hu, h, htake n vs hv]
  rw [hdigits] at h
  exact ⟨digits_inj.mp hdigits, List.append_cancel_left h⟩

namespace BuiltinType

/-! ## Names and arguments -/

/-- The name of a type, with the words that tell its variants. -/
def name : BuiltinType → String
  | character _ varying => if varying then "character varying" else "character"
  | uuid => "uuid"
  | clob _ => "clob"
  | binary _ => "binary"
  | varbinary _ => "varbinary"
  | blob _ => "blob"
  | decimal _ _ numeric => if numeric then "numeric" else "decimal"
  | float _ => "float"
  | smallInt isUnsigned => if isUnsigned then "smallint unsigned" else "smallint"
  | int isUnsigned => if isUnsigned then "int unsigned" else "int"
  | bigInt isUnsigned => if isUnsigned then "bigint unsigned" else "bigint"
  | real => "real"
  | double => "double precision"
  | boolean => "boolean"
  | date => "date"
  | time => "time"
  | timestamp withTimeZone => if withTimeZone then "timestamp with time zone" else "timestamp"
  | regclass => "regclass"
  | text => "text"
  | bytea => "bytea"

/-- The arguments of a type; a scale counts only behind a precision. -/
def args : BuiltinType → List UInt32
  | character size _ | clob size | binary size | varbinary size | blob size | float size =>
    size.toList
  | decimal (some p) (some s) _ => [p, s]
  | decimal (some p) none _ => [p]
  | _ => []

/-- What is written behind an argument: the others, and the closing parenthesis. -/
def argsRest : List UInt32 → List Char
  | [] => [')']
  | n :: ns => ',' :: (digits n.toNat ++ argsRest ns)

/-- What is written for arguments: nothing, if there are none. -/
def argsText : List UInt32 → List Char
  | [] => []
  | n :: ns => '(' :: (digits n.toNat ++ argsRest ns)

theorem toList_sized (name : String) (size : Option UInt32) :
    (sized name size).flatMap String.toList = name.toList ++ argsText size.toList := by
  cases size <;> simp [sized, argsText, argsRest, toList_ofNat]

theorem toList_precisionText (precision scale : Option UInt32) (numeric : Bool) :
    (precisionText precision scale).flatMap String.toList =
      argsText (decimal precision scale numeric).args := by
  cases precision <;> cases scale <;>
    simp [precisionText, args, argsText, argsRest, toList_ofNat]

/-- A built-in type is written as its name and its arguments. -/
theorem toList_fragments (type : BuiltinType) :
    type.fragments.flatMap String.toList = type.name.toList ++ argsText type.args := by
  cases type with
  | character size varying => cases varying <;> exact toList_sized _ size
  | clob size | binary size | varbinary size | blob size | float size => exact toList_sized _ size
  | decimal precision scale numeric =>
    rw [← toList_precisionText precision scale numeric]
    cases numeric <;> rfl
  | smallInt isUnsigned | int isUnsigned | bigInt isUnsigned => cases isUnsigned <;> rfl
  | timestamp withTimeZone => cases withTimeZone <;> rfl
  | _ => rfl

theorem mem_argsRest {ns : List UInt32} {c : Char} (h : c ∈ argsRest ns) :
    c.isDigit = true ∨ c = ',' ∨ c = ')' := by
  induction ns with
  | nil => exact .inr (.inr (List.mem_singleton.mp h))
  | cons n ns ih =>
    rcases List.mem_cons.mp h with rfl | h
    · exact .inr (.inl rfl)
    · exact (List.mem_append.mp h).elim (fun h => .inl (isDigit_of_mem_digits h)) ih

theorem mem_argsText {ns : List UInt32} {c : Char} (h : c ∈ argsText ns) :
    c.isDigit = true ∨ c = '(' ∨ c = ',' ∨ c = ')' := by
  cases ns with
  | nil => cases h
  | cons n ns =>
    rcases List.mem_cons.mp h with rfl | h
    · exact .inr (.inl rfl)
    · rcases List.mem_append.mp h with h | h
      · exact .inl (isDigit_of_mem_digits h)
      · exact (mem_argsRest h).imp id .inr

theorem isDigit_head?_argsRest (ns : List UInt32) :
    ∀ c ∈ (argsRest ns).head?, c.isDigit = false := by
  cases ns <;> simp [argsRest]

theorem argsRest_inj {ms ns : List UInt32} (h : argsRest ms = argsRest ns) : ms = ns := by
  induction ms generalizing ns with
  | nil =>
    cases ns with
    | nil => rfl
    | cons n ns => cases h
  | cons m ms ih =>
    cases ns with
    | nil => cases h
    | cons n ns =>
      obtain ⟨hhead, hrest⟩ := digits_append_inj (isDigit_head?_argsRest ms)
        (isDigit_head?_argsRest ns) (List.cons.inj h).2
      rw [UInt32.toNat_inj.mp hhead, ih hrest]

theorem argsText_inj {ms ns : List UInt32} (h : argsText ms = argsText ns) : ms = ns := by
  cases ms with
  | nil =>
    cases ns with
    | nil => rfl
    | cons n ns => cases h
  | cons m ms =>
    cases ns with
    | nil => cases h
    | cons n ns =>
      -- Behind the parenthesis stands what would stand behind a comma.
      have hcomma : argsRest (m :: ms) = argsRest (n :: ns) :=
        congrArg (',' :: ·) (List.cons.inj h).2
      exact argsRest_inj hcomma

/-! ## Reading a type -/

/-- The built-in type with a name and arguments, if there is one. -/
def ofName? (args : List UInt32) : String → Option BuiltinType
  | "character" => some (character args.head? false)
  | "character varying" => some (character args.head? true)
  | "uuid" => some uuid
  | "clob" => some (clob args.head?)
  | "binary" => some (binary args.head?)
  | "varbinary" => some (varbinary args.head?)
  | "blob" => some (blob args.head?)
  | "decimal" => some (decimal args.head? args[1]? false)
  | "numeric" => some (decimal args.head? args[1]? true)
  | "float" => some (float args.head?)
  | "smallint" => some (smallInt false)
  | "smallint unsigned" => some (smallInt true)
  | "int" => some (int false)
  | "int unsigned" => some (int true)
  | "bigint" => some (bigInt false)
  | "bigint unsigned" => some (bigInt true)
  | "real" => some real
  | "double precision" => some double
  | "boolean" => some boolean
  | "date" => some date
  | "time" => some time
  | "timestamp" => some (timestamp false)
  | "timestamp with time zone" => some (timestamp true)
  | "regclass" => some regclass
  | "text" => some text
  | "bytea" => some bytea
  | _ => none

/-- Whether a scale is written, if there is one. -/
def writesScale : BuiltinType → Bool
  | decimal none (some _) _ => false
  | _ => true

/-- The name and the arguments tell the type. -/
theorem ofName?_name {type : BuiltinType} (h : type.writesScale = true) :
    ofName? type.args type.name = some type := by
  cases type with
  | character size varying => cases varying <;> cases size <;> rfl
  | clob size | binary size | varbinary size | blob size | float size => cases size <;> rfl
  | decimal precision scale numeric =>
    match precision, scale, h with
    | none, none, _ | some p, none, _ | some p, some s, _ => cases numeric <;> rfl
  | smallInt isUnsigned | int isUnsigned | bigInt isUnsigned => cases isUnsigned <;> rfl
  | timestamp withTimeZone => cases withTimeZone <;> rfl
  | _ => rfl

/-- All names of built-in types. -/
def names : List String :=
  ["character", "character varying", "uuid", "clob", "binary", "varbinary", "blob", "decimal",
    "numeric", "float", "smallint", "smallint unsigned", "int", "int unsigned", "bigint",
    "bigint unsigned", "real", "double precision", "boolean", "date", "time", "timestamp",
    "timestamp with time zone", "regclass", "text", "bytea"]

theorem name_mem_names (type : BuiltinType) : type.name ∈ names := by
  cases type with
  | character _ b | decimal _ _ b | smallInt b | int b | bigInt b | timestamp b =>
    cases b <;> simp [name, names]
  | _ => simp [name, names]

theorem mem_name {type : BuiltinType} {c : Char} (h : c ∈ type.name.toList) :
    c ≠ '(' ∧ c ≠ ']' := by
  have hall : ∀ n ∈ names, n.toList.all fun c => c ≠ '(' ∧ c ≠ ']' := by decide
  simpa using List.all_eq_true.mp (hall type.name type.name_mem_names) c h

/-- The name of a type ends where its arguments begin. -/
theorem takeWhile_fragments (type : BuiltinType) :
    (type.fragments.flatMap String.toList).takeWhile (· ≠ '(') = type.name.toList := by
  rw [toList_fragments, List.takeWhile_append_of_pos fun c hc => by simpa using (mem_name hc).1]
  cases type.args <;> simp [argsText]

theorem eq_of_fragments_eq {a b : BuiltinType} (ha : a.writesScale = true)
    (hb : b.writesScale = true)
    (h : a.fragments.flatMap String.toList = b.fragments.flatMap String.toList) : a = b := by
  have hname : a.name = b.name := by
    rw [← String.toList_inj, ← takeWhile_fragments, h, takeWhile_fragments]
  rw [toList_fragments, toList_fragments, hname] at h
  have hargs := argsText_inj (List.append_cancel_left h)
  rw [← Option.some.injEq, ← ofName?_name ha, ← ofName?_name hb, hname, hargs]

/-- No built-in type ends as an array does. -/
theorem bracket_not_mem_fragments (type : BuiltinType) :
    ']' ∉ type.fragments.flatMap String.toList := by
  rw [toList_fragments]
  intro h
  rcases List.mem_append.mp h with h | h
  · exact (mem_name h).2 rfl
  · exact absurd (mem_argsText h) (by decide)

end BuiltinType

namespace DataType

/-! ## Arrays -/

/-- Two types are the same, wherever they stand. -/
inductive SameType : DataType → DataType → Prop where
  | builtin (type : BuiltinType) (s t : Span) : SameType (.builtin type s) (.builtin type t)
  | array {a b : DataType} (elements : SameType a b) (s t : Span) :
    SameType (.array a s) (.array b t)
  | custom {m n : ObjectName} (parts : m.toList.map (·.val) = n.toList.map (·.val)) (s t : Span) :
    SameType (.custom m s) (.custom n t)

/-- Whether a type is a built-in one or an array of such, and nothing of it is left unwritten. -/
def isStandard : DataType → Bool
  | builtin type _ => type.writesScale
  | array element _ => element.isStandard
  | custom _ _ => false

theorem toList_toSql_builtin (type : BuiltinType) (span : Span) :
    (Node.dataType (builtin type span)).toSql.toList =
      type.fragments.flatMap String.toList := by
  simp [Node.toList_toSql, Node.layout, layout]

theorem toList_toSql_array (element : DataType) (span : Span) :
    (Node.dataType (array element span)).toSql.toList =
      (Node.dataType element).toSql.toList ++ ['[', ']'] := by
  rw [Node.toList_toSql]
  simp [Node.layout, layout]

/-- A built-in type is not written as an array is. -/
theorem toSql_builtin_ne_array (type : BuiltinType) (element : DataType) (s t : Span) :
    (Node.dataType (builtin type s)).toSql ≠ (Node.dataType (array element t)).toSql := by
  intro h
  rw [← String.toList_inj, toList_toSql_builtin, toList_toSql_array] at h
  apply type.bracket_not_mem_fragments
  rw [h]
  simp

theorem sameType_of_toSql_eq {a b : DataType} (ha : a.isStandard = true) (hb : b.isStandard = true)
    (h : (Node.dataType a).toSql = (Node.dataType b).toSql) : SameType a b := by
  induction a generalizing b with
  | builtin type s =>
    cases b with
    | builtin type' t =>
      rw [← String.toList_inj, toList_toSql_builtin, toList_toSql_builtin] at h
      obtain rfl := BuiltinType.eq_of_fragments_eq ha hb h
      exact .builtin type s t
    | array element t => exact absurd h (toSql_builtin_ne_array type element s t)
    | custom name t => cases hb
  | array element s ih =>
    cases b with
    | builtin type t => exact absurd h.symm (toSql_builtin_ne_array type element t s)
    | array element' t =>
      rw [← String.toList_inj, toList_toSql_array, toList_toSql_array,
        List.append_cancel_right_eq, String.toList_inj] at h
      have hb : element'.isStandard = true := hb
      exact .array (ih ha hb h) s t
    | custom name t => cases hb
  | custom name s => cases ha

theorem toSql_eq_of_sameType {a b : DataType} (ha : a.isStandard = true) (h : SameType a b) :
    (Node.dataType a).toSql = (Node.dataType b).toSql := by
  induction h with
  | builtin type s t =>
    rw [← String.toList_inj, toList_toSql_builtin, toList_toSql_builtin]
  | array elements s t ih =>
    rw [← String.toList_inj, toList_toSql_array, toList_toSql_array, ih ha]
  | custom parts s t => cases ha

/-- Standard types have one text exactly if they are the same type. -/
theorem toSql_eq_iff_sameType {a b : DataType} (ha : a.isStandard = true)
    (hb : b.isStandard = true) :
    (Node.dataType a).toSql = (Node.dataType b).toSql ↔ SameType a b :=
  ⟨sameType_of_toSql_eq ha hb, toSql_eq_of_sameType ha⟩

/-- Arrays of arrays of numbers, on some line. -/
def matrixOnLine (line : UInt32) : DataType :=
  .array (.array (.builtin (.decimal (some 10) (some 2) true) ⟨⟨line, 1⟩, ⟨line, 14⟩⟩)
    ⟨⟨line, 1⟩, ⟨line, 16⟩⟩) ⟨⟨line, 1⟩, ⟨line, 18⟩⟩

theorem toSql_eq_iff_matrixOnLine :
    (matrixOnLine 1).isStandard = true ∧ (matrixOnLine 2).isStandard = true ∧
      ((Node.dataType (matrixOnLine 1)).toSql = (Node.dataType (matrixOnLine 2)).toSql ↔
        SameType (matrixOnLine 1) (matrixOnLine 2)) ∧
      (Node.dataType (matrixOnLine 1)).toSql = "numeric(10,2)[][]" :=
  ⟨rfl, rfl, toSql_eq_iff_sameType rfl rfl, by decide +kernel⟩

end DataType

end SqlScript
