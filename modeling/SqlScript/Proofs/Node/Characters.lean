import SqlScript.Node.Text

/-!
# The characters of a layout

The text of a node, character by character, is read off its layout: the characters of its words,
with those of its children between them. Marks leave nothing.

* `Layout.chars`: the characters of a layout;
* `Node.toList_toSql`: the text of a node has the characters of its layout.
-/

namespace SqlScript

/-- The characters that a piece stands for. -/
def Piece.chars : Piece → List Char
  | word text => text.toList
  | mark _ => []
  | child n => n.toSql.toList

namespace Layout

/-- The characters of a layout, with every child written out. -/
def chars (pieces : List Piece) : List Char :=
  pieces.flatMap Piece.chars

@[simp] theorem chars_nil : chars [] = [] := rfl

@[simp] theorem chars_word (text : String) (ps : List Piece) :
    chars (.word text :: ps) = text.toList ++ chars ps := rfl

@[simp] theorem chars_mark (p : Position) (ps : List Piece) :
    chars (.mark p :: ps) = chars ps := rfl

@[simp] theorem chars_child (n : Node) (ps : List Piece) :
    chars (.child n :: ps) = n.toSql.toList ++ chars ps := rfl

@[simp] theorem chars_append (ps qs : List Piece) : chars (ps ++ qs) = chars ps ++ chars qs :=
  List.flatMap_append

@[simp] theorem chars_words (texts : List String) :
    chars (texts.map .word) = texts.flatMap String.toList := by
  rw [chars, List.flatMap_map]
  rfl

@[simp] theorem chars_wordIf (b : Bool) (text : String) :
    chars (wordIf b text) = if b then text.toList else [] := by
  cases b <;> simp [wordIf]

@[simp] theorem chars_token (text : String) (span : Span) : chars (token text span) = text.toList := by
  simp [token]

@[simp] theorem chars_enclosed (span : Span) (ps : List Piece) :
    chars (enclosed span ps) = chars ps := by
  simp [enclosed]

/-- The fragments of a layout have its characters. -/
theorem flatMap_fragments (pieces : List Piece) :
    (fragments pieces).flatMap String.toList = chars pieces := by
  induction pieces with
  | nil => rfl
  | cons piece pieces ih =>
    have hcons : fragments (piece :: pieces) =
        piece.leaves.filterMap Leaf.text? ++ fragments pieces := by
      simp [fragments]
    rw [hcons, List.flatMap_append, ih]
    cases piece with
    | word text => simp [Piece.leaves, Leaf.text?]
    | mark p => rfl
    | child c =>
      rw [chars_child, Node.toSql, String.toList_join]
      rfl

end Layout

theorem Node.toList_toSql (n : Node) : n.toSql.toList = Layout.chars n.layout := by
  rw [toSql, String.toList_join, fragments, leaves_eq]
  exact Layout.flatMap_fragments n.layout

end SqlScript
