import SqlScript.Error

/-!
# Lists with at least one element

Most lists of SQL must not be empty. Such a list is a head and a tail, and `toList` is its view:

* `toList_push`: what one more element does to the view;
* `ofList_eq_ok_iff`: a list is accepted exactly when it is the view of the result.
-/

namespace SqlScript

/-- A list with at least one element. -/
structure NonEmptyList (α : Type u) where
  head : α
  tail : List α
  deriving DecidableEq, Repr

namespace NonEmptyList

variable {α : Type u}

/-- The elements in order. -/
def toList (xs : NonEmptyList α) : List α :=
  xs.head :: xs.tail

/-- The list of one element. -/
def singleton (x : α) : NonEmptyList α :=
  ⟨x, []⟩

/-- The last element. -/
def last (xs : NonEmptyList α) : α :=
  xs.tail.getLastD xs.head

/-- The number of elements. -/
def length (xs : NonEmptyList α) : Nat :=
  xs.tail.length + 1

/-- One more element at the back. -/
def push (xs : NonEmptyList α) (x : α) : NonEmptyList α :=
  ⟨xs.head, xs.tail ++ [x]⟩

/-- Accepts a list with an element; an error names the kind of list that was empty. -/
def ofList (kind : String) : List α → Except Error (NonEmptyList α)
  | [] => .error (.emptyList kind)
  | x :: xs => .ok ⟨x, xs⟩

/-- Accepts a list with an element, where the list has no name of its own. -/
def required (xs : List α) : Except Error (NonEmptyList α) :=
  ofList "required" xs

@[simp] theorem toList_mk (x : α) (xs : List α) : (mk x xs).toList = x :: xs := rfl

@[simp] theorem toList_push (xs : NonEmptyList α) (x : α) :
    (xs.push x).toList = xs.toList ++ [x] := rfl

@[simp] theorem length_toList (xs : NonEmptyList α) : xs.toList.length = xs.length := rfl

theorem toList_ne_nil (xs : NonEmptyList α) : xs.toList ≠ [] := by
  simp [toList]

theorem getLast?_toList (xs : NonEmptyList α) : xs.toList.getLast? = some xs.last := by
  simp [toList, last, List.getLast?_cons]

theorem ofList_eq_ok_iff {kind : String} {l : List α} {xs : NonEmptyList α} :
    ofList kind l = .ok xs ↔ l = xs.toList := by
  cases l with
  | nil => simp [ofList, toList]
  | cons x l =>
    cases xs
    simp [ofList, toList]

end NonEmptyList

end SqlScript
