import Mathlib

/-! A list with a cursor, independent of any program. The cursor splits the list in two parts, so it
    can stand nowhere else than between two elements or at an end. Each operation is stated on the
    parts, and read off on the text and the position of the cursor.

        a b c │ d e        text = a b c d e, pos = 3 -/

/-- The parts of a list before and after a cursor. -/
@[ext] structure Zipper (α : Type*) where
  left : List α
  right : List α
  deriving DecidableEq

namespace Zipper

variable {α : Type*} (z : Zipper α)

def empty : Zipper α := ⟨[], []⟩

def text : List α := z.left ++ z.right

def pos : ℕ := z.left.length

def insert (a : α) : Zipper α := ⟨z.left ++ [a], z.right⟩

def deleteLeft : Zipper α := ⟨z.left.dropLast, z.right⟩

def deleteRight : Zipper α := ⟨z.left, z.right.tail⟩

def moveLeft : Zipper α := ⟨z.left.dropLast, z.left.getLast?.toList ++ z.right⟩

def moveRight : Zipper α := ⟨z.left ++ z.right.head?.toList, z.right.tail⟩

def home : Zipper α := ⟨[], z.text⟩

def toEnd : Zipper α := ⟨z.text, []⟩

theorem pos_le : z.pos ≤ z.text.length := by
  rw [pos, text, List.length_append]
  exact Nat.le_add_right _ _

@[simp] theorem text_take : z.text.take z.pos = z.left := List.take_left

@[simp] theorem text_drop : z.text.drop z.pos = z.right := List.drop_left

/-! ### Edits -/

@[simp] theorem insert_pos (a : α) : (z.insert a).pos = z.pos + 1 := List.length_append

theorem insert_text (a : α) : (z.insert a).text = z.text.take z.pos ++ [a] ++ z.text.drop z.pos := by
  rw [text_take, text_drop]
  rfl

@[simp] theorem deleteLeft_pos : z.deleteLeft.pos = z.pos - 1 := List.length_dropLast

theorem deleteLeft_text : z.deleteLeft.text = z.text.take (z.pos - 1) ++ z.text.drop z.pos := by
  have hleft : z.text.take (z.pos - 1) = z.left.dropLast := by
    rw [List.dropLast_eq_take, text, pos, List.take_append_of_le_length (Nat.sub_le _ _)]
  rw [hleft, text_drop]
  rfl

@[simp] theorem deleteRight_pos : z.deleteRight.pos = z.pos := rfl

theorem deleteRight_text : z.deleteRight.text = z.text.take z.pos ++ z.text.drop (z.pos + 1) := by
  rw [text_take, ← List.drop_drop, text_drop, List.drop_one]
  rfl

/-! ### Moves -/

@[simp] theorem moveLeft_pos : z.moveLeft.pos = z.pos - 1 := List.length_dropLast

@[simp] theorem moveLeft_text : z.moveLeft.text = z.text := by
  rcases List.eq_nil_or_concat z.left with hnil | ⟨l, a, hleft⟩
  · simp [moveLeft, text, hnil]
  · simp [moveLeft, text, hleft]

theorem moveRight_pos : z.moveRight.pos = if z.pos < z.text.length then z.pos + 1 else z.pos := by
  obtain ⟨l, r⟩ := z
  cases r <;> simp [moveRight, pos, text]

@[simp] theorem moveRight_text : z.moveRight.text = z.text := by
  obtain ⟨l, r⟩ := z
  cases r <;> simp [moveRight, text]

@[simp] theorem home_pos : z.home.pos = 0 := rfl

@[simp] theorem home_text : z.home.text = z.text := rfl

@[simp] theorem toEnd_pos : z.toEnd.pos = z.text.length := rfl

@[simp] theorem toEnd_text : z.toEnd.text = z.text := List.append_nil _

end Zipper
