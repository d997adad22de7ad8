import Mathlib

/-! Transfers of a buffer in partial steps, independent of any program.

    A loop asks for the rest of the buffer again and again; each call transfers as much of it as the
    other side likes, or nothing, or fails. `Progress` is what the successful calls of such a loop
    have in common: each starts where the one before it ended and asks for all that is left. It says
    at once that no byte is skipped or repeated, that no call leaves the buffer, and how many calls
    there are.

        0        t              u           size
        │░░░░░░░░│░ some n ░│░░░│           │
                 └── the calls ─┘└─ rest ───┘ -/

namespace PartialTransfer

/-- What a call for `n` bytes returns: a count of at most `n`, or a failure. -/
abbrev Answer (n : ℕ) := Option (Fin (n + 1))

/-- A call for the `length` bytes from `offset` on, and what it returned. -/
structure Call where
  offset : ℕ
  length : ℕ
  result : Option ℕ
  deriving DecidableEq

/-- The calls take a buffer of `size` bytes from `t` to `u`. -/
inductive Progress (size : ℕ) : ℕ → List Call → ℕ → Prop
  | nil (t : ℕ) : Progress size t [] t
  | cons {t n u : ℕ} {cs : List Call} (ht : t < size) (hn : 0 < n) (hle : n ≤ size - t)
      (h : Progress size (t + n) cs u) : Progress size t (⟨t, size - t, some n⟩ :: cs) u

/-- The bytes of `buf` that the calls transferred, one after the other. -/
def transferred {α : Type*} (buf : List α) (cs : List Call) : List α :=
  cs.flatMap fun c => (buf.drop c.offset).take (c.result.getD 0)

/-- A call is for some bytes, and for none outside the buffer. -/
def Call.Within (size : ℕ) (c : Call) : Prop := 0 < c.length ∧ c.offset + c.length ≤ size

variable {size t u : ℕ} {cs : List Call}

theorem Call.within_rest (ht : t < size) (result : Option ℕ) :
    Call.Within size ⟨t, size - t, result⟩ := by
  refine ⟨Nat.sub_pos_of_lt ht, ?_⟩
  rw [Nat.add_sub_cancel' ht.le]

namespace Progress

theorem le (h : Progress size t cs u) : t ≤ u := by
  induction h with
  | nil t => exact le_rfl
  | cons ht hn hle h ih => omega

theorem le_size (h : Progress size t cs u) (ht : t ≤ size) : u ≤ size := by
  induction h with
  | nil t => exact ht
  | cons ht hn hle h ih => exact ih (by omega)

/-- Every call transfers at least one byte. -/
theorem length_le (h : Progress size t cs u) : cs.length + t ≤ u := by
  induction h with
  | nil t => simp
  | cons ht hn hle h ih =>
    rw [List.length_cons]
    omega

theorem within (h : Progress size t cs u) : ∀ c ∈ cs, c.Within size := by
  induction h with
  | nil t => intro c hc; cases hc
  | cons ht hn hle h ih =>
    intro c hc
    rcases List.mem_cons.mp hc with rfl | hc
    · exact Call.within_rest ht _
    · exact ih c hc

/-- No call fails or transfers nothing. -/
theorem positive (h : Progress size t cs u) : ∀ c ∈ cs, ∃ n, c.result = some (n + 1) := by
  induction h with
  | nil t => intro c hc; cases hc
  | @cons t n u cs ht hn hle h ih =>
    intro c hc
    rcases List.mem_cons.mp hc with rfl | hc
    · exact ⟨n - 1, by rw [Nat.sub_add_cancel hn]⟩
    · exact ih c hc

/-- EXACT: the calls transfer the bytes from `t` to `u`, each of them once. -/
theorem transferred {α : Type*} (buf : List α) (h : Progress size t cs u) :
    transferred buf cs = (buf.drop t).take (u - t) := by
  induction h with
  | nil t => simp [PartialTransfer.transferred]
  | @cons t n u cs ht hn hle h ih =>
    have hle := h.le
    have hsplit : u - t = n + (u - (t + n)) := by omega
    rw [hsplit, List.take_add, List.drop_drop, ← ih]
    rfl

end Progress

theorem transferred_append {α : Type*} (buf : List α) (cs ds : List Call) :
    transferred buf (cs ++ ds) = transferred buf cs ++ transferred buf ds := List.flatMap_append

end PartialTransfer
