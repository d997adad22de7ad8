import CliChat.Common.Socket

/-! @src server/src/main.cpp, client/src/main.cpp | name:std::stoi | scheme:decimal numbers

    The conversion that both programs apply to their port argument: blanks, a sign and decimal
    digits are read, and whatever follows them is ignored.

        ␣␣ - 8080 xyz  ─▶  -8080 -/

namespace CliChat

/-- `isspace`. -/
def isSpace (b : UInt8) : Bool := b = 32 || (9 ≤ b && b ≤ 13)

/-- `isdigit`. -/
def isDigit (b : UInt8) : Bool := 48 ≤ b && b ≤ 57

/-- Whether there is a minus, and what follows the sign. -/
def stoiSign (s : Bytes) : Bool × Bytes :=
  if s.head? = some 45 then (true, s.tail)
  else if s.head? = some 43 then (false, s.tail)
  else (false, s)

/-- The number that decimal digits stand for. -/
def digitsValue (ds : Bytes) : ℕ := ds.foldl (fun n d => 10 * n + (d.toNat - 48)) 0

/-- `std::stoi`; `none` when it throws: there are no digits, or the number is not an `int`. -/
def stoi (arg : Bytes) : Option ℤ :=
  let s := stoiSign (arg.dropWhile isSpace)
  let ds := s.2.takeWhile isDigit
  let n : ℤ := if s.1 then -digitsValue ds else digitsValue ds
  if ds = [] then none
  else if -2 ^ 31 ≤ n ∧ n < 2 ^ 31 then some n
  else none

/-- What `stoi` yields is an `int`. -/
theorem stoi_range {arg : Bytes} {v : ℤ} (h : stoi arg = some v) : -2 ^ 31 ≤ v ∧ v < 2 ^ 31 := by
  unfold stoi at h
  dsimp only at h
  split_ifs at h with hds hneg hrange <;> cases h <;> assumption

/-! ### Every int is yielded -/

/-- The digits of a number, with a zero in front. -/
def decimal (n : ℕ) : Bytes := (48 :: (Nat.digits 10 n).reverse.map fun d => UInt8.ofNat (d + 48))

theorem digitsValue_concat (ds : Bytes) (d : UInt8) :
    digitsValue (ds ++ [d]) = 10 * digitsValue ds + (d.toNat - 48) := by
  rw [digitsValue, List.foldl_append]
  rfl

theorem isDigit_ofNat {d : ℕ} (hd : d < 10) : isDigit (UInt8.ofNat (d + 48)) = true := by
  interval_cases d <;> rfl

theorem isDigit_of_mem_decimal {n : ℕ} : ∀ d ∈ decimal n, isDigit d = true := by
  intro d hd
  rcases List.mem_cons.mp hd with rfl | hd
  · rfl
  · obtain ⟨e, he, rfl⟩ := List.mem_map.mp hd
    exact isDigit_ofNat (Nat.digits_lt_base (by decide) (List.mem_reverse.mp he))

theorem digitsValue_decimal (n : ℕ) : digitsValue (decimal n) = n := by
  have hfold : ∀ l : List ℕ, (∀ d ∈ l, d < 10) →
      digitsValue (48 :: l.reverse.map fun d => UInt8.ofNat (d + 48)) = Nat.ofDigits 10 l := by
    intro l hl
    induction l with
    | nil => rfl
    | cons d l ih =>
      have hd : (UInt8.ofNat (d + 48)).toNat - 48 = d := by
        have hlt := hl d List.mem_cons_self
        simp only [UInt8.toNat_ofNat']
        omega
      rw [List.reverse_cons, List.map_append, ← List.cons_append, List.map_singleton,
        digitsValue_concat, ih fun e he => hl e (List.mem_cons_of_mem d he), hd, Nat.ofDigits_cons]
      ring
  rw [decimal, hfold _ fun d hd => Nat.digits_lt_base (by decide) hd, Nat.ofDigits_digits]

/-- `stoi` yields every `int`, and nothing else. -/
theorem exists_stoi {v : ℤ} : (∃ arg, stoi arg = some v) ↔ -2 ^ 31 ≤ v ∧ v < 2 ^ 31 := by
  refine ⟨fun ⟨_, h⟩ => stoi_range h, fun h => ?_⟩
  have hds : (decimal v.natAbs).takeWhile isDigit = decimal v.natAbs :=
    List.takeWhile_eq_self_iff.mpr isDigit_of_mem_decimal
  have hne : decimal v.natAbs ≠ [] := List.cons_ne_nil _ _
  rcases le_or_gt 0 v with hv | hv
  · refine ⟨decimal v.natAbs, ?_⟩
    have hsign : stoiSign ((decimal v.natAbs).dropWhile isSpace) = (false, decimal v.natAbs) := rfl
    have hval : (v.natAbs : ℤ) = v := Int.natAbs_of_nonneg hv
    simp only [stoi, hsign, hds, if_neg hne, digitsValue_decimal, hval, Bool.false_eq_true, if_false]
    rw [if_pos h]
  · refine ⟨45 :: decimal v.natAbs, ?_⟩
    have hsign : stoiSign ((45 :: decimal v.natAbs).dropWhile isSpace) = (true, decimal v.natAbs) := rfl
    have hval : -(v.natAbs : ℤ) = v := by omega
    simp only [stoi, hsign, hds, if_neg hne, digitsValue_decimal, hval, if_true]
    rw [if_pos h]

example : stoi [32, 45, 49, 50, 120] = some (-12) := by decide

end CliChat
