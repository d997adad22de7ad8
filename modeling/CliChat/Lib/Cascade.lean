import Mathlib

/-! A broadcast that removes members and a removal that broadcasts, independent of any program.

    `send m s` offers a message to every member and returns the members it failed for; `drop i s`
    takes a member out and returns the message that announces it, if any. A broadcast offers its
    message and then drops every member that failed and is still there, and each drop broadcasts
    its announcement before the next one: two mutually recursive procedures over a shrinking set,
    with no measure in sight. `broadcast` is that recursion, with fuel; `purge` is the same process
    as ONE loop over a worklist, terminating because a round either shortens the worklist or drops
    a member. `broadcast_eq_purge` says that with more fuel than members the two agree, and
    `purge_invariant` is the loop rule from which every property of a broadcast follows. -/

/-- The operations of a cascade, with the facts that make it terminate. -/
structure Cascade (σ ι μ : Type*) where
  size : σ → ℕ
  present : ι → σ → Bool
  drop : ι → σ → Option μ × σ
  send : μ → σ → List ι × σ
  size_drop : ∀ i s, present i s = true → size (drop i s).2 < size s
  size_send : ∀ m s, size (send m s).2 ≤ size s

namespace Cascade

variable {σ ι μ : Type*} (C : Cascade σ ι μ)

/-- Drop the listed members that are still there; `bc` broadcasts an announcement. -/
def removeAll (bc : μ → σ → Option σ) : List ι → σ → Option σ
  | [], s => some s
  | i :: rest, s =>
    if C.present i s then
      match C.drop i s with
      | (none, s₁) => removeAll bc rest s₁
      | (some m, s₁) => (bc m s₁).bind (removeAll bc rest)
    else removeAll bc rest s

/-- The mutual recursion, cut off after `fuel` nested broadcasts. -/
def broadcast : ℕ → μ → σ → Option σ
  | 0, _, _ => none
  | fuel + 1, m, s => C.removeAll (broadcast fuel) (C.send m s).1 (C.send m s).2

/-- The same process as a loop over the members still to be dropped. -/
def purge : List ι → σ → σ
  | [], s => s
  | i :: rest, s =>
    if _h : C.present i s = true then
      match _hd : C.drop i s with
      | (none, s₁) => purge rest s₁
      | (some m, s₁) => purge ((C.send m s₁).1 ++ rest) (C.send m s₁).2
    else purge rest s
termination_by work s => (C.size s, work.length)
decreasing_by
  · have hdrop := C.size_drop i s _h
    rw [_hd] at hdrop
    exact Prod.Lex.left _ _ hdrop
  · have hdrop := C.size_drop i s _h
    rw [_hd] at hdrop
    exact Prod.Lex.left _ _ (lt_of_le_of_lt (C.size_send m s₁) hdrop)
  · exact Prod.Lex.right _ (by simp)

@[simp] theorem purge_nil (s : σ) : C.purge [] s = s := by rw [purge]

theorem purge_absent {i : ι} {s : σ} (h : C.present i s = false) (rest : List ι) :
    C.purge (i :: rest) s = C.purge rest s := by
  rw [purge, dif_neg (by simp [h])]

theorem purge_silent {i : ι} {s s₁ : σ} (h : C.present i s = true)
    (hd : C.drop i s = (none, s₁)) (rest : List ι) :
    C.purge (i :: rest) s = C.purge rest s₁ := by
  rw [purge, dif_pos h]
  split
  · rename_i heq
    rw [hd] at heq
    simp only [Prod.mk.injEq, true_and] at heq
    rw [heq]
  · rename_i heq
    rw [hd] at heq
    simp at heq

theorem purge_announced {i : ι} {s s₁ : σ} {m : μ} (h : C.present i s = true)
    (hd : C.drop i s = (some m, s₁)) (rest : List ι) :
    C.purge (i :: rest) s = C.purge ((C.send m s₁).1 ++ rest) (C.send m s₁).2 := by
  rw [purge, dif_pos h]
  split
  · rename_i heq
    rw [hd] at heq
    simp at heq
  · rename_i heq
    rw [hd] at heq
    simp only [Prod.mk.injEq, Option.some.injEq] at heq
    rw [← heq.1, ← heq.2]

/-- LOOP RULE: an invariant over the worklist and the state that each round keeps holds when the
    worklist is empty. -/
theorem purge_invariant {I : List ι → σ → Prop}
    (absent : ∀ i rest s, I (i :: rest) s → C.present i s = false → I rest s)
    (silent : ∀ i rest s s₁, I (i :: rest) s → C.present i s = true →
      C.drop i s = (none, s₁) → I rest s₁)
    (announced : ∀ i rest s m s₁, I (i :: rest) s → C.present i s = true →
      C.drop i s = (some m, s₁) → I ((C.send m s₁).1 ++ rest) (C.send m s₁).2) :
    ∀ work s, I work s → I [] (C.purge work s) := by
  intro work s
  induction work, s using purge.induct C with
  | case1 s => intro h; rw [purge_nil]; exact h
  | case2 i rest s hp s₁ hd ih =>
    intro h
    rw [purge_silent C hp hd]
    exact ih (silent i rest s s₁ h hp hd)
  | case3 i rest s hp m s₁ hd ih =>
    intro h
    rw [purge_announced C hp hd]
    exact ih (announced i rest s m s₁ h hp hd)
  | case4 i rest s hp ih =>
    intro h
    have hp' : C.present i s = false := by simpa using hp
    rw [purge_absent C hp']
    exact ih (absent i rest s h hp')

/-- Working off a concatenation is working off the parts in order. -/
theorem purge_append (work rest : List ι) (s : σ) :
    C.purge (work ++ rest) s = C.purge rest (C.purge work s) := by
  induction work, s using purge.induct C with
  | case1 s => simp
  | case2 i work s hp s₁ hd ih =>
    rw [List.cons_append, purge_silent C hp hd, purge_silent C hp hd, ih]
  | case3 i work s hp m s₁ hd ih =>
    rw [List.cons_append, purge_announced C hp hd, purge_announced C hp hd, ← List.append_assoc, ih]
  | case4 i work s hp ih =>
    have hp' : C.present i s = false := by simpa using hp
    rw [List.cons_append, purge_absent C hp', purge_absent C hp', ih]

theorem size_purge (work : List ι) (s : σ) : C.size (C.purge work s) ≤ C.size s := by
  refine C.purge_invariant (I := fun _ t => C.size t ≤ C.size s) ?_ ?_ ?_ work s le_rfl
  · intro i rest t h _; exact h
  · intro i rest t s₁ h hp hd
    have := C.size_drop i t hp
    rw [hd] at this
    exact le_trans this.le h
  · intro i rest t m s₁ h hp hd
    have := C.size_drop i t hp
    rw [hd] at this
    exact le_trans (C.size_send m s₁) (le_trans this.le h)

/-- One level of the recursion, when every nested broadcast already agrees with the loop. -/
theorem removeAll_eq_purge {bc : μ → σ → Option σ} (bound : ℕ)
    (hbc : ∀ m s, C.size s < bound → bc m s = some (C.purge (C.send m s).1 (C.send m s).2)) :
    ∀ work s, C.size s ≤ bound → C.removeAll bc work s = some (C.purge work s)
  | [], s, _ => by rw [removeAll, purge_nil]
  | i :: rest, s, hs => by
    rw [removeAll]
    by_cases hp : C.present i s = true
    · have hlt := C.size_drop i s hp
      rw [if_pos hp]
      rcases hd : C.drop i s with ⟨_ | m, s₁⟩ <;> rw [hd] at hlt
      · rw [purge_silent C hp hd]
        exact removeAll_eq_purge bound hbc rest s₁ (le_trans hlt.le hs)
      · dsimp only
        rw [purge_announced C hp hd, hbc m s₁ (lt_of_lt_of_le hlt hs), Option.bind_some,
          purge_append]
        refine removeAll_eq_purge bound hbc rest _ ?_
        exact le_trans (C.size_purge _ _) (le_trans (C.size_send m s₁) (le_trans hlt.le hs))
    · rw [if_neg hp, purge_absent C (by simpa using hp)]
      exact removeAll_eq_purge bound hbc rest s hs

/-- TERMINATION and REFINEMENT: with more fuel than members, the mutual recursion returns, and it
    returns what the loop computes. -/
theorem broadcast_eq_purge : ∀ fuel m s, C.size s < fuel →
    C.broadcast fuel m s = some (C.purge (C.send m s).1 (C.send m s).2)
  | 0, _, _, h => absurd h (Nat.not_lt_zero _)
  | fuel + 1, m, s, h => by
    rw [broadcast]
    refine C.removeAll_eq_purge fuel (broadcast_eq_purge fuel) _ _ ?_
    exact le_trans (C.size_send m s) (Nat.lt_succ_iff.mp h)

end Cascade
