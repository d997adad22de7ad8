import Mathlib

/-! Association lists: the facts about `AList.replace` and `AList.erase` that updating a map in
    place needs and Mathlib does not state, independent of any program. -/

namespace AList

variable {α : Type*} {β : α → Type*} [DecidableEq α]

theorem kreplace_cons_eq (a : α) (b b' : β a) (l : List (Sigma β)) :
    List.kreplace a b (⟨a, b'⟩ :: l) = ⟨a, b⟩ :: l := by
  rw [List.kreplace, List.lookmap_cons_some]
  simp

theorem kreplace_cons_ne {a : α} (b : β a) {s : Sigma β} (h : a ≠ s.1) (l : List (Sigma β)) :
    List.kreplace a b (s :: l) = s :: List.kreplace a b l :=
  List.lookmap_cons_none _ l (if_neg h)

theorem dlookup_kreplace_self {a : α} (b : β a) : ∀ {l : List (Sigma β)}, a ∈ l.keys →
    (List.kreplace a b l).dlookup a = some b
  | [], h => by simp at h
  | ⟨a', b'⟩ :: l, h => by
    by_cases ha : a = a'
    · subst ha
      rw [kreplace_cons_eq, List.dlookup_cons_eq]
    · rw [kreplace_cons_ne b ha, List.dlookup_cons_ne _ _ ha]
      refine dlookup_kreplace_self b ?_
      simpa [ha] using h

theorem dlookup_kreplace_ne {a a' : α} (b : β a) (h : a' ≠ a) : ∀ l : List (Sigma β),
    (List.kreplace a b l).dlookup a' = l.dlookup a'
  | [] => rfl
  | ⟨k, v⟩ :: l => by
    by_cases hk : a = k
    · subst hk
      rw [kreplace_cons_eq, List.dlookup_cons_ne _ _ h, List.dlookup_cons_ne _ _ h]
    · rw [kreplace_cons_ne b hk]
      by_cases hk' : a' = k
      · subst hk'
        rw [List.dlookup_cons_eq, List.dlookup_cons_eq]
      · rw [List.dlookup_cons_ne _ _ hk', List.dlookup_cons_ne _ _ hk', dlookup_kreplace_ne b h l]

theorem kreplace_kreplace (a : α) (b b' : β a) : ∀ l : List (Sigma β),
    List.kreplace a b' (List.kreplace a b l) = List.kreplace a b' l
  | [] => rfl
  | ⟨k, v⟩ :: l => by
    by_cases hk : a = k
    · subst hk
      rw [kreplace_cons_eq, kreplace_cons_eq, kreplace_cons_eq]
    · rw [kreplace_cons_ne b hk, kreplace_cons_ne b' hk, kreplace_cons_ne b' hk,
        kreplace_kreplace a b b' l]

theorem kerase_kreplace (a : α) (b : β a) : ∀ l : List (Sigma β),
    (List.kreplace a b l).kerase a = l.kerase a
  | [] => rfl
  | ⟨k, v⟩ :: l => by
    by_cases hk : a = k
    · subst hk
      have h₁ : List.kerase a (⟨a, b⟩ :: l) = l := List.kerase_cons_eq rfl
      have h₂ : List.kerase a (⟨a, v⟩ :: l) = l := List.kerase_cons_eq rfl
      rw [kreplace_cons_eq, h₁, h₂]
    · rw [kreplace_cons_ne b hk, List.kerase_cons_ne hk, List.kerase_cons_ne hk, kerase_kreplace a b l]

theorem lookup_replace_self {a : α} (b : β a) {s : AList β} (h : a ∈ s) :
    (s.replace a b).lookup a = some b :=
  dlookup_kreplace_self b h

theorem lookup_replace_ne {a a' : α} (b : β a) (s : AList β) (h : a' ≠ a) :
    (s.replace a b).lookup a' = s.lookup a' :=
  dlookup_kreplace_ne b h s.entries

/-- Of two replacements the second counts. -/
theorem replace_replace (a : α) (b b' : β a) (s : AList β) :
    (s.replace a b).replace a b' = s.replace a b' :=
  AList.ext (kreplace_kreplace a b b' s.entries)

/-- Replacing a value and removing its key is removing the key. -/
theorem erase_replace (a : α) (b : β a) (s : AList β) : (s.replace a b).erase a = s.erase a :=
  AList.ext (kerase_kreplace a b s.entries)

omit [DecidableEq α] in
theorem length_entries (s : AList β) : s.keys.length = s.entries.length := by
  rw [AList.keys, List.keys, List.length_map]

/-- Removing a present key removes one entry. -/
theorem length_erase_add_one {a : α} {s : AList β} (h : a ∈ s) :
    (s.erase a).entries.length + 1 = s.entries.length := by
  have hpos : 0 < s.keys.length := List.length_pos_of_mem h
  rw [← length_entries, ← length_entries, keys_erase, List.length_erase_of_mem h]
  exact Nat.sub_add_cancel hpos

theorem length_erase {a : α} {s : AList β} (h : a ∈ s) :
    (s.erase a).entries.length < s.entries.length :=
  Nat.lt_of_succ_le (length_erase_add_one h).le

/-- The value of a present key. -/
theorem lookup_of_mem_entries {a : α} {b : β a} {s : AList β} (h : ⟨a, b⟩ ∈ s.entries) :
    s.lookup a = some b :=
  mem_lookup_iff.mpr h

theorem mem_of_lookup {a : α} {b : β a} {s : AList β} (h : s.lookup a = some b) : a ∈ s :=
  lookup_isSome.mp (by rw [h]; rfl)

theorem mem_entries_of_lookup {a : α} {b : β a} {s : AList β} (h : s.lookup a = some b) :
    ⟨a, b⟩ ∈ s.entries :=
  mem_lookup_iff.mp h

end AList
