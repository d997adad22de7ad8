import CliChat.Common.NetworkSession

/-! @src client/src/ncursesUI.cpp | name:to_utf8, from_utf8 | scheme:parameter

    The two conversions between strings and wide strings. They belong to a library that is not
    there; `Lawful` is what its documentation says: they convert well-formed text, and throw
    (`none`) for everything else.

        utf32to8 : wide string ─▶ UTF-8        utf8to32 : UTF-8 ─▶ wide string -/

namespace CliChat

/-- `wchar_t` and `wint_t`. -/
abbrev WChar := ℕ

abbrev WString := List WChar

/-- `L'\n'`. -/
def newline : WChar := 10

/-- The UTF-8 encoding of a text. -/
def encodeUtf8 (cs : List Char) : Bytes := cs.flatMap String.utf8EncodeChar

/-- The wide string of a text. -/
def widen (cs : List Char) : WString := cs.map Char.toNat

/-- The conversions of the library. -/
structure Utf8 where
  utf32to8 : WString → Option Bytes
  utf8to32 : Bytes → Option WString

/-- They are defined exactly on what encodes a text. -/
structure Utf8.Lawful (u : Utf8) : Prop where
  encodes : ∀ ws bs, u.utf32to8 ws = some bs ↔ ∃ cs, ws = widen cs ∧ bs = encodeUtf8 cs
  decodes : ∀ bs ws, u.utf8to32 bs = some ws ↔ ∃ cs, bs = encodeUtf8 cs ∧ ws = widen cs

theorem widen_injective : Function.Injective widen :=
  List.map_injective_iff.mpr fun _ _ h => Char.ext (UInt32.toNat_inj.mp h)

/-- A wide string of code points is the wide string of a text. -/
theorem exists_widen {ws : WString} (h : ∀ w ∈ ws, w.isValidChar) : ∃ cs, ws = widen cs := by
  refine ⟨ws.map Char.ofNat, ?_⟩
  rw [widen, List.map_map]
  refine (List.map_id ws).symm.trans (List.map_congr_left fun w hw => ?_)
  rw [Function.comp_apply, Char.toNat_ofNat, if_pos (h w hw), id]

/-! ### The laws are satisfiable -/

/-- The conversions by the decoder of Lean's own strings. -/
def Utf8.core : Utf8 where
  utf32to8 ws := if ∀ w ∈ ws, w.isValidChar then some (encodeUtf8 (ws.map Char.ofNat)) else none
  utf8to32 bs := (bs.toByteArray.utf8Decode?).map fun cs => widen cs.toList

theorem Utf8.core_lawful : Utf8.core.Lawful where
  encodes := by
    intro ws bs
    simp only [Utf8.core, Option.ite_none_right_eq_some, Option.some.injEq]
    constructor
    · rintro ⟨hvalid, rfl⟩
      obtain ⟨cs, rfl⟩ := exists_widen hvalid
      exact ⟨cs, rfl, by simp [widen, Function.comp_def]⟩
    · rintro ⟨cs, rfl, rfl⟩
      refine ⟨?_, by simp [widen, Function.comp_def]⟩
      intro w hw
      obtain ⟨c, -, rfl⟩ := List.mem_map.mp hw
      exact c.valid
  decodes := by
    intro bs ws
    simp only [Utf8.core, Option.map_eq_some_iff]
    constructor
    · rintro ⟨cs, hcs, rfl⟩
      have hvalid := ByteArray.isSome_utf8Decode?_iff.mp (by rw [hcs]; rfl)
      obtain ⟨ds, hds⟩ := hvalid
      have hbs : bs = encodeUtf8 ds := by
        have hlist := congrArg (fun b : ByteArray => b.data.toList) hds
        simpa [List.utf8Encode, encodeUtf8] using hlist
      rw [hds, List.utf8Decode?_utf8Encode] at hcs
      cases hcs
      exact ⟨ds, hbs, rfl⟩
    · rintro ⟨cs, rfl, rfl⟩
      exact ⟨cs.toArray, List.utf8Decode?_utf8Encode, rfl⟩

end CliChat
