import Mathlib

/-! Length-prefixed framing of byte strings, independent of any program.

    A frame is a `k`-byte big-endian length followed by that many bytes. `beEncode`/`beDecode` are
    the fixed-width integer code, `frame` the encoder, `unframe` the decoder of one frame from the
    front of a stream. The results are the round trips in both directions: `unframe` inverts
    `frame` whatever follows it, and what `unframe` accepts is exactly a frame and the rest.

        stream:  ┌ length (k bytes) ┬ payload ┐┌ length ┬ ...
                 └──────── frame p ───────────┘└─ rest ─ -/

namespace Framing

/-- The `k`-byte big-endian code of `n` (of `n mod 256^k`). -/
def beEncode : ℕ → ℕ → List UInt8
  | 0, _ => []
  | k + 1, n => beEncode k (n / 256) ++ [UInt8.ofNat n]

/-- The number that a big-endian byte string stands for. -/
def beDecode (l : List UInt8) : ℕ := l.foldl (fun acc b => acc * 256 + b.toNat) 0

@[simp] theorem beEncode_length : ∀ k n, (beEncode k n).length = k
  | 0, _ => rfl
  | k + 1, n => by rw [beEncode, List.length_append, beEncode_length k]; rfl

@[simp] theorem beDecode_nil : beDecode [] = 0 := rfl

theorem beDecode_concat (l : List UInt8) (b : UInt8) :
    beDecode (l ++ [b]) = beDecode l * 256 + b.toNat := by
  rw [beDecode, List.foldl_append]; rfl

/-- Decoding undoes encoding, up to the width of the code. -/
theorem beDecode_beEncode : ∀ k n, beDecode (beEncode k n) = n % 256 ^ k
  | 0, n => by simp [beEncode, Nat.mod_one]
  | k + 1, n => by
    rw [beEncode, beDecode_concat, beDecode_beEncode k]
    have hb : (UInt8.ofNat n).toNat = n % 256 := by simp
    rw [hb, pow_succ', Nat.mod_mul]
    ring

theorem beDecode_lt : ∀ l : List UInt8, beDecode l < 256 ^ l.length := by
  intro l
  induction l using List.reverseRecOn with
  | nil => simp
  | append_singleton l b ih =>
    have hb : b.toNat < 256 := b.toNat_lt
    rw [beDecode_concat, List.length_append, List.length_singleton, pow_succ]
    omega

/-- Encoding undoes decoding: a `k`-byte string is the code of its own value. -/
theorem beEncode_beDecode : ∀ l : List UInt8, beEncode l.length (beDecode l) = l := by
  intro l
  induction l using List.reverseRecOn with
  | nil => rfl
  | append_singleton l b ih =>
    have hb : b.toNat < 256 := b.toNat_lt
    have hdiv : (beDecode l * 256 + b.toNat) / 256 = beDecode l := by omega
    have hlast : UInt8.ofNat (beDecode l * 256 + b.toNat) = b := by
      apply UInt8.toNat_inj.mp
      simp only [UInt8.toNat_ofNat']
      omega
    rw [List.length_append, List.length_singleton, beEncode, beDecode_concat, hdiv, ih, hlast]

/-- A big-endian code of zero has only zero bytes. -/
theorem beDecode_eq_zero {l : List UInt8} : beDecode l = 0 ↔ ∀ b ∈ l, b = 0 := by
  induction l using List.reverseRecOn with
  | nil => simp
  | append_singleton l b ih =>
    rw [beDecode_concat]
    constructor
    · intro h
      have hl : beDecode l = 0 := by omega
      have hb : b = 0 := UInt8.toNat_inj.mp (by simpa using (by omega : b.toNat = 0))
      intro x hx
      rcases List.mem_append.mp hx with hx | hx
      · exact ih.mp hl x hx
      · rw [List.mem_singleton.mp hx, hb]
    · intro h
      have hl : beDecode l = 0 := ih.mpr fun x hx => h x (List.mem_append_left _ hx)
      have hb : b = 0 := h b (by simp)
      rw [hl, hb]; rfl

/-! ### Frames -/

variable (k : ℕ)

/-- One frame: the `k`-byte length of `p`, then `p`. -/
def frame (p : List UInt8) : List UInt8 := beEncode k p.length ++ p

/-- Take one frame off the front of a stream; `none` when no whole frame is there. -/
def unframe (s : List UInt8) : Option (List UInt8 × List UInt8) :=
  if s.length < k then none
  else
    let n := beDecode (s.take k)
    let body := s.drop k
    if body.length < n then none else some (body.take n, body.drop n)

@[simp] theorem frame_length (p : List UInt8) : (frame k p).length = k + p.length := by
  simp [frame]

/-- ROUND TRIP: a frame in front of any stream decodes to its payload and leaves the stream. -/
theorem unframe_frame {p : List UInt8} (hp : p.length < 256 ^ k) (rest : List UInt8) :
    unframe k (frame k p ++ rest) = some (p, rest) := by
  have htake : (frame k p ++ rest).take k = beEncode k p.length := by
    rw [frame, List.append_assoc, List.take_left' (beEncode_length k _)]
  have hdrop : (frame k p ++ rest).drop k = p ++ rest := by
    rw [frame, List.append_assoc, List.drop_left' (beEncode_length k _)]
  have hlen : ¬ (frame k p ++ rest).length < k := by simp; omega
  rw [unframe, if_neg hlen]
  simp only [htake, hdrop, beDecode_beEncode, Nat.mod_eq_of_lt hp]
  simp

/-- WELL FORMED: what `unframe` accepts is a frame, of a payload that fits the length field, and
    the rest of the stream. -/
theorem unframe_sound {s p rest : List UInt8} (h : unframe k s = some (p, rest)) :
    s = frame k p ++ rest ∧ p.length < 256 ^ k := by
  unfold unframe at h
  split at h
  · exact absurd h (by simp)
  · rename_i hk
    dsimp only at h
    split at h
    · exact absurd h (by simp)
    · rename_i hn
      simp only [Option.some.injEq, Prod.mk.injEq] at h
      obtain ⟨rfl, rfl⟩ := h
      have htk : (s.take k).length = k := by rw [List.length_take]; omega
      have hlen : ((s.drop k).take (beDecode (s.take k))).length = beDecode (s.take k) := by
        rw [List.length_take]; omega
      have hcode : beEncode k (beDecode (s.take k)) = s.take k := by
        have := beEncode_beDecode (s.take k)
        rwa [htk] at this
      refine ⟨?_, ?_⟩
      · rw [frame, hlen, hcode, List.append_assoc, List.take_append_drop, List.take_append_drop]
      · have := beDecode_lt (s.take k)
        rw [htk] at this
        rwa [hlen]

end Framing
