import CliChat.Common.NetworkSession

/-! @src common/src/network_session.cpp | name:RecvPacket | scheme:frame decoder

    What `RecvPacket` makes of every stream. On a whole frame it inverts `SendPacket` however the
    kernel cuts the transfer (`recvPacket_frame`, `packets_roundTrip`). On a stream that stops
    inside a frame the ending decides (`recvPacket_header`, `recvPacket_body`): an error is
    reported, but `recv_all` reports an end of stream by a SHORT COUNT, which `RecvPacket` takes
    for a complete read unless it is zero.

        bytes left     alive    error     eof
        none           blocks   nullopt   nullopt
        part of header blocks   nullopt   nullopt, or an empty packet when the part is all zero
        header only    blocks   nullopt   nullopt
        part of body   blocks   nullopt   the part, padded with zeros -/

namespace CliChat

open Framing

/-! ### One call, by the shape of the stream -/

/-- A whole frame in front of the stream is returned and removed, for every cutting and ending. -/
theorem recvPacket_frame {p : Bytes} (rest : Bytes) (hp : p.length < 2 ^ 32) (ending : Ending)
    (cuts : List ℕ) :
    ∃ cuts', recvPacket ⟨frame 4 p ++ rest, ending, cuts⟩ = .done (some p) ⟨rest, ending, cuts'⟩ := by
  have htake : (frame 4 p ++ rest).take 4 = beEncode 4 p.length := by
    rw [frame, List.append_assoc, List.take_left' (beEncode_length 4 _)]
  have hdrop : (frame 4 p ++ rest).drop 4 = p ++ rest := by
    rw [frame, List.append_assoc, List.drop_left' (beEncode_length 4 _)]
  have hlen : beDecode (fill 4 (beEncode 4 p.length)) = p.length := by
    rw [fill, beEncode_length, Nat.sub_self, List.replicate_zero, List.append_nil,
      beDecode_beEncode, Nat.mod_eq_of_lt (by simpa using hp)]
  obtain ⟨cuts₁, h₁⟩ := recvAll_full ⟨frame 4 p ++ rest, ending, cuts⟩ 4
    (by rw [List.length_append, frame_length]; omega)
  rw [recvPacket, h₁]
  simp only [htake, hdrop, hlen]
  by_cases h0 : p.length = 0
  · have : p = [] := List.length_eq_zero_iff.mp h0
    exact ⟨cuts₁, by simp [this]⟩
  · obtain ⟨cuts₂, h₂⟩ := recvAll_full ⟨p ++ rest, ending, cuts₁⟩ p.length (by simp)
    exact ⟨cuts₂, by simp [h₂, h0, fill]⟩

/-- What a call makes of a stream that stops inside a frame, where an orderly end gives `r`. -/
@[simp] def cutShort (r : Option Bytes) (cuts : List ℕ) : Ending → Recvd (Option Bytes)
  | .alive => .blocks
  | .error => .done none ⟨[], .error, cuts⟩
  | .eof => .done r ⟨[], .eof, cuts⟩

theorem cutShort_done {r r' : Option Bytes} {cuts : List ℕ} {ending : Ending} {ch : Chan}
    (h : cutShort r cuts ending = .done r' ch) : ch = ⟨[], ending, cuts⟩ ∧ ending ≠ .alive := by
  cases ending with
  | alive => cases h
  | error =>
    cases h
    exact ⟨rfl, by simp⟩
  | eof =>
    cases h
    exact ⟨rfl, by simp⟩

/-- A stream that stops inside the header. -/
theorem recvPacket_header (ch : Chan) (h : ch.bytes.length < 4) :
    ∃ cuts, recvPacket ch = cutShort
      (if ch.bytes ≠ [] ∧ beDecode (fill 4 ch.bytes) = 0 then some [] else none) cuts ch.ending := by
  obtain ⟨cuts, h₁⟩ := recvAll_short ch 4 h
  rw [recvPacket, h₁]
  cases he : ch.ending with
  | alive => exact ⟨cuts, rfl⟩
  | error => exact ⟨cuts, by simp [shortRead]⟩
  | eof =>
    simp only [shortRead]
    by_cases hnil : ch.bytes = []
    · exact ⟨cuts, by simp [hnil]⟩
    · have hpos : 0 < ch.bytes.length := List.length_pos_iff.mpr hnil
      rw [if_neg (by omega), if_neg (by omega)]
      by_cases h0 : beDecode (fill 4 ch.bytes) = 0
      · exact ⟨cuts, by simp [h0, hnil]⟩
      · -- the length is read from a partial header, and the next recv meets the end of stream
        obtain ⟨cuts₂, h₂⟩ := recvAll_short ⟨[], .eof, cuts⟩
          (beDecode (fill 4 ch.bytes)) (Nat.pos_of_ne_zero h0)
        exact ⟨cuts₂, by simp [h0, h₂, shortRead]⟩

/-- A stream that stops after the header, before the end of the payload. -/
theorem recvPacket_body {ch : Chan} (h4 : 4 ≤ ch.bytes.length)
    (h : ch.bytes.length < 4 + beDecode (ch.bytes.take 4)) :
    ∃ cuts, recvPacket ch = cutShort
      (if ch.bytes.length = 4 then none
        else some (fill (beDecode (ch.bytes.take 4)) (ch.bytes.drop 4))) cuts ch.ending := by
  obtain ⟨cuts, h₁⟩ := recvAll_full ch 4 h4
  have hfill : fill 4 (ch.bytes.take 4) = ch.bytes.take 4 := by
    rw [fill, List.length_take_of_le h4, Nat.sub_self, List.replicate_zero, List.append_nil]
  have hlen : (ch.bytes.drop 4).length < beDecode (ch.bytes.take 4) := by
    rw [List.length_drop]; omega
  have h0 : ¬ beDecode (ch.bytes.take 4) = 0 := by omega
  obtain ⟨cuts₂, h₂⟩ := recvAll_short ⟨ch.bytes.drop 4, ch.ending, cuts⟩ _ hlen
  refine ⟨cuts₂, ?_⟩
  rw [recvPacket, h₁]
  simp only [hfill, h0, h₂]
  cases ch.ending with
  | alive => simp [shortRead]
  | error => simp [shortRead]
  | eof =>
    by_cases hk : ch.bytes.length = 4
    · simp [shortRead, hk]
    · have hne : ¬ ch.bytes.length - 4 = 0 := by omega
      simp [shortRead, hk, hne]

/-- Every stream either starts with a whole frame or stops inside one. -/
theorem stream_cases (s : Bytes) :
    (∃ p rest, s = frame 4 p ++ rest ∧ p.length < 2 ^ 32) ∨ s.length < 4 ∨
      4 ≤ s.length ∧ s.length < 4 + beDecode (s.take 4) := by
  by_cases h4 : s.length < 4
  · exact Or.inr (Or.inl h4)
  · by_cases hb : s.length < 4 + beDecode (s.take 4)
    · exact Or.inr (Or.inr ⟨by omega, hb⟩)
    · left
      have hun : unframe 4 s = some ((s.drop 4).take (beDecode (s.take 4)),
          (s.drop 4).drop (beDecode (s.take 4))) := by
        rw [unframe, if_neg h4]
        simp only [List.length_drop]
        rw [if_neg (by omega)]
      obtain ⟨hs, hlt⟩ := unframe_sound 4 hun
      exact ⟨_, _, hs, by simpa using hlt⟩

/-- The stream starts with a whole frame. -/
def HoldsFrame (s : Bytes) : Prop := ∃ p rest, p.length < 2 ^ 32 ∧ s = frame 4 p ++ rest

/-- `RecvPacket` waits exactly on a live stream that stops inside a frame. -/
theorem recvPacket_blocks_iff (ch : Chan) :
    recvPacket ch = .blocks ↔ ch.ending = .alive ∧ ¬ HoldsFrame ch.bytes := by
  by_cases hframe : HoldsFrame ch.bytes
  · obtain ⟨p, rest, hp, hs⟩ := hframe
    obtain ⟨cuts, hrecv⟩ := recvPacket_frame rest hp ch.ending ch.cuts
    rw [← hs] at hrecv
    constructor
    · intro hb
      cases hrecv.symm.trans hb
    · rintro ⟨-, hnot⟩
      exact absurd ⟨p, rest, hp, hs⟩ hnot
  · -- inside the header or inside the payload, the ending decides
    have hshort : ∃ o cuts, recvPacket ch = cutShort o cuts ch.ending := by
      rcases stream_cases ch.bytes with ⟨p, rest, hs, hp⟩ | hlt | ⟨h4, hlt⟩
      · exact absurd ⟨p, rest, hp, hs⟩ hframe
      · exact ⟨_, recvPacket_header ch hlt⟩
      · exact ⟨_, recvPacket_body h4 hlt⟩
    obtain ⟨o, cuts, hrecv⟩ := hshort
    rw [hrecv]
    cases ch.ending <;> simp [hframe]

/-- A packet is as long as a 32-bit header says. -/
theorem recvPacket_length {ch ch' : Chan} {p : Bytes} (h : recvPacket ch = .done (some p) ch') :
    p.length < 2 ^ 32 := by
  rcases stream_cases ch.bytes with ⟨q, rest, hs, hq⟩ | hlt | ⟨h4, hlt⟩
  · obtain ⟨cuts, hrecv⟩ := recvPacket_frame rest hq ch.ending ch.cuts
    rw [← hs, h] at hrecv
    cases hrecv
    exact hq
  · obtain ⟨cuts, hrecv⟩ := recvPacket_header _ hlt
    rw [h] at hrecv
    cases he : ch.ending <;> rw [he] at hrecv <;> simp at hrecv
    obtain ⟨⟨-, rfl⟩, -⟩ := hrecv
    simp
  · obtain ⟨cuts, hrecv⟩ := recvPacket_body h4 hlt
    have hbound := beDecode_lt (ch.bytes.take 4)
    rw [List.length_take_of_le h4] at hbound
    rw [h] at hrecv
    cases he : ch.ending <;> rw [he] at hrecv <;> simp at hrecv
    obtain ⟨⟨-, hp⟩, -⟩ := hrecv
    rw [hp, fill, List.length_append, List.length_replicate, List.length_drop]
    omega

/-! ### Soundness of the decoder -/

/-- The stream stops inside the header or inside the payload of its first frame. -/
def StopsInside (s : Bytes) : Prop := s.length < 4 ∨ s.length < 4 + beDecode (s.take 4)

/-- A sound call: a packet is returned only for the 4-byte big-endian length of it followed by its
    bytes, and a stream that ended or failed inside a frame gives nullopt. -/
structure DecodesSoundly (ch : Chan) : Prop where
  exact_frame : ∀ p ch', recvPacket ch = .done (some p) ch' →
    ch.bytes = beEncode 4 p.length ++ p ++ ch'.bytes ∧ p.length < 2 ^ 32
  cut_frame : ch.ending ≠ .alive → StopsInside ch.bytes →
    ∃ ch', recvPacket ch = .done none ch'

/-- The stream ends, without an error, after one to three header bytes that are all zero, or after
    at least one but not all bytes of the payload. -/
def EndsPadded (ch : Chan) : Prop :=
  ch.ending = .eof ∧
    ((ch.bytes ≠ [] ∧ ch.bytes.length < 4 ∧ ∀ b ∈ ch.bytes, b = 0) ∨
      (4 < ch.bytes.length ∧ ch.bytes.length < 4 + beDecode (ch.bytes.take 4)))

theorem beDecode_fill_eq_zero {n : ℕ} {s : Bytes} : beDecode (fill n s) = 0 ↔ ∀ b ∈ s, b = 0 := by
  rw [beDecode_eq_zero, fill]
  constructor
  · exact fun h b hb => h b (List.mem_append_left _ hb)
  · intro h b hb
    rcases List.mem_append.mp hb with hb | hb
    · exact h b hb
    · exact List.eq_of_mem_replicate hb

theorem not_decodesSoundly_of_endsPadded {ch : Chan} (h : EndsPadded ch) : ¬ DecodesSoundly ch := by
  obtain ⟨heof, ⟨hne, hlt, hz⟩ | ⟨hgt, hlt⟩⟩ := h
  · intro hs
    obtain ⟨cuts, hrecv⟩ := recvPacket_header _ hlt
    obtain ⟨ch', hnone⟩ := hs.cut_frame (by simp [heof]) (Or.inl hlt)
    rw [heof, hnone] at hrecv
    simp [hne, beDecode_fill_eq_zero.mpr hz] at hrecv
  · intro hs
    obtain ⟨cuts, hrecv⟩ := recvPacket_body hgt.le hlt
    obtain ⟨ch', hnone⟩ := hs.cut_frame (by simp [heof]) (Or.inr hlt)
    rw [heof, hnone] at hrecv
    simp [show ¬ ch.bytes.length = 4 by omega] at hrecv

theorem decodesSoundly_of_frame {p rest : Bytes} (hp : p.length < 2 ^ 32) (ending : Ending)
    (cuts : List ℕ) : DecodesSoundly ⟨frame 4 p ++ rest, ending, cuts⟩ := by
  obtain ⟨cuts', hrecv⟩ := recvPacket_frame rest hp ending cuts
  refine ⟨?_, ?_⟩
  · intro q ch' hq
    rw [hrecv] at hq
    cases hq
    exact ⟨rfl, hp⟩
  · rintro - (h | h) <;> exfalso
    · simp only [List.length_append, frame_length] at h
      omega
    · have htake : (frame 4 p ++ rest).take 4 = beEncode 4 p.length := by
        rw [frame, List.append_assoc, List.take_left' (beEncode_length 4 _)]
      rw [htake, beDecode_beEncode, Nat.mod_eq_of_lt (by simpa using hp)] at h
      simp only [List.length_append, frame_length] at h
      omega

theorem decodesSoundly_of_none {ch ch' : Chan} (h : recvPacket ch = .done none ch') :
    DecodesSoundly ch := by
  refine ⟨fun p ch'' hp => ?_, fun _ _ => ⟨ch', h⟩⟩
  rw [h] at hp
  cases hp

theorem decodesSoundly_of_blocks {ch : Chan} (h : recvPacket ch = .blocks)
    (ha : ch.ending = .alive) : DecodesSoundly ch := by
  refine ⟨fun p ch'' hp => ?_, fun hne => absurd ha hne⟩
  rw [h] at hp
  cases hp

/-- FRAME DECODER: `RecvPacket` is sound on a stream, for every content, cutting and ending, if
    and only if the stream does not end in one of the two padded ways. -/
theorem decodesSoundly_iff (ch : Chan) : DecodesSoundly ch ↔ ¬ EndsPadded ch := by
  refine ⟨fun hs hp => not_decodesSoundly_of_endsPadded hp hs, fun hnp => ?_⟩
  rcases stream_cases ch.bytes with ⟨p, rest, hs, hp⟩ | hlt | ⟨h4, hlt⟩
  · have : ch = ⟨frame 4 p ++ rest, ch.ending, ch.cuts⟩ := by rw [← hs]
    rw [this]
    exact decodesSoundly_of_frame hp _ _
  · obtain ⟨cuts, hrecv⟩ := recvPacket_header _ hlt
    cases he : ch.ending with
    | alive => rw [he] at hrecv; exact decodesSoundly_of_blocks hrecv he
    | error => rw [he] at hrecv; exact decodesSoundly_of_none hrecv
    | eof =>
      rw [he] at hrecv
      dsimp only [cutShort] at hrecv
      rw [if_neg] at hrecv
      · exact decodesSoundly_of_none hrecv
      · rintro ⟨hne, hz⟩
        exact hnp ⟨he, Or.inl ⟨hne, hlt, beDecode_fill_eq_zero.mp hz⟩⟩
  · obtain ⟨cuts, hrecv⟩ := recvPacket_body h4 hlt
    cases he : ch.ending with
    | alive => rw [he] at hrecv; exact decodesSoundly_of_blocks hrecv he
    | error => rw [he] at hrecv; exact decodesSoundly_of_none hrecv
    | eof =>
      rw [he] at hrecv
      dsimp only [cutShort] at hrecv
      rw [if_pos] at hrecv
      · exact decodesSoundly_of_none hrecv
      · by_contra hk
        exact hnp ⟨he, Or.inr ⟨by omega, hlt⟩⟩

/-- A peer that announces two bytes, sends one and closes is taken to have sent two. -/
theorem half_frame_is_padded :
    recvPacket ⟨[0, 0, 0, 2, 7], .eof, []⟩ = .done (some [7, 0]) ⟨[], .eof, []⟩ ∧
      ¬ DecodesSoundly ⟨[0, 0, 0, 2, 7], .eof, []⟩ := by
  have hrecv : recvPacket ⟨[0, 0, 0, 2, 7], .eof, []⟩ = .done (some [7, 0]) ⟨[], .eof, []⟩ := by
    decide +kernel
  refine ⟨hrecv, fun hs => ?_⟩
  obtain ⟨hbytes, -⟩ := hs.exact_frame _ _ hrecv
  exact absurd hbytes (by decide +kernel)

/-! ### Round trip of a whole stream -/

/-- The stream that successive `SendPacket` calls produce, each under its own kernel schedule. -/
def sendPackets (ps : List (Bytes × SendSched)) : Bytes :=
  ps.flatMap fun x => (sendPacket x.1 x.2).2

/-- `n` successive `RecvPacket` calls: their results in order, or `none` when one waits. -/
def recvPackets : ℕ → Chan → Option (List (Option Bytes) × Chan)
  | 0, ch => some ([], ch)
  | n + 1, ch =>
    match recvPacket ch with
    | .blocks => none
    | .done r ch' => (recvPackets n ch').map fun x => (r :: x.1, x.2)

/-- Reading as many packets as there are frames in front of a stream returns them in order and
    leaves exactly the rest. -/
theorem recvPackets_frames (ending : Ending) (rest : Bytes) : ∀ (ps : List Bytes) (cuts : List ℕ),
    (∀ p ∈ ps, p.length < 2 ^ 32) →
    ∃ cuts', recvPackets ps.length ⟨ps.flatMap (frame 4) ++ rest, ending, cuts⟩ =
      some (ps.map some, ⟨rest, ending, cuts'⟩)
  | [], cuts, _ => ⟨cuts, rfl⟩
  | p :: ps, cuts, h => by
    obtain ⟨cuts₁, h₁⟩ := recvPacket_frame (ps.flatMap (frame 4) ++ rest)
      (h p (by simp)) ending cuts
    obtain ⟨cuts₂, h₂⟩ := recvPackets_frames ending rest ps cuts₁
      (fun q hq => h q (List.mem_cons_of_mem _ hq))
    refine ⟨cuts₂, ?_⟩
    rw [List.length_cons, recvPackets, List.flatMap_cons, List.append_assoc, h₁]
    dsimp only
    rw [h₂]
    rfl

theorem sendPackets_eq : ∀ ps : List (Bytes × SendSched),
    (∀ x ∈ ps, x.1.length < 2 ^ 32) → (∀ x ∈ ps, (sendPacket x.1 x.2).1 = .ok true) →
    sendPackets ps = (ps.map Prod.fst).flatMap (frame 4)
  | [], _, _ => rfl
  | x :: ps, hlen, hok => by
    have ih := sendPackets_eq ps (fun y hy => hlen y (List.mem_cons_of_mem _ hy))
      (fun y hy => hok y (List.mem_cons_of_mem _ hy))
    rw [sendPackets, List.flatMap_cons, ← sendPackets, ih, sendPacket_true (hok x (by simp)),
      wire_eq_frame (hlen x (by simp))]
    rfl

/-- Reading some more packets after the first ones. -/
theorem recvPackets_add (m : ℕ) : ∀ (n : ℕ) (ch ch' : Chan) (rs : List (Option Bytes)),
    recvPackets n ch = some (rs, ch') →
    recvPackets (n + m) ch = (recvPackets m ch').map fun x => (rs ++ x.1, x.2)
  | 0, ch, ch', rs, h => by
    simp only [recvPackets, Option.some.injEq, Prod.mk.injEq] at h
    obtain ⟨rfl, rfl⟩ := h
    simp
  | n + 1, ch, ch', rs, h => by
    rw [recvPackets] at h
    rw [Nat.succ_add, recvPackets]
    cases hr : recvPacket ch with
    | blocks => rw [hr] at h; cases h
    | done r ch₁ =>
      rw [hr] at h
      obtain ⟨x, hx, hxr⟩ := Option.map_eq_some_iff.mp h
      simp only [Prod.mk.injEq] at hxr
      obtain ⟨rfl, rfl⟩ := hxr
      dsimp only
      rw [recvPackets_add m n ch₁ x.2 x.1 hx, Option.map_map]
      rfl

/-- At the end of a stream there is no packet left. -/
theorem recvPackets_end (cuts : List ℕ) :
    ∃ cuts', recvPackets 1 ⟨[], .eof, cuts⟩ = some ([none], ⟨[], .eof, cuts'⟩) := by
  obtain ⟨cuts', h⟩ := recvPacket_header ⟨[], .eof, cuts⟩ (by simp)
  exact ⟨cuts', by simp [recvPackets, h]⟩

/-- ROUND TRIP: whatever the kernel's partial sends and `recv`'s chunks, every SendPacket succeeds,
    reading `n` packets returns exactly the first `n` and leaves exactly the bytes of the others,
    and after the last packet comes nullopt. -/
theorem packets_roundTrip (ps : List (Bytes × SendSched)) (cuts : List ℕ)
    (hlen : ∀ x ∈ ps, x.1.length < 2 ^ 32) (hpos : ∀ x ∈ ps, x.2.Positive) :
    (∀ x ∈ ps, (sendPacket x.1 x.2).1 = .ok true) ∧
      (∀ n ≤ ps.length, ∃ cuts', recvPackets n ⟨sendPackets ps, .eof, cuts⟩ =
        some ((ps.take n).map fun x => some x.1, ⟨sendPackets (ps.drop n), .eof, cuts'⟩)) ∧
      ∃ cuts', recvPackets (ps.length + 1) ⟨sendPackets ps, .eof, cuts⟩ =
        some ((ps.map fun x => some x.1) ++ [none], ⟨[], .eof, cuts'⟩) := by
  have hok : ∀ x ∈ ps, (sendPacket x.1 x.2).1 = .ok true := fun x hx => by
    rw [sendPacket_positive x.1 (hpos x hx)]
  have hread : ∀ n ≤ ps.length, ∃ cuts', recvPackets n ⟨sendPackets ps, .eof, cuts⟩ =
      some ((ps.take n).map fun x => some x.1, ⟨sendPackets (ps.drop n), .eof, cuts'⟩) := by
    intro n hn
    have hsplit : sendPackets ps =
        ((ps.take n).map Prod.fst).flatMap (frame 4) ++ sendPackets (ps.drop n) := by
      rw [← sendPackets_eq (ps.take n) (fun x hx => hlen x (List.mem_of_mem_take hx))
        (fun x hx => hok x (List.mem_of_mem_take hx)), sendPackets, sendPackets, sendPackets,
        ← List.flatMap_append, List.take_append_drop]
    obtain ⟨cuts', h⟩ := recvPackets_frames .eof (sendPackets (ps.drop n))
      ((ps.take n).map Prod.fst) cuts (by
        intro p hp
        obtain ⟨x, hx, rfl⟩ := List.mem_map.mp hp
        exact hlen x (List.mem_of_mem_take hx))
    rw [List.length_map, List.length_take_of_le hn, ← hsplit, List.map_map] at h
    exact ⟨cuts', h⟩
  refine ⟨hok, hread, ?_⟩
  obtain ⟨cuts₁, h₁⟩ := hread ps.length le_rfl
  rw [List.take_length, List.drop_length] at h₁
  obtain ⟨cuts₂, h₂⟩ := recvPackets_end cuts₁
  refine ⟨cuts₂, ?_⟩
  rw [recvPackets_add 1 _ _ _ _ h₁]
  simp only [sendPackets, List.flatMap_nil, h₂, Option.map_some]

/-- Two packets, the empty one included, sent and received in pieces. -/
theorem packets_roundTrip_pieces :
    ∃ cuts', recvPackets 3 ⟨sendPackets [([7, 8], .returns [some 3, some 1]),
      ([], .returns [some 2])], .eof, [1, 4, 1]⟩ =
        some ([some [7, 8], some [], none], ⟨[], .eof, cuts'⟩) :=
  (packets_roundTrip [([7, 8], .returns [some 3, some 1]), ([], .returns [some 2])] [1, 4, 1]
    (by decide) (by decide)).2.2

end CliChat
