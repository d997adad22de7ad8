import CliChat.Common.Socket

/-! @src common/src/network_session.cpp | name:NetworkSession | scheme:transfer loops and framing

    `recv_all` and `send_all` repeat partial transfers until a buffer is done; `SendPacket` and
    `RecvPacket` put a 4-byte big-endian length in front of a packet. The loops are closed first
    (`recvAll_full`, `recvAll_short`, `sendAllLoop_*`): what they return depends on the bytes and
    the ending alone, never on how the kernel cuts the transfer. -/

namespace CliChat

open Framing

/-- A call that either waits in `recv` or returns, leaving the channel behind it. -/
inductive Recvd (α : Type) where
  | blocks
  | done (a : α) (ch : Chan)
  deriving DecidableEq

/-- The packet that a call returned, if it did return one. -/
def Recvd.packet : Recvd (Option Bytes) → Option Bytes
  | .blocks => none
  | .done pkt _ => pkt

theorem Recvd.packet_eq_some {r : Recvd (Option Bytes)} {p : Bytes} :
    r.packet = some p ↔ ∃ ch, r = .done (some p) ch := by
  cases r <;> simp [packet]

/-- The loop of `recv_all`: `buf` holds the bytes received so far, `buf.length` is
    `totalReceived`. -/
def recvAllLoop (bufSize : ℕ) (buf : Bytes) (ch : Chan) : Recvd (ℤ × Bytes) :=
  if _h : buf.length < bufSize then
    match recv ch (bufSize - buf.length) with
    | (.blocks, _) => .blocks
    | (.count [], ch') => .done (buf.length, buf) ch'
    | (.error, ch') => .done (-1, buf) ch'
    | (.count (b :: bs), ch') => recvAllLoop bufSize (buf ++ b :: bs) ch'
  else .done (buf.length, buf) ch
termination_by bufSize - buf.length
decreasing_by
  simp only [List.length_append, List.length_cons]
  omega

/-- `recv_all`: the value returned and the bytes written to the front of the buffer. -/
def recvAll (ch : Chan) (bufSize : ℕ) : Recvd (ℤ × Bytes) := recvAllLoop bufSize [] ch

/-- The loop of `send_all`: the value returned, if it returns, and the number of bytes the kernel
    accepted. -/
def sendAllLoop (bufSize totalSent : ℕ) (sched : SendSched) : Except SendStop ℤ × ℕ :=
  if _h : totalSent < bufSize then
    match send sched (bufSize - totalSent) with
    | (.stops how, _) => (.error how, totalSent)
    | (.error, _) => (.ok (-1), totalSent)
    | (.count 0, _) => (.ok (-1), totalSent)
    | (.count (k + 1), sched') => sendAllLoop bufSize (totalSent + (k + 1)) sched'
  else (.ok totalSent, totalSent)
termination_by bufSize - totalSent

/-- `send_all`: the value returned, if it returns, and the bytes that the kernel took. -/
def sendAll (buf : Bytes) (sched : SendSched) : Except SendStop ℤ × Bytes :=
  let r := sendAllLoop buf.length 0 sched
  (r.1, buf.take r.2)

/-- The buffer that `SendPacket` hands to `send_all`: the length as a `uint32_t` in network order,
    then the data. -/
def wire (data : Bytes) : Bytes := beEncode 4 (data.length % 2 ^ 32) ++ data

/-- `NetworkSession::SendPacket`: whether it succeeds, if it returns, and the bytes that reach the
    stream. -/
def sendPacket (data : Bytes) (sched : SendSched) : Except SendStop Bool × Bytes :=
  let r := sendAll (wire data) sched
  (r.1.map fun n => if n < 0 then false else true, r.2)

/-- `SendPacket`, where every `send` returns. -/
def Answers.sendPacket (answers : Answers) (data : Bytes) : Bool × Bytes :=
  match CliChat.sendPacket data (.returns answers) with
  | (.ok ok, bs) => (ok, bs)
  | (.error _, bs) => (false, bs)

/-- A buffer of `n` zero bytes after `bs` was written to its front. -/
def fill (n : ℕ) (bs : Bytes) : Bytes := bs ++ List.replicate (n - bs.length) 0

/-- `NetworkSession::RecvPacket`. -/
def recvPacket (ch : Chan) : Recvd (Option Bytes) :=
  match recvAll ch 4 with
  | .blocks => .blocks
  | .done (received, netLen) ch₁ =>
    if received = 0 then .done none ch₁
    else if received < 0 then .done none ch₁
    else
      let len := beDecode (fill 4 netLen)
      if len = 0 then .done (some []) ch₁
      else
        match recvAll ch₁ len with
        | .blocks => .blocks
        | .done (received', buffer) ch₂ =>
          if received' ≤ 0 then .done none ch₂ else .done (some (fill len buffer)) ch₂

/-! ### recv_all -/

/-- One round of the loop on a stream with bytes left: some of them, at least one, move from the
    stream to the buffer. -/
theorem recvAllLoop_round (bufSize : ℕ) (buf : Bytes) {ch : Chan} (h : buf.length < bufSize)
    (hb : ch.bytes ≠ []) :
    ∃ k cuts, 0 < k ∧ k ≤ bufSize - buf.length ∧ k ≤ ch.bytes.length ∧
      recvAllLoop bufSize buf ch =
        recvAllLoop bufSize (buf ++ ch.bytes.take k) ⟨ch.bytes.drop k, ch.ending, cuts⟩ := by
  obtain ⟨k, cuts, hk, hkn, hkl, hrecv⟩ := recv_data hb (Nat.sub_pos_of_lt h)
  have hne : ch.bytes.take k ≠ [] := by
    intro hnil
    rcases List.take_eq_nil_iff.mp hnil with h0 | h0
    · omega
    · exact hb h0
  obtain ⟨b, bs, hbs⟩ := List.exists_cons_of_ne_nil hne
  refine ⟨k, cuts, hk, hkn, hkl, ?_⟩
  rw [recvAllLoop, dif_pos h, hrecv, hbs]

/-- With enough bytes on the stream, the loop fills the buffer with exactly the next ones. -/
theorem recvAllLoop_full (bufSize : ℕ) : ∀ (n : ℕ) (buf : Bytes) (ch : Chan),
    bufSize = buf.length + n → n ≤ ch.bytes.length →
    ∃ cuts, recvAllLoop bufSize buf ch =
      .done ((bufSize : ℤ), buf ++ ch.bytes.take n) ⟨ch.bytes.drop n, ch.ending, cuts⟩ := by
  intro n
  induction n using Nat.strong_induction_on with
  | _ n ih =>
    intro buf ch hsz hen
    rcases Nat.eq_zero_or_pos n with rfl | hn
    · refine ⟨ch.cuts, ?_⟩
      have hsz' : bufSize = buf.length := by simpa using hsz
      rw [recvAllLoop, dif_neg (by omega), ← hsz']
      simp
    · have hb : ch.bytes ≠ [] := by
        intro hnil
        rw [hnil, List.length_nil] at hen
        omega
      obtain ⟨k, cuts, hk, hkn, hkl, hround⟩ :=
        recvAllLoop_round bufSize buf (by omega) hb
      have htk : (ch.bytes.take k).length = k := List.length_take_of_le hkl
      have hlen : (buf ++ ch.bytes.take k).length = buf.length + k := by
        rw [List.length_append, htk]
      obtain ⟨cuts', hrest⟩ := ih (n - k) (by omega) (buf ++ ch.bytes.take k)
        ⟨ch.bytes.drop k, ch.ending, cuts⟩ (by omega) (by simp only [List.length_drop]; omega)
      have hsplit : ch.bytes.take n = ch.bytes.take k ++ (ch.bytes.drop k).take (n - k) := by
        rw [← List.take_add, Nat.add_sub_cancel' (by omega : k ≤ n)]
      have hdrop : (ch.bytes.drop k).drop (n - k) = ch.bytes.drop n := by
        rw [List.drop_drop, Nat.add_sub_cancel' (by omega : k ≤ n)]
      refine ⟨cuts', ?_⟩
      rw [hround, hrest, hsplit, hdrop, List.append_assoc]

/-- The loop's answer when the stream holds too few bytes: all of them are consumed and the ending
    decides. -/
def shortRead (buf : Bytes) : Ending → List ℕ → Recvd (ℤ × Bytes)
  | .alive, _ => .blocks
  | .eof, cuts => .done ((buf.length : ℤ), buf) ⟨[], .eof, cuts⟩
  | .error, cuts => .done (-1, buf) ⟨[], .error, cuts⟩

theorem recvAllLoop_short (bufSize : ℕ) : ∀ (n : ℕ) (buf : Bytes) (ch : Chan),
    ch.bytes.length = n → buf.length + n < bufSize →
    ∃ cuts, recvAllLoop bufSize buf ch = shortRead (buf ++ ch.bytes) ch.ending cuts := by
  intro n
  induction n using Nat.strong_induction_on with
  | _ n ih =>
    intro buf ch hn hsh
    by_cases hb : ch.bytes = []
    · obtain ⟨bytes, ending, cuts⟩ := ch
      simp only at hb
      subst hb
      refine ⟨cuts, ?_⟩
      rw [recvAllLoop, dif_pos (by omega)]
      cases ending <;> simp [recv, shortRead]
    · obtain ⟨k, cuts, hk, hkn, hkl, hround⟩ :=
        recvAllLoop_round bufSize buf (by omega) hb
      have htk : (ch.bytes.take k).length = k := List.length_take_of_le hkl
      obtain ⟨cuts', hrest⟩ := ih (n - k) (by omega) (buf ++ ch.bytes.take k)
        ⟨ch.bytes.drop k, ch.ending, cuts⟩ (by simp only [List.length_drop]; omega)
        (by rw [List.length_append, htk]; omega)
      refine ⟨cuts', ?_⟩
      rw [hround, hrest]
      simp only [List.append_assoc, List.take_append_drop]

theorem recvAll_full (ch : Chan) (n : ℕ) (h : n ≤ ch.bytes.length) :
    ∃ cuts, recvAll ch n =
      .done ((n : ℤ), ch.bytes.take n) ⟨ch.bytes.drop n, ch.ending, cuts⟩ := by
  simpa [recvAll] using recvAllLoop_full n n [] ch (by simp) h

theorem recvAll_short (ch : Chan) (n : ℕ) (h : ch.bytes.length < n) :
    ∃ cuts, recvAll ch n = shortRead ch.bytes ch.ending cuts := by
  simpa [recvAll] using recvAllLoop_short n _ [] ch rfl (by simpa using h)

/-! ### send_all -/

/-- The bytes accepted never exceed the buffer, and a result that is not negative means that the
    whole buffer was accepted. -/
theorem sendAllLoop_spec (bufSize totalSent : ℕ) (sched : SendSched) (h : totalSent ≤ bufSize) :
    (sendAllLoop bufSize totalSent sched).2 ≤ bufSize ∧
      (sendAllLoop bufSize totalSent sched = (.ok (bufSize : ℤ), bufSize) ∨
        (sendAllLoop bufSize totalSent sched).1 = .ok (-1) ∨
        ∃ how, (sendAllLoop bufSize totalSent sched).1 = .error how) := by
  induction totalSent, sched using sendAllLoop.induct bufSize with
  | case1 t sched ht how rest hs =>
    rw [sendAllLoop, dif_pos ht, hs]
    exact ⟨h, .inr (.inr ⟨how, rfl⟩)⟩
  | case2 t sched ht rest hs =>
    rw [sendAllLoop, dif_pos ht, hs]
    exact ⟨h, .inr (.inl rfl)⟩
  | case3 t sched ht rest hs =>
    rw [sendAllLoop, dif_pos ht, hs]
    exact ⟨h, .inr (.inl rfl)⟩
  | case4 t sched ht k rest hs ih =>
    rw [sendAllLoop, dif_pos ht, hs]
    have hle := send_le hs
    exact ih (by omega)
  | case5 t sched ht =>
    have : t = bufSize := by omega
    subst this
    rw [sendAllLoop, dif_neg ht]
    exact ⟨le_rfl, .inl rfl⟩

/-- It returns when every `send` does. If one does not, the loop comes to it: the calls before it
    neither fail nor end the buffer. -/
theorem sendAllLoop_returns (bufSize totalSent : ℕ) (sched : SendSched) (h : totalSent < bufSize) :
    (∃ n, (sendAllLoop bufSize totalSent sched).1 = .ok n) ↔ sched.Returns := by
  induction totalSent, sched using sendAllLoop.induct bufSize with
  | case1 t sched ht how rest hs =>
    rw [sendAllLoop, dif_pos ht, hs]
    refine iff_of_false (by simp) fun hret => ?_
    rcases send_cases hs with ⟨-, -, hne⟩ | ⟨hno, -⟩
    · exact hne how rfl
    · exact hno hret
  | case2 t sched ht rest hs =>
    rw [sendAllLoop, dif_pos ht, hs]
    rcases send_cases hs with ⟨hret, -⟩ | ⟨-, -, ⟨k, hk, -⟩ | ⟨how, hhow⟩⟩
    · exact iff_of_true ⟨-1, rfl⟩ hret
    · cases hk
    · cases hhow
  | case3 t sched ht rest hs =>
    rw [sendAllLoop, dif_pos ht, hs]
    rcases send_cases hs with ⟨hret, -⟩ | ⟨-, -, ⟨k, hk, hpos, -⟩ | ⟨how, hhow⟩⟩
    · exact iff_of_true ⟨-1, rfl⟩ hret
    · cases hk
      exact absurd hpos (lt_irrefl 0)
    · cases hhow
  | case4 t sched ht k rest hs ih =>
    have hle := send_le hs
    rw [sendAllLoop, dif_pos ht, hs]
    dsimp only
    rcases send_cases hs with ⟨hret, hrest, -⟩ | ⟨hret, hrest, ⟨j, hj, -, hlt⟩ | ⟨how, hhow⟩⟩
    · by_cases hend : t + (k + 1) < bufSize
      · exact iff_of_true ((ih hend).mpr hrest) hret
      · rw [sendAllLoop, dif_neg hend]
        exact iff_of_true ⟨_, rfl⟩ hret
    · cases hj
      exact iff_of_false (fun hn => hrest ((ih (by omega)).mp hn)) hret
    · cases hhow
  | case5 t sched ht => exact absurd h ht

/-- A schedule of positive partial sends only: no call fails, none accepts zero bytes, and every
    call returns. -/
def SendSched.Positive : SendSched → Prop
  | .returns answers => none ∉ answers ∧ some 0 ∉ answers
  | .stops _ _ => False

instance : DecidablePred SendSched.Positive := fun sched =>
  match sched with
  | .returns answers => inferInstanceAs (Decidable (none ∉ answers ∧ some 0 ∉ answers))
  | .stops _ _ => isFalse id

/-- Under a positive schedule a `send` of at least one byte is accepted in part, and so are those
    after it. -/
theorem SendSched.Positive.send_pos {sched rest : SendSched} {n : ℕ} {r : SendResult}
    (hpos : sched.Positive) (hn : 0 < n) (h : send sched n = (r, rest)) :
    rest.Positive ∧ ∃ k, k < n ∧ r = .count (k + 1) := by
  cases sched with
  | stops parts how => exact hpos.elim
  | returns answers =>
    cases answers with
    | nil =>
      cases h
      exact ⟨hpos, n - 1, by omega, by rw [Nat.sub_add_cancel hn]⟩
    | cons a l =>
      have hl : (SendSched.returns l).Positive :=
        ⟨fun hm => hpos.1 (List.mem_cons_of_mem _ hm), fun hm => hpos.2 (List.mem_cons_of_mem _ hm)⟩
      cases a with
      | none => exact absurd (List.mem_cons_self ..) hpos.1
      | some k =>
        have hk : k ≠ 0 := by
          rintro rfl
          exact hpos.2 (List.mem_cons_self ..)
        cases h
        exact ⟨hl, min k n - 1, by omega, by rw [Nat.sub_add_cancel (by omega)]⟩

/-- When the kernel accepts something at every call, the whole buffer is accepted. -/
theorem sendAllLoop_positive (bufSize totalSent : ℕ) (sched : SendSched) (h : totalSent ≤ bufSize)
    (hpos : sched.Positive) :
    sendAllLoop bufSize totalSent sched = (.ok (bufSize : ℤ), bufSize) := by
  induction totalSent, sched using sendAllLoop.induct bufSize with
  | case1 t sched ht how rest hs =>
    obtain ⟨-, k, -, hk⟩ := hpos.send_pos (Nat.sub_pos_of_lt ht) hs
    cases hk
  | case2 t sched ht rest hs =>
    obtain ⟨-, k, -, hk⟩ := hpos.send_pos (Nat.sub_pos_of_lt ht) hs
    cases hk
  | case3 t sched ht rest hs =>
    obtain ⟨-, k, -, hk⟩ := hpos.send_pos (Nat.sub_pos_of_lt ht) hs
    cases hk
  | case4 t sched ht k rest hs ih =>
    obtain ⟨hrest, j, hj, hjk⟩ := hpos.send_pos (Nat.sub_pos_of_lt ht) hs
    simp only [SendResult.count.injEq] at hjk
    rw [sendAllLoop, dif_pos ht, hs]
    exact ih (by omega) hrest
  | case5 t sched ht =>
    have : t = bufSize := by omega
    subst this
    rw [sendAllLoop, dif_neg ht]

/-! ### SendPacket -/

theorem wire_eq_frame {data : Bytes} (h : data.length < 2 ^ 32) : wire data = frame 4 data := by
  rw [wire, frame, Nat.mod_eq_of_lt h]

/-- SendPacket returns true only when the whole frame was accepted. -/
theorem sendPacket_true {data : Bytes} {sched : SendSched}
    (h : (sendPacket data sched).1 = .ok true) : (sendPacket data sched).2 = wire data := by
  obtain ⟨_, hs | hs | ⟨how, hs⟩⟩ := sendAllLoop_spec (wire data).length 0 sched (Nat.zero_le _)
  · simp only [sendPacket, sendAll, hs, List.take_length]
  · simp [sendPacket, sendAll, hs, Except.map] at h
  · simp [sendPacket, sendAll, hs, Except.map] at h

theorem sendPacket_positive (data : Bytes) {sched : SendSched} (hpos : SendSched.Positive sched) :
    sendPacket data sched = (.ok true, wire data) := by
  have hs := sendAllLoop_positive (wire data).length 0 sched (Nat.zero_le _) hpos
  have hnn : ¬ ((wire data).length : ℤ) < 0 := by omega
  simp only [sendPacket, sendAll, hs, List.take_length, Except.map, if_neg hnn]

/-- SendPacket returns when every `send` does. -/
theorem sendPacket_returns (data : Bytes) (sched : SendSched) :
    (∃ ok, (sendPacket data sched).1 = .ok ok) ↔ sched.Returns := by
  have hpos : 0 < (wire data).length := by simp [wire]
  rw [← sendAllLoop_returns (wire data).length 0 sched hpos, sendPacket, sendAll]
  cases (sendAllLoop (wire data).length 0 sched).1 with
  | ok n => exact iff_of_true ⟨_, rfl⟩ ⟨n, rfl⟩
  | error how => exact iff_of_false (by simp [Except.map]) (by simp)

namespace Answers

variable (answers : Answers) (data : Bytes)

theorem sendPacket_eq : CliChat.sendPacket data (.returns answers) =
    (.ok (answers.sendPacket data).1, (answers.sendPacket data).2) := by
  obtain ⟨ok, hok⟩ := (sendPacket_returns data (.returns answers)).mpr trivial
  rw [Answers.sendPacket]
  rcases h : CliChat.sendPacket data (.returns answers) with ⟨r, bs⟩
  rw [h] at hok
  cases hok
  rfl

variable {answers data}

theorem sendPacket_true (h : (answers.sendPacket data).1 = true) :
    (answers.sendPacket data).2 = wire data := by
  have heq := answers.sendPacket_eq data
  rw [h] at heq
  have hwire := CliChat.sendPacket_true (congrArg Prod.fst heq)
  rwa [heq] at hwire

end Answers

end CliChat
