import CliChat.Common.NetworkSession
import CliChat.Lib.PartialTransfer

/-! @src common/src/network_session.cpp | name:send_all, recv_all | scheme:partial transfers

    The two loops with every call they make. The kernel is any machine that answers a call for `n`
    bytes with a count of at most `n`, or fails; so its answers are any sequence of results, also one
    that reacts to the calls. (A call that does not return is the last one, and so is the loop's
    step that makes it: `sendAll` and `recvAll` have it as a case of its own.) The stream is what the
    peer sends, from the first byte on that is not read yet; a count of zero says that it ends here.

        buf:     │ read so far │ ◀── recv(fd, buf + total, bufSize - total) ──▶ │
        stream:  ░░░░░░░░░░░░░░│ next bytes ... -/

namespace CliChat

open PartialTransfer

/-- A buffer in memory: an object has at most `PTRDIFF_MAX` bytes. -/
abbrev Buffer := { bs : Bytes // bs.length < 2 ^ 63 }

/-- The conversion of a `size_t` to `ssize_t`. -/
def ssize (n : ℕ) : ℤ := (n : ℤ).bmod (2 ^ 64)

theorem ssize_eq {n : ℕ} (h : n < 2 ^ 63) : ssize n = n :=
  Int.bmod_eq_of_le_mul_two (by omega) (by omega)

section loops

variable {σ : Type*} (kernel : σ → (n : ℕ) → Answer n × σ)

/-- The loop of `send_all` from `totalSent` on: the value returned, and the calls of `send`. -/
def sendAllCalls (bufSize totalSent : ℕ) (k : σ) : ℤ × List Call :=
  if _h : totalSent < bufSize then
    match kernel k (bufSize - totalSent) with
    | (none, _) => (-1, [⟨totalSent, bufSize - totalSent, none⟩])
    | (some ⟨0, _⟩, _) => (-1, [⟨totalSent, bufSize - totalSent, some 0⟩])
    | (some ⟨n + 1, _⟩, k') =>
      let r := sendAllCalls bufSize (totalSent + (n + 1)) k'
      (r.1, ⟨totalSent, bufSize - totalSent, some (n + 1)⟩ :: r.2)
  else (ssize totalSent, [])
termination_by bufSize - totalSent

/-- `bs` is copied to `buf + offset`. -/
def overwrite (buf : Bytes) (offset : ℕ) (bs : Bytes) : Bytes :=
  buf.take offset ++ bs ++ buf.drop (offset + bs.length)

/-- What `recv_all` leaves: the value returned, the buffer, the rest of the stream, the calls. -/
structure RecvAll where
  ret : ℤ
  buf : Bytes
  stream : Stream' UInt8
  calls : List Call

/-- One call before the others. -/
@[simps] def RecvAll.after (r : RecvAll) (c : Call) : RecvAll := { r with calls := c :: r.calls }

/-- The loop of `recv_all` from `totalReceived` on. -/
def recvAllCalls (bufSize totalReceived : ℕ) (buf : Bytes) (stream : Stream' UInt8) (k : σ) :
    RecvAll :=
  if _h : totalReceived < bufSize then
    match kernel k (bufSize - totalReceived) with
    | (some ⟨0, _⟩, _) =>
      ⟨ssize totalReceived, buf, stream, [⟨totalReceived, bufSize - totalReceived, some 0⟩]⟩
    | (none, _) => ⟨-1, buf, stream, [⟨totalReceived, bufSize - totalReceived, none⟩]⟩
    | (some ⟨n + 1, _⟩, k') =>
      (recvAllCalls bufSize (totalReceived + (n + 1))
        (overwrite buf totalReceived (stream.take (n + 1))) (stream.drop (n + 1)) k').after
          ⟨totalReceived, bufSize - totalReceived, some (n + 1)⟩
  else ⟨ssize totalReceived, buf, stream, []⟩
termination_by bufSize - totalReceived

/-! ### One call of `recv` -/

section round

variable {kernel} {bufSize t n : ℕ} {buf : Bytes} {stream : Stream' UInt8} {k k' : σ}

theorem recvAllCalls_full : recvAllCalls kernel t t buf stream k = ⟨ssize t, buf, stream, []⟩ := by
  rw [recvAllCalls, dif_neg (lt_irrefl t)]

theorem recvAllCalls_ended (ht : t < bufSize)
    (hk : kernel k (bufSize - t) = (some ⟨0, Nat.succ_pos _⟩, k')) :
    recvAllCalls kernel bufSize t buf stream k =
      ⟨ssize t, buf, stream, [⟨t, bufSize - t, some 0⟩]⟩ := by
  rw [recvAllCalls, dif_pos ht, hk]

theorem recvAllCalls_failed (ht : t < bufSize) (hk : kernel k (bufSize - t) = (none, k')) :
    recvAllCalls kernel bufSize t buf stream k = ⟨-1, buf, stream, [⟨t, bufSize - t, none⟩]⟩ := by
  rw [recvAllCalls, dif_pos ht, hk]

theorem recvAllCalls_count (ht : t < bufSize) (hn : n + 1 < bufSize - t + 1)
    (hk : kernel k (bufSize - t) = (some ⟨n + 1, hn⟩, k')) :
    recvAllCalls kernel bufSize t buf stream k =
      (recvAllCalls kernel bufSize (t + (n + 1)) (overwrite buf t (stream.take (n + 1)))
        (stream.drop (n + 1)) k').after ⟨t, bufSize - t, some (n + 1)⟩ := by
  rw [recvAllCalls, dif_pos ht, hk]

end round

/-! ### The invariant of the loops -/

/-- LOOP: the calls of `send_all` make progress until the buffer is sent, or up to one that fails or
    sends nothing. -/
theorem sendAllCalls_spec {bufSize : ℕ} (hsize : bufSize < 2 ^ 63) (totalSent : ℕ) (k : σ)
    (h : totalSent ≤ bufSize) : ∃ cs u, Progress bufSize totalSent cs u ∧
      (u = bufSize ∧ sendAllCalls kernel bufSize totalSent k = ((bufSize : ℤ), cs) ∨
        u < bufSize ∧ ∃ c : Call, c.Within bufSize ∧ c.result.getD 0 = 0 ∧
          sendAllCalls kernel bufSize totalSent k = (-1, cs ++ [c])) := by
  induction totalSent, k using sendAllCalls.induct kernel bufSize with
  | case1 t k ht k' hk =>
    refine ⟨[], t, .nil t, .inr ⟨ht, _, Call.within_rest ht none, rfl, ?_⟩⟩
    rw [sendAllCalls, dif_pos ht, hk]
    rfl
  | case2 t k ht hlt k' hk =>
    refine ⟨[], t, .nil t, .inr ⟨ht, _, Call.within_rest ht (some 0), rfl, ?_⟩⟩
    rw [sendAllCalls, dif_pos ht, hk]
    rfl
  | case3 t k ht n hlt k' hk ih =>
    obtain ⟨cs, u, hcs, hend⟩ := ih (by omega)
    have hrun : sendAllCalls kernel bufSize t k =
        ((sendAllCalls kernel bufSize (t + (n + 1)) k').1, ⟨t, bufSize - t, some (n + 1)⟩ ::
          (sendAllCalls kernel bufSize (t + (n + 1)) k').2) := by
      conv_lhs => rw [sendAllCalls, dif_pos ht, hk]
    refine ⟨_, u, .cons ht (Nat.succ_pos n) (by omega) hcs, ?_⟩
    rw [hrun]
    rcases hend with ⟨hu, heq⟩ | ⟨hu, c, hc, hzero, heq⟩
    · exact .inl ⟨hu, by rw [heq]⟩
    · exact .inr ⟨hu, c, hc, hzero, by rw [heq]; rfl⟩
  | case4 t k ht =>
    obtain rfl : t = bufSize := by omega
    refine ⟨[], t, .nil t, .inl ⟨rfl, ?_⟩⟩
    rw [sendAllCalls, dif_neg ht, ssize_eq hsize]

theorem overwrite_length {buf bs : Bytes} {offset : ℕ} (h : offset + bs.length ≤ buf.length) :
    (overwrite buf offset bs).length = buf.length := by
  simp only [overwrite, List.length_append, List.length_take, List.length_drop]
  omega

/-- The bytes up to the end of the copy. -/
theorem overwrite_take {buf bs : Bytes} {offset n : ℕ} (h : offset ≤ buf.length)
    (hn : bs.length = n) : (overwrite buf offset bs).take (offset + n) = buf.take offset ++ bs := by
  have hlen : (buf.take offset ++ bs).length = offset + n := by
    rw [List.length_append, List.length_take_of_le h, hn]
  rw [overwrite, ← hlen, List.take_left]

/-- What the loop of `recv_all` has done when it leaves at `u`: the bytes from `t` on are the next
    ones of the stream. -/
structure Filled (t u : ℕ) (buf : Bytes) (stream : Stream' UInt8) (r : RecvAll) : Prop where
  buf : r.buf.take u = buf.take t ++ stream.take (u - t)
  stream : r.stream = stream.drop (u - t)

/-- How the loop of `recv_all` leaves at `u`. -/
inductive Left (bufSize u : ℕ) (cs : List Call) (r : RecvAll) : Prop
  | full (hu : u = bufSize) (ret : r.ret = u) (calls : r.calls = cs)
  | ended (hu : u < bufSize) (ret : r.ret = u)
    (calls : r.calls = cs ++ [⟨u, bufSize - u, some 0⟩])
  | failed (hu : u < bufSize) (ret : r.ret = -1)
    (calls : r.calls = cs ++ [⟨u, bufSize - u, none⟩])

theorem Left.after {bufSize u : ℕ} {cs : List Call} {r : RecvAll} (h : Left bufSize u cs r)
    (c : Call) : Left bufSize u (c :: cs) (r.after c) := by
  cases h with
  | full hu ret calls => exact .full hu ret (congrArg (List.cons c) calls)
  | ended hu ret calls => exact .ended hu ret (congrArg (List.cons c) calls)
  | failed hu ret calls => exact .failed hu ret (congrArg (List.cons c) calls)

/-- LOOP: the calls of `recv_all` make progress until the buffer is full, or up to one that fails or
    meets the end of the stream. -/
theorem recvAllCalls_spec {bufSize : ℕ} (hsize : bufSize < 2 ^ 63) (totalReceived : ℕ) (buf : Bytes)
    (stream : Stream' UInt8) (k : σ) (h : totalReceived ≤ bufSize) (hbuf : buf.length = bufSize) :
    ∃ cs u, Progress bufSize totalReceived cs u ∧
      Filled totalReceived u buf stream (recvAllCalls kernel bufSize totalReceived buf stream k) ∧
      Left bufSize u cs (recvAllCalls kernel bufSize totalReceived buf stream k) := by
  induction totalReceived, buf, stream, k using recvAllCalls.induct kernel bufSize with
  | case1 t buf stream k ht hlt k' hk =>
    rw [recvAllCalls_ended ht hk, ssize_eq (by omega)]
    exact ⟨[], t, .nil t, ⟨by simp, by simp⟩, .ended ht rfl rfl⟩
  | case2 t buf stream k ht k' hk =>
    rw [recvAllCalls_failed ht hk]
    exact ⟨[], t, .nil t, ⟨by simp, by simp⟩, .failed ht rfl rfl⟩
  | case3 t buf stream k ht n hlt k' hk ih =>
    have hlen : (stream.take (n + 1)).length = n + 1 := Stream'.length_take _ _
    obtain ⟨cs, u, hcs, hfilled, hleft⟩ := ih (by omega) (by rw [overwrite_length (by omega), hbuf])
    rw [recvAllCalls_count ht hlt hk]
    have hsplit : u - t = (n + 1) + (u - (t + (n + 1))) := by
      have hle := hcs.le
      omega
    have htake : (overwrite buf t (stream.take (n + 1))).take (t + (n + 1)) =
        buf.take t ++ stream.take (n + 1) := overwrite_take (by omega) hlen
    refine ⟨_, u, .cons ht (Nat.succ_pos n) (by omega) hcs, ⟨?_, ?_⟩, hleft.after _⟩
    · rw [hsplit, Stream'.take_add (n + 1), ← List.append_assoc, ← htake]
      exact hfilled.buf
    · rw [hsplit, ← Stream'.drop_drop _ (n + 1)]
      exact hfilled.stream
  | case4 t buf stream k ht =>
    obtain rfl : t = bufSize := by omega
    rw [recvAllCalls_full, ssize_eq hsize]
    exact ⟨[], t, .nil t, ⟨by simp, by simp⟩, .full rfl rfl rfl⟩

/-! ### What the loops guarantee -/

/-- `send_all` ends; what was accepted is at any time the front of the buffer; its size is returned
    if all of it was accepted, and -1 if not; no call is for no bytes or leaves the buffer. -/
structure SendsExactly (buf : Bytes) (r : ℤ × List Call) : Prop where
  ends : r.2.length ≤ buf.length
  front : ∀ cs, cs <+: r.2 → transferred buf cs <+: buf
  whole : r.1 = buf.length ↔ transferred buf r.2 = buf
  cut : transferred buf r.2 ≠ buf → r.1 = -1
  within : ∀ c ∈ r.2, c.Within buf.length

/-- `recv_all` ends; a count `n` means that the buffer starts with the next `n` bytes of the stream,
    which ended if the buffer is not full; -1 means that `recv` failed; no call is for no bytes or
    leaves the buffer. -/
structure RecvsExactly (buf : Bytes) (stream : Stream' UInt8) (r : RecvAll) : Prop where
  ends : r.calls.length ≤ buf.length
  ret : 0 ≤ r.ret ∨ r.ret = -1
  count : ∀ n : ℕ, r.ret = n → n ≤ buf.length ∧ r.buf.take n = stream.take n ∧
    r.stream = stream.drop n ∧ (n < buf.length → ∃ c ∈ r.calls, c.result = some 0)
  fails : r.ret = -1 ↔ ∃ c ∈ r.calls, c.result = none
  within : ∀ c ∈ r.calls, c.Within buf.length

theorem sendsExactly (k : σ) {buf : Bytes} (hsize : buf.length < 2 ^ 63) :
    SendsExactly buf (sendAllCalls kernel buf.length 0 k) := by
  obtain ⟨cs, u, hcs, hend⟩ := sendAllCalls_spec kernel hsize 0 k (Nat.zero_le _)
  have hle : u ≤ buf.length := hcs.le_size (Nat.zero_le _)
  have hlength : cs.length ≤ u := hcs.length_le
  have hsent : transferred buf cs = buf.take u := by
    rw [hcs.transferred, List.drop_zero, Nat.sub_zero]
  rcases hend with ⟨rfl, heq⟩ | ⟨hu, c, hc, hzero, heq⟩
  · rw [heq]
    have hall : transferred buf cs = buf := by rw [hsent, List.take_length]
    refine ⟨hlength, fun ds hds => ?_, iff_of_true rfl hall, absurd hall, hcs.within⟩
    have hfront : transferred buf ds <+: transferred buf cs := hds.flatMap _
    rwa [hall] at hfront
  · rw [heq]
    have hlast : transferred buf (cs ++ [c]) = buf.take u := by
      rw [transferred_append, hsent]
      simp [transferred, hzero]
    have hcut : transferred buf (cs ++ [c]) ≠ buf := by
      intro h
      have hlen := congrArg List.length (hlast.symm.trans h)
      rw [List.length_take_of_le hle] at hlen
      omega
    refine ⟨?_, fun ds hds => ?_, iff_of_false ?_ hcut, fun _ => rfl, ?_⟩
    · rw [List.length_append, List.length_singleton]
      omega
    · have hfront : transferred buf ds <+: transferred buf (cs ++ [c]) := hds.flatMap _
      rw [hlast] at hfront
      exact hfront.trans (List.take_prefix u buf)
    · rintro (h : (-1 : ℤ) = buf.length)
      omega
    · intro d hd
      rcases List.mem_append.mp hd with hd | hd
      · exact hcs.within d hd
      · rw [List.mem_singleton.mp hd]
        exact hc

theorem recvsExactly (k : σ) {buf : Bytes} (hsize : buf.length < 2 ^ 63)
    (stream : Stream' UInt8) :
    RecvsExactly buf stream (recvAllCalls kernel buf.length 0 buf stream k) := by
  obtain ⟨cs, u, hcs, hfilled, hleft⟩ :=
    recvAllCalls_spec kernel hsize 0 buf stream k (Nat.zero_le _) rfl
  generalize recvAllCalls kernel buf.length 0 buf stream k = r at hfilled hleft
  have hle : u ≤ buf.length := hcs.le_size (Nat.zero_le _)
  have hlength : cs.length ≤ u := hcs.length_le
  have hbuf : r.buf.take u = stream.take u := by simpa using hfilled.buf
  have hstream : r.stream = stream.drop u := by simpa using hfilled.stream
  have hnofail : ∀ c ∈ cs, c.result ≠ none := by
    intro c hc hnone
    obtain ⟨n, hn⟩ := hcs.positive c hc
    rw [hnone] at hn
    cases hn
  -- the calls with the one that ends the loop before the buffer is full
  have hlast : u < buf.length → ∀ result, r.calls = cs ++ [⟨u, buf.length - u, result⟩] →
      r.calls.length ≤ buf.length ∧ ∀ c ∈ r.calls, c.Within buf.length := by
    intro hu result hcalls
    rw [hcalls]
    refine ⟨?_, fun c hc => ?_⟩
    · rw [List.length_append, List.length_singleton]
      omega
    · rcases List.mem_append.mp hc with hc | hc
      · exact hcs.within c hc
      · rw [List.mem_singleton.mp hc]
        exact Call.within_rest hu result
  have hcount : r.ret = u → (u < buf.length → ∃ c ∈ r.calls, c.result = some 0) →
      ∀ n : ℕ, r.ret = n → n ≤ buf.length ∧ r.buf.take n = stream.take n ∧
        r.stream = stream.drop n ∧ (n < buf.length → ∃ c ∈ r.calls, c.result = some 0) := by
    intro hret hend n hn
    obtain rfl : u = n := Int.natCast_inj.mp (hret.symm.trans hn)
    exact ⟨hle, hbuf, hstream, hend⟩
  have hneg : r.ret = u → r.ret ≠ -1 := by
    intro hret
    omega
  cases hleft with
  | full hu ret calls =>
    refine ⟨?_, .inl (ret ▸ Int.natCast_nonneg u), hcount ret fun h => absurd h (by omega),
      iff_of_false (hneg ret) ?_, ?_⟩
    · rw [calls]
      omega
    · rintro ⟨c, hc, hnone⟩
      exact hnofail c (calls ▸ hc) hnone
    · rw [calls]
      exact hcs.within
  | ended hu ret calls =>
    obtain ⟨hends, hwithin⟩ := hlast hu _ calls
    refine ⟨hends, .inl (ret ▸ Int.natCast_nonneg u), hcount ret fun _ => ?_,
      iff_of_false (hneg ret) ?_, hwithin⟩
    · exact ⟨_, calls ▸ List.mem_append_right cs (List.mem_singleton_self _), rfl⟩
    · rintro ⟨c, hc, hnone⟩
      rw [calls] at hc
      rcases List.mem_append.mp hc with hc | hc
      · exact hnofail c hc hnone
      · rw [List.mem_singleton.mp hc] at hnone
        cases hnone
  | failed hu ret calls =>
    obtain ⟨hends, hwithin⟩ := hlast hu _ calls
    refine ⟨hends, .inr ret, fun n hn => ?_, iff_of_true ret ?_, hwithin⟩
    · rw [ret] at hn
      omega
    · exact ⟨_, calls ▸ List.mem_append_right cs (List.mem_singleton_self _), rfl⟩

/-- LOOPS: for every kernel, every buffer and every stream, `send_all` and `recv_all` neither skip
    nor repeat bytes, and end. -/
theorem transfer_loops (k : σ) (buf : Buffer) (stream : Stream' UInt8) :
    SendsExactly buf.1 (sendAllCalls kernel buf.1.length 0 k) ∧
      RecvsExactly buf.1 stream (recvAllCalls kernel buf.1.length 0 buf.1 stream k) :=
  ⟨sendsExactly kernel k buf.2, recvsExactly kernel k buf.2 stream⟩

end loops

/-! ### The loops of the other modules -/

section refines

/-- `send` under a schedule, as a kernel. -/
def SendSched.answer (sched : SendSched) (n : ℕ) : Answer n × SendSched :=
  match send sched n with
  | (.count k, rest) => (some ⟨min k n, by omega⟩, rest)
  | (_, rest) => (none, rest)

theorem SendSched.answer_count {sched rest : SendSched} {n k : ℕ}
    (h : send sched n = (.count k, rest)) :
    sched.answer n = (some ⟨k, Nat.lt_succ_of_le (send_le h)⟩, rest) := by
  have hmin : min k n = k := min_eq_left (send_le h)
  unfold answer
  rw [h]
  simp only [hmin]

theorem SendSched.answer_error {sched rest : SendSched} {n : ℕ}
    (h : send sched n = (.error, rest)) : sched.answer n = (none, rest) := by
  unfold answer
  rw [h]

theorem sendAllLoop_calls {buf : Bytes} (hsize : buf.length < 2 ^ 63) {ret : ℤ} {sent : ℕ}
    (totalSent : ℕ) (sched : SendSched) (hle : totalSent ≤ buf.length)
    (h : sendAllLoop buf.length totalSent sched = (.ok ret, sent)) :
    totalSent ≤ sent ∧
      (sendAllCalls SendSched.answer buf.length totalSent sched).1 = ret ∧
      transferred buf (sendAllCalls SendSched.answer buf.length totalSent sched).2 =
        (buf.drop totalSent).take (sent - totalSent) := by
  induction totalSent, sched using sendAllLoop.induct buf.length with
  | case1 t sched ht how rest hs =>
    rw [sendAllLoop, dif_pos ht, hs] at h
    cases h
  | case2 t sched ht rest hs =>
    rw [sendAllLoop, dif_pos ht, hs] at h
    cases h
    rw [sendAllCalls, dif_pos ht, SendSched.answer_error hs]
    simp [transferred]
  | case3 t sched ht rest hs =>
    rw [sendAllLoop, dif_pos ht, hs] at h
    cases h
    rw [sendAllCalls, dif_pos ht, SendSched.answer_count hs]
    simp [transferred]
  | case4 t sched ht k rest hs ih =>
    have hk := send_le hs
    rw [sendAllLoop, dif_pos ht, hs] at h
    obtain ⟨hge, hret, hsent⟩ := ih (by omega) h
    rw [sendAllCalls, dif_pos ht, SendSched.answer_count hs]
    dsimp only
    refine ⟨by omega, hret, ?_⟩
    have hsplit : sent - t = (k + 1) + (sent - (t + (k + 1))) := by omega
    rw [hsplit, List.take_add, List.drop_drop, ← hsent]
    rfl
  | case5 t sched ht =>
    obtain rfl : t = buf.length := by omega
    rw [sendAllLoop, dif_neg ht] at h
    cases h
    rw [sendAllCalls, dif_neg ht, ssize_eq hsize]
    simp [transferred]

/-- REFINES: when `sendAll` returns, the loop with its calls returns the same, under the kernel of
    the schedule, and the same bytes are accepted. -/
theorem sendAll_calls (buf : Buffer) (sched : SendSched) {ret : ℤ} {bs : Bytes}
    (h : sendAll buf.1 sched = (.ok ret, bs)) :
    (sendAllCalls SendSched.answer buf.1.length 0 sched).1 = ret ∧
      transferred buf.1 (sendAllCalls SendSched.answer buf.1.length 0 sched).2 = bs := by
  obtain ⟨hok, rfl⟩ := Prod.mk.inj h
  obtain ⟨-, hret, hsent⟩ := sendAllLoop_calls buf.2 0 sched (Nat.zero_le _)
    (Prod.ext hok rfl : sendAllLoop buf.1.length 0 sched = (.ok ret, _))
  rw [List.drop_zero, Nat.sub_zero] at hsent
  exact ⟨hret, hsent⟩

/-- `recv` on a channel, as a kernel. -/
def Chan.answer (ch : Chan) (n : ℕ) : Answer n × Chan :=
  match recv ch n with
  | (.count bs, ch') => (some ⟨min bs.length n, by omega⟩, ch')
  | (_, ch') => (none, ch')

theorem Chan.answer_count {ch ch' : Chan} {n : ℕ} {bs : Bytes} (h : recv ch n = (.count bs, ch')) :
    ch.answer n = (some ⟨bs.length, Nat.lt_succ_of_le (recv_count h).2⟩, ch') := by
  have hmin : min bs.length n = bs.length := min_eq_left (recv_count h).2
  unfold answer
  rw [h]
  simp only [hmin]

theorem Chan.answer_error {ch ch' : Chan} {n : ℕ} (h : recv ch n = (.error, ch')) :
    ch.answer n = (none, ch') := by
  unfold answer
  rw [h]

open scoped Stream'

theorem stream_take_front (l : Bytes) (stream : Stream' UInt8) :
    (l ++ₛ stream).take l.length = l := by
  rw [Stream'.take_append_of_le_length _ _ _ le_rfl, List.take_length]

theorem recvAllLoop_calls {bufSize : ℕ} (hsize : bufSize < 2 ^ 63) (rest : Stream' UInt8)
    {ret : ℤ} {bs : Bytes} {ch' : Chan} (got : Bytes) (ch : Chan) (mem : Bytes)
    (hgot : got.length ≤ bufSize) (hmem : mem.length = bufSize) (hfront : mem.take got.length = got)
    (h : recvAllLoop bufSize got ch = .done (ret, bs) ch') :
    (recvAllCalls Chan.answer bufSize got.length mem (ch.bytes ++ₛ rest) ch).ret = ret ∧
      (recvAllCalls Chan.answer bufSize got.length mem (ch.bytes ++ₛ rest) ch).buf.take bs.length =
        bs ∧
      (recvAllCalls Chan.answer bufSize got.length mem (ch.bytes ++ₛ rest) ch).stream =
        ch'.bytes ++ₛ rest := by
  induction got, ch using recvAllLoop.induct bufSize generalizing mem with
  | case1 got ch ht ch₁ hr =>
    rw [recvAllLoop, dif_pos ht, hr] at h
    cases h
  | case2 got ch ht ch₁ hr =>
    rw [recvAllLoop, dif_pos ht, hr] at h
    cases h
    rw [recvAllCalls_ended ht (Chan.answer_count hr), ssize_eq (by omega), (recv_count hr).1]
    exact ⟨rfl, hfront, rfl⟩
  | case3 got ch ht ch₁ hr =>
    rw [recvAllLoop, dif_pos ht, hr] at h
    cases h
    rw [recvAllCalls_failed ht (Chan.answer_error hr), recv_error hr]
    exact ⟨rfl, hfront, rfl⟩
  | case4 got ch ht b bs₁ ch₁ hr ih =>
    rw [recvAllLoop, dif_pos ht, hr] at h
    obtain ⟨hbytes, hlen⟩ := recv_count hr
    rw [List.length_cons] at hlen
    rw [recvAllCalls_count ht _ (Chan.answer_count hr), hbytes, Stream'.append_append_stream]
    have htake := stream_take_front (b :: bs₁) (ch₁.bytes ++ₛ rest)
    have hdrop := Stream'.drop_append_stream (b :: bs₁) (ch₁.bytes ++ₛ rest)
    rw [List.length_cons] at htake hdrop
    rw [htake, hdrop]
    have hsum : got.length + (b :: bs₁).length ≤ mem.length := by
      rw [List.length_cons]
      omega
    have hrest := ih (overwrite mem got.length (b :: bs₁)) (by rw [List.length_append]; omega)
      ((overwrite_length hsum).trans hmem) ?_ h
    · rwa [List.length_append] at hrest
    · rw [List.length_append, overwrite_take (by omega) rfl, hfront]
  | case5 got ch ht =>
    rw [recvAllLoop, dif_neg ht] at h
    cases h
    obtain rfl : bs.length = bufSize := by omega
    rw [recvAllCalls_full, ssize_eq hsize]
    exact ⟨rfl, hfront, rfl⟩

/-- REFINES: when `recvAll` returns, the loop with its calls returns the same, under the kernel of the
    channel, and leaves the same bytes at the front of the buffer and on the stream. -/
theorem recvAll_calls (buf : Buffer) (rest : Stream' UInt8) {ret : ℤ} {bs : Bytes} {ch ch' : Chan}
    (h : recvAll ch buf.1.length = .done (ret, bs) ch') :
    (recvAllCalls Chan.answer buf.1.length 0 buf.1 (ch.bytes ++ₛ rest) ch).ret = ret ∧
      (recvAllCalls Chan.answer buf.1.length 0 buf.1 (ch.bytes ++ₛ rest) ch).buf.take bs.length =
        bs ∧
      (recvAllCalls Chan.answer buf.1.length 0 buf.1 (ch.bytes ++ₛ rest) ch).stream =
        ch'.bytes ++ₛ rest :=
  recvAllLoop_calls buf.2 rest [] ch buf.1 (Nat.zero_le _) rfl rfl h

end refines

end CliChat
