import CliChat.Lib.Framing

/-! @src common/src/network_session.cpp | name:recv and send | scheme:kernel interface

    The kernel's side of a TCP socket. A direction of a connection is a `Chan`: the bytes sent and
    not yet read, how it goes on once they are read (`Ending`), and the sizes in which `recv` will
    hand the bytes out. A `SendSched` is what the kernel makes of the successive `send` calls for
    one buffer: all return, with counts or -1, or one of them does not. The sockets block, `flags`
    is 0, and nothing under src/ handles SIGPIPE, so a `send` may wait for ever and may end the
    process. Every behaviour of the two calls is some `Chan` or `SendSched`, so a theorem about all
    of them is a theorem about every split into partial transfers and every cut. -/

namespace CliChat

abbrev Bytes := List UInt8

/-- A difference of two `size_t`. -/
def sizeSub (a b : ℕ) : ℕ := (a + 2 ^ 64 - b) % 2 ^ 64

theorem sizeSub_eq {a b : ℕ} (hb : b ≤ a) (ha : a < 2 ^ 64) : sizeSub a b = a - b := by
  rw [sizeSub, Nat.sub_add_comm hb, Nat.add_mod_right, Nat.mod_eq_of_lt (by omega)]

/-- What `recv` meets once the buffered bytes are read: a peer that may still send, an orderly end
    of stream, or a failed connection. -/
inductive Ending where | alive | eof | error
  deriving DecidableEq

/-- One direction of a connection, as its reader sees it. -/
structure Chan where
  bytes : Bytes
  ending : Ending
  /-- The most that each coming `recv` returns; a call beyond the list is not cut. -/
  cuts : List ℕ
  deriving DecidableEq

/-- What one `recv` does: wait, deliver a count of bytes (zero at end of stream), or fail. -/
inductive RecvResult where
  | blocks
  | count (bs : Bytes)
  | error
  deriving DecidableEq

/-- `recv(fd, buf, n, 0)` on a blocking socket. -/
def recv (ch : Chan) (n : ℕ) : RecvResult × Chan :=
  match ch.bytes, ch.ending with
  | [], .alive => (.blocks, ch)
  | [], .eof => (.count [], ch)
  | [], .error => (.error, ch)
  | b :: bs, _ =>
    let k := min n (max 1 (ch.cuts.headD n))
    (.count ((b :: bs).take k), { ch with bytes := (b :: bs).drop k, cuts := ch.cuts.tail })

/-- Why a `send` does not return: it waits for room in the buffers of a peer that does not read, or
    the connection is gone (EPIPE) and SIGPIPE ends the process. -/
inductive SendStop where
  | blocks
  | killed
  deriving DecidableEq

/-- What one `send` does: accept a count of bytes, fail, or not return. -/
inductive SendResult where
  | count (k : ℕ)
  | error
  | stops (how : SendStop)
  deriving DecidableEq

/-- The kernel's answers to `send` calls that return: `some k` accepts at most `k` bytes, `none`
    fails; a call beyond the list is accepted whole. -/
abbrev Answers := List (Option ℕ)

/-- What the kernel makes of the successive `send` calls for one buffer. -/
inductive SendSched where
  /-- Every call returns. -/
  | returns (answers : Answers)
  /-- One does not; those before it accept `parts`, each less than it was offered. -/
  | stops (parts : List ℕ) (how : SendStop)
  deriving DecidableEq

/-- `send(fd, buf, n, 0)` on a blocking socket. -/
def send (sched : SendSched) (n : ℕ) : SendResult × SendSched :=
  match sched with
  | .returns [] => (.count n, .returns [])
  | .returns (none :: rest) => (.error, .returns rest)
  | .returns (some k :: rest) => (.count (min k n), .returns rest)
  | .stops [] how => (.stops how, .stops [] how)
  | .stops (k :: parts) how =>
    if 0 < k ∧ k < n then (.count k, .stops parts how) else (.stops how, .stops [] how)

/-- Every call returns. -/
def SendSched.Returns : SendSched → Prop
  | .returns _ => True
  | .stops _ _ => False

instance : DecidablePred SendSched.Returns := fun sched =>
  match sched with
  | .returns _ => isTrue trivial
  | .stops _ _ => isFalse id

/-- A reader with bytes to read gets at least one and at most what it asked for. -/
theorem recv_data {ch : Chan} {n : ℕ} (hb : ch.bytes ≠ []) (hn : 0 < n) :
    ∃ k cuts, 0 < k ∧ k ≤ n ∧ k ≤ ch.bytes.length ∧
      recv ch n = (.count (ch.bytes.take k), ⟨ch.bytes.drop k, ch.ending, cuts⟩) := by
  obtain ⟨bytes, ending, cuts⟩ := ch
  cases bytes with
  | nil => exact absurd rfl hb
  | cons b bs =>
    have hk : 0 < min n (max 1 (cuts.headD n)) := by omega
    refine ⟨min (min n (max 1 (cuts.headD n))) (bs.length + 1), cuts.tail, by omega, by omega,
      by simp, ?_⟩
    simp only [recv]
    rw [Nat.min_comm _ (bs.length + 1), ← List.length_cons (a := b), List.take_eq_take_min,
      List.drop_eq_drop_min]
    simp [Nat.min_comm]

/-- What `recv` delivers is the front of what was buffered. -/
theorem recv_count {ch ch' : Chan} {n : ℕ} {bs : Bytes} (h : recv ch n = (.count bs, ch')) :
    ch.bytes = bs ++ ch'.bytes ∧ bs.length ≤ n := by
  obtain ⟨bytes, ending, cuts⟩ := ch
  cases bytes with
  | nil => cases ending <;> cases h; exact ⟨rfl, Nat.zero_le _⟩
  | cons b rest =>
    cases h
    refine ⟨(List.take_append_drop _ _).symm, ?_⟩
    rw [List.length_take]
    omega

theorem recv_error {ch ch' : Chan} {n : ℕ} (h : recv ch n = (.error, ch')) : ch' = ch := by
  obtain ⟨bytes, ending, cuts⟩ := ch
  cases bytes with
  | nil => cases ending <;> cases h; rfl
  | cons b rest => cases h

/-- The kernel accepts at most what it is offered. -/
theorem send_le {sched rest : SendSched} {n k : ℕ} (h : send sched n = (.count k, rest)) :
    k ≤ n := by
  cases sched with
  | returns answers =>
    cases answers with
    | nil => cases h; exact le_rfl
    | cons a l => cases a <;> cases h; exact min_le_right _ _
  | stops parts how =>
    cases parts with
    | nil => cases h
    | cons j parts =>
      rw [send] at h
      split_ifs at h with hj
      · cases h
        exact hj.2.le
      · cases h

/-- Where every call returns, this one does and the others do. Where one does not, this one accepts
    a part and the stop is still to come, or this is the one. -/
theorem send_cases {sched rest : SendSched} {n : ℕ} {r : SendResult}
    (h : send sched n = (r, rest)) :
    sched.Returns ∧ rest.Returns ∧ (∀ how, r ≠ .stops how) ∨
      ¬ sched.Returns ∧ ¬ rest.Returns ∧
        ((∃ k, r = .count k ∧ 0 < k ∧ k < n) ∨ ∃ how, r = .stops how) := by
  cases sched with
  | returns answers =>
    rcases answers with _ | ⟨_ | a, l⟩ <;> cases h <;> simp [SendSched.Returns]
  | stops parts how =>
    rcases parts with _ | ⟨j, parts⟩
    · cases h
      simp [SendSched.Returns]
    · rw [send] at h
      split_ifs at h with hj <;> cases h <;> simp [SendSched.Returns, hj]

end CliChat
