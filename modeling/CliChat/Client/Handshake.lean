import CliChat.Client.Outcome

/-! @src client/src/client.cpp | name:Start | scheme:bounds

    The key exchange of `Start`, with the buffers it touches. `memcpy` takes a key's size out of the
    first packet, and `crypto_box_open_easy` takes the rest of the second after its nonce and writes
    the plaintext into `m_group_key`; no size is looked at. An access outside the packet or the key
    is `overrun`, also where the one byte too many is the terminator of the packet's `std::string`,
    which may be read: a key of 31 bytes then ends in a zero that nobody has sent.

        packet 1     │ key (32) …                     memcpy reads 32
        packet 2     │ nonce (24) │ MAC (16) │ key    ctLen = size - 24, modulo 2^64
        m_group_key                          │ (32)   is given ctLen - 16                       -/

namespace CliChat

/-- The `n` bytes of a packet from `off` on, when it has them; the terminator of its string is not
    one of them. -/
def slice (buf : Bytes) (off n : ℕ) : Option Bytes :=
  if off + n ≤ buf.length then some ((buf.drop off).take n) else none

theorem slice_eq_some {buf bs : Bytes} {off n : ℕ} :
    slice buf off n = some bs ↔ off + n ≤ buf.length ∧ (buf.drop off).take n = bs := by
  rw [slice, Option.ite_none_right_eq_some, Option.some.injEq]

theorem slice_eq_none {buf : Bytes} {off n : ℕ} :
    slice buf off n = none ↔ buf.length < off + n := by
  rw [slice, ite_eq_right_iff]
  simp

/-- The packet or key that an access leaves. -/
inductive Overrun where
  | srvpkPkt
  | grpPkt
  | groupKey
  deriving DecidableEq

/-- How the key exchange ends: an exception that `Start` catches, an access outside a packet or the
    key, or the server's key and what was written to the front of `m_group_key`. -/
inductive KeysRead where
  | throws (what : Bytes)
  | overrun (buf : Overrun)
  | continues (serverPk groupKey : Bytes)
  deriving DecidableEq

variable (na : Sodium)

/-- The group key is opened: the `ctLen` bytes after the nonce. -/
def readGroupKey (clientSk serverPk grpPkt : Bytes) (ctLen : ℕ) : KeysRead :=
  match slice grpPkt boxNonceBytes ctLen with
  | none => .overrun .grpPkt
  | some ct =>
    match na.boxOpenEasy ct (grpPkt.take boxNonceBytes) serverPk clientSk with
    | none => .throws (ascii "Failed to decrypt group key")
    | some key =>
      if secretboxKeyBytes < key.length then .overrun .groupKey else .continues serverPk key

/-- The key exchange of `Start`, for what the two calls of `RecvPacket` return. -/
def readKeys (clientSk : Bytes) (srvpkPkt grpPkt : Option Bytes) : KeysRead :=
  match srvpkPkt with
  | none => .throws (ascii "bad optional access")
  | some srvpkPkt =>
    match slice srvpkPkt 0 boxPublicKeyBytes with
    | none => .overrun .srvpkPkt
    | some serverPk =>
      match grpPkt with
      | none => .throws (ascii "bad optional access")
      | some grpPkt =>
        readGroupKey na clientSk serverPk grpPkt (sizeSub grpPkt.length boxNonceBytes)

/-- The exchange fails by an exception, or has read inside the first packet, has not wrapped the
    length of the ciphertext, and has filled `m_group_key` from a packet of the one right size. -/
def KeysRead.Safe (srvpkPkt grpPkt : Option Bytes) : KeysRead → Prop
  | .throws _ => True
  | .overrun _ => False
  | .continues serverPk groupKey => ∃ p q, srvpkPkt = some p ∧ grpPkt = some q ∧
      boxPublicKeyBytes ≤ p.length ∧ serverPk = p.take boxPublicKeyBytes ∧
      sizeSub q.length boxNonceBytes + boxNonceBytes = q.length ∧
      q.length = boxNonceBytes + boxMacBytes + secretboxKeyBytes ∧
      groupKey.length = secretboxKeyBytes

/-- A server's key is long enough; a group key has its nonce, and the right size unless its box does
    not open. -/
def KeysSized (clientSk : Bytes) (srvpkPkt grpPkt : Option Bytes) : Prop :=
  ∀ p ∈ srvpkPkt, boxPublicKeyBytes ≤ p.length ∧ ∀ q ∈ grpPkt, boxNonceBytes ≤ q.length ∧
    (q.length = boxNonceBytes + boxMacBytes + secretboxKeyBytes ∨
      na.boxOpenEasy (q.drop boxNonceBytes) (q.take boxNonceBytes) (p.take boxPublicKeyBytes)
        clientSk = none)

section safe

variable {na : Sodium} {clientSk : Bytes}

/-- The ciphertext is what follows the nonce, when there is a nonce. -/
theorem slice_ciphertext {q : Bytes} {ctLen : ℕ} (hct : ctLen = sizeSub q.length boxNonceBytes)
    (hq : q.length < 2 ^ 32) :
    slice q boxNonceBytes ctLen =
      if boxNonceBytes ≤ q.length then some (q.drop boxNonceBytes) else none := by
  by_cases hnonce : boxNonceBytes ≤ q.length
  · rw [if_pos hnonce, hct, sizeSub_eq hnonce (by omega), slice_eq_some]
    exact ⟨by omega, List.take_of_length_le (by rw [List.length_drop])⟩
  · rw [if_neg hnonce, slice_eq_none, hct]
    have hshort : q.length < 24 := not_le.mp hnonce
    unfold sizeSub boxNonceBytes
    omega

/-- The group key's packet, when it has a nonce. -/
theorem readGroupKey_long {serverPk q : Bytes} {ctLen : ℕ}
    (hct : ctLen = sizeSub q.length boxNonceBytes) (hq : boxNonceBytes ≤ q.length)
    (hlt : q.length < 2 ^ 32) :
    readGroupKey na clientSk serverPk q ctLen =
      match na.boxOpenEasy (q.drop boxNonceBytes) (q.take boxNonceBytes) serverPk clientSk with
      | none => .throws (ascii "Failed to decrypt group key")
      | some key =>
        if secretboxKeyBytes < key.length then .overrun .groupKey else .continues serverPk key := by
  unfold readGroupKey
  rw [slice_ciphertext hct hlt, if_pos hq]

/-- The length of its ciphertext wraps when it has none. -/
theorem readGroupKey_wraps {serverPk q : Bytes} {ctLen : ℕ}
    (hct : ctLen = sizeSub q.length boxNonceBytes) (hq : ¬boxNonceBytes ≤ q.length)
    (hlt : q.length < 2 ^ 32) : readGroupKey na clientSk serverPk q ctLen = .overrun .grpPkt := by
  unfold readGroupKey
  rw [slice_ciphertext hct hlt, if_neg hq]

theorem readKeys_long {p : Bytes} {grpPkt : Option Bytes} (hp : boxPublicKeyBytes ≤ p.length) :
    readKeys na clientSk (some p) grpPkt =
      match grpPkt with
      | none => .throws (ascii "bad optional access")
      | some grpPkt => readGroupKey na clientSk (p.take boxPublicKeyBytes) grpPkt
          (sizeSub grpPkt.length boxNonceBytes) := by
  have hkey : slice p 0 boxPublicKeyBytes = some (p.take boxPublicKeyBytes) :=
    slice_eq_some.mpr ⟨by omega, rfl⟩
  unfold readKeys
  dsimp only
  rw [hkey]

theorem readKeys_short {p : Bytes} {grpPkt : Option Bytes} (hp : ¬boxPublicKeyBytes ≤ p.length) :
    readKeys na clientSk (some p) grpPkt = .overrun .srvpkPkt := by
  have hkey : slice p 0 boxPublicKeyBytes = none := slice_eq_none.mpr (by omega)
  unfold readKeys
  dsimp only
  rw [hkey]

theorem keysSized_some {p q : Bytes} : KeysSized na clientSk (some p) (some q) ↔
    boxPublicKeyBytes ≤ p.length ∧ boxNonceBytes ≤ q.length ∧
      (q.length = boxNonceBytes + boxMacBytes + secretboxKeyBytes ∨
        na.boxOpenEasy (q.drop boxNonceBytes) (q.take boxNonceBytes) (p.take boxPublicKeyBytes)
          clientSk = none) := by
  simp [KeysSized]

/-- EXACT: for every two packets that `RecvPacket` returns, the exchange is safe if and only if their
    sizes are these. -/
theorem readKeys_safe_iff (hna : na.BoxOpens) {srvpkPkt grpPkt : Option Bytes}
    (hgrp : ∀ q ∈ grpPkt, ∃ ch ch', recvPacket ch = .done (some q) ch') :
    (readKeys na clientSk srvpkPkt grpPkt).Safe srvpkPkt grpPkt ↔
      KeysSized na clientSk srvpkPkt grpPkt := by
  rcases srvpkPkt with _ | p
  · exact iff_of_true trivial fun p hp => (by cases hp)
  by_cases hp : boxPublicKeyBytes ≤ p.length
  swap
  · rw [readKeys_short hp]
    exact iff_of_false id fun h => hp (h p rfl).1
  rcases grpPkt with _ | q
  · rw [readKeys_long hp]
    refine iff_of_true trivial fun p' hp' => ?_
    cases hp'
    exact ⟨hp, fun q hq => (by cases hq)⟩
  obtain ⟨ch, ch', hrecv⟩ := hgrp q rfl
  have hlt := recvPacket_length hrecv
  rw [keysSized_some, readKeys_long hp]
  dsimp only
  by_cases hq : boxNonceBytes ≤ q.length
  swap
  · rw [readGroupKey_wraps rfl hq hlt]
    exact iff_of_false id fun h => hq h.2.1
  rw [readGroupKey_long rfl hq hlt]
  cases hopen : na.boxOpenEasy (q.drop boxNonceBytes) (q.take boxNonceBytes)
    (p.take boxPublicKeyBytes) clientSk with
  | none => exact iff_of_true trivial ⟨hp, hq, Or.inr rfl⟩
  | some key =>
    have hlen := hna _ _ _ _ _ hopen
    have hnonce : boxNonceBytes = 24 := rfl
    have hmac : boxMacBytes = 16 := rfl
    have hkey : secretboxKeyBytes = 32 := rfl
    rw [List.length_drop] at hlen
    dsimp only
    by_cases hlong : secretboxKeyBytes < key.length
    · rw [if_pos hlong]
      refine iff_of_false id fun h => ?_
      have hsize := h.2.2.resolve_right (by simp)
      omega
    · rw [if_neg hlong]
      constructor
      · rintro ⟨p', q', hp', hq', -, -, -, hsize, -⟩
        cases hq'
        exact ⟨hp, hq, Or.inl hsize⟩
      · rintro ⟨-, -, hsize⟩
        have hsize := hsize.resolve_right (by simp)
        have hct : sizeSub q.length boxNonceBytes + boxNonceBytes = q.length := by
          rw [sizeSub_eq hq (by omega), Nat.sub_add_cancel hq]
        exact ⟨p, q, rfl, rfl, hp, rfl, hct, hsize, by omega⟩

/-- The packets of an honest server have these sizes. -/
theorem readKeys_safe_honest :
    let zeros := List.replicate 32 (0 : UInt8)
    let grpPkt := List.replicate 72 (0 : UInt8)
    (readKeys Sodium.plain zeros (some zeros) (some grpPkt)).Safe (some zeros) (some grpPkt) := by
  intro zeros grpPkt
  have hgrp : ∀ q ∈ some grpPkt, ∃ ch ch', recvPacket ch = .done (some q) ch' := by
    rintro q ⟨⟩
    obtain ⟨cuts, hrecv⟩ := recvPacket_frame [] (by decide : grpPkt.length < 2 ^ 32) .alive []
    exact ⟨_, _, hrecv⟩
  have hiff := @readKeys_safe_iff Sodium.plain zeros Sodium.plain_boxOpens (some zeros) _ hgrp
  have hsized : KeysSized Sodium.plain zeros (some zeros) (some grpPkt) :=
    keysSized_some.mpr ⟨by decide, by decide, Or.inl (by decide)⟩
  rw [hiff]
  exact hsized

/-- A server's key of one byte is read past its end; the length of a ciphertext without a nonce
    wraps; a sealed key of 33 bytes is written past `m_group_key`, and one of 31 is accepted. -/
theorem sizes_unchecked :
    let zeros := List.replicate 32 (0 : UInt8)
    (∀ p : Bytes, p.length < 2 ^ 32 → ∃ ch ch', recvPacket ch = .done (some p) ch') ∧
      readKeys Sodium.plain zeros (some [7]) none = .overrun .srvpkPkt ∧
      readKeys Sodium.plain zeros (some zeros) (some [1, 2, 3]) = .overrun .grpPkt ∧
      readKeys Sodium.plain zeros (some zeros) (some (List.replicate 73 0)) = .overrun .groupKey ∧
      readKeys Sodium.plain zeros (some zeros) (some (List.replicate 71 0)) =
        .continues zeros (List.replicate 31 0) ∧
      ¬∀ grpPkt : Bytes, grpPkt.length < 2 ^ 32 →
        (readKeys Sodium.plain zeros (some zeros) (some grpPkt)).Safe (some zeros) (some grpPkt) := by
  intro zeros
  have hwraps : readKeys Sodium.plain zeros (some zeros) (some [1, 2, 3]) = .overrun .grpPkt := by
    decide +kernel
  refine ⟨?_, by decide +kernel, hwraps, by decide +kernel, by decide +kernel, ?_⟩
  · intro p hp
    obtain ⟨cuts, hrecv⟩ := recvPacket_frame [] hp .alive []
    exact ⟨_, _, hrecv⟩
  · intro h
    have hsafe := h [1, 2, 3] (by decide)
    rw [hwraps] at hsafe
    exact hsafe

end safe

section client

variable {na : Sodium} {c : Client} {ch ch' : Chan}

theorem Client.recvPacket_open {pkt : Option Bytes} (hopen : c.sessionOpen = true)
    (h : CliChat.recvPacket ch = .done pkt ch') :
    c.recvPacket ch = some (pkt, c.reading pkt, ch') := by
  rw [Client.recvPacket, if_pos hopen, h]
  rfl

theorem Client.recvServerPk_some {p : Bytes} (hopen : c.sessionOpen = true)
    (h : CliChat.recvPacket ch = .done (some p) ch') :
    c.recvServerPk ch = some ({ c.reading (some p) with
      serverPk := p.take boxPublicKeyBytes
      stage := .awaitsGroupKey }, ch') := by
  rw [Client.recvServerPk, Client.recvPacket_open hopen h]

theorem Client.recvGroupKey_some {q key : Bytes} (hopen : c.sessionOpen = true)
    (h : CliChat.recvPacket ch = .done (some q) ch')
    (hbox : na.boxOpenEasy (q.drop boxNonceBytes) (q.take boxNonceBytes) c.serverPk c.clientSk =
      some key) :
    c.recvGroupKey na ch = some ({ c.reading (some q) with
      groupKey := key
      stage := .promptsUsername }, ch') := by
  rw [Client.recvGroupKey, Client.recvPacket_open hopen h]
  dsimp only [Client.reading]
  rw [hbox]

/-- REFINES: where the exchange goes on, `Start` has read these keys and asks for a name. -/
theorem readKeys_client {ch₁ ch₂ : Chan} {srvpkPkt grpPkt : Option Bytes}
    {serverPk groupKey : Bytes} (hopen : c.sessionOpen = true)
    (h₁ : recvPacket ch = .done srvpkPkt ch₁) (h₂ : recvPacket ch₁ = .done grpPkt ch₂)
    (h : readKeys na c.clientSk srvpkPkt grpPkt = .continues serverPk groupKey) :
    ∃ c₁ c₂, c.recvServerPk ch = some (c₁, ch₁) ∧ c₁.recvGroupKey na ch₁ = some (c₂, ch₂) ∧
      c₂.serverPk = serverPk ∧ c₂.groupKey = groupKey ∧ c₂.stage = .promptsUsername := by
  rcases srvpkPkt with _ | p
  · cases h
  by_cases hp : boxPublicKeyBytes ≤ p.length
  swap
  · rw [readKeys_short hp] at h
    cases h
  rw [readKeys_long hp] at h
  rcases grpPkt with _ | q
  · cases h
  have hlt := recvPacket_length h₂
  dsimp only at h
  by_cases hq : boxNonceBytes ≤ q.length
  swap
  · rw [readGroupKey_wraps rfl hq hlt] at h
    cases h
  rw [readGroupKey_long rfl hq hlt] at h
  cases hbox : na.boxOpenEasy (q.drop boxNonceBytes) (q.take boxNonceBytes)
    (p.take boxPublicKeyBytes) c.clientSk with
  | none =>
    rw [hbox] at h
    cases h
  | some key =>
    rw [hbox] at h
    dsimp only at h
    split at h
    · cases h
    · cases h
      exact ⟨_, _, Client.recvServerPk_some hopen h₁, Client.recvGroupKey_some hopen h₂ hbox, rfl,
        rfl, rfl⟩

end client

end CliChat
