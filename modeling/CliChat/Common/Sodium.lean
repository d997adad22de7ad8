import CliChat.Common.Socket

/-! @src vcpkg_installed/x64-linux/include/sodium | name:libsodium | scheme:library interface

    The four libsodium calls the program makes, as a parameter: the library ships as headers and a
    binary. A call that returns nonzero is `none`. The constants are those of the headers; what the
    program relies on is stated as named laws, assumed only by the results that need them. -/

namespace CliChat

/-- `crypto_box_PUBLICKEYBYTES`. -/
def boxPublicKeyBytes : ℕ := 32
/-- `crypto_box_NONCEBYTES`. -/
def boxNonceBytes : ℕ := 24
/-- `crypto_box_MACBYTES`. -/
def boxMacBytes : ℕ := 16
/-- `crypto_secretbox_KEYBYTES`. -/
def secretboxKeyBytes : ℕ := 32
/-- `crypto_secretbox_NONCEBYTES`. -/
def secretboxNonceBytes : ℕ := 24
/-- `crypto_secretbox_MACBYTES`. -/
def secretboxMacBytes : ℕ := 16

/-- The library calls: message or ciphertext, then nonce, then keys, in the order of the API. -/
structure Sodium where
  secretboxEasy : Bytes → Bytes → Bytes → Option Bytes
  secretboxOpenEasy : Bytes → Bytes → Bytes → Option Bytes
  boxEasy : Bytes → Bytes → Bytes → Bytes → Option Bytes
  boxOpenEasy : Bytes → Bytes → Bytes → Bytes → Option Bytes

/-- Secretbox under one key: sealing adds the MAC and opening inverts sealing. -/
structure Sodium.SecretboxInverts (na : Sodium) (key : Bytes) : Prop where
  length : ∀ m n c, na.secretboxEasy m n key = some c → c.length = secretboxMacBytes + m.length
  opens : ∀ m n c, na.secretboxEasy m n key = some c → na.secretboxOpenEasy c n key = some m

/-- Two key pairs: what is boxed from the first to the second has a MAC, and opens at the second. -/
structure Sodium.BoxInverts (na : Sodium) (pk sk pk' sk' : Bytes) : Prop where
  length : ∀ m n c, na.boxEasy m n pk' sk = some c → c.length = boxMacBytes + m.length
  opens : ∀ m n c, na.boxEasy m n pk' sk = some c → na.boxOpenEasy c n pk sk' = some m

/-- `crypto_box_open_easy` refuses what is shorter than a MAC, and writes that much less than it is
    given. -/
def Sodium.BoxOpens (na : Sodium) : Prop :=
  ∀ c n pk sk m, na.boxOpenEasy c n pk sk = some m → c.length = boxMacBytes + m.length

/-- `crypto_box_easy` adds the MAC. -/
def Sodium.BoxSizes (na : Sodium) : Prop :=
  ∀ m n pk sk c, na.boxEasy m n pk sk = some c → c.length = boxMacBytes + m.length

/-- `payload` is the nonce and the ciphertext of `msg` under `key`, `none` when sealing fails. -/
def SealedBox (na : Sodium) (key msg : Bytes) (payload : Option Bytes) : Prop :=
  ∃ nonce : Bytes, nonce.length = secretboxNonceBytes ∧
    payload = (na.secretboxEasy msg nonce key).map (nonce ++ ·)

/-- Sealing under the key does not fail: `crypto_secretbox_easy` returns 0. -/
def Seals (na : Sodium) (key : Bytes) : Prop := ∀ m n, (na.secretboxEasy m n key).isSome = true

theorem Seals.payload {na : Sodium} {key msg : Bytes} (h : Seals na key) {payload : Option Bytes}
    (hp : SealedBox na key msg payload) : ∃ q, payload = some q := by
  obtain ⟨nonce, -, rfl⟩ := hp
  obtain ⟨c, hc⟩ := Option.isSome_iff_exists.mp (h msg nonce)
  exact ⟨nonce ++ c, by rw [hc]; rfl⟩

/-- A sealed string is longer than the string by a nonce and a MAC. -/
theorem SealedBox.length {na : Sodium} {key msg p : Bytes} (hkey : na.SecretboxInverts key)
    (h : SealedBox na key msg (some p)) :
    p.length = secretboxNonceBytes + secretboxMacBytes + msg.length := by
  obtain ⟨nonce, hnonce, hp⟩ := h
  obtain ⟨c, hc, rfl⟩ := Option.map_eq_some_iff.mp hp.symm
  rw [List.length_append, hnonce, hkey.length msg nonce c hc, Nat.add_assoc]

/-- Secretbox under one key as an ideal authenticated cipher: sealing does not fail and adds the MAC,
    and a ciphertext opens to exactly the message it was sealed from. -/
structure Sodium.Ideal (na : Sodium) (key : Bytes) : Prop where
  seals : ∀ m n, n.length = secretboxNonceBytes → ∃ c, na.secretboxEasy m n key = some c
  length : ∀ m n c, na.secretboxEasy m n key = some c → c.length = secretboxMacBytes + m.length
  opens_iff : ∀ c m n, n.length = secretboxNonceBytes →
    (na.secretboxOpenEasy c n key = some m ↔ na.secretboxEasy m n key = some c)

/-- The packet of a message: the nonce, and the message sealed with it. -/
def sealedPayload (na : Sodium) (key nonce msg : Bytes) : Option Bytes :=
  (na.secretboxEasy msg nonce key).map (nonce ++ ·)

/-- The bytes of an ASCII string literal of the source. -/
def ascii (s : String) : Bytes := s.toUTF8.data.toList

/-! ### The laws are satisfiable -/

/-- The tag of the cipher below: a function of nonce and key, of the size of a MAC. -/
def tag (n k : Bytes) : Bytes :=
  (List.zipWith (· ^^^ ·) n k ++ List.replicate secretboxMacBytes 0).take secretboxMacBytes

theorem tag_length (n k : Bytes) : (tag n k).length = secretboxMacBytes := by
  rw [tag, List.length_take, List.length_append, List.length_replicate]
  omega

/-- Check the tag and strip it. -/
def untag (c n k : Bytes) : Option Bytes :=
  if c.take secretboxMacBytes = tag n k then some (c.drop secretboxMacBytes) else none

theorem untag_tag (m n k : Bytes) : untag (tag n k ++ m) n k = some m := by
  rw [untag, List.take_left' (tag_length n k), if_pos rfl, List.drop_left' (tag_length n k)]

/-- A cipher that hides nothing and meets the laws: concrete runs are computed with it. The shared
    key of a box is the exclusive or of the two keys, and a public key is its secret key. -/
def Sodium.plain : Sodium where
  secretboxEasy m n k := some (tag n k ++ m)
  secretboxOpenEasy c n k := untag c n k
  boxEasy m n pk sk := some (tag n (List.zipWith (· ^^^ ·) pk sk) ++ m)
  boxOpenEasy c n pk sk := untag c n (List.zipWith (· ^^^ ·) pk sk)

theorem Sodium.plain_secretboxInverts (key : Bytes) : Sodium.plain.SecretboxInverts key where
  length := by
    intro m n c h
    cases h
    rw [List.length_append, tag_length]
  opens := by
    intro m n c h
    cases h
    exact untag_tag m n key

theorem untag_eq_some {c n k m : Bytes} : untag c n k = some m ↔ tag n k ++ m = c := by
  constructor
  · intro h
    rw [untag, Option.ite_none_right_eq_some] at h
    obtain ⟨htag, hm⟩ := h
    rw [← htag, ← Option.some.inj hm, List.take_append_drop]
  · rintro rfl
    exact untag_tag m n k

theorem Sodium.plain_ideal (key : Bytes) : Sodium.plain.Ideal key where
  seals := fun m n _ => ⟨tag n key ++ m, rfl⟩
  length := (Sodium.plain_secretboxInverts key).length
  opens_iff := by
    intro c m n _
    show untag c n key = some m ↔ some (tag n key ++ m) = some c
    rw [untag_eq_some, Option.some.injEq]

theorem Sodium.plain_boxOpens : Sodium.plain.BoxOpens := by
  intro c n pk sk m h
  have hc := untag_eq_some.mp h
  rw [← hc, List.length_append, tag_length]
  rfl

theorem Sodium.plain_boxSizes : Sodium.plain.BoxSizes := by
  intro m n pk sk c h
  cases h
  rw [List.length_append, tag_length]
  rfl

theorem Sodium.plain_boxInverts (k k' : Bytes) : Sodium.plain.BoxInverts k k k' k' where
  length := by
    intro m n c h
    cases h
    rw [List.length_append, tag_length]
    rfl
  opens := by
    intro m n c h
    cases h
    show untag _ _ (List.zipWith (· ^^^ ·) k k') = some m
    rw [List.zipWith_comm_of_comm (fun x y => UInt8.xor_comm x y)]
    exact untag_tag m n _

end CliChat
