import CliChat.Client.Stops
import CliChat.Server.Invariant

/-! @src client/src/client.cpp, server/src/server.cpp | name:SendEncrypted, RecvDecrypted,
    SendSecretbox, HandleClientEvent | scheme:round trip

    The sealed packets. Two encoders write the nonce and then what secretbox makes of the message;
    two decoders cut the packet there. Over an ideal cipher the encoders are one function, both
    decoders invert it, and `RecvDecrypted` accepts nothing else, except that it takes no packet of
    an empty message.

        SendEncrypted ─┐                               ┌─▶ username of a client
                       ├─▶ nonce │ MAC │ message  ─────┤
        SendSecretbox ─┘     24     16                 └─▶ RecvDecrypted        -/

namespace CliChat

/-- What a `std::string` can hold. -/
abbrev StdString := { bs : Bytes // bs.length ≤ vectorMaxSize }

/-- `RecvDecrypted` for the packet `enc`, in `size_t` arithmetic: what it returns (`none` when the
    vector throws), and the operands of its subtractions. -/
def openSized (na : Sodium) (groupKey enc : Bytes) : Option (Option Bytes) × List (ℕ × ℕ) :=
  if enc.length < secretboxNonceBytes + secretboxMacBytes then (some none, [])
  else
    let nonce := enc.take secretboxNonceBytes
    let ct := enc.drop secretboxNonceBytes
    let ctLen := sizeSub enc.length secretboxNonceBytes
    let ptLen := sizeSub ctLen secretboxMacBytes
    let subs := [(enc.length, secretboxNonceBytes), (ctLen, secretboxMacBytes)]
    if vectorMaxSize < ptLen then (none, subs)
    else if ctLen ≤ secretboxMacBytes then (some none, subs)
    else (some (na.secretboxOpenEasy ct nonce groupKey), subs)

/-- REFINES: no subtraction wraps, and the lengths are those of the parts. -/
theorem openSized_eq (na : Sodium) (key : Bytes) (enc : StdString) :
    (openSized na key enc.1).1 = some (openPacket na key enc.1) ∧
      ∀ x ∈ (openSized na key enc.1).2, x.2 ≤ x.1 := by
  have hmax : enc.1.length ≤ 2 ^ 63 - 1 := enc.2
  unfold openSized openPacket
  by_cases hshort : enc.1.length < secretboxNonceBytes + secretboxMacBytes
  · rw [if_pos hshort, if_pos hshort]
    exact ⟨rfl, by simp⟩
  · have hlong : 40 ≤ enc.1.length := not_lt.mp hshort
    have hct : sizeSub enc.1.length secretboxNonceBytes = enc.1.length - 24 :=
      sizeSub_eq (by show 24 ≤ _; omega) (by omega)
    have hpt : sizeSub (enc.1.length - 24) secretboxMacBytes = enc.1.length - 24 - 16 :=
      sizeSub_eq (by show 16 ≤ _; omega) (by omega)
    have hfits : ¬ vectorMaxSize < enc.1.length - 24 - 16 := by
      show ¬ 2 ^ 63 - 1 < _
      omega
    have hsubs : ∀ x ∈ [(enc.1.length, secretboxNonceBytes),
        (enc.1.length - 24, secretboxMacBytes)], x.2 ≤ x.1 := by
      simp only [List.forall_mem_cons, secretboxNonceBytes, secretboxMacBytes]
      exact ⟨by omega, by omega, by simp⟩
    rw [if_neg hshort, if_neg hshort]
    simp only [hct, hpt, if_neg hfits, List.length_drop]
    change (if enc.1.length - 24 ≤ secretboxMacBytes then _ else _ :
      Option (Option Bytes) × List (ℕ × ℕ)).1 = some (if enc.1.length - 24 ≤ secretboxMacBytes
        then none else _) ∧ _
    by_cases hempty : enc.1.length - 24 ≤ secretboxMacBytes
    · rw [if_pos hempty, if_pos hempty]
      exact ⟨rfl, hsubs⟩
    · rw [if_neg hempty, if_neg hempty]
      exact ⟨rfl, hsubs⟩

/-! ### The two encoders -/

section codecs

variable {na : Sodium} {key nonce msg q : Bytes}

/-- `SendEncrypted` hands this packet to `SendPacket`, or none. -/
theorem Client.sendEncrypted_payload (c : Client) (msg nonce : Bytes) (sched : Answers) :
    (c.sendEncrypted na msg nonce sched).2.2.sent.map Prod.fst =
      c.sent.map Prod.fst ++ (sealedPayload na c.groupKey nonce msg).toList := by
  unfold Client.sendEncrypted sealedPayload
  cases na.secretboxEasy msg nonce c.groupKey with
  | none => simp
  | some cipher =>
    dsimp only [Option.map_some]
    unfold Client.sendPacket
    split <;> simp

/-- `SendSecretbox` hands this packet to `SendPacket`, or none. -/
theorem Server.sendSecretbox_payload (env : ReturningEnv) (s : Server) (sess : NetworkSession)
    (msg : Bytes) :
    (s.sendSecretbox na env sess msg).2.trace = s.trace ++ boxEvents sess.conn msg
      (sealedPayload na s.groupKey (env.nonce s.kernel.rands) msg)
      (s.sendSecretbox na env sess msg).1 := by
  have hnonce : (s.randomNonce env).1 = env.nonce s.kernel.rands := rfl
  unfold Server.sendSecretbox sealedPayload
  dsimp only
  rw [hnonce]
  cases hseal : na.secretboxEasy msg (env.nonce s.kernel.rands) s.groupKey with
  | none => rfl
  | some cipher =>
    dsimp only [Option.map_some]
    rw [Server.log_trace, Server.sendPacket_trace]
    simp [boxEvents, Server.randomNonce]

/-- So it does under any environment, if the call returns. -/
theorem ServerM.sendSecretbox_payload (env : Env) (s : Server) (sess : NetworkSession)
    (msg : Bytes) (hq : sealedPayload na s.groupKey (env.nonce s.kernel.rands) msg = some q) :
    (∃ ok t, ServerM.sendSecretbox na env sess msg s = .ok ok t ∧ t.trace = s.trace ++
      [.send sess.conn (.secretbox msg) q ok, .secretbox sess.conn msg ok]) ∨
    ∃ how t, ServerM.sendSecretbox na env sess msg s = .error (.send how) t := by
  have happly := sendSecretbox_apply na env.returning s sess msg
  by_cases hret : env.SendsReturn s.kernel.sends
      (resultState (ServerM.sendSecretbox na env.returning sess msg s)).kernel.sends
  · refine Or.inl ⟨_, _, ((Mirrors.sendSecretbox env na sess msg).same s hret).trans happly, ?_⟩
    rw [s.sendSecretbox_payload, Env.returning_nonce, hq]
    rfl
  · obtain ⟨how, t, -, herr, -⟩ := (Mirrors.sendSecretbox env na sess msg).stops s hret
    exact Or.inr ⟨how, t, herr⟩

/-! ### The two decoders -/

theorem sealedPayload_cut (hnonce : nonce.length = secretboxNonceBytes)
    (hq : sealedPayload na key nonce msg = some q) :
    q.take secretboxNonceBytes = nonce ∧
      na.secretboxEasy msg nonce key = some (q.drop secretboxNonceBytes) := by
  obtain ⟨c, hc, rfl⟩ := Option.map_eq_some_iff.mp hq
  exact ⟨List.take_left' hnonce, by rw [List.drop_left' hnonce, hc]⟩

/-- A packet is a nonce and what the message was sealed to exactly when it opens. -/
theorem sealedPayload_iff (hkey : na.Ideal key) (hlong : secretboxNonceBytes ≤ q.length) :
    sealedPayload na key (q.take secretboxNonceBytes) msg = some q ↔
      na.secretboxOpenEasy (q.drop secretboxNonceBytes) (q.take secretboxNonceBytes) key =
        some msg := by
  have hnonce : (q.take secretboxNonceBytes).length = secretboxNonceBytes :=
    List.length_take_of_le hlong
  rw [hkey.opens_iff _ _ _ hnonce]
  constructor
  · exact fun h => (sealedPayload_cut hnonce h).2
  · intro h
    rw [sealedPayload, h, Option.map_some, List.take_append_drop]

theorem sealedPayload_length (hkey : na.Ideal key) (hnonce : nonce.length = secretboxNonceBytes)
    (hq : sealedPayload na key nonce msg = some q) :
    q.length = secretboxNonceBytes + secretboxMacBytes + msg.length := by
  obtain ⟨c, hc, rfl⟩ := Option.map_eq_some_iff.mp hq
  rw [List.length_append, hnonce, hkey.length msg nonce c hc, Nat.add_assoc]

/-- `RecvDecrypted` takes exactly the packets of messages that are not empty. -/
theorem openPacket_iff (hkey : na.Ideal key) : openPacket na key q = some msg ↔
    msg ≠ [] ∧ secretboxNonceBytes ≤ q.length ∧
      sealedPayload na key (q.take secretboxNonceBytes) msg = some q := by
  rw [openPacket_eq_some, Holds]
  have hlen : secretboxNonceBytes ≤ q.length →
      sealedPayload na key (q.take secretboxNonceBytes) msg = some q →
      q.length = secretboxNonceBytes + secretboxMacBytes + msg.length :=
    fun hlong hq => sealedPayload_length hkey (List.length_take_of_le hlong) hq
  constructor
  · rintro ⟨hlt, hopen⟩
    have hlong : secretboxNonceBytes ≤ q.length := by omega
    have hq := (sealedPayload_iff hkey hlong).mpr hopen
    refine ⟨?_, hlong, hq⟩
    rintro rfl
    have := hlen hlong hq
    simp at this
    omega
  · rintro ⟨hne, hlong, hq⟩
    have hpos := List.length_pos_iff.mpr hne
    have := hlen hlong hq
    exact ⟨by omega, (sealedPayload_iff hkey hlong).mp hq⟩

/-- The username phase recovers the message from its packet. -/
theorem registerClient_payload (hkey : na.Ideal key) (hnonce : nonce.length = secretboxNonceBytes)
    {p : StdString} (hq : sealedPayload na key nonce p.1 = some q) (env : Env) (fd : Fd)
    {s : Server} (hs : s.groupKey = key) :
    registerClient na env fd q s = claimName na env fd p.1 s := by
  have hlen := sealedPayload_length hkey hnonce hq
  obtain ⟨htake, hseal⟩ := sealedPayload_cut hnonce hq
  have hopen := (hkey.opens_iff _ _ _ hnonce).mpr hseal
  have hsize : usernameBufferSize (q.drop secretboxNonceBytes).length = p.1.length := by
    have hmax : p.1.length ≤ 2 ^ 63 - 1 := p.2
    rw [List.length_drop, hlen]
    unfold usernameBufferSize secretboxNonceBytes secretboxMacBytes
    omega
  rw [registerClient, if_neg (by omega), hsize, if_neg (not_lt.mpr p.2),
    ServerM.bind_ok (ServerM.get_apply _), htake, hs, hopen]

/-- `RecvDecrypted` returns what `openPacket` makes of the packet. -/
theorem Client.recvDecrypted_openPacket {c c₁ : Client} {ch ch₁ : Chan}
    (h : c.recvPacket ch = some (some q, c₁, ch₁)) :
    ∃ c₂, c.recvDecrypted na ch = some (openPacket na c.groupKey q, c₂, ch₁) := by
  obtain ⟨rfl, -⟩ := recvPacket_reads h
  rw [Client.recvDecrypted, h]
  exact ⟨_, rfl⟩

/-- CODECS: over an ideal cipher both encoders make the same packet of a nonce, key and message (the
    server's call may not return); the username phase recovers the message from it, and
    `RecvDecrypted` does when it is not empty.
    For every packet `RecvDecrypted` wraps no subtraction, and returns a message exactly when this is
    not empty and the packet is its packet, for the nonce that the packet begins with. -/
theorem sealed_codecs (hkey : na.Ideal key) :
    (∀ nonce (p : StdString), nonce.length = secretboxNonceBytes →
      ∃ q, sealedPayload na key nonce p.1 = some q ∧
        (∀ (c : Client) sched, c.groupKey = key →
          (c.sendEncrypted na p.1 nonce sched).2.2.sent.map Prod.fst = c.sent.map Prod.fst ++ [q]) ∧
        (∀ (env : Env) (s : Server) sess, s.groupKey = key → env.nonce s.kernel.rands = nonce →
          (∃ ok t, ServerM.sendSecretbox na env sess p.1 s = .ok ok t ∧ t.trace =
            s.trace ++ [.send sess.conn (.secretbox p.1) q ok, .secretbox sess.conn p.1 ok]) ∨
          ∃ how t, ServerM.sendSecretbox na env sess p.1 s = .error (.send how) t) ∧
        (∀ (env : Env) fd (s : Server), s.groupKey = key →
          registerClient na env fd q s = claimName na env fd p.1 s) ∧
        (p.1 ≠ [] → ∀ (c : Client) ch c₁ ch₁, c.groupKey = key →
          c.recvPacket ch = some (some q, c₁, ch₁) →
          ∃ c₂, c.recvDecrypted na ch = some (some p.1, c₂, ch₁))) ∧
    ∀ enc : StdString, (∀ x ∈ (openSized na key enc.1).2, x.2 ≤ x.1) ∧
      (openSized na key enc.1).1 = some (openPacket na key enc.1) ∧
      (∀ (c : Client) ch c₁ ch₁, c.groupKey = key → c.recvPacket ch = some (some enc.1, c₁, ch₁) →
        ∃ c₂, c.recvDecrypted na ch = some (openPacket na key enc.1, c₂, ch₁)) ∧
      ∀ m, openPacket na key enc.1 = some m ↔ m ≠ [] ∧ secretboxNonceBytes ≤ enc.1.length ∧
        sealedPayload na key (enc.1.take secretboxNonceBytes) m = some enc.1 := by
  refine ⟨fun nonce p hnonce => ?_, fun enc => ?_⟩
  · obtain ⟨c, hc⟩ := hkey.seals p.1 nonce hnonce
    have hq : sealedPayload na key nonce p.1 = some (nonce ++ c) := by rw [sealedPayload, hc]; rfl
    obtain ⟨htake, -⟩ := sealedPayload_cut hnonce hq
    refine ⟨nonce ++ c, hq, ?_, ?_, ?_, ?_⟩
    · rintro c sched rfl
      rw [c.sendEncrypted_payload, hq]
      rfl
    · rintro env s sess rfl rfl
      exact ServerM.sendSecretbox_payload env s sess p.1 hq
    · exact fun env fd s hs => registerClient_payload hkey hnonce hq env fd hs
    · rintro hne c ch c₁ ch₁ rfl hrecv
      have hopen : openPacket na c.groupKey (nonce ++ _) = some p.1 :=
        (openPacket_iff hkey).mpr ⟨hne, by simp [hnonce], by rw [htake, hq]⟩
      obtain ⟨c₂, h₂⟩ := @Client.recvDecrypted_openPacket na _ _ _ _ _ hrecv
      exact ⟨c₂, by rw [h₂, hopen]⟩
  · obtain ⟨hopen, hsubs⟩ := openSized_eq na key enc
    refine ⟨hsubs, hopen, ?_, fun m => openPacket_iff hkey⟩
    rintro c ch c₁ ch₁ rfl hrecv
    exact Client.recvDecrypted_openPacket hrecv

end codecs

/-- The packet of "hi", under the keys of the concrete runs. -/
theorem sealed_codecs_hi : openPacket .plain sampleServer.groupKey (sampleSealed (ascii "hi")) =
    some (ascii "hi") :=
  ((sealed_codecs (Sodium.plain_ideal sampleServer.groupKey)).2
    ⟨sampleSealed (ascii "hi"), by decide⟩).2.2.2 _ |>.mpr ⟨by decide, by decide, by decide⟩

end CliChat
