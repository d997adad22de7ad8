import CliChat.Server.Broadcast

/-! @src server/src/server.cpp | name:HandleClientEvent | scheme:case analysis

    Everything one `HandleClientEvent` can do, said once. `Outcome` has a constructor for each way
    through the handler, with the state that is left as named updates; `handleClientEvent_outcome`
    says that the handler always ends in one of them. Later results inspect an `Outcome` and never
    unfold the handler.

                     ┌─ blocked
        key phase ───┼─ noKey            name phase ──┬─ rejected (disconnects)
                     ├─ badKey                        ├─ tooShort (length_error)
                     └─ keyed                         ├─ taken    (deadlock)
        chat phase ──── forwarded                     └─ named                     -/

namespace CliChat

variable (na : Sodium) (env : ReturningEnv)

namespace Server

/-! ### The states on the way -/

theorem touch_zero (s : Server) (fd : Fd) : s.touch fd 0 = s := by
  simp only [touch, List.replicate_zero, List.append_nil]

/-- The packet of the event has been read. -/
def received (s : Server) (fd : Fd) (c : ClientInfo) (pkt : Option Bytes) (ch : Chan) : Server :=
  (s.touch fd 3).heard c.session.conn pkt ch

/-- The client's key is stored, the server's key sent, and a nonce drawn. -/
def keyStored (s : Server) (fd : Fd) (c : ClientInfo) (pk : Bytes) : Server :=
  ((((s.write fd { c with clientPk := pk }).touch fd 1).sendPacket env c.session .serverPk
    s.serverPk).2.randomNonce env).2.touch fd 1

/-- The sealed group key has been sent. -/
def keyed (s : Server) (fd : Fd) (c : ClientInfo) (payload : Bytes) : Server :=
  ((s.touch fd 1).sendPacket env c.session .groupKey payload).2.write fd
    { c with keyExchanged := true }

/-- The mutex is taken. -/
@[simps] def locked (s : Server) : Server :=
  { s with clientsMutex := true, trace := s.trace ++ [.lock true] }

/-- The client is told that its name is taken, and the thread waits for itself. -/
def lockedOut (s : Server) (fd : Fd) (c : ClientInfo) : Server :=
  ((s.locked.touch fd 1).sendSecretbox na env c.session (ascii "SERVER::USERNAME_TAKEN")).2.log
    (.lock false)

/-- A free name is taken, under the mutex. -/
@[simps] def claimed (s : Server) (uname : Bytes) : Server :=
  { s with
    usernames := insert uname s.usernames
    clientsMutex := false
    trace := s.trace ++ [.lock true, .unlock] }

/-- The client is registered under `uname`. -/
@[simps] def named (s : Server) (fd : Fd) (c : ClientInfo) (uname : Bytes) : Server :=
  { s with
    clients := s.clients.replace fd { c with username := uname, registered := true }
    usernames := insert uname s.usernames
    clientsMutex := false
    trace := s.trace ++
      [.lock true, .unlock, .access fd true, .access fd true, .access fd true] }

/-- A last use of the reference `client`, whose entry may be gone. -/
@[simps!] def used (s : Server) (fd : Fd) : Server :=
  s.log (.access fd (s.clients.lookup fd).isSome)

end Server

/-- The text that announces an arrival. -/
def connectNotice (name : Bytes) : Bytes := name ++ ascii " has connected"

/-- The end of the text tells an arrival from a departure. -/
theorem connect_ne_disconnect (u v : Bytes) : connectNotice u ≠ disconnectNotice v := by
  intro h
  have hsplit : disconnectNotice v = v ++ ascii " ha" ++ ascii "s disconnected" := by
    rw [List.append_assoc]
    rfl
  rw [hsplit] at h
  exact absurd (List.append_inj_right' h rfl) (by decide)

/-- Why the client is disconnected for a packet, with the uses of `client` on the way: its stream
    ended, or it is not registered and the packet is no sealed name. -/
inductive Rejected (key : Bytes) (c : ClientInfo) : Option Bytes → ℕ → Prop where
  | closed : Rejected key c none 0
  | short {p : Bytes} : c.registered = false → p.length < secretboxNonceBytes →
      Rejected key c (some p) 1
  | unsealed {p : Bytes} : c.registered = false → secretboxNonceBytes ≤ p.length →
      usernameBufferSize (p.drop secretboxNonceBytes).length ≤ vectorMaxSize →
      na.secretboxOpenEasy (p.drop secretboxNonceBytes) (p.take secretboxNonceBytes) key = none →
      Rejected key c (some p) 1

/-- `p` is a name sealed under `key`. -/
structure SealedName (key p uname : Bytes) : Prop where
  long : secretboxNonceBytes ≤ p.length
  fits : usernameBufferSize (p.drop secretboxNonceBytes).length ≤ vectorMaxSize
  opens : na.secretboxOpenEasy (p.drop secretboxNonceBytes) (p.take secretboxNonceBytes) key =
    some uname

/-- The ways through `HandleClientEvent` for the entry `c` of `fd`, with what is left. -/
inductive Outcome (s : Server) (fd : Fd) (c : ClientInfo) :
    EStateM.Result Fault Server Unit → Prop where
  /-- Part of a packet has arrived, or nothing. -/
  | blocked : CliChat.recvPacket (s.kernel.conns c.session.conn).toServer = .blocks →
      Outcome s fd c (.error .blocked (s.touch fd 3))
  /-- The client stays, without keys. -/
  | noKey {pkt ch} : c.keyExchanged = false →
      CliChat.recvPacket (s.kernel.conns c.session.conn).toServer = .done pkt ch →
      (∀ p ∈ pkt, p.length ≠ boxPublicKeyBytes) →
      Outcome s fd c (.ok () (s.received fd c pkt ch))
  /-- `crypto_box_easy` refuses the client's key. -/
  | badKey {pk ch nonce} : c.keyExchanged = false →
      CliChat.recvPacket (s.kernel.conns c.session.conn).toServer = .done (some pk) ch →
      pk.length = boxPublicKeyBytes → na.boxEasy s.groupKey nonce pk s.serverSk = none →
      Outcome s fd c (.ok () (((s.received fd c (some pk) ch).keyStored env fd c pk).disconnected
        na env fd { c with clientPk := pk }))
  | keyed {pk ch nonce cipher} : c.keyExchanged = false →
      CliChat.recvPacket (s.kernel.conns c.session.conn).toServer = .done (some pk) ch →
      pk.length = boxPublicKeyBytes → nonce.length = boxNonceBytes →
      na.boxEasy s.groupKey nonce pk s.serverSk = some cipher →
      Outcome s fd c (.ok () (((s.received fd c (some pk) ch).keyStored env fd c pk).keyed env fd
        { c with clientPk := pk } (nonce ++ cipher)))
  | rejected {pkt ch n} : c.keyExchanged = true →
      CliChat.recvPacket (s.kernel.conns c.session.conn).toServer = .done pkt ch →
      Rejected na s.groupKey c pkt n →
      Outcome s fd c (.ok () (((s.received fd c pkt ch).touch fd n).disconnected na env fd c))
  /-- The size of the name underflows, and no vector is that long. -/
  | tooShort {p ch} : c.keyExchanged = true → c.registered = false →
      CliChat.recvPacket (s.kernel.conns c.session.conn).toServer = .done (some p) ch →
      secretboxNonceBytes ≤ p.length →
      vectorMaxSize < usernameBufferSize (p.drop secretboxNonceBytes).length →
      Outcome s fd c (.error .lengthError ((s.received fd c (some p) ch).touch fd 1))
  | taken {p ch uname} : c.keyExchanged = true → c.registered = false →
      CliChat.recvPacket (s.kernel.conns c.session.conn).toServer = .done (some p) ch →
      SealedName na s.groupKey p uname → uname ∈ s.usernames →
      Outcome s fd c (.error .deadlock
        (((s.received fd c (some p) ch).touch fd 1).lockedOut na env fd c))
  | named {p ch uname} : c.keyExchanged = true → c.registered = false →
      CliChat.recvPacket (s.kernel.conns c.session.conn).toServer = .done (some p) ch →
      SealedName na s.groupKey p uname → uname ∉ s.usernames →
      Outcome s fd c (.ok () (((((s.received fd c (some p) ch).touch fd 1).named fd c
        uname).broadcasted na env (connectNotice uname)).used fd))
  | forwarded {p ch} : c.keyExchanged = true → c.registered = true →
      CliChat.recvPacket (s.kernel.conns c.session.conn).toServer = .done (some p) ch →
      Outcome s fd c (.ok () (((s.received fd c (some p) ch).touch fd 1).forwardTo env
        c.session.conn p s.clients.entries))

/-! ### Every handler ends in an outcome -/

section outcome

variable {s : Server} {fd : Fd} {c : ClientInfo}

/-- A reference stays live while the map keeps its entry. -/
theorem access_same (hl : s.clients.lookup fd = some c) {t : Server} (ht : t.clients = s.clients) :
    ServerM.access fd t = .ok c (t.touch fd 1) :=
  access_eq (by rw [ht]; exact hl)

/-- The session of an entry reads from its own connection. -/
theorem recvPacket_session (hT : Table s) (hl : s.clients.lookup fd = some c)
    {pkt : Option Bytes} {ch : Chan}
    (hd : CliChat.recvPacket (s.kernel.conns c.session.conn).toServer = .done pkt ch) (n : ℕ) :
    ServerM.recvPacket c.session (s.touch fd n) =
      .ok pkt ((s.touch fd n).heard c.session.conn pkt ch) := by
  obtain ⟨-, hsock, -, hfds⟩ := hT.entry fd c hl
  exact recvPacket_done (by rw [hsock]; exact hfds) hd

theorem recvPacket_session_blocks (hT : Table s) (hl : s.clients.lookup fd = some c)
    (hd : CliChat.recvPacket (s.kernel.conns c.session.conn).toServer = .blocks) (n : ℕ) :
    ServerM.recvPacket c.session (s.touch fd n) = .error .blocked (s.touch fd n) := by
  obtain ⟨-, hsock, -, hfds⟩ := hT.entry fd c hl
  exact recvPacket_blocks (by rw [hsock]; exact hfds) hd

theorem keyStored_sendsOnly (s : Server) (fd : Fd) (c : ClientInfo) (pk : Bytes) :
    SendsOnly (s.write fd { c with clientPk := pk }) (s.keyStored env fd c pk) :=
  (((SendsOnly.touch _ fd 1).trans (Server.sendPacket_sendsOnly env _ _ _ _)).trans
    (Server.randomNonce_sendsOnly env _)).trans (SendsOnly.touch _ fd 1)

theorem keyStored_trace (s : Server) (fd : Fd) (c : ClientInfo) (pk : Bytes) :
    ∃ ok, (s.keyStored env fd c pk).trace = s.trace ++
      [.access fd true, .access fd true, .send c.session.conn .serverPk s.serverPk ok,
        .access fd true] := by
  have htr := Server.sendPacket_trace env c.session .serverPk s.serverPk
    ((s.write fd { c with clientPk := pk }).touch fd 1)
  refine ⟨(((s.write fd { c with clientPk := pk }).touch fd 1).sendPacket env c.session .serverPk
    s.serverPk).1, ?_⟩
  rw [Server.keyStored, Server.touch_trace, Server.randomNonce, htr]
  simp

theorem keyed_trace (s : Server) (fd : Fd) (c : ClientInfo) (payload : Bytes) :
    ∃ ok, (s.keyed env fd c payload).trace = s.trace ++
      [.access fd true, .send c.session.conn .groupKey payload ok, .access fd true] := by
  have htr := Server.sendPacket_trace env c.session .groupKey payload (s.touch fd 1)
  refine ⟨((s.touch fd 1).sendPacket env c.session .groupKey payload).1, ?_⟩
  rw [Server.keyed, Server.write_trace, htr]
  simp

/-- Once the server's key is sent, the entry is still there, with the client's key. -/
theorem keyStored_lookup (hl : s.clients.lookup fd = some c) (pk : Bytes) :
    (s.keyStored env fd c pk).clients.lookup fd = some { c with clientPk := pk } := by
  rw [(keyStored_sendsOnly env s fd c pk).clients]
  exact AList.lookup_replace_self _ (AList.mem_of_lookup hl)

theorem Ready.keyStored (hs : Ready s) (hl : s.clients.lookup fd = some c) (pk : Bytes) :
    Ready (s.keyStored env fd c pk) := by
  have hw : Ready (s.write fd { c with clientPk := pk }) := ⟨hs.table.write hl rfl rfl, hs.free⟩
  exact hw.sendsOnly (keyStored_sendsOnly env s fd c pk)

/-- The answer to a key: both keys are sent, or the client is disconnected. -/
theorem answerKey_eq (hs : Ready s) (hl : s.clients.lookup fd = some c) (pk : Bytes) :
    ∃ nonce : Bytes, nonce.length = boxNonceBytes ∧
      answerKey na env fd pk s =
        match na.boxEasy s.groupKey nonce pk s.serverSk with
        | none => .ok () ((s.keyStored env fd c pk).disconnected na env fd { c with clientPk := pk })
        | some cipher => .ok () ((s.keyStored env fd c pk).keyed env fd { c with clientPk := pk }
            (nonce ++ cipher)) := by
  have hw : (s.write fd { c with clientPk := pk }).clients.lookup fd =
      some { c with clientPk := pk } := AList.lookup_replace_self _ (AList.mem_of_lookup hl)
  have hk := keyStored_lookup env hl pk
  set t := ((s.write fd { c with clientPk := pk }).touch fd 1).sendPacket env c.session .serverPk
    (s.write fd { c with clientPk := pk }).serverPk with ht
  have hst : SendsOnly (s.write fd { c with clientPk := pk }) (t.2.randomNonce env).2 :=
    ((SendsOnly.touch _ fd 1).trans (Server.sendPacket_sendsOnly env _ _ _ _)).trans
      (Server.randomNonce_sendsOnly env _)
  have hkeys := keyStored_sendsOnly env s fd c pk
  refine ⟨(t.2.randomNonce env).1, env.nonce_length _, ?_⟩
  rw [answerKey, ServerM.bind_ok (modifyClient_eq hl _), ServerM.bind_ok (ServerM.get_apply _)]
  dsimp only
  rw [ServerM.bind_ok (access_eq hw), ServerM.bind_ok (sendPacket_apply env _ _ _ _),
    ServerM.bind_ok (ServerM.act_apply _ _)]
  dsimp only
  rw [← ht, ServerM.bind_ok (access_same hw hst.clients), ServerM.bind_ok (ServerM.get_apply _),
    show ((t.2.randomNonce env).2.touch fd 1) = s.keyStored env fd c pk from rfl,
    hkeys.groupKey, hkeys.serverSk, Server.write_groupKey, Server.write_serverSk]
  cases na.boxEasy s.groupKey (t.2.randomNonce env).1 pk s.serverSk with
  | none => exact (disconnect_eq na env (hs.keyStored env hl pk) hk).1
  | some cipher =>
    dsimp only
    rw [ServerM.bind_ok (access_eq hk), ServerM.bind_ok (sendPacket_apply env _ _ _ _)]
    refine modifyClient_eq ?_ _
    rw [(Server.sendPacket_sendsOnly env _ _ _ _).clients]
    exact hk

/-- The insertion of the name and the end of the block. -/
theorem claim_locked (s : Server) (uname : Bytes) (f : PUnit → ServerM Unit) :
    ((modify fun s : Server => { s with usernames := insert uname s.usernames }) >>= fun _ =>
      ServerM.unlock >>= f) s.locked = f () (s.claimed uname) := by
  simp [ServerM.bind_apply, ServerM.modify_apply, ServerM.unlock, Server.claimed, Server.locked,
    Server.log]

/-- The registration of a name that is free, and the deadlock on one that is taken. -/
theorem claimName_eq (hs : Ready s) (hl : s.clients.lookup fd = some c) (uname : Bytes) :
    claimName na env fd uname s =
      if uname ∈ s.usernames then .error .deadlock (s.lockedOut na env fd c)
      else .ok () (((s.named fd c uname).broadcasted na env (connectNotice uname)).used fd) := by
  have hfree : ServerM.lock s = .ok () s.locked := lock_free hs.free
  rw [claimName, ServerM.bind_ok hfree, ServerM.bind_ok (ServerM.get_apply _)]
  simp only [Server.locked_usernames]
  by_cases hu : uname ∈ s.usernames
  · have hlocked : ServerM.access fd s.locked = .ok c (s.locked.touch fd 1) := access_same hl rfl
    rw [if_pos hu, if_pos hu, ServerM.bind_ok hlocked,
      ServerM.bind_ok (sendSecretbox_apply na env _ _ _)]
    refine ServerM.bind_error (ServerM.bind_error (lock_held ?_) _) _
    rw [(sendSecretbox_spec na env _ _ _).1.clientsMutex]
    rfl
  · have hl₁ : (s.claimed uname).clients.lookup fd = some c := hl
    have hl₂ : ((s.claimed uname).write fd { c with username := uname }).clients.lookup fd =
        some { c with username := uname } := AList.lookup_replace_self _ (AList.mem_of_lookup hl₁)
    have hname : ((((s.claimed uname).write fd { c with username := uname }).write fd
        { c with username := uname, registered := true }).touch fd 1) = s.named fd c uname := by
      simp [Server.claimed, Server.write, Server.named, Server.touch, AList.replace_replace]
    have hwrite : Table (s.write fd { c with username := uname, registered := true }) :=
      hs.table.write hl rfl rfl
    have hnamed : Ready (s.named fd c uname) := ⟨hwrite.congr rfl rfl rfl, rfl⟩
    have hbc := (broadcast_eq na env hnamed (connectNotice uname)).1
    rw [if_neg hu, if_neg hu, claim_locked, ServerM.bind_ok (modifyClient_eq hl₁ _),
      ServerM.bind_ok (modifyClient_eq hl₂ _),
      ServerM.bind_ok (access_eq (AList.lookup_replace_self _ (AList.mem_of_lookup hl₂))), hname]
    refine (ServerM.bind_ok hbc _).trans ?_
    rw [ServerM.bind_apply, ServerM.access]
    unfold Server.used
    cases ((s.named fd c uname).broadcasted na env (connectNotice uname)).clients.lookup fd <;> rfl

/-- The username phase, for a packet that has been read. -/
theorem registerClient_outcome (hs : Ready s) (hl : s.clients.lookup fd = some c)
    (hk : c.keyExchanged = true) (hreg : c.registered = false) {p : Bytes} {ch : Chan}
    (hd : CliChat.recvPacket (s.kernel.conns c.session.conn).toServer = .done (some p) ch) :
    Outcome na env s fd c
      (registerClient na env fd p ((s.received fd c (some p) ch).touch fd 1)) := by
  have hr : Ready ((s.received fd c (some p) ch).touch fd 1) :=
    ⟨hs.table.congr rfl rfl rfl, hs.free⟩
  have hlr : ((s.received fd c (some p) ch).touch fd 1).clients.lookup fd = some c := hl
  have hdisc := (disconnect_eq na env hr hlr).1
  rw [registerClient]
  by_cases hshort : p.length < secretboxNonceBytes
  · rw [if_pos hshort, hdisc]
    exact .rejected hk hd (.short hreg hshort)
  · have hlong : secretboxNonceBytes ≤ p.length := not_lt.mp hshort
    rw [if_neg hshort]
    by_cases hover : vectorMaxSize < usernameBufferSize (p.drop secretboxNonceBytes).length
    · rw [if_pos hover]
      exact .tooShort hk hreg hd hlong hover
    · rw [if_neg hover, ServerM.bind_ok (ServerM.get_apply _)]
      have hkey : ((s.received fd c (some p) ch).touch fd 1).groupKey = s.groupKey := rfl
      rw [hkey]
      rcases hopen : na.secretboxOpenEasy (p.drop secretboxNonceBytes) (p.take secretboxNonceBytes)
        s.groupKey with _ | uname
      · dsimp only
        rw [hdisc]
        exact .rejected hk hd (.unsealed hreg hlong (not_lt.mp hover) hopen)
      · dsimp only
        have hnames : ((s.received fd c (some p) ch).touch fd 1).usernames = s.usernames := rfl
        rw [claimName_eq na env hr hlr, hnames]
        have hname : SealedName na s.groupKey p uname := ⟨hlong, not_lt.mp hover, hopen⟩
        by_cases hu : uname ∈ s.usernames
        · rw [if_pos hu]
          exact .taken hk hreg hd hname hu
        · rw [if_neg hu]
          exact .named hk hreg hd hname hu

theorem keyExchange_outcome (hs : Ready s) (hl : s.clients.lookup fd = some c)
    (hk : c.keyExchanged = false) :
    Outcome na env s fd c (keyExchange na env fd (s.touch fd 2)) := by
  rw [keyExchange, ServerM.bind_ok (access_same hl (Server.touch_clients s fd 2))]
  simp only [Server.touch_touch, Nat.reduceAdd]
  rcases hd : CliChat.recvPacket (s.kernel.conns c.session.conn).toServer with _ | ⟨pkt, ch⟩
  · rw [ServerM.bind_error (recvPacket_session_blocks hs.table hl hd 3)]
    exact .blocked hd
  · rw [ServerM.bind_ok (recvPacket_session hs.table hl hd 3)]
    rcases pkt with _ | pk
    · exact .noKey hk hd (by simp)
    · dsimp only
      by_cases hlen : pk.length = boxPublicKeyBytes
      · rw [if_neg (not_not.mpr hlen)]
        have hr : Ready (s.received fd c (some pk) ch) := ⟨hs.table.congr rfl rfl rfl, hs.free⟩
        obtain ⟨nonce, hnonce, heq⟩ := answerKey_eq na env hr hl pk
        rw [show (s.touch fd 3).heard c.session.conn (some pk) ch = s.received fd c (some pk) ch
          from rfl, heq]
        have hkey : (s.received fd c (some pk) ch).groupKey = s.groupKey := rfl
        have hsk : (s.received fd c (some pk) ch).serverSk = s.serverSk := rfl
        rw [hkey, hsk]
        cases hbox : na.boxEasy s.groupKey nonce pk s.serverSk with
        | none => exact .badKey hk hd hlen hbox
        | some cipher => exact .keyed hk hd hlen hnonce hbox
      · rw [if_pos hlen]
        refine .noKey hk hd ?_
        intro p hp
        cases hp
        exact hlen

/-- COMPLETE: `HandleClientEvent` ends in one of the outcomes. -/
theorem handleClientEvent_outcome (hs : Ready s) (hl : s.clients.lookup fd = some c) :
    Outcome na env s fd c (handleClientEvent na env fd s) := by
  have hfind : (s.touch fd 1).clients.lookup c.fd = some c := by
    rw [(hs.table.entry fd c hl).1]
    exact hl
  rw [handleClientEvent, ServerM.bind_ok (access_eq hl), ServerM.bind_ok (ServerM.get_apply _),
    hfind]
  dsimp only
  rw [ServerM.bind_ok (access_same hl (Server.touch_clients s fd 1))]
  simp only [Server.touch_touch, Nat.reduceAdd]
  by_cases hk : c.keyExchanged = true
  · rw [if_neg (by simp [hk]), ServerM.bind_ok (access_same hl (Server.touch_clients s fd 2))]
    simp only [Server.touch_touch, Nat.reduceAdd]
    rcases hd : CliChat.recvPacket (s.kernel.conns c.session.conn).toServer with _ | ⟨pkt, ch⟩
    · rw [ServerM.bind_error (recvPacket_session_blocks hs.table hl hd 3)]
      exact .blocked hd
    · have hr : Ready (s.received fd c pkt ch) := ⟨hs.table.congr rfl rfl rfl, hs.free⟩
      have hlr : (s.received fd c pkt ch).clients.lookup fd = some c := hl
      rw [ServerM.bind_ok (recvPacket_session hs.table hl hd 3),
        show (s.touch fd 3).heard c.session.conn pkt ch = s.received fd c pkt ch from rfl]
      rcases pkt with _ | p
      · dsimp only
        rw [(disconnect_eq na env hr hlr).1]
        have hn := (s.received fd c none ch).touch_zero fd
        have hout : Outcome na env s fd c (.ok () (((s.received fd c none ch).touch fd 0).disconnected
          na env fd c)) := .rejected hk hd .closed
        rwa [hn] at hout
      · dsimp only
        rw [ServerM.bind_ok (access_eq hlr)]
        by_cases hreg : c.registered = true
        · rw [if_neg (by simp [hreg]), ServerM.bind_ok (ServerM.get_apply _), forwardTo_apply]
          exact .forwarded hk hreg hd
        · have hreg' : c.registered = false := by simpa using hreg
          rw [if_pos (by simp [hreg'])]
          exact registerClient_outcome na env hs hl hk hreg' hd
  · have hk' : c.keyExchanged = false := by simpa using hk
    rw [if_pos (by simp [hk'])]
    exact keyExchange_outcome na env hs hl hk'

end outcome

end CliChat
