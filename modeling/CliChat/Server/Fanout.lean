import CliChat.Server.Ops

/-! @src server/src/server.cpp | name:SendSecretbox, BroadcastEncrypted | scheme:one pass of sends

    The two fan-out loops, in closed form. A pass offers one message to every registered client in
    the order of iteration; it changes nothing of the server (`SendsOnly`), and its log is the
    concatenation of what each recipient was sent (`Box`). `removeList` is read off the outcomes. -/

namespace CliChat

/-! ### Frame condition -/

/-- The states differ only in what the kernel took for the peers, in its counters and in the log. -/
structure SendsOnly (s s' : Server) : Prop where
  clients : s'.clients = s.clients
  usernames : s'.usernames = s.usernames
  clientsMutex : s'.clientsMutex = s.clientsMutex
  listenfd : s'.listenfd = s.listenfd
  epollfd : s'.epollfd = s.epollfd
  running : s'.running = s.running
  serverPk : s'.serverPk = s.serverPk
  serverSk : s'.serverSk = s.serverSk
  groupKey : s'.groupKey = s.groupKey
  fds : s'.kernel.fds = s.kernel.fds
  accepted : s'.kernel.accepted = s.kernel.accepted
  epoll : s'.kernel.epoll = s.kernel.epoll
  toServer : ∀ id, (s'.kernel.conns id).toServer = (s.kernel.conns id).toServer

namespace SendsOnly

theorem refl (s : Server) : SendsOnly s s :=
  ⟨rfl, rfl, rfl, rfl, rfl, rfl, rfl, rfl, rfl, rfl, rfl, rfl, fun _ => rfl⟩

theorem trans {a b c : Server} (h : SendsOnly a b) (k : SendsOnly b c) : SendsOnly a c where
  clients := k.clients.trans h.clients
  usernames := k.usernames.trans h.usernames
  clientsMutex := k.clientsMutex.trans h.clientsMutex
  listenfd := k.listenfd.trans h.listenfd
  epollfd := k.epollfd.trans h.epollfd
  running := k.running.trans h.running
  serverPk := k.serverPk.trans h.serverPk
  serverSk := k.serverSk.trans h.serverSk
  groupKey := k.groupKey.trans h.groupKey
  fds := k.fds.trans h.fds
  accepted := k.accepted.trans h.accepted
  epoll := k.epoll.trans h.epoll
  toServer := fun id => (k.toServer id).trans (h.toServer id)

theorem log (s : Server) (e : Ev) : SendsOnly s (s.log e) :=
  ⟨rfl, rfl, rfl, rfl, rfl, rfl, rfl, rfl, rfl, rfl, rfl, rfl, fun _ => rfl⟩

theorem touch (s : Server) (fd : Fd) (n : ℕ) : SendsOnly s (s.touch fd n) :=
  ⟨rfl, rfl, rfl, rfl, rfl, rfl, rfl, rfl, rfl, rfl, rfl, rfl, fun _ => rfl⟩

end SendsOnly

namespace Kernel

@[simp] theorem deliver_toServer (k : Kernel) (id id' : ConnId) (bs : Bytes) :
    ((k.deliver id bs).conns id').toServer = (k.conns id').toServer := by
  rw [deliver_conns, Function.update_apply]
  split
  · rename_i h; rw [h]
  · rfl

end Kernel

variable (na : Sodium) (env : ReturningEnv)

/-! ### One send -/

namespace Server

theorem sendPacket_sendsOnly (sess : NetworkSession) (site : Site) (data : Bytes) (s : Server) :
    SendsOnly s (s.sendPacket env sess site data).2 := by
  unfold sendPacket
  split
  · exact SendsOnly.log s _
  · exact ⟨rfl, rfl, rfl, rfl, rfl, rfl, rfl, rfl, rfl, rfl, rfl, rfl,
      fun id => Kernel.deliver_toServer _ _ id _⟩

/-- `SendPacket` is logged with its outcome. -/
theorem sendPacket_trace (sess : NetworkSession) (site : Site) (data : Bytes) (s : Server) :
    (s.sendPacket env sess site data).2.trace =
      s.trace ++ [.send sess.conn site data (s.sendPacket env sess site data).1] := by
  unfold sendPacket
  split <;> rfl

theorem randomNonce_sendsOnly (s : Server) : SendsOnly s (s.randomNonce env).2 :=
  ⟨rfl, rfl, rfl, rfl, rfl, rfl, rfl, rfl, rfl, rfl, rfl, rfl, fun _ => rfl⟩

end Server

/-- What the log says of one `SendSecretbox`: the packet, if the message was sealed, and the
    outcome. -/
def boxEvents (conn : ConnId) (msg : Bytes) (payload : Option Bytes) (ok : Bool) : List Ev :=
  (payload.map fun p => Ev.send conn (.secretbox msg) p ok).toList ++ [.secretbox conn msg ok]

theorem sendSecretbox_spec (sess : NetworkSession) (msg : Bytes) (s : Server) :
    SendsOnly s (s.sendSecretbox na env sess msg).2 ∧
      ∃ payload, SealedBox na s.groupKey msg payload ∧
        (payload = none → (s.sendSecretbox na env sess msg).1 = false) ∧
        (s.sendSecretbox na env sess msg).2.trace =
          s.trace ++ boxEvents sess.conn msg payload (s.sendSecretbox na env sess msg).1 := by
  have hrand := Server.randomNonce_sendsOnly env s
  unfold Server.sendSecretbox
  dsimp only
  cases hseal : na.secretboxEasy msg (s.randomNonce env).1 s.groupKey with
  | none =>
    dsimp only
    refine ⟨hrand.trans (SendsOnly.log _ _), none, ⟨_, env.nonce_length s.kernel.rands, ?_⟩,
      fun _ => rfl, rfl⟩
    rw [show na.secretboxEasy msg (env.nonce s.kernel.rands) s.groupKey = none from hseal]
    rfl
  | some cipher =>
    dsimp only
    refine ⟨(hrand.trans (Server.sendPacket_sendsOnly env _ _ _ _)).trans (SendsOnly.log _ _),
      some ((s.randomNonce env).1 ++ cipher), ⟨_, env.nonce_length s.kernel.rands, ?_⟩, ?_, ?_⟩
    · rw [show na.secretboxEasy msg (env.nonce s.kernel.rands) s.groupKey = some cipher from hseal]
      rfl
    · intro h; cases h
    · rw [Server.log_trace, Server.sendPacket_trace]
      simp [boxEvents, Server.randomNonce]

/-! ### The pass of a broadcast -/

/-- One recipient of a pass: its entry, the packet made for it, and the outcome. -/
structure Box where
  fd : Fd
  client : ClientInfo
  payload : Option Bytes
  ok : Bool

/-- The log of one recipient. -/
def Box.events (msg : Bytes) (b : Box) : List Ev :=
  boxEvents b.client.session.conn msg b.payload b.ok

/-- The entry that a recipient stands for. -/
def Box.entry (b : Box) : Σ _ : Fd, ClientInfo := ⟨b.fd, b.client⟩

/-- The outcome of a pass over the entries `l`: every registered entry is sent the message once, in
    the order of iteration, and the descriptors that failed are returned in the same order. -/
structure PassOf (key msg : Bytes) (l : List (Σ _ : Fd, ClientInfo)) (removeList : List Fd)
    (boxes : List Box) : Prop where
  recipients : boxes.map Box.entry = l.filter fun e => e.2.registered
  failed : removeList = (boxes.filter fun b => !b.ok).map Box.fd
  sealed : ∀ b ∈ boxes, SealedBox na key msg b.payload
  unsealed : ∀ b ∈ boxes, b.payload = none → b.ok = false

theorem sendToRegistered_spec (msg : Bytes) : ∀ (l : List (Σ _ : Fd, ClientInfo)) (s : Server),
    SendsOnly s (s.sendToRegistered na env msg l).2 ∧
      ∃ boxes, PassOf na s.groupKey msg l (s.sendToRegistered na env msg l).1 boxes ∧
        (s.sendToRegistered na env msg l).2.trace = s.trace ++ boxes.flatMap (Box.events msg)
  | [], s => ⟨SendsOnly.refl s, [], ⟨rfl, rfl, by simp, by simp⟩, by simp [Server.sendToRegistered]⟩
  | ⟨fd, client⟩ :: rest, s => by
    by_cases hreg : client.registered = true
    · obtain ⟨hs, payload, hseal, hnone, htr⟩ := sendSecretbox_spec na env client.session msg s
      obtain ⟨hs', boxes, hpass, htr'⟩ :=
        sendToRegistered_spec msg rest (s.sendSecretbox na env client.session msg).2
      have hkey := hs.groupKey
      rw [Server.sendToRegistered]
      simp only [hreg, Bool.not_true, Bool.false_eq_true, if_false]
      refine ⟨hs.trans hs',
        ⟨fd, client, payload, (s.sendSecretbox na env client.session msg).1⟩ :: boxes, ?_, ?_⟩
      · refine ⟨?_, ?_, ?_, ?_⟩
        · rw [List.map_cons, hpass.recipients, List.filter_cons_of_pos (by simpa using hreg)]
          rfl
        · rw [hpass.failed]
          cases (s.sendSecretbox na env client.session msg).1 <;> simp
        · intro b hb
          rcases List.mem_cons.mp hb with rfl | hb
          · exact hseal
          · exact hkey ▸ hpass.sealed b hb
        · intro b hb hp
          rcases List.mem_cons.mp hb with rfl | hb
          · exact hnone hp
          · exact hpass.unsealed b hb hp
      · rw [htr', htr, List.flatMap_cons, ← List.append_assoc]
        rfl
    · have hreg' : client.registered = false := by simpa using hreg
      obtain ⟨hs, boxes, hpass, htr⟩ := sendToRegistered_spec msg rest s
      rw [Server.sendToRegistered]
      simp only [hreg', Bool.not_false, if_true]
      refine ⟨hs, boxes, ⟨?_, hpass.failed, hpass.sealed, hpass.unsealed⟩, htr⟩
      rw [hpass.recipients, List.filter_cons_of_neg (by simp [hreg'])]

/-! ### The forwarding pass -/

/-- The log of the forwarding loop: one `SendPacket` for each registered client, whatever its
    outcome. -/
theorem forwardTo_spec (src : ConnId) (pkt : Bytes) :
    ∀ (l : List (Σ _ : Fd, ClientInfo)) (s : Server),
    SendsOnly s (s.forwardTo env src pkt l) ∧
      ∃ sent : List (ClientInfo × Bool),
        sent.map Prod.fst = (l.filter fun e => e.2.registered).map Sigma.snd ∧
        (s.forwardTo env src pkt l).trace =
          s.trace ++ sent.map fun x => .send x.1.session.conn (.forward src) pkt x.2
  | [], s => ⟨SendsOnly.refl s, [], rfl, by simp [Server.forwardTo]⟩
  | ⟨fd, client⟩ :: rest, s => by
    by_cases hreg : client.registered = true
    · have hs := Server.sendPacket_sendsOnly env client.session (.forward src) pkt s
      have htr := Server.sendPacket_trace env client.session (.forward src) pkt s
      obtain ⟨hs', sent, hsent, htr'⟩ :=
        forwardTo_spec src pkt rest (s.sendPacket env client.session (.forward src) pkt).2
      rw [Server.forwardTo]
      simp only [hreg, Bool.not_true, Bool.false_eq_true, if_false]
      refine ⟨hs.trans hs', (client, (s.sendPacket env client.session (.forward src) pkt).1) :: sent,
        ?_, ?_⟩
      · rw [List.map_cons, hsent, List.filter_cons_of_pos (by simpa using hreg)]
        rfl
      · rw [htr', htr, List.map_cons, List.append_assoc]
        rfl
    · have hreg' : client.registered = false := by simpa using hreg
      obtain ⟨hs, sent, hsent, htr⟩ := forwardTo_spec src pkt rest s
      rw [Server.forwardTo]
      simp only [hreg', Bool.not_false, if_true]
      refine ⟨hs, sent, ?_, htr⟩
      rw [hsent, List.filter_cons_of_neg (by simp [hreg'])]

end CliChat
