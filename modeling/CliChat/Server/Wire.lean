import CliChat.Common.Pipe
import CliChat.Server.Parts

/-! @src server/src/server.cpp | name:SendPacket, RecvPacket | scheme:streams and log

    The log accounts for the streams. What the server has put on a connection is, packet by packet,
    what the log says it sent there: the whole frame of a packet whose send succeeded (`Chunks`). What
    it took from a connection are the packets that the log says it received (`Consumes`). Both
    are proved for the parts of a handler, and so hold of every handler (`streams_parts`).

        toClient  │ frame p₁ │ frame p₂ │ part of p₃ │ frame p₄ │     packetsTo    p₁ ✓ p₂ ✓ p₃ ✗ p₄ ✓
        toServer  ░░ q₁ ░░ q₂ ░░│ not yet read │                      packetsFrom  q₁ q₂          -/

namespace CliChat

open Framing Transition

/-- `bs` is what the sends `xs` of the log left on the stream. -/
def Chunks (xs : List (Site × Bytes × Bool)) (bs : Bytes) : Prop := Written (xs.map Prod.snd) bs

theorem Chunks.nil : Chunks [] [] := Written.nil

theorem Chunks.append {xs ys : List (Site × Bytes × Bool)} {bs cs : Bytes} (h : Chunks xs bs)
    (k : Chunks ys cs) : Chunks (xs ++ ys) (bs ++ cs) := by
  rw [Chunks, List.map_append]
  exact Written.append h k

/-! ### The parts of a handler -/

/-- From `s` to `s'` the log grows by `T`, and the streams change by what `T` tells. -/
structure Streams (s s' : Server) (T : List Ev) : Prop where
  trace : s'.trace = s.trace ++ T
  sent : ∀ id, ∃ bs, Chunks (packetsTo id T) bs ∧
    (s'.kernel.conns id).toClient.bytes = (s.kernel.conns id).toClient.bytes ++ bs
  read : ∀ id, Consumes (s.kernel.conns id).toServer (packetsFrom id T) (s'.kernel.conns id).toServer

namespace Streams

variable {a b c : Server} {T T' : List Ev}

theorem trans (h : Streams a b T) (k : Streams b c T') : Streams a c (T ++ T') where
  trace := by rw [k.trace, h.trace, List.append_assoc]
  sent := by
    intro id
    obtain ⟨bs, hbs, heq⟩ := h.sent id
    obtain ⟨cs, hcs, heq'⟩ := k.sent id
    exact ⟨bs ++ cs, packetsTo_append id T T' ▸ hbs.append hcs, by rw [heq', heq, List.append_assoc]⟩
  read := by
    intro id
    rw [packetsFrom_append]
    exact (h.read id).trans (k.read id)

/-- A part that neither sends nor reads. -/
theorem quiet (htr : b.trace = a.trace ++ T)
    (hto : ∀ id, (b.kernel.conns id).toClient.bytes = (a.kernel.conns id).toClient.bytes)
    (hfrom : ∀ id, (b.kernel.conns id).toServer = (a.kernel.conns id).toServer)
    (hT : ∀ e ∈ T, ∀ id, e.packetTo id = none ∧ e.packetFrom id = none) : Streams a b T where
  trace := htr
  sent := by
    intro id
    rw [packetsTo_eq_nil id fun e he => (hT e he id).1, hto]
    exact ⟨[], .nil, (List.append_nil _).symm⟩
  read := by
    intro id
    rw [packetsFrom_eq_nil id fun e he => (hT e he id).2, hfrom]
    exact .refl _

theorem refl (a : Server) : Streams a a [] :=
  quiet (List.append_nil _).symm (fun _ => rfl) (fun _ => rfl) (by simp)

end Streams

section primitives

variable (na : Sodium) (env : ReturningEnv)

/-- An open session carries the frame of a packet whose send succeeds. -/
theorem sendPacket_streams {s : Server} {sess : NetworkSession}
    (hfd : s.kernel.fds sess.socketfd = some sess.conn) (site : Site) (data : Bytes) :
    Streams s (s.sendPacket env sess site data).2
      [.send sess.conn site data (s.sendPacket env sess site data).1] := by
  have heq : s.sendPacket env sess site data =
      (((env.answers s.kernel.sends).sendPacket data).1, { s with
        kernel := s.kernel.deliver sess.conn ((env.answers s.kernel.sends).sendPacket data).2
        }.log (.send sess.conn site data ((env.answers s.kernel.sends).sendPacket data).1)) := by
    rw [Server.sendPacket, hfd]
  rw [heq]
  refine ⟨rfl, fun id => ?_, fun id => ?_⟩
  · rw [Server.log_kernel, Kernel.deliver_conns, Function.update_apply]
    by_cases h : id = sess.conn
    · subst h
      rw [if_pos rfl]
      refine ⟨((env.answers s.kernel.sends).sendPacket data).2, ?_, by simp⟩
      simp only [packetsTo, List.filterMap_cons, Ev.packetTo, if_pos, List.filterMap_nil]
      exact Written.single Answers.sendPacket_true
    · have hne : ¬ sess.conn = id := fun h' => h h'.symm
      rw [if_neg h]
      refine ⟨[], ?_, (List.append_nil _).symm⟩
      rw [packetsTo_eq_nil id (by simp [Ev.packetTo, hne])]
      exact .nil
  · rw [Server.log_kernel, Kernel.deliver_toServer, packetsFrom_eq_nil id (by simp [Ev.packetFrom])]
    exact .refl _

theorem sendSecretbox_streams {s : Server} {sess : NetworkSession}
    (hfd : s.kernel.fds sess.socketfd = some sess.conn) (msg : Bytes) :
    ∃ T, Streams s (s.sendSecretbox na env sess msg).2 T := by
  have hrand : Streams s (s.randomNonce env).2 [] :=
    .quiet (List.append_nil _).symm (fun _ => rfl) (fun _ => rfl) (by simp)
  have hlog : ∀ (t : Server) (ok : Bool), Streams t (t.log (.secretbox sess.conn msg ok))
      [.secretbox sess.conn msg ok] :=
    fun t ok => .quiet rfl (fun _ => rfl) (fun _ => rfl) (by simp [Ev.packetTo, Ev.packetFrom])
  unfold Server.sendSecretbox
  dsimp only
  split
  · exact ⟨_, hrand.trans (hlog _ _)⟩
  · have hopen : (s.randomNonce env).2.kernel.fds sess.socketfd = some sess.conn := hfd
    exact ⟨_, (hrand.trans (sendPacket_streams env hopen _ _)).trans (hlog _ _)⟩

/-- The sockets that a pass writes to are open. -/
def OpenSockets (s : Server) (l : List (Σ _ : Fd, ClientInfo)) : Prop :=
  ∀ e ∈ l, s.kernel.fds e.2.session.socketfd = some e.2.session.conn

theorem Table.open {s : Server} (h : Table s) {fd : Fd} {c : ClientInfo}
    (hl : s.clients.lookup fd = some c) :
    s.kernel.fds c.session.socketfd = some c.session.conn := by
  obtain ⟨-, hsock, -, hfds⟩ := h.entry fd c hl
  rw [hsock]
  exact hfds

theorem Table.openSockets {s : Server} (h : Table s) : OpenSockets s s.clients.entries :=
  fun _ he => h.open (AList.lookup_of_mem_entries he)

theorem OpenSockets.tail {s s' : Server} {e : Σ _ : Fd, ClientInfo}
    {l : List (Σ _ : Fd, ClientInfo)} (h : OpenSockets s (e :: l)) (hs : SendsOnly s s') :
    OpenSockets s' l := by
  intro x hx
  rw [hs.fds]
  exact h x (List.mem_cons_of_mem _ hx)

theorem sendToRegistered_streams (msg : Bytes) :
    ∀ (l : List (Σ _ : Fd, ClientInfo)) (s : Server),
    OpenSockets s l → ∃ T, Streams s (s.sendToRegistered na env msg l).2 T
  | [], s, _ => ⟨[], .refl s⟩
  | ⟨fd, client⟩ :: rest, s, h => by
    rw [Server.sendToRegistered]
    by_cases hreg : client.registered = true
    · obtain ⟨T, hT⟩ := sendSecretbox_streams na env (h ⟨fd, client⟩ (by simp)) msg
      obtain ⟨T', hT'⟩ := sendToRegistered_streams msg rest _
        (h.tail (sendSecretbox_spec na env client.session msg s).1)
      rw [if_neg (by simp [hreg])]
      exact ⟨T ++ T', hT.trans hT'⟩
    · rw [if_pos (by simpa using hreg)]
      exact sendToRegistered_streams msg rest s (h.tail (SendsOnly.refl s))

theorem forwardTo_streams (src : ConnId) (pkt : Bytes) :
    ∀ (l : List (Σ _ : Fd, ClientInfo)) (s : Server), OpenSockets s l →
      ∃ T, Streams s (s.forwardTo env src pkt l) T
  | [], s, _ => ⟨[], .refl s⟩
  | ⟨fd, client⟩ :: rest, s, h => by
    rw [Server.forwardTo]
    by_cases hreg : client.registered = true
    · have hT := sendPacket_streams env (h ⟨fd, client⟩ (by simp)) (.forward src) pkt
      obtain ⟨T', hT'⟩ := forwardTo_streams src pkt rest _
        (h.tail (Server.sendPacket_sendsOnly env client.session (.forward src) pkt s))
      rw [if_neg (by simp [hreg])]
      exact ⟨_, hT.trans hT'⟩
    · rw [if_pos (by simpa using hreg)]
      exact forwardTo_streams src pkt rest s (h.tail (SendsOnly.refl s))

/-- Closing a socket tells its peer, and adds no byte. -/
theorem Kernel.close_bytes (k : Kernel) (fd : Fd) (id : ConnId) :
    ((k.close fd).conns id).toClient.bytes = (k.conns id).toClient.bytes := by
  unfold Kernel.close
  split
  · rfl
  · dsimp only
    rw [Function.update_apply]
    split
    · rename_i h
      rw [h]
    · rfl

theorem dropped_streams (s : Server) (fd : Fd) (c : ClientInfo) :
    Streams s (s.dropped fd c) (dropLog fd c) := by
  refine .quiet (dropped_log s fd c) (fun id => Kernel.close_bytes _ fd id)
    (fun id => Kernel.close_toServer _ fd id) ?_
  unfold dropLog
  split <;> simp [Ev.packetTo, Ev.packetFrom]

/-- A broadcast writes to open sockets only. -/
theorem broadcasted_streams {s : Server} (hT : Table s) (msg : Bytes) :
    ∃ T, Streams s (s.broadcasted na env msg) T := by
  have hrel : Table s → (∃ T, Streams s (s.broadcasted na env msg) T) ∧
      Table (s.broadcasted na env msg) := by
    refine broadcasted_relation na env
      (R := fun s s' => Table s → (∃ T, Streams s s' T) ∧ Table s') ?_ ?_ ?_ msg s
    · intro a b c hab hbc ha
      obtain ⟨⟨T, hT⟩, hb⟩ := hab ha
      obtain ⟨⟨T', hT'⟩, hc⟩ := hbc hb
      exact ⟨⟨_, hT.trans hT'⟩, hc⟩
    · intro m t ht
      have hlog : Streams t (t.log (.broadcast m)) [.broadcast m] :=
        .quiet rfl (fun _ => rfl) (fun _ => rfl) (by simp [Ev.packetTo, Ev.packetFrom])
      obtain ⟨T, hT⟩ := sendToRegistered_streams na env m t.clients.entries
        (t.log (.broadcast m)) ht.openSockets
      exact ⟨⟨_, hlog.trans hT⟩, ht.sendsOnly (cascade_send na env m t).1⟩
    · intro t fd c _ ht
      exact ⟨⟨_, dropped_streams t fd c⟩, ht.dropped fd c⟩
  exact (hrel hT).1

/-- The packet that is read leaves the stream. -/
theorem heard_streams {s : Server} (fd : Fd) {c : ClientInfo} {pkt : Option Bytes} {ch : Chan}
    (hd : CliChat.recvPacket (s.kernel.conns c.session.conn).toServer = .done pkt ch) :
    Streams (s.touch fd 3) (s.received fd c pkt ch) [.recv c.session.conn pkt] := by
  refine ⟨rfl, fun id => ?_, fun id => ?_⟩
  · refine ⟨[], ?_, ?_⟩
    · rw [packetsTo_eq_nil id (by simp [Ev.packetTo])]
      exact .nil
    · rw [List.append_nil, Server.received, Server.heard_kernel, Kernel.consumed_conns,
        Function.update_apply]
      split
      · rename_i h
        rw [h]
      · rfl
  · rw [Server.received, Server.heard_kernel, Kernel.consumed_conns, Function.update_apply]
    by_cases h : id = c.session.conn
    · subst h
      rw [if_pos rfl]
      have hone : packetsFrom c.session.conn [.recv c.session.conn pkt] = pkt.toList := by
        cases pkt <;> simp [packetsFrom, Ev.packetFrom]
      rw [hone]
      exact .single hd
    · have hne : ¬ c.session.conn = id := fun h' => h h'.symm
      rw [if_neg h, packetsFrom_eq_nil id]
      · exact .refl _
      · cases pkt <;> simp [Ev.packetFrom, hne]

/-- STEP: every part of a handler. -/
theorem streams_parts : HandlerParts na env fun s s' => ∃ T, Streams s s' T where
  trans := fun ⟨_, h⟩ ⟨_, k⟩ => ⟨_, h.trans k⟩
  touch := fun s fd n => ⟨_, .quiet rfl (fun _ => rfl) (fun _ => rfl) fun e he id => by
    rw [List.eq_of_mem_replicate he]
    exact ⟨rfl, rfl⟩⟩
  received := by
    intro s fd c _ _ pkt ch hd
    have htouch : Streams s (s.touch fd 3) (List.replicate 3 (.access fd true)) :=
      .quiet rfl (fun _ => rfl) (fun _ => rfl) (by simp [Ev.packetTo, Ev.packetFrom])
    exact ⟨_, htouch.trans (heard_streams fd hd)⟩
  keyStored := by
    intro s fd c hs hl _ pk
    have hopen : ((s.write fd { c with clientPk := pk }).touch fd 1).kernel.fds
        c.session.socketfd = some c.session.conn := hs.table.open hl
    have hw : Streams s ((s.write fd { c with clientPk := pk }).touch fd 1)
        ([.access fd true] ++ [.access fd true]) :=
      .quiet (by simp) (fun _ => rfl) (fun _ => rfl) (by simp [Ev.packetTo, Ev.packetFrom])
    have hlast : ∀ t : Server, Streams t ((t.randomNonce env).2.touch fd 1) [.access fd true] :=
      fun t => .quiet rfl (fun _ => rfl) (fun _ => rfl) (by simp [Ev.packetTo, Ev.packetFrom])
    exact ⟨_, (hw.trans (sendPacket_streams env hopen .serverPk s.serverPk)).trans (hlast _)⟩
  keyed := by
    intro s fd c hs hl _ payload
    have htouch : Streams s (s.touch fd 1) [.access fd true] :=
      .quiet rfl (fun _ => rfl) (fun _ => rfl) (by simp [Ev.packetTo, Ev.packetFrom])
    have hwrite : ∀ t : Server, Streams t (t.write fd { c with keyExchanged := true })
        [.access fd true] :=
      fun t => .quiet rfl (fun _ => rfl) (fun _ => rfl) (by simp [Ev.packetTo, Ev.packetFrom])
    have hopen : (s.touch fd 1).kernel.fds c.session.socketfd = some c.session.conn :=
      hs.table.open hl
    exact ⟨_, (htouch.trans (sendPacket_streams env hopen .groupKey payload)).trans (hwrite _)⟩
  lockedOut := by
    intro s fd c hs hl _
    have hlock : Streams s (s.locked.touch fd 1) ([.lock true] ++ [.access fd true]) :=
      .quiet (by simp) (fun _ => rfl) (fun _ => rfl) (by simp [Ev.packetTo, Ev.packetFrom])
    have hopen : (s.locked.touch fd 1).kernel.fds c.session.socketfd = some c.session.conn :=
      hs.table.open hl
    obtain ⟨T, hT⟩ := sendSecretbox_streams na env hopen (ascii "SERVER::USERNAME_TAKEN")
    exact ⟨_, (hlock.trans hT).trans (.quiet rfl (fun _ => rfl) (fun _ => rfl)
      (by simp [Ev.packetTo, Ev.packetFrom]))⟩
  named := fun _ _ _ _ _ _ => ⟨_, .quiet rfl (fun _ => rfl) (fun _ => rfl)
    (by simp [Ev.packetTo, Ev.packetFrom])⟩
  used := fun s fd => ⟨_, .quiet rfl (fun _ => rfl) (fun _ => rfl)
    (by simp [Ev.packetTo, Ev.packetFrom])⟩
  dropped := fun {s fd c} _ _ => ⟨_, dropped_streams s fd c⟩
  broadcasted := fun hs msg => broadcasted_streams na env hs.table msg
  forwardTo := fun hs src pkt => forwardTo_streams env src pkt _ _ hs.table.openSockets

end primitives

/-! ### Events and runs -/

section runs

variable (na : Sodium) (env : ReturningEnv) {s s' : Server}

/-- A stop does not reach the streams. -/
theorem stop_kernel (s : Server) : (stop s).kernel.conns = s.kernel.conns ∧
    (stop s).kernel.accepted = s.kernel.accepted := by
  unfold stop
  split
  · exact ⟨rfl, rfl⟩
  · dsimp only
    split <;> split <;> exact ⟨rfl, rfl⟩

/-- What the handling of a client event does to the streams. -/
theorem client_streams (hs : Store s) {fd : Fd} (hen : (Event.client fd).enabled s = true) :
    Streams s (stateAfter na env (.client fd) s) (eventLog na env (.client fd) s) := by
  obtain ⟨c, hl, hout⟩ := client_outcome na env hs hen
  obtain ⟨T, hT⟩ := hout.relation (streams_parts na env) (hs.sendsOnly (SendsOnly.log s _)) hl
  rw [← stateAfter_eq] at hT
  have hlog : Streams s (s.log (.dispatch c.session.conn)) [.dispatch c.session.conn] :=
    .quiet rfl (fun _ => rfl) (fun _ => rfl) (by simp [Ev.packetTo, Ev.packetFrom])
  have hall := hlog.trans hT
  rwa [eventLog_eq na env hall.trace]

/-- The connections accepted so far carry what the log says; the others have no history. -/
structure Wired (s : Server) : Prop where
  sent : ∀ id, Chunks (packetsTo id s.trace) (s.kernel.conns id).toClient.bytes
  fresh : ∀ id, s.kernel.accepted ≤ id → packetsTo id s.trace = [] ∧ packetsFrom id s.trace = [] ∧
    (s.kernel.conns id).toClient.bytes = []

namespace Wired

/-- Log entries that are neither sends nor receipts change nothing, nor does a later counter. -/
theorem quiet (h : Wired s) {T : List Ev} (htr : s'.trace = s.trace ++ T)
    (hT : ∀ e ∈ T, ∀ id, e.packetTo id = none ∧ e.packetFrom id = none)
    (hto : ∀ id, (s'.kernel.conns id).toClient.bytes = (s.kernel.conns id).toClient.bytes)
    (hacc : s.kernel.accepted ≤ s'.kernel.accepted) : Wired s' := by
  have hp : ∀ id, packetsTo id s'.trace = packetsTo id s.trace := by
    intro id
    rw [htr, packetsTo_append, packetsTo_eq_nil id fun e he => (hT e he id).1, List.append_nil]
  have hq : ∀ id, packetsFrom id s'.trace = packetsFrom id s.trace := by
    intro id
    rw [htr, packetsFrom_append, packetsFrom_eq_nil id fun e he => (hT e he id).2, List.append_nil]
  refine ⟨fun id => ?_, fun id hid => ?_⟩
  · rw [hp, hto]
    exact h.sent id
  · rw [hp, hq, hto]
    exact h.fresh id (hacc.trans hid)

theorem admitted (h : Wired s) (fd : Fd) (r : Rehash) (ci co : List ℕ) :
    Wired (s.admitted fd r ci co) := by
  refine h.quiet (List.append_nil _).symm (by simp) (fun id => ?_) (Nat.le_succ _)
  show (Function.update s.kernel.conns s.kernel.accepted _ id).toClient.bytes = _
  rw [Function.update_apply]
  split
  · rename_i hid
    rw [hid, (h.fresh _ le_rfl).2.2]
  · rfl

theorem refused (h : Wired s) (fd : Fd) (ci co : List ℕ) : Wired (s.refused fd ci co) := by
  refine h.quiet (T := [.close fd]) rfl (by simp [Ev.packetTo, Ev.packetFrom]) (fun id => ?_) ?_
  · rw [Server.refused, Server.log_kernel, Kernel.close_bytes]
    show (Function.update s.kernel.conns s.kernel.accepted _ id).toClient.bytes = _
    rw [Function.update_apply]
    split
    · rename_i hid
      rw [hid, (h.fresh _ le_rfl).2.2]
    · rfl
  · rw [Server.refused_accepted]
    exact Nat.le_succ _

theorem handleNewConnection (h : Wired s) (accepts : List AcceptResult) :
    Wired (handleNewConnection accepts s) :=
  Server.handleNewConnection_invariant (I := Wired) (fun _ fd r ci co ht _ => ht.admitted fd r ci co)
    (fun _ fd ci co ht _ => ht.refused fd ci co) accepts s h

theorem net (h : Wired s) (a : NetAct) : Wired { s with kernel := s.kernel.net a } := by
  refine h.quiet (List.append_nil _).symm (by simp) (fun id => ?_) (s.kernel.net_frame a).2.1.ge
  cases a <;> simp only [Kernel.net] <;> split
  · rw [Kernel.consumed_conns, Function.update_apply]
    split
    · rename_i hid
      rw [hid]
    · rfl
  · rfl
  · rw [Kernel.consumed_conns, Function.update_apply]
    split
    · rename_i hid
      rw [hid]
    · rfl
  · rfl

theorem stop (h : Wired s) : Wired (stop s) := by
  obtain ⟨T, hT, hclose⟩ := stop_adds s
  refine h.quiet hT (fun e he id => ?_) (fun id => by rw [(stop_kernel s).1]) (stop_kernel s).2.ge
  have hc := hclose e he
  cases e <;> first | exact ⟨rfl, rfl⟩ | cases hc

/-- A client event sends to accepted connections only. -/
theorem client (hs : Store s) (h : Wired s) {fd : Fd}
    (hen : (Event.client fd).enabled s = true)
    (hacc : (stateAfter na env (.client fd) s).kernel.accepted = s.kernel.accepted)
    (hfresh : ∀ id, s.kernel.accepted ≤ id → packetsTo id (eventLog na env (.client fd) s) = [] ∧
      packetsFrom id (eventLog na env (.client fd) s) = []) :
    Wired (stateAfter na env (.client fd) s) := by
  have hst := client_streams na env hs hen
  refine ⟨fun id => ?_, fun id hid => ?_⟩
  · obtain ⟨bs, hbs, heq⟩ := hst.sent id
    rw [hst.trace, packetsTo_append, heq]
    exact (h.sent id).append hbs
  · rw [hacc] at hid
    obtain ⟨bs, hbs, heq⟩ := hst.sent id
    obtain ⟨hto, hfrom⟩ := hfresh id hid
    obtain ⟨hto', hfrom', hnil⟩ := h.fresh id hid
    rw [hst.trace, packetsTo_append, packetsFrom_append, hto, hfrom, hto', hfrom', heq, hnil]
    rw [hto] at hbs
    rw [Written.eq_nil hbs]
    exact ⟨rfl, rfl, rfl⟩

end Wired

end runs

end CliChat
