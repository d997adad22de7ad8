import CliChat.Lib.Cascade
import CliChat.Server.Fanout

/-! @src server/src/server.cpp | name:BroadcastEncrypted, DisconnectClient | scheme:cascade

    The mutual recursion, reduced to ONE loop. Under the connection-table invariant `Table` and
    with the mutex free, `DisconnectClient` is `Server.dropped` followed by its announcement
    (`disconnectClient_eq`), so the recursion is an instance of `Cascade`: it always ends, and it
    computes `Server.broadcasted`, the pass of the message followed by a worklist of disconnects
    (`broadcast_eq`). Every property of a broadcast is a loop invariant of that worklist.

        worklist  [A, B]   drop A, announce A ──▶ pass fails for C
                  [C, B]   drop C, announce C ──▶ pass fails for B (again)
                  [B, B]   drop B, announce B ──▶ nobody
                  [B]      gone: skip -/

namespace CliChat

/-! ### The connection table -/

/-- Every entry is filed under its descriptor and owns the open socket of its connection, and open
    sockets belong to distinct connections accepted so far. -/
structure Table (s : Server) : Prop where
  entry : ∀ fd c, s.clients.lookup fd = some c →
    c.fd = fd ∧ c.session.socketfd = fd ∧ 0 ≤ fd ∧ s.kernel.fds fd = some c.session.conn
  inj : ∀ fd fd' id, s.kernel.fds fd = some id → s.kernel.fds fd' = some id → fd = fd'
  fresh : ∀ fd id, s.kernel.fds fd = some id → id < s.kernel.accepted

namespace Table

variable {s s' : Server}

/-- The table invariant reads the map, the open descriptors and the connection counter only. -/
theorem congr (h : Table s) (hc : s'.clients = s.clients) (hf : s'.kernel.fds = s.kernel.fds)
    (ha : s'.kernel.accepted = s.kernel.accepted) : Table s' where
  entry := by rw [hc, hf]; exact h.entry
  inj := by rw [hf]; exact h.inj
  fresh := by rw [hf, ha]; exact h.fresh

theorem sendsOnly (h : Table s) (hs : SendsOnly s s') : Table s' :=
  h.congr hs.clients hs.fds hs.accepted

/-- An entry may change, but not its descriptor or its session. -/
theorem write (h : Table s) {fd : Fd} {c c' : ClientInfo} (hl : s.clients.lookup fd = some c)
    (hfd : c'.fd = c.fd) (hsess : c'.session = c.session) : Table (s.write fd c') where
  entry := by
    intro k d hd
    by_cases hk : k = fd
    · subst hk
      rw [Server.write_clients, AList.lookup_replace_self c' (AList.mem_of_lookup hl)] at hd
      cases hd
      rw [hfd, hsess]
      exact h.entry k c hl
    · rw [Server.write_clients, AList.lookup_replace_ne c' s.clients hk] at hd
      exact h.entry k d hd
  inj := h.inj
  fresh := h.fresh

/-- Disconnecting an entry frees its descriptor and no other. -/
theorem dropped (h : Table s) (fd : Fd) (c : ClientInfo) : Table (s.dropped fd c) where
  entry := by
    intro k d hd
    have hk : k ≠ fd := by
      rintro rfl
      rw [Server.dropped_clients, AList.lookup_erase] at hd
      cases hd
    rw [Server.dropped_clients, AList.lookup_erase_ne hk] at hd
    obtain ⟨h₁, h₂, h₃, h₄⟩ := h.entry k d hd
    refine ⟨h₁, h₂, h₃, ?_⟩
    rw [Server.dropped_kernel, Kernel.close_fds, Function.update_of_ne hk]
    exact h₄
  inj := by
    intro k k' id hk hk'
    rw [Server.dropped_kernel, Kernel.close_fds, Function.update_apply] at hk hk'
    split at hk
    · cases hk
    · split at hk'
      · cases hk'
      · exact h.inj k k' id hk hk'
  fresh := by
    intro k id hk
    rw [Server.dropped_kernel, Kernel.close_fds, Function.update_apply] at hk
    split at hk
    · cases hk
    · rw [Server.dropped_kernel, Kernel.close_accepted]
      exact h.fresh k id hk

/-- Two entries with one connection are the same entry. -/
theorem conn_inj (h : Table s) {fd fd' : Fd} {c c' : ClientInfo}
    (hl : s.clients.lookup fd = some c) (hl' : s.clients.lookup fd' = some c')
    (hc : c.session.conn = c'.session.conn) : fd = fd' ∧ c = c' := by
  have hfd : fd = fd' :=
    h.inj fd fd' _ (h.entry fd c hl).2.2.2 (hc ▸ (h.entry fd' c' hl').2.2.2)
  subst hfd
  rw [hl] at hl'
  exact ⟨rfl, Option.some.inj hl'⟩

end Table

/-! ### DisconnectClient -/

/-- The text that announces a departure. -/
def disconnectNotice (name : Bytes) : Bytes := name ++ ascii " has disconnected"

/-- With the mutex free, `DisconnectClient` takes the client out and then announces it, if it was
    registered; nothing else happens before the announcement. -/
theorem disconnectClient_eq {s : Server} (hT : Table s) (hm : s.clientsMutex = false) {fd : Fd}
    {c : ClientInfo} (hl : s.clients.lookup fd = some c) (bc : Bytes → ServerM Unit) :
    disconnectClient bc fd s =
      if c.registered then bc (disconnectNotice c.username) (s.dropped fd c)
      else .ok () (s.dropped fd c) := by
  obtain ⟨hfd, hsock, hnn, -⟩ := hT.entry fd c hl
  have hfind : s.clients.lookup c.fd = some c := by rw [hfd]; exact hl
  -- the reference is live before and after its session is closed
  have hacc : ∀ t : Server, t.clients = s.clients →
      ServerM.access fd t = .ok c (t.touch fd 1) := fun t ht => access_eq (by rw [ht]; exact hl)
  have hacc' : ∀ t : Server,
      t.clients = s.clients.replace fd { c with session.socketfd := -1 } →
      ServerM.access fd t = .ok { c with session.socketfd := -1 } (t.touch fd 1) :=
    fun t ht => access_eq (by
      rw [ht]; exact AList.lookup_replace_self _ (AList.mem_of_lookup hl))
  have hclose : ∀ t : Server, t.clients = s.clients → ServerM.closeSession fd t = .ok ()
      ({ t.touch fd 1 with
        kernel := t.kernel.close fd
        clients := t.clients.replace fd { c with session.socketfd := -1 } }.log (.close fd)) := by
    intro t ht
    simp only [ServerM.closeSession, ServerM.bind_apply, hacc t ht, hsock, if_pos hnn]
    rfl
  by_cases hreg : c.registered = true
  · simp [disconnectClient, ServerM.bind_apply, lock_free hm, hacc, hacc', hclose,
      ServerM.get_apply, ServerM.modify_apply, ServerM.unlock, hfd, hfind, hreg, hm,
      disconnectNotice, Server.dropped, Server.log, Server.touch, AList.erase_replace]
  · simp [disconnectClient, ServerM.bind_apply, lock_free hm, hacc, hacc', hclose,
      ServerM.get_apply, ServerM.modify_apply, ServerM.unlock, hfd, hfind, hreg, hm,
      Server.dropped, Server.log, Server.touch, AList.erase_replace]

/-! ### The recursion as a cascade -/

/-- What a handler starts from and comes back to: the table is in order and nobody holds the
    mutex. -/
structure Ready (s : Server) : Prop where
  table : Table s
  free : s.clientsMutex = false

namespace Ready

variable {s s' : Server}

theorem sendsOnly (h : Ready s) (hs : SendsOnly s s') : Ready s' :=
  ⟨h.table.sendsOnly hs, hs.clientsMutex.trans h.free⟩

theorem dropped (h : Ready s) (fd : Fd) (c : ClientInfo) : Ready (s.dropped fd c) :=
  ⟨h.table.dropped fd c, h.free⟩

end Ready

variable (na : Sodium) (env : ReturningEnv)

/-- `DisconnectClient` without its announcement is `drop`; one pass of `BroadcastEncrypted` is
    `send`. -/
def cascade : Cascade Server Fd Bytes where
  size s := s.clients.entries.length
  present fd s := (s.clients.lookup fd).isSome
  drop fd s :=
    match s.clients.lookup fd with
    | none => (none, s)
    | some c => (if c.registered then some (disconnectNotice c.username) else none, s.dropped fd c)
  send msg s := (s.log (.broadcast msg)).sendToRegistered na env msg s.clients.entries
  size_drop := by
    intro fd s h
    obtain ⟨c, hc⟩ := Option.isSome_iff_exists.mp h
    rw [hc]
    exact AList.length_erase (AList.mem_of_lookup hc)
  size_send := by
    intro msg s
    rw [(sendToRegistered_spec na env msg s.clients.entries (s.log (.broadcast msg))).1.clients]
    exact le_rfl

theorem cascade_present {s : Server} {fd : Fd} {c : ClientInfo}
    (h : s.clients.lookup fd = some c) : (cascade na env).present fd s = true := by
  simp [cascade, h]

theorem cascade_absent {s : Server} {fd : Fd} (h : s.clients.lookup fd = none) :
    (cascade na env).present fd s = false := by
  simp [cascade, h]

theorem cascade_drop {s : Server} {fd : Fd} {c : ClientInfo} (h : s.clients.lookup fd = some c) :
    (cascade na env).drop fd s =
      (if c.registered then some (disconnectNotice c.username) else none, s.dropped fd c) := by
  simp [cascade, h]

/-- A pass changes nothing of the server but the log, where its boxes stand. -/
theorem cascade_send (msg : Bytes) (s : Server) :
    SendsOnly s ((cascade na env).send msg s).2 ∧
      ∃ boxes, PassOf na s.groupKey msg s.clients.entries ((cascade na env).send msg s).1 boxes ∧
        ((cascade na env).send msg s).2.trace =
          s.trace ++ .broadcast msg :: boxes.flatMap (Box.events msg) := by
  obtain ⟨hs, boxes, hpass, htr⟩ :=
    sendToRegistered_spec na env msg s.clients.entries (s.log (.broadcast msg))
  refine ⟨(SendsOnly.log s _).trans hs, boxes, hpass, ?_⟩
  rw [show ((cascade na env).send msg s).2.trace = _ from htr, Server.log_trace, List.append_assoc]
  rfl

/-- One level of the recursion: the second loop of `BroadcastEncrypted` follows `removeAll`. -/
theorem removeListed_eq {bc : Bytes → ServerM Unit} {bc' : Bytes → Server → Option Server}
    (hbc : ∀ msg s s', Ready s → bc' msg s = some s' → bc msg s = .ok () s' ∧ Ready s') :
    ∀ removeList s s', Ready s → (cascade na env).removeAll bc' removeList s = some s' →
      removeListed (disconnectClient bc) removeList s = .ok () s' ∧ Ready s'
  | [], s, s', hs, h => by
    cases h
    exact ⟨rfl, hs⟩
  | fd :: rest, s, s', hs, h => by
    rw [Cascade.removeAll] at h
    rw [removeListed, ServerM.bind_ok (ServerM.get_apply s)]
    rcases hl : s.clients.lookup fd with _ | c
    · rw [cascade_absent na env hl] at h
      exact removeListed_eq hbc rest s s' hs h
    · rw [cascade_present na env hl, if_pos rfl, cascade_drop na env hl] at h
      dsimp only
      rw [ServerM.bind_apply, disconnectClient_eq hs.table hs.free hl]
      by_cases hreg : c.registered = true
      · rw [if_pos hreg] at h ⊢
        obtain ⟨s₁, h₁, h₂⟩ := Option.bind_eq_some_iff.mp h
        obtain ⟨hok, hs₁⟩ := hbc _ _ _ (hs.dropped fd c) h₁
        rw [hok]
        exact removeListed_eq hbc rest s₁ s' hs₁ h₂
      · rw [if_neg hreg] at h ⊢
        exact removeListed_eq hbc rest _ s' (hs.dropped fd c) h

/-- REFINEMENT: `BroadcastEncrypted` is the recursion of the cascade, at any depth. -/
theorem broadcastEncrypted_eq : ∀ fuel msg s s', Ready s →
    (cascade na env).broadcast fuel msg s = some s' →
    broadcastEncrypted na env fuel msg s = .ok () s' ∧ Ready s'
  | 0, _, _, _, _, h => by cases h
  | fuel + 1, msg, s, s', hs, h => by
    rw [Cascade.broadcast] at h
    rw [broadcastEncrypted, ServerM.bind_ok (ServerM.modify_apply _ s),
      ServerM.bind_ok (ServerM.get_apply _),
      ServerM.bind_ok (sendToRegistered_apply na env msg _ _)]
    exact removeListed_eq na env (fun m t t' => broadcastEncrypted_eq fuel m t t') _ _ s'
      (hs.sendsOnly (cascade_send na env msg s).1) h

/-- What `BroadcastEncrypted` leaves: the pass of the message, then the disconnects it causes. -/
def Server.broadcasted (msg : Bytes) (s : Server) : Server :=
  (cascade na env).purge ((cascade na env).send msg s).1 ((cascade na env).send msg s).2

/-- What `DisconnectClient` leaves. -/
def Server.disconnected (s : Server) (fd : Fd) (c : ClientInfo) : Server :=
  if c.registered then (s.dropped fd c).broadcasted na env (disconnectNotice c.username)
  else s.dropped fd c

/-- TERMINATION: `BroadcastEncrypted` returns, whatever the sends do. -/
theorem broadcast_eq {s : Server} (hs : Ready s) (msg : Bytes) :
    broadcast na env msg s = .ok () (s.broadcasted na env msg) ∧ Ready (s.broadcasted na env msg) :=
  broadcastEncrypted_eq na env _ msg s _ hs
    ((cascade na env).broadcast_eq_purge _ msg s (Nat.lt_succ_self _))

theorem disconnect_eq {s : Server} (hs : Ready s) {fd : Fd} {c : ClientInfo}
    (hl : s.clients.lookup fd = some c) :
    disconnect na env fd s = .ok () (s.disconnected na env fd c) ∧
      Ready (s.disconnected na env fd c) := by
  rw [disconnect, disconnectClient_eq hs.table hs.free hl, Server.disconnected]
  by_cases hreg : c.registered = true
  · rw [if_pos hreg, if_pos hreg]
    exact broadcast_eq na env (hs.dropped fd c) _
  · rw [if_neg hreg, if_neg hreg]
    exact ⟨rfl, hs.dropped fd c⟩

/-! ### Loop rules for broadcasts -/

/-- LOOP RULE: what each pass and each disconnect of the worklist keeps, a broadcast keeps. -/
theorem broadcasted_invariant {I : List Fd → Server → Prop} {msg : Bytes} {s : Server}
    (start : I ((cascade na env).send msg s).1 ((cascade na env).send msg s).2)
    (absent : ∀ fd rest t, I (fd :: rest) t → t.clients.lookup fd = none → I rest t)
    (silent : ∀ fd rest t c, I (fd :: rest) t → t.clients.lookup fd = some c →
      c.registered = false → I rest (t.dropped fd c))
    (announced : ∀ fd rest t c, I (fd :: rest) t → t.clients.lookup fd = some c →
      c.registered = true →
      I (((cascade na env).send (disconnectNotice c.username) (t.dropped fd c)).1 ++ rest)
        ((cascade na env).send (disconnectNotice c.username) (t.dropped fd c)).2) :
    I [] (s.broadcasted na env msg) := by
  refine (cascade na env).purge_invariant (I := I) ?_ ?_ ?_ _ _ start
  · intro fd rest t h hp
    refine absent fd rest t h ?_
    simpa [cascade] using hp
  · intro fd rest t t₁ h hp hd
    obtain ⟨c, hc⟩ := Option.isSome_iff_exists.mp hp
    rw [cascade_drop na env hc] at hd
    by_cases hreg : c.registered = true
    · rw [if_pos hreg] at hd
      cases hd
    · rw [if_neg hreg] at hd
      cases hd
      exact silent fd rest t c h hc (by simpa using hreg)
  · intro fd rest t m t₁ h hp hd
    obtain ⟨c, hc⟩ := Option.isSome_iff_exists.mp hp
    rw [cascade_drop na env hc] at hd
    by_cases hreg : c.registered = true
    · rw [if_pos hreg] at hd
      cases hd
      exact announced fd rest t c h hc hreg
    · rw [if_neg hreg] at hd
      cases hd

/-- LOOP RULE for relations: a transitive relation that sends and disconnects respect
    relates the two ends of a broadcast. -/
theorem broadcasted_relation {R : Server → Server → Prop}
    (htrans : ∀ a b c, R a b → R b c → R a c)
    (hsend : ∀ msg s, R s ((cascade na env).send msg s).2)
    (hdrop : ∀ s fd c, s.clients.lookup fd = some c → R s (s.dropped fd c))
    (msg : Bytes) (s : Server) : R s (s.broadcasted na env msg) := by
  refine broadcasted_invariant na env (I := fun _ t => R s t) (hsend msg s) ?_ ?_ ?_
  · intro fd rest t h _
    exact h
  · intro fd rest t c h hc _
    exact htrans _ _ _ h (hdrop t fd c hc)
  · intro fd rest t c h hc _
    exact htrans _ _ _ h (htrans _ _ _ (hdrop t fd c hc) (hsend _ _))

/-! ### Frame condition of broadcasts -/

/-- The states differ only in sockets that were closed, entries and names that were removed, bytes
    that were sent, and in a longer log. -/
structure Shrinks (s s' : Server) : Prop where
  clients : s'.clients.entries.Sublist s.clients.entries
  usernames : s'.usernames ⊆ s.usernames
  listenfd : s'.listenfd = s.listenfd
  epollfd : s'.epollfd = s.epollfd
  running : s'.running = s.running
  serverPk : s'.serverPk = s.serverPk
  serverSk : s'.serverSk = s.serverSk
  groupKey : s'.groupKey = s.groupKey
  accepted : s'.kernel.accepted = s.kernel.accepted
  toServer : ∀ id, (s'.kernel.conns id).toServer = (s.kernel.conns id).toServer
  trace : s.trace <+: s'.trace

namespace Shrinks

theorem trans {a b c : Server} (h : Shrinks a b) (k : Shrinks b c) : Shrinks a c where
  clients := k.clients.trans h.clients
  usernames := k.usernames.trans h.usernames
  listenfd := k.listenfd.trans h.listenfd
  epollfd := k.epollfd.trans h.epollfd
  running := k.running.trans h.running
  serverPk := k.serverPk.trans h.serverPk
  serverSk := k.serverSk.trans h.serverSk
  groupKey := k.groupKey.trans h.groupKey
  accepted := k.accepted.trans h.accepted
  toServer := fun id => (k.toServer id).trans (h.toServer id)
  trace := h.trace.trans k.trace

theorem of_sendsOnly {s s' : Server} (h : SendsOnly s s') (htr : s.trace <+: s'.trace) :
    Shrinks s s' where
  clients := by rw [h.clients]
  usernames := by rw [h.usernames]
  listenfd := h.listenfd
  epollfd := h.epollfd
  running := h.running
  serverPk := h.serverPk
  serverSk := h.serverSk
  groupKey := h.groupKey
  accepted := h.accepted
  toServer := h.toServer
  trace := htr

theorem dropped (s : Server) (fd : Fd) (c : ClientInfo) : Shrinks s (s.dropped fd c) where
  clients := List.kerase_sublist fd s.clients.entries
  usernames := by
    rw [Server.dropped_usernames]
    split
    · exact Finset.erase_subset _ _
    · exact Finset.Subset.refl _
  listenfd := rfl
  epollfd := rfl
  running := rfl
  serverPk := rfl
  serverSk := rfl
  groupKey := rfl
  accepted := Kernel.close_accepted _ fd
  toServer := fun id => Kernel.close_toServer _ fd id
  trace := List.prefix_append _ _

/-- An entry that is still there was there before, and is unchanged. -/
theorem lookup {s s' : Server} (h : Shrinks s s') {fd : Fd} {c : ClientInfo}
    (hl : s'.clients.lookup fd = some c) : s.clients.lookup fd = some c :=
  AList.lookup_of_mem_entries (h.clients.subset (AList.mem_entries_of_lookup hl))

end Shrinks

theorem shrinks_send (msg : Bytes) (s : Server) : Shrinks s ((cascade na env).send msg s).2 := by
  obtain ⟨hs, boxes, -, htr⟩ := cascade_send na env msg s
  exact Shrinks.of_sendsOnly hs (htr ▸ List.prefix_append _ _)

theorem shrinks_broadcasted (msg : Bytes) (s : Server) : Shrinks s (s.broadcasted na env msg) :=
  broadcasted_relation na env (R := Shrinks) (fun _ _ _ => Shrinks.trans) (shrinks_send na env)
    (fun s fd c _ => Shrinks.dropped s fd c) msg s

theorem shrinks_disconnected (s : Server) (fd : Fd) (c : ClientInfo) :
    Shrinks s (s.disconnected na env fd c) := by
  rw [Server.disconnected]
  split
  · exact (Shrinks.dropped s fd c).trans (shrinks_broadcasted na env _ _)
  · exact Shrinks.dropped s fd c

end CliChat
