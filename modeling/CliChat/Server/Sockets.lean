import CliChat.Server.Parts

/-! @src server/src/server.cpp | name:HandleNewConnection, DisconnectClient | scheme:run invariant

    Three views of a connection: its entry in `m_clients`, its open socket, its place in the epoll
    set. A handler of a client takes the same descriptors out of all three, those that it logs as
    closed (`Shuts`), and an accept puts the new one into all three or into none (`Matched`).

                  m_clients   fds    epoll
        accept       +         +       +       epoll_ctl failed: + then - (fds only)
        disconnect   -         -       -                                                -/

namespace CliChat

open Transition

/-- The descriptor that an event closes. -/
def Ev.closing : Ev → Option Fd
  | .close fd => some fd
  | _ => none

/-- The descriptors closed, in order. -/
def closings (l : List Ev) : List Fd := l.filterMap Ev.closing

@[simp] theorem closings_append (l m : List Ev) : closings (l ++ m) = closings l ++ closings m :=
  List.filterMap_append

theorem closings_nil {l : List Ev} (h : ∀ e ∈ l, e.closing = none) : closings l = [] :=
  List.filterMap_eq_nil_iff.mpr h

/-- From `s` to `s'` the descriptors closed in `T` leave the map, the sockets and epoll, each once,
    and nothing else does. -/
structure Shuts (s s' : Server) (T : List Ev) : Prop where
  trace : s'.trace = s.trace ++ T
  entries : ∀ k ∈ closings T, k ∈ s.clients
  nodup : (closings T).Nodup
  keys : ∀ k, k ∈ s'.clients ↔ k ∈ s.clients ∧ k ∉ closings T
  length : s'.clients.entries.length + (closings T).length = s.clients.entries.length
  fds : ∀ k, s'.kernel.fds k = if k ∈ closings T then none else s.kernel.fds k
  epoll : ∀ k, k ∈ s'.kernel.epoll ↔ k ∈ s.kernel.epoll ∧ k ∉ closings T
  accepted : s'.kernel.accepted = s.kernel.accepted
  listenfd : s'.listenfd = s.listenfd

namespace Shuts

variable {a b c : Server} {T T' : List Ev}

theorem trans (h : Shuts a b T) (k : Shuts b c T') : Shuts a c (T ++ T') where
  trace := by rw [k.trace, h.trace, List.append_assoc]
  entries := by
    intro j hj
    rw [closings_append] at hj
    rcases List.mem_append.mp hj with hj | hj
    · exact h.entries j hj
    · exact ((h.keys j).mp (k.entries j hj)).1
  nodup := by
    rw [closings_append]
    refine h.nodup.append k.nodup fun j hj hj' => ?_
    exact ((h.keys j).mp (k.entries j hj')).2 hj
  keys := by
    intro j
    rw [k.keys, h.keys, closings_append, List.mem_append, not_or, and_assoc]
  length := by
    have h₁ := h.length
    have h₂ := k.length
    rw [closings_append, List.length_append]
    omega
  fds := by
    intro j
    rw [k.fds, h.fds, closings_append]
    by_cases hj : j ∈ closings T' <;> by_cases hj' : j ∈ closings T <;> simp [hj, hj']
  epoll := by
    intro j
    rw [k.epoll, h.epoll, closings_append, List.mem_append, not_or, and_assoc]
  accepted := k.accepted.trans h.accepted
  listenfd := k.listenfd.trans h.listenfd

/-- A part of a handler that closes nothing. -/
theorem quiet (htr : b.trace = a.trace ++ T) (hT : ∀ e ∈ T, e.closing = none)
    (hkeys : b.clients.keys = a.clients.keys) (hfds : b.kernel.fds = a.kernel.fds)
    (hepoll : b.kernel.epoll = a.kernel.epoll) (hacc : b.kernel.accepted = a.kernel.accepted)
    (hlisten : b.listenfd = a.listenfd) : Shuts a b T := by
  have hnil := closings_nil hT
  have hlen : b.clients.entries.length = a.clients.entries.length := by
    have := congrArg List.length hkeys
    rwa [AList.length_entries, AList.length_entries] at this
  refine ⟨htr, ?_, ?_, ?_, ?_, ?_, ?_, hacc, hlisten⟩
  · rw [hnil]
    simp
  · rw [hnil]
    exact List.nodup_nil
  · intro k
    rw [hnil, AList.mem_keys, AList.mem_keys, hkeys]
    simp
  · rw [hnil, hlen]
    rfl
  · intro k
    rw [hnil, hfds]
    simp
  · intro k
    rw [hnil, hepoll]
    simp

theorem of_sendsOnly (h : SendsOnly a b) (htr : b.trace = a.trace ++ T)
    (hT : ∀ e ∈ T, e.closing = none) : Shuts a b T :=
  quiet htr hT (by rw [h.clients]) h.fds h.epoll h.accepted h.listenfd

/-- A disconnect takes its descriptor out of the three views. -/
theorem dropped {s : Server} {fd : Fd} {c : ClientInfo} (hl : s.clients.lookup fd = some c) :
    Shuts s (s.dropped fd c) (dropLog fd c) := by
  have hclosings : closings (dropLog fd c) = [fd] := by
    unfold dropLog
    split <;> rfl
  have hmem : fd ∈ s.clients := AList.mem_of_lookup hl
  refine ⟨dropped_log s fd c, ?_, ?_, ?_, ?_, ?_, ?_, Kernel.close_accepted _ fd, rfl⟩
  · rw [hclosings]
    intro k hk
    rw [List.mem_singleton.mp hk]
    exact hmem
  · rw [hclosings]
    exact List.nodup_singleton fd
  · intro k
    rw [hclosings, Server.dropped_clients, AList.mem_erase, List.mem_singleton, and_comm]
  · rw [hclosings, Server.dropped_clients]
    exact AList.length_erase_add_one hmem
  · intro k
    rw [hclosings, Server.dropped_kernel, Kernel.close_fds, Function.update_apply]
    simp only [List.mem_singleton]
    rfl
  · intro k
    have hepoll : (s.dropped fd c).kernel.epoll = s.kernel.epoll.erase fd := by
      rw [Server.dropped_kernel, Kernel.close]
      split
      · rfl
      · simp
    rw [hepoll, hclosings, Finset.mem_erase, List.mem_singleton, and_comm]

end Shuts

section handlers

variable (na : Sodium) (env : ReturningEnv)

theorem boxEvents_closing (conn : ConnId) (msg : Bytes) (payload : Option Bytes) (ok : Bool) :
    ∀ e ∈ boxEvents conn msg payload ok, e.closing = none := by
  cases payload <;> simp [boxEvents, Ev.closing]

theorem send_shuts (msg : Bytes) (s : Server) :
    ∃ T, Shuts s ((cascade na env).send msg s).2 T := by
  obtain ⟨hsend, boxes, -, htr⟩ := cascade_send na env msg s
  refine ⟨_, .of_sendsOnly hsend htr fun e he => ?_⟩
  rcases List.mem_cons.mp he with rfl | he
  · rfl
  · obtain ⟨b, -, he⟩ := List.mem_flatMap.mp he
    exact boxEvents_closing _ _ _ _ e he

theorem broadcasted_shuts (msg : Bytes) (s : Server) : ∃ T, Shuts s (s.broadcasted na env msg) T :=
  broadcasted_relation na env (R := fun s s' => ∃ T, Shuts s s' T)
    (fun _ _ _ ⟨_, h⟩ ⟨_, k⟩ => ⟨_, h.trans k⟩) (send_shuts na env)
    (fun _ _ _ hl => ⟨_, .dropped hl⟩) msg s

theorem received_shuts (s : Server) (fd : Fd) (c : ClientInfo) (pkt : Option Bytes) (ch : Chan) :
    ∃ T, Shuts s (s.received fd c pkt ch) T := by
  refine ⟨List.replicate 3 (.access fd true) ++ [.recv c.session.conn pkt],
    .quiet (by simp [Server.received]) ?_ rfl rfl rfl rfl rfl⟩
  intro e he
  simp only [List.mem_append, List.mem_replicate, List.mem_singleton] at he
  rcases he with ⟨-, rfl⟩ | rfl <;> rfl

theorem keyStored_shuts {s : Server} (fd : Fd) (c : ClientInfo) (pk : Bytes) :
    ∃ T, Shuts s (s.keyStored env fd c pk) T := by
  obtain ⟨ok, htr⟩ := keyStored_trace env s fd c pk
  have hsend := keyStored_sendsOnly env s fd c pk
  refine ⟨_, .quiet htr (by simp [Ev.closing]) ?_ hsend.fds hsend.epoll hsend.accepted
    hsend.listenfd⟩
  rw [hsend.clients, Server.write_clients, AList.keys_replace]

theorem keyed_shuts {s : Server} (fd : Fd) (c : ClientInfo) (payload : Bytes) :
    ∃ T, Shuts s (s.keyed env fd c payload) T := by
  obtain ⟨ok, htr⟩ := keyed_trace env s fd c payload
  have hsend := (SendsOnly.touch s fd 1).trans
    (Server.sendPacket_sendsOnly env c.session .groupKey payload (s.touch fd 1))
  refine ⟨_, .quiet htr (by simp [Ev.closing]) ?_ hsend.fds hsend.epoll hsend.accepted
    hsend.listenfd⟩
  rw [Server.keyed, Server.write_clients, AList.keys_replace, hsend.clients]

theorem lockedOut_shuts (s : Server) (fd : Fd) (c : ClientInfo) :
    ∃ T, Shuts s (s.lockedOut na env fd c) T := by
  obtain ⟨hsend, payload, -, -, htr⟩ := sendSecretbox_spec na env c.session
    (ascii "SERVER::USERNAME_TAKEN") (s.locked.touch fd 1)
  have hlocked : Shuts s (s.locked.touch fd 1) [.lock true, .access fd true] :=
    .quiet (by simp) (by simp [Ev.closing]) rfl rfl rfl rfl rfl
  exact ⟨_, (hlocked.trans (.of_sendsOnly hsend htr (boxEvents_closing _ _ _ _))).trans
    (.of_sendsOnly (SendsOnly.log _ (.lock false)) rfl (by simp [Ev.closing]))⟩

theorem forwardTo_shuts (s : Server) (src : ConnId) (pkt : Bytes) :
    ∃ T, Shuts s (s.forwardTo env src pkt s.clients.entries) T := by
  obtain ⟨hsend, sent, -, htr⟩ := forwardTo_spec env src pkt s.clients.entries s
  refine ⟨_, .of_sendsOnly hsend htr fun e he => ?_⟩
  obtain ⟨x, -, rfl⟩ := List.mem_map.mp he
  rfl

theorem shuts_parts : HandlerParts na env fun s s' => ∃ T, Shuts s s' T where
  trans := fun ⟨_, h⟩ ⟨_, k⟩ => ⟨_, h.trans k⟩
  touch := fun s fd n => ⟨_, .of_sendsOnly (SendsOnly.touch s fd n) rfl fun e he => by
    rw [List.eq_of_mem_replicate he]; rfl⟩
  received := fun _ _ _ _ _ => received_shuts _ _ _ _ _
  keyStored := fun _ _ _ pk => keyStored_shuts env _ _ pk
  keyed := fun _ _ _ payload => keyed_shuts env _ _ payload
  lockedOut := fun _ _ _ => lockedOut_shuts na env _ _ _
  named := fun _ _ _ _ _ _ => ⟨_, .quiet rfl (by simp [Ev.closing]) (AList.keys_replace ..) rfl rfl
    rfl rfl⟩
  used := fun s fd => ⟨_, .of_sendsOnly (SendsOnly.log s _) rfl (by simp [Ev.closing])⟩
  dropped := fun _ hl => ⟨_, .dropped hl⟩
  broadcasted := fun _ msg => broadcasted_shuts na env msg _
  forwardTo := fun _ src pkt => forwardTo_shuts env _ src pkt

end handlers

theorem notMem_dropped (s : Server) (fd : Fd) (c : ClientInfo) :
    fd ∉ (s.dropped fd c).clients := by
  rw [Server.dropped_clients, AList.mem_erase]
  exact fun hk => hk.1 rfl

/-- Who is disconnected has left the map. -/
theorem notMem_disconnected (na : Sodium) (env : ReturningEnv) (s : Server) (fd : Fd)
    (c : ClientInfo) : fd ∉ (s.disconnected na env fd c).clients := by
  have hdrop := notMem_dropped s fd c
  rw [Server.disconnected]
  split
  · intro hk
    obtain ⟨d, hd⟩ := Option.isSome_iff_exists.mp (AList.lookup_isSome.mpr hk)
    exact hdrop (AList.mem_of_lookup ((shrinks_broadcasted na env _ _).lookup hd))
  · exact hdrop

/-! ### The invariant -/

/-- The keys of the map, the open client sockets and the client sockets in epoll are the same
    descriptors, and each connection accepted has either been closed or has its entry. -/
structure Matched (s : Server) : Prop where
  sockets : ∀ k, k ∈ s.clients ↔ (s.kernel.fds k).isSome = true
  epoll : ∀ k, k ∈ s.kernel.epoll ↔ k ∈ s.clients ∨ k = s.listenfd
  listen : s.listenfd ∉ s.clients
  count : (closings s.trace).length + s.clients.entries.length = s.kernel.accepted

namespace Matched

variable {s s' : Server}

/-- A handler of a client keeps the views equal. -/
theorem shuts (h : Matched s) {T : List Ev} (hT : Shuts s s' T) : Matched s' where
  sockets := by
    intro k
    rw [hT.keys, hT.fds, h.sockets]
    by_cases hk : k ∈ closings T <;> simp [hk]
  epoll := by
    intro k
    rw [hT.epoll, hT.keys, hT.listenfd, h.epoll]
    constructor
    · rintro ⟨hk | hk, hnot⟩
      · exact Or.inl ⟨hk, hnot⟩
      · exact Or.inr hk
    · rintro (⟨hk, hnot⟩ | rfl)
      · exact ⟨Or.inl hk, hnot⟩
      · exact ⟨Or.inr rfl, fun hk => h.listen (hT.entries _ hk)⟩
  listen := by
    rw [hT.listenfd, hT.keys]
    exact fun hk => h.listen hk.1
  count := by
    have hlen := hT.length
    have hcount := h.count
    rw [hT.trace, hT.accepted, closings_append, List.length_append]
    omega

/-- A free descriptor has no entry, so `emplace` inserts. -/
theorem notMem_of_free (h : Matched s) {fd : Fd} (hfree : s.isFree fd = true) : fd ∉ s.clients := by
  obtain ⟨-, -, -, hfd⟩ := Server.isFree_iff.mp hfree
  rw [h.sockets, hfd]
  exact Bool.false_ne_true

/-- ACCEPT: the new connection enters all three views. -/
theorem admitted (h : Matched s) {fd : Fd} (hfree : s.isFree fd = true) (r : Rehash)
    (ci co : List ℕ) : Matched (s.admitted fd r ci co) := by
  have hlook : ∀ k, (s.admitted fd r ci co).clients.lookup k = if k = fd then _ else _ :=
    lookup_emplace (AList.lookup_eq_none.mpr (h.notMem_of_free hfree)) _ r
  obtain ⟨-, hlisten, -, -⟩ := Server.isFree_iff.mp hfree
  have hmem : ∀ k, k ∈ (s.admitted fd r ci co).clients ↔ k = fd ∨ k ∈ s.clients := by
    intro k
    rw [← AList.lookup_isSome, hlook, ← AList.lookup_isSome]
    by_cases hk : k = fd <;> simp [hk]
  have hfds : ∀ k, (s.admitted fd r ci co).kernel.fds k =
      if k = fd then some s.kernel.accepted else s.kernel.fds k :=
    fun k => Function.update_apply _ _ _ _
  have hentries : (s.admitted fd r ci co).clients.entries.length = s.clients.entries.length + 1 := by
    rw [Server.admitted, ClientMap.emplace, dif_neg (h.notMem_of_free hfree)]
    exact (r.perm _).length_eq
  refine ⟨?_, ?_, ?_, ?_⟩
  · intro k
    rw [hmem, hfds, h.sockets]
    by_cases hk : k = fd <;> simp [hk]
  · intro k
    have hepoll : k ∈ (s.admitted fd r ci co).kernel.epoll ↔ k = fd ∨ k ∈ s.kernel.epoll :=
      Finset.mem_insert
    rw [hepoll, hmem, h.epoll, or_assoc]
    rfl
  · rw [hmem]
    rintro (hk | hk)
    · exact hlisten hk.symm
    · exact h.listen hk
  · have hcount := h.count
    rw [hentries]
    show (closings s.trace).length + _ = s.kernel.accepted + 1
    omega

/-- ACCEPT, refused by epoll: the new connection is closed again. -/
theorem refused (h : Matched s) {fd : Fd} (hfree : s.isFree fd = true) (ci co : List ℕ) :
    Matched (s.refused fd ci co) := by
  obtain ⟨-, hlisten, -, hfd⟩ := Server.isFree_iff.mp hfree
  have hepoll : (s.refused fd ci co).kernel.epoll = s.kernel.epoll := by
    have hnot : fd ∉ s.kernel.epoll := by
      rw [h.epoll]
      rintro (hk | hk)
      · exact h.notMem_of_free hfree hk
      · exact hlisten hk
    rw [← Finset.erase_eq_of_notMem hnot, Server.refused, Server.log_kernel, Kernel.close]
    simp
  refine ⟨?_, ?_, h.listen, ?_⟩
  · rw [Server.refused_fds hfree]
    exact h.sockets
  · rw [hepoll]
    exact h.epoll
  · have hcount := h.count
    rw [Server.refused_accepted, Server.refused, Server.log_trace, closings_append,
      List.length_append]
    show (closings s.trace).length + 1 + s.clients.entries.length = _
    omega

theorem handleNewConnection (h : Matched s) (accepts : List AcceptResult) :
    Matched (handleNewConnection accepts s) :=
  Server.handleNewConnection_invariant (I := Matched) (fun _ _ r ci co ht hfree =>
    ht.admitted hfree r ci co) (fun _ _ ci co ht hfree => ht.refused hfree ci co) accepts s h

theorem net (h : Matched s) (a : NetAct) : Matched { s with kernel := s.kernel.net a } := by
  obtain ⟨hf, ha, he⟩ := s.kernel.net_frame a
  refine ⟨?_, ?_, h.listen, ?_⟩
  · rw [hf]
    exact h.sockets
  · rw [he]
    exact h.epoll
  · rw [ha]
    exact h.count

end Matched

section runs

variable (na : Sodium) (env : ReturningEnv) {s : Server}

/-- What the handling of a client event adds to the log, as a `Shuts`. -/
theorem client_shuts (hs : Store s) {fd : Fd} (hen : (Event.client fd).enabled s = true) :
    Shuts s (stateAfter na env (.client fd) s) (eventLog na env (.client fd) s) := by
  obtain ⟨c, hl, hout⟩ := client_outcome na env hs hen
  obtain ⟨T, hT⟩ := hout.relation (shuts_parts na env) (hs.sendsOnly (SendsOnly.log s _)) hl
  rw [← stateAfter_eq] at hT
  have hlog : Shuts s (s.log (.dispatch c.session.conn)) [.dispatch c.session.conn] :=
    .of_sendsOnly (SendsOnly.log s _) rfl (by simp [Ev.closing])
  have hall := hlog.trans hT
  rwa [eventLog_eq na env hall.trace]

/-- STEP: while the server runs, an event keeps the views equal, even when its handler gets
    stuck. -/
theorem Matched.event (hs : Store s) (h : Matched s) {e : Event} (hen : e.enabled s = true)
    (hstop : e ≠ .waitFails) : Matched (stateAfter na env e s) := by
  cases e with
  | listener accepts => exact h.handleNewConnection accepts
  | client fd => exact h.shuts (client_shuts na env hs hen)
  | net act => exact h.net act
  | waitFails => exact absurd rfl hstop

theorem Initial.matched (h : Initial s) : Matched s := by
  obtain ⟨l, ep, pk, sk, gk, -, -, -, -, rfl⟩ := h
  refine ⟨?_, ?_, ?_, rfl⟩
  · intro k
    constructor <;> intro hk <;> cases hk
  · intro k
    show k ∈ ({l} : Finset Fd) ↔ k ∈ (∅ : ClientMap) ∨ k = l
    rw [Finset.mem_singleton]
    exact ⟨Or.inr, fun hk => hk.resolve_left (AList.notMem_empty k)⟩
  · exact AList.notMem_empty l

/-- `Stop` leaves a server that does not run. -/
theorem stop_running (s : Server) : (stop s).running = false := by
  by_cases hrun : s.running = true
  · rw [stop, if_neg (by simp [hrun])]
    dsimp only
    split <;> split <;> rfl
  · rw [stop, if_pos (by simpa using hrun)]
    simpa using hrun

/-- INVARIANT RULE: what holds initially, and what every event but `Stop` keeps, holds as long as the
    server has not stopped. -/
theorem Reach.while_running {I : Server → Prop} (hinit : ∀ t, Initial t → I t)
    (hevent : ∀ t e, Store t → I t → e.enabled t = true → e ≠ .waitFails →
      I (stateAfter na env e t))
    (h : Reach na env s) (hrun : s.running = true) : I s := by
  have hinv : Store s ∧ (s.running = true → I s) := by
    refine Reachable.invariant (I := fun s => Store s ∧ (s.running = true → I s))
      (fun t ht => ⟨ht.store, fun _ => hinit t ht⟩) ?_ h
    rintro e t t' ⟨hs, hI⟩ hstep
    refine ⟨(hs.step na env hstep).1, fun hrun' => ?_⟩
    obtain ⟨hen, hok⟩ := (step_some na env).mp hstep
    cases e with
    | waitFails =>
      cases hok
      rw [stop_running] at hrun'
      cases hrun'
    | net act =>
      rw [← step_stateAfter na env hstep]
      have hrunning : t'.running = t.running := by
        cases hok
        rfl
      exact hevent t _ hs (hI (hrunning ▸ hrun')) hen (by simp)
    | listener accepts =>
      rw [← step_stateAfter na env hstep]
      exact hevent t _ hs (hI (by simpa [Event.enabled] using hen)) hen (by simp)
    | client fd =>
      rw [← step_stateAfter na env hstep]
      exact hevent t _ hs (hI (enabled_client.mp hen).1) hen (by simp)
  exact hinv.2 hrun

variable (env : Env)

/-- RUNS: the views are equal as long as the server has not stopped. -/
theorem Reach.matched (h : Reach na env s) (hrun : s.running = true) : Matched s :=
  h.returning.while_running na env.returning (fun _ ht => ht.matched)
    (fun _ _ hs hm hen hstop => hm.event na env.returning hs hen hstop) hrun

/-- CONNECTION TABLE: in every reachable state of a server that has not stopped, each entry owns
    the open socket it is filed under, and the keys of `m_clients`, the open client sockets and the
    client sockets in epoll are the same descriptors; an event whose sends return keeps this even
    when its handler does not return. So an accepted descriptor is new to the map and gets its
    entry, every open connection has its entry, and a handler closes only sockets that are open,
    each once. -/
theorem connection_table (h : Reach na env s) (hrun : s.running = true) :
    (∀ k c, s.clients.lookup k = some c →
      c.fd = k ∧ c.session.socketfd = k ∧ s.kernel.fds k = some c.session.conn) ∧
    (∀ k, k ∈ s.clients ↔ (s.kernel.fds k).isSome = true) ∧
    (∀ k, k ∈ s.clients ↔ k ∈ s.kernel.epoll ∧ k ≠ s.listenfd) ∧
    (∀ e, e.enabled s = true → e ≠ .waitFails → SendsReturn na env e s →
      Matched (stateAfter na env e s)) ∧
    (∀ fd r ci co, s.isFree fd = true → fd ∉ s.clients ∧
      ∀ k, (handleNewConnection [.conn fd true r ci co] s).clients.lookup k =
        if k = fd then some { session := ⟨fd, s.kernel.accepted⟩, fd := fd }
        else s.clients.lookup k) ∧
    (∀ id, (∃ fd, s.kernel.fds fd = some id) ↔
      ∃ fd c, s.clients.lookup fd = some c ∧ c.session.conn = id) ∧
    (closings s.trace).length + s.clients.entries.length = s.kernel.accepted ∧
    (∀ fd, (Event.client fd).enabled s = true →
      (closings (eventLog na env (.client fd) s)).Nodup ∧
      ∀ k ∈ closings (eventLog na env (.client fd) s), (s.kernel.fds k).isSome = true ∧
        (SendsReturn na env (.client fd) s →
          (stateAfter na env (.client fd) s).kernel.fds k = none)) := by
  have hs := h.store na env
  have hm := h.matched na env hrun
  refine ⟨?_, hm.sockets, ?_, fun e hen hstop hret => ?_, ?_, ?_, hm.count, ?_⟩
  · intro k c hl
    obtain ⟨hfd, hsock, -, hfds⟩ := hs.table.entry k c hl
    exact ⟨hfd, hsock, hfds⟩
  · intro k
    rw [hm.epoll]
    constructor
    · intro hk
      exact ⟨Or.inl hk, fun heq => hm.listen (heq ▸ hk)⟩
    · rintro ⟨hk | hk, hne⟩
      · exact hk
      · exact absurd hk hne
  · rw [hret.stateAfter]
    exact hm.event na env.returning hs hen hstop
  · intro fd r ci co hfree
    have haccept : handleNewConnection [.conn fd true r ci co] s = s.admitted fd r ci co := by
      rw [handleNewConnection, if_neg (by simp [hrun]), if_neg (by simp [hfree])]
      rfl
    rw [haccept]
    exact ⟨hm.notMem_of_free hfree, hs.lookup_admitted hfree r ci co⟩
  · intro id
    constructor
    · rintro ⟨fd, hfd⟩
      have hmem : fd ∈ s.clients := (hm.sockets fd).mpr (by rw [hfd]; rfl)
      obtain ⟨c, hl⟩ := Option.isSome_iff_exists.mp (AList.lookup_isSome.mpr hmem)
      refine ⟨fd, c, hl, ?_⟩
      exact Option.some.inj ((hs.table.entry fd c hl).2.2.2.symm.trans hfd)
    · rintro ⟨fd, c, hl, rfl⟩
      exact ⟨fd, (hs.table.entry fd c hl).2.2.2⟩
  · intro fd hen
    have hshut := client_shuts na env.returning hs hen
    have hclosed : closings (eventLog na env (.client fd) s) <+:
        closings (eventLog na env.returning (.client fd) s) :=
      (eventLog_begins na env (.client fd) s).filterMap _
    refine ⟨hshut.nodup.sublist hclosed.sublist, fun k hk =>
      ⟨(hm.sockets k).mp (hshut.entries k (hclosed.subset hk)), fun hret => ?_⟩⟩
    rw [hret.stateAfter, hshut.fds, if_pos (hclosed.subset hk)]

end runs

/-- Two clients have joined, a third was refused by epoll, and the first has left: one socket was
    closed for each of the two that are gone. -/
theorem connection_table_refused : ∃ s,
    sampleRun [] (joins 0 5 (ascii "al") ++ joins 1 6 (ascii "bo") ++
      [.listener [.conn 7 false .none [] []], .net (.ends 0 .eof), .client 5]) = some s ∧
    closings s.trace = [7, 5] ∧ ∀ k, k ∈ s.clients ↔ k = 6 := by
  have hrun : (sampleRun [] (joins 0 5 (ascii "al") ++ joins 1 6 (ascii "bo") ++
      [.listener [.conn 7 false .none [] []], .net (.ends 0 .eof), .client 5])).map
      (fun s => (s.running, closings s.trace, s.kernel.epoll, s.listenfd)) =
      some (true, [7, 5], {3, 6}, 3) := by decide +kernel
  obtain ⟨s, hs, heq⟩ := Option.map_eq_some_iff.mp hrun
  simp only [Prod.mk.injEq] at heq
  obtain ⟨hrunning, hclosed, hepoll, hlisten⟩ := heq
  refine ⟨s, hs, hclosed, fun k => ?_⟩
  rw [(connection_table Sodium.plain (Env.failing []) (sampleRun_reach hs) hrunning).2.2.1 k, hepoll,
    hlisten, Finset.mem_insert, Finset.mem_singleton]
  constructor
  · rintro ⟨rfl | rfl, hne⟩
    · exact absurd rfl hne
    · rfl
  · rintro rfl
    exact ⟨Or.inr rfl, by decide⟩

end CliChat
