import CliChat.Server.Returning
import CliChat.Server.Store

/-! @src server/src/server.cpp | name:Server | scheme:reachable states

    Every handler keeps `Store` and respects `Evolves`; so does every run. -/

namespace CliChat

open Transition

/-! ### The other events -/

/-- The entries after a connection was accepted. -/
theorem lookup_emplace {m : ClientMap} {fd : Fd} (hfd : m.lookup fd = none) (info : ClientInfo)
    (r : Rehash) (k : Fd) :
    (m.emplace fd info r).lookup k = if k = fd then some info else m.lookup k := by
  have hmem : fd ∉ m := AList.lookup_eq_none.mp hfd
  have hnd : (⟨fd, info⟩ :: m.entries).NodupKeys := List.nodupKeys_cons.mpr ⟨hmem, m.nodupKeys⟩
  have hperm : (m.emplace fd info r).lookup k = List.dlookup k (⟨fd, info⟩ :: m.entries) := by
    rw [ClientMap.emplace, dif_neg hmem]
    exact List.perm_dlookup k ((List.perm_nodupKeys (r.perm _)).mpr hnd) (r.perm _)
  rw [hperm]
  by_cases hk : k = fd
  · subst hk
    rw [if_pos rfl, List.dlookup_cons_eq]
  · rw [if_neg hk, List.dlookup_cons_ne _ _ hk]
    rfl

/-- Network activity reaches the streams only. -/
theorem Kernel.net_frame (k : Kernel) (a : NetAct) :
    (k.net a).fds = k.fds ∧ (k.net a).accepted = k.accepted ∧ (k.net a).epoll = k.epoll := by
  cases a <;> simp only [Kernel.net] <;> split <;> exact ⟨rfl, rfl, rfl⟩

namespace Store

variable {s : Server}

/-- A free descriptor has no entry. -/
theorem lookup_free (h : Store s) {fd : Fd} (hfree : s.isFree fd = true) :
    s.clients.lookup fd = none := by
  rcases hl : s.clients.lookup fd with _ | c
  · rfl
  · have hfds := (h.table.entry fd c hl).2.2.2
    rw [(Server.isFree_iff.mp hfree).2.2.2] at hfds
    cases hfds

/-- The map after an accept: one entry more. -/
theorem lookup_admitted (h : Store s) {fd : Fd} (hfree : s.isFree fd = true) (r : Rehash)
    (ci co : List ℕ) (k : Fd) : (s.admitted fd r ci co).clients.lookup k =
      if k = fd then some { session := ⟨fd, s.kernel.accepted⟩, fd := fd }
      else s.clients.lookup k :=
  lookup_emplace (h.lookup_free hfree) _ r k

/-- A new entry is neither registered nor filed under a descriptor in use. -/
theorem admitted (h : Store s) {fd : Fd} (hfree : s.isFree fd = true) (r : Rehash)
    (ci co : List ℕ) : Store (s.admitted fd r ci co) ∧ Evolves s (s.admitted fd r ci co) := by
  obtain ⟨hnn, -, -, -⟩ := Server.isFree_iff.mp hfree
  have hnone := h.lookup_free hfree
  have hlook := h.lookup_admitted hfree r ci co
  have hreg : ∀ k d, Registered (s.admitted fd r ci co) k d ↔ Registered s k d := by
    intro k d
    unfold Registered
    rw [hlook]
    by_cases hk : k = fd
    · subst hk
      rw [if_pos rfl, hnone]
      constructor
      · rintro ⟨hd, hr⟩
        cases hd
        cases hr
      · rintro ⟨hd, -⟩
        cases hd
    · rw [if_neg hk]
  have hfds : ∀ k, (s.admitted fd r ci co).kernel.fds k =
      if k = fd then some s.kernel.accepted else s.kernel.fds k :=
    fun k => Function.update_apply _ _ _ _
  have hacc : (s.admitted fd r ci co).kernel.accepted = s.kernel.accepted + 1 := rfl
  refine ⟨⟨⟨⟨?_, ?_, ?_⟩, h.free⟩, ?_, ?_, ?_⟩, ⟨Nat.le_succ _, ?_⟩⟩
  · intro k d hd
    rw [hfds]
    by_cases hk : k = fd
    · rw [(hlook k).trans (if_pos hk)] at hd
      cases hd
      rw [if_pos hk, hk]
      exact ⟨rfl, rfl, hnn, rfl⟩
    · rw [(hlook k).trans (if_neg hk)] at hd
      rw [if_neg hk]
      exact h.table.entry k d hd
  · intro k k' id hk hk'
    rw [hfds] at hk hk'
    split at hk <;> split at hk'
    · rename_i h₁ h₂
      rw [h₁, h₂]
    · cases hk
      exact absurd (h.table.fresh _ _ hk') (lt_irrefl _)
    · cases hk'
      exact absurd (h.table.fresh _ _ hk) (lt_irrefl _)
    · exact h.table.inj k k' id hk hk'
  · intro k id hk
    rw [hfds] at hk
    rw [hacc]
    split at hk
    · cases hk
      exact Nat.lt_succ_self _
    · exact (h.table.fresh k id hk).trans (Nat.lt_succ_self _)
  · intro n
    simp only [hreg]
    exact h.names n
  · intro k k' d d' hd hd'
    exact h.unique k k' d d' ((hreg k d).mp hd) ((hreg k' d').mp hd')
  · intro k d hd
    exact h.keyed k d ((hreg k d).mp hd)
  · intro k d hd hlt
    by_cases hk : k = fd
    · rw [(hlook k).trans (if_pos hk)] at hd
      cases hd
      exact absurd hlt (lt_irrefl _)
    · rw [(hlook k).trans (if_neg hk)] at hd
      exact ⟨d, hd, Grows.refl d⟩

theorem refused (h : Store s) {fd : Fd} (hfree : s.isFree fd = true) (ci co : List ℕ) :
    Store (s.refused fd ci co) ∧ Evolves s (s.refused fd ci co) := by
  have hfds := Server.refused_fds hfree ci co
  have hacc := Server.refused_accepted s fd ci co
  refine ⟨h.congr ⟨⟨?_, ?_, ?_⟩, h.free⟩ rfl rfl, ⟨?_, fun k d hd _ => ⟨d, hd, Grows.refl d⟩⟩⟩
  · rw [hfds]
    exact h.table.entry
  · rw [hfds]
    exact h.table.inj
  · intro k id hk
    rw [hfds] at hk
    rw [hacc]
    exact (h.table.fresh k id hk).trans (Nat.lt_succ_self _)
  · rw [hacc]
    exact Nat.le_succ _

theorem handleNewConnection (h : Store s) (accepts : List AcceptResult) :
    Store (handleNewConnection accepts s) ∧ Evolves s (CliChat.handleNewConnection accepts s) := by
  refine Server.handleNewConnection_invariant (I := fun t => Store t ∧ Evolves s t) ?_ ?_ accepts s
    ⟨h, Evolves.refl s⟩
  · rintro t fd r ci co ⟨ht, he⟩ hfree
    obtain ⟨ht', he'⟩ := ht.admitted hfree r ci co
    exact ⟨ht', he.trans he'⟩
  · rintro t fd ci co ⟨ht, he⟩ hfree
    obtain ⟨ht', he'⟩ := ht.refused hfree ci co
    exact ⟨ht', he.trans he'⟩

theorem net (h : Store s) (a : NetAct) :
    Store { s with kernel := s.kernel.net a } ∧ Evolves s { s with kernel := s.kernel.net a } := by
  obtain ⟨hf, ha, -⟩ := s.kernel.net_frame a
  exact ⟨h.congr ⟨h.table.congr rfl hf ha, h.free⟩ rfl rfl, Evolves.of_clients ha rfl⟩

/-- `Stop` empties both containers and leaves the sockets of the clients open. -/
theorem stop (h : Store s) : Store (stop s) ∧ Evolves s (CliChat.stop s) := by
  by_cases hrun : s.running = true
  · obtain ⟨hc, hu, hm, hf, ha⟩ : (CliChat.stop s).clients = ∅ ∧ (CliChat.stop s).usernames = ∅ ∧
        (CliChat.stop s).clientsMutex = s.clientsMutex ∧
        (CliChat.stop s).kernel.fds = s.kernel.fds ∧
        (CliChat.stop s).kernel.accepted = s.kernel.accepted := by
      unfold CliChat.stop
      rw [if_neg (by simp [hrun])]
      dsimp only
      split <;> split <;> exact ⟨rfl, rfl, rfl, rfl, rfl⟩
    have hnone : ∀ k, (CliChat.stop s).clients.lookup k = none := by
      intro k
      rw [hc]
      rfl
    have hreg : ∀ k d, ¬ Registered (CliChat.stop s) k d := by
      intro k d hd
      rw [Registered, hnone] at hd
      cases hd.1
    refine ⟨⟨⟨⟨?_, by rw [hf]; exact h.table.inj, by rw [hf, ha]; exact h.table.fresh⟩,
      hm.trans h.free⟩, ?_, fun k _ d _ hd => absurd hd (hreg k d),
      fun k d hd => absurd hd (hreg k d)⟩, ⟨ha.ge, ?_⟩⟩
    · intro k d hd
      rw [hnone] at hd
      cases hd
    · intro n
      rw [hu]
      constructor
      · intro hn
        cases hn
      · rintro ⟨k, d, hd, -⟩
        exact absurd hd (hreg k d)
    · intro k d hd
      rw [hnone] at hd
      cases hd
  · have hstop : CliChat.stop s = s := by
      rw [CliChat.stop, if_pos (by simpa using hrun)]
    rw [hstop]
    exact ⟨h, Evolves.refl s⟩

end Store

/-! ### Client events -/

section client

variable (na : Sodium) (env : ReturningEnv) {s s' : Server} {fd : Fd} {c : ClientInfo}

theorem Store.keyStored (h : Store s) (hl : s.clients.lookup fd = some c) (pk : Bytes) :
    Store (s.keyStored env fd c pk) ∧ Evolves s (s.keyStored env fd c pk) := by
  have hs := keyStored_sendsOnly env s fd c pk
  have hw : Store (s.write fd { c with clientPk := pk }) := h.write hl rfl rfl rfl rfl id
  have hev : Evolves s (s.write fd { c with clientPk := pk }) :=
    Evolves.of_replace rfl hl rfl ⟨rfl, id, id, fun _ => rfl⟩
  exact ⟨hw.sendsOnly hs, hev.trans (Evolves.of_sendsOnly hs)⟩

theorem Store.keyed' (h : Store s) (hl : s.clients.lookup fd = some c) (payload : Bytes) :
    Store (s.keyed env fd c payload) ∧ Evolves s (s.keyed env fd c payload) := by
  have hs : SendsOnly s ((s.touch fd 1).sendPacket env c.session .groupKey payload).2 :=
    (SendsOnly.touch s fd 1).trans (Server.sendPacket_sendsOnly env _ _ _ _)
  have hlt : ((s.touch fd 1).sendPacket env c.session .groupKey payload).2.clients.lookup fd =
      some c := by
    rw [hs.clients]
    exact hl
  have hgrow : Grows c { c with keyExchanged := true } := ⟨rfl, fun _ => rfl, id, fun _ => rfl⟩
  have hev : Evolves ((s.touch fd 1).sendPacket env c.session .groupKey payload).2
      (s.keyed env fd c payload) := Evolves.of_replace rfl hlt rfl hgrow
  exact ⟨(h.sendsOnly hs).write hlt rfl rfl rfl rfl fun _ => rfl,
    (Evolves.of_sendsOnly hs).trans hev⟩

/-- Every way through `HandleClientEvent` that returns keeps the invariant. -/
theorem Outcome.store (h : Store s) (hl : s.clients.lookup fd = some c)
    (hout : Outcome na env s fd c (.ok () s')) : Store s' ∧ Evolves s s' := by
  have hrecv : ∀ pkt ch, Evolves s (s.received fd c pkt ch) :=
    fun _ _ => Evolves.of_clients rfl rfl
  have hrecv' : ∀ pkt ch n, Evolves s ((s.received fd c pkt ch).touch fd n) :=
    fun _ _ _ => Evolves.of_clients rfl rfl
  cases hout with
  | @noKey pkt ch _ _ _ => exact ⟨h.received fd c pkt ch, hrecv pkt ch⟩
  | @badKey pk ch _ _ _ _ _ =>
    have hlr : (s.received fd c (some pk) ch).clients.lookup fd = some c := hl
    obtain ⟨hk, hev⟩ := (h.received fd c (some pk) ch).keyStored env hlr pk
    exact ⟨hk.disconnected na env (keyStored_lookup env hlr pk),
      ((hrecv (some pk) ch).trans hev).trans
        (Evolves.of_shrinks (shrinks_disconnected na env _ fd _))⟩
  | @keyed pk ch nonce cipher _ _ _ _ _ =>
    have hlr : (s.received fd c (some pk) ch).clients.lookup fd = some c := hl
    obtain ⟨hk, hev⟩ := (h.received fd c (some pk) ch).keyStored env hlr pk
    obtain ⟨hk', hev'⟩ := hk.keyed' env (keyStored_lookup env hlr pk) (nonce ++ cipher)
    exact ⟨hk', ((hrecv (some pk) ch).trans hev).trans hev'⟩
  | @rejected pkt ch n _ _ _ =>
    exact ⟨((h.received fd c pkt ch).touch fd n).disconnected na env hl,
      (hrecv' pkt ch n).trans (Evolves.of_shrinks (shrinks_disconnected na env _ fd c))⟩
  | @named p ch uname hk hreg _ _ hu =>
    have hlr : ((s.received fd c (some p) ch).touch fd 1).clients.lookup fd = some c := hl
    have hn := ((h.received fd c (some p) ch).touch fd 1).named hlr hk hreg hu
    have hgrow : Grows c { c with username := uname, registered := true } :=
      ⟨rfl, id, fun _ => rfl, fun hr => by rw [hreg] at hr; cases hr⟩
    have hev : Evolves ((s.received fd c (some p) ch).touch fd 1)
        (((s.received fd c (some p) ch).touch fd 1).named fd c uname) :=
      Evolves.of_replace rfl hlr rfl hgrow
    have hbc := hn.broadcasted na env (connectNotice uname)
    exact ⟨hbc.sendsOnly (SendsOnly.log _ _), (((hrecv' (some p) ch 1).trans hev).trans
      (Evolves.of_shrinks (shrinks_broadcasted na env _ _))).trans
        (Evolves.of_sendsOnly (SendsOnly.log _ _))⟩
  | @forwarded p ch _ _ _ =>
    have hs := (forwardTo_spec env c.session.conn p s.clients.entries
      ((s.received fd c (some p) ch).touch fd 1)).1
    exact ⟨((h.received fd c (some p) ch).touch fd 1).sendsOnly hs,
      (hrecv' (some p) ch 1).trans (Evolves.of_sendsOnly hs)⟩

theorem Store.handleClientEvent (h : Store s) (hl : s.clients.lookup fd = some c)
    (hok : handleClientEvent na env fd s = .ok () s') : Store s' ∧ Evolves s s' := by
  have hout := handleClientEvent_outcome na env h.toReady hl
  rw [hok] at hout
  exact hout.store na env h hl

end client

/-! ### What no handler changes -/

/-- The states agree on the keys, on the listener and on whether the server runs. -/
structure Steady (s s' : Server) : Prop where
  listenfd : s'.listenfd = s.listenfd
  running : s'.running = s.running
  serverPk : s'.serverPk = s.serverPk
  serverSk : s'.serverSk = s.serverSk
  groupKey : s'.groupKey = s.groupKey

theorem Steady.trans {a b c : Server} (h : Steady a b) (k : Steady b c) : Steady a c where
  listenfd := k.listenfd.trans h.listenfd
  running := k.running.trans h.running
  serverPk := k.serverPk.trans h.serverPk
  serverSk := k.serverSk.trans h.serverSk
  groupKey := k.groupKey.trans h.groupKey

theorem Steady.of_sendsOnly {s s' : Server} (h : SendsOnly s s') : Steady s s' :=
  ⟨h.listenfd, h.running, h.serverPk, h.serverSk, h.groupKey⟩

theorem Steady.of_shrinks {s s' : Server} (h : Shrinks s s') : Steady s s' :=
  ⟨h.listenfd, h.running, h.serverPk, h.serverSk, h.groupKey⟩

theorem handleNewConnection_steady (accepts : List AcceptResult) (s : Server) :
    Steady s (handleNewConnection accepts s) :=
  Server.handleNewConnection_invariant (I := Steady s)
    (fun _ _ _ _ _ h _ => h.trans ⟨rfl, rfl, rfl, rfl, rfl⟩)
    (fun _ _ _ _ h _ => h.trans ⟨rfl, rfl, rfl, rfl, rfl⟩) accepts s ⟨rfl, rfl, rfl, rfl, rfl⟩

theorem keyed_steady (env : ReturningEnv) (s : Server) (fd : Fd) (c : ClientInfo)
    (pk payload : Bytes) :
    Steady s ((s.keyStored env fd c pk).keyed env fd { c with clientPk := pk } payload) := by
  have h₁ := Steady.of_sendsOnly (keyStored_sendsOnly env s fd c pk)
  have h₂ := Steady.of_sendsOnly (Server.sendPacket_sendsOnly env c.session .groupKey payload
    ((s.keyStored env fd c pk).touch fd 1))
  exact ⟨h₂.listenfd.trans h₁.listenfd, h₂.running.trans h₁.running, h₂.serverPk.trans h₁.serverPk,
    h₂.serverSk.trans h₁.serverSk, h₂.groupKey.trans h₁.groupKey⟩

theorem Outcome.steady {na : Sodium} {env : ReturningEnv} {s s' : Server} {fd : Fd} {c : ClientInfo}
    (hout : Outcome na env s fd c (.ok () s')) : Steady s s' := by
  have hrecv : ∀ pkt ch n, Steady s ((s.received fd c pkt ch).touch fd n) :=
    fun _ _ _ => ⟨rfl, rfl, rfl, rfl, rfl⟩
  cases hout with
  | noKey => exact ⟨rfl, rfl, rfl, rfl, rfl⟩
  | @badKey pk ch _ _ _ _ _ =>
    have hk := Steady.of_sendsOnly (keyStored_sendsOnly env (s.received fd c (some pk) ch) fd c pk)
    have hd := Steady.of_shrinks (shrinks_disconnected na env
      ((s.received fd c (some pk) ch).keyStored env fd c pk) fd { c with clientPk := pk })
    have hw : Steady s ((s.received fd c (some pk) ch).write fd { c with clientPk := pk }) :=
      ⟨rfl, rfl, rfl, rfl, rfl⟩
    exact (hw.trans hk).trans hd
  | @keyed pk ch nonce cipher _ _ _ _ _ =>
    have hr : Steady s (s.received fd c (some pk) ch) := ⟨rfl, rfl, rfl, rfl, rfl⟩
    exact hr.trans (keyed_steady env (s.received fd c (some pk) ch) fd c pk (nonce ++ cipher))
  | @rejected pkt ch n _ _ _ =>
    exact (hrecv pkt ch n).trans (Steady.of_shrinks (shrinks_disconnected na env _ fd c))
  | @named p ch uname _ _ _ _ _ =>
    have hb := Steady.of_shrinks (shrinks_broadcasted na env (connectNotice uname)
      (((s.received fd c (some p) ch).touch fd 1).named fd c uname))
    have hn : Steady s (((s.received fd c (some p) ch).touch fd 1).named fd c uname) :=
      ⟨rfl, rfl, rfl, rfl, rfl⟩
    exact (hn.trans hb).trans (Steady.of_sendsOnly (SendsOnly.log _ _))
  | @forwarded p ch _ _ _ =>
    exact (hrecv (some p) ch 1).trans
      (Steady.of_sendsOnly (forwardTo_spec env c.session.conn p s.clients.entries _).1)

/-! ### Runs -/

section runs

variable (na : Sodium) (env : Env) {s s' : Server}

/-- The entry that the event loop looks up, and the call it makes. -/
theorem handle_client {fd : Fd} {c : ClientInfo} (hl : s.clients.lookup fd = some c) :
    handle na env (.client fd) s = handleClientEvent na env fd (s.log (.dispatch c.session.conn)) := by
  rw [handle, ServerM.bind_ok (ServerM.get_apply _), hl]
  rfl

/-- STEP: a handler that returns keeps the invariant. -/
theorem Store.step (h : Store s) {e : Event} (hstep : step na env e s = some s') :
    Store s' ∧ Evolves s s' := by
  obtain ⟨hen, hok⟩ := (step_some na env.returning).mp (step_returning hstep).2
  cases e with
  | listener accepts =>
    cases hok
    exact h.handleNewConnection accepts
  | client fd =>
    obtain ⟨-, ⟨c, hl⟩, -⟩ := enabled_client.mp hen
    rw [handle_client na env.returning hl] at hok
    obtain ⟨hs, hev⟩ := (h.sendsOnly (SendsOnly.log s (.dispatch c.session.conn))).handleClientEvent
      na env.returning hl hok
    exact ⟨hs, (Evolves.of_sendsOnly (SendsOnly.log s _)).trans hev⟩
  | net act =>
    cases hok
    exact h.net act
  | waitFails =>
    cases hok
    exact h.stop

/-- A server that has just started has no clients. -/
theorem Initial.store (h : Initial s) : Store s := by
  obtain ⟨l, ep, pk, sk, gk, -, -, -, -, rfl⟩ := h
  have hreg : ∀ k d, ¬ Registered (Server.started l ep pk sk gk) k d := by
    rintro k d ⟨hd, -⟩
    cases hd
  refine ⟨⟨⟨?_, ?_, ?_⟩, rfl⟩, ?_, fun k _ d _ hd => absurd hd (hreg k d),
    fun k d hd => absurd hd (hreg k d)⟩
  · intro k d hd
    cases hd
  · intro k k' id hk
    cases hk
  · intro k id hk
    cases hk
  · intro n
    constructor
    · intro hn
      cases hn
    · rintro ⟨k, d, hd, -⟩
      exact absurd hd (hreg k d)

/-- INVARIANT: every reachable state. -/
theorem Reach.store (h : Reach na env s) : Store s :=
  Reachable.invariant (I := Store) (fun _ => Initial.store) (fun _ _ _ hs ht => (hs.step na env ht).1) h

/-- RUNS: entries evolve along every run from a reachable state. -/
theorem Reach.evolves (h : Reach na env s) {es : List Event}
    (hrun : run (step na env) es s = some s') : Evolves s s' :=
  run_relation (step na env) (I := Store) (R := Evolves) (fun _ _ _ hs ht => (hs.step na env ht).1)
    (fun s _ => Evolves.refl s) (fun _ _ _ => Evolves.trans)
    (fun _ _ _ hs ht => (hs.step na env ht).2) (h.store na env) hrun

/-- STORE INVARIANT: in every reachable state `m_usernames` is the set of the names in use, names
    are not shared, registration comes after the key exchange, along every further run the entries
    that stay only grow, and a name is free exactly when no registered client holds it. -/
theorem store_invariant (h : Reach na env s) :
    (∀ n, n ∈ s.usernames ↔ ∃ fd c, Registered s fd c ∧ c.username = n) ∧
    (∀ fd fd' c c', Registered s fd c → Registered s fd' c' → c.username = c'.username →
      fd = fd') ∧
    (∀ fd c, Registered s fd c → c.keyExchanged = true) ∧
    (∀ es s', run (step na env) es s = some s' → ∀ fd c c', s.clients.lookup fd = some c →
      s'.clients.lookup fd = some c' → c'.session.conn = c.session.conn →
      (c.keyExchanged = true → c'.keyExchanged = true) ∧
      (c.registered = true → c'.registered = true ∧ c'.username = c.username)) ∧
    (∀ n, n ∉ s.usernames ↔ ∀ fd c, Registered s fd c → c.username ≠ n) := by
  have hstore := h.store na env
  refine ⟨hstore.names, hstore.unique, hstore.keyed, ?_, ?_⟩
  · intro es s' hrun fd c c' hl hl' hconn
    have hold : c'.session.conn < s.kernel.accepted := by
      rw [hconn]
      exact hstore.table.fresh fd _ (hstore.table.entry fd c hl).2.2.2
    obtain ⟨d, hd, hgrow⟩ := (h.evolves na env hrun).entries fd c' hl' hold
    obtain rfl : d = c := Option.some.inj (hd.symm.trans hl)
    exact ⟨hgrow.keyExchanged, fun hr => ⟨hgrow.registered hr, hgrow.username hr⟩⟩
  · intro n
    rw [hstore.names]
    constructor
    · intro hn fd c hc heq
      exact hn ⟨fd, c, hc, heq⟩
    · rintro hall ⟨fd, c, hc, heq⟩
      exact hall fd c hc heq

end runs

/-! ### Concrete runs -/

/-- The server of the concrete runs: listener 3, epoll 4, and the keys of `Sodium.plain`. -/
def sampleServer : Server :=
  Server.started 3 4 (List.replicate boxPublicKeyBytes 1) (List.replicate boxPublicKeyBytes 1)
    (List.replicate 32 9)

theorem sampleServer_initial : Initial sampleServer :=
  ⟨3, 4, _, _, _, by decide, by decide, by decide, List.length_replicate, rfl⟩

/-- A concrete run: the sends numbered in `bad` fail. -/
def sampleRun (bad : List ℕ) (es : List Event) : Option Server :=
  run (step Sodium.plain (Env.failing bad)) es sampleServer

/-- `msg` as a client seals it under the group key of `sampleServer`. -/
def sampleSealed (msg : Bytes) : Bytes :=
  List.replicate secretboxNonceBytes 0 ++
    (tag (List.replicate secretboxNonceBytes 0) sampleServer.groupKey ++ msg)

/-- A packet arrives on connection `id`, and its socket `fd` is reported. -/
def packetFrom (id : ConnId) (fd : Fd) (pkt : Bytes) : List Event :=
  [.net (.arrive id (wire pkt)), .client fd]

/-- Connection `id` is accepted as `fd`, and sends its key. -/
def connects (id : ConnId) (fd : Fd) : List Event :=
  .listener [.conn fd true .none [] []] ::
    packetFrom id fd (List.replicate boxPublicKeyBytes 5)

/-- Connection `id` is accepted as `fd`, and registers under `name`. -/
def joins (id : ConnId) (fd : Fd) (name : Bytes) : List Event :=
  connects id fd ++ packetFrom id fd (sampleSealed name)

theorem sampleRun_reach {bad : List ℕ} {es : List Event} {s : Server}
    (h : sampleRun bad es = some s) : Reach Sodium.plain (Env.failing bad) s :=
  ⟨sampleServer, es, sampleServer_initial, h⟩

/-- Two clients have joined: theirs are the names in use. -/
theorem store_invariant_two : ∃ s, sampleRun [] (joins 0 5 (ascii "al") ++ joins 1 6 (ascii "bo")) =
    some s ∧ ∀ n, (∃ fd c, Registered s fd c ∧ c.username = n) ↔ n = ascii "al" ∨ n = ascii "bo" := by
  have hrun : (sampleRun [] (joins 0 5 (ascii "al") ++ joins 1 6 (ascii "bo"))).map
      (fun s => s.usernames) = some {ascii "al", ascii "bo"} := by decide +kernel
  obtain ⟨s, hs, hnames⟩ := Option.map_eq_some_iff.mp hrun
  refine ⟨s, hs, fun n => ?_⟩
  rw [← (store_invariant Sodium.plain (Env.failing []) (sampleRun_reach hs)).1 n, hnames]
  simp

end CliChat
