import CliChat.Server.EventLoop
import CliChat.Server.Sockets

/-! @src server/src/server.cpp | name:HandleClientEvent, DisconnectClient | scheme:frame conditions

    What a client that is not registered can bring about. Until its packet opens to a free name it
    reaches nobody: its events send to itself only, and touch no entry but its own
    (`stranger_effects`). The username packet itself is attacker-chosen, and most lengths of it are
    handled (`name_safe_iff`).

          0 .. 23   too small ──▶ disconnected
         24 .. 39   ctLen - 16 wraps ──▶ std::length_error
         40 ..      opens, or is disconnected -/

namespace CliChat

open Transition

/-! ### Sends to one connection only -/

/-- The event is no send to another connection than `id`. -/
def Ev.keepsTo (id : ConnId) : Ev → Bool
  | .secretbox conn _ _ => conn = id
  | .send conn _ _ _ => conn = id
  | _ => true

theorem Adds.others {id : ConnId} {s s' : Server} {T : List Ev} (h : Adds (Ev.keepsTo id) s s')
    (htr : s'.trace = s.trace ++ T) {id' : ConnId} (hne : id' ≠ id) : packetsTo id' T = [] := by
  obtain ⟨T', hT', hkeep⟩ := h
  obtain rfl : T' = T := List.append_cancel_left (hT'.symm.trans htr)
  refine (projections_nil fun e he => ?_).2
  have hk := hkeep e he
  cases e with
  | send conn site payload ok =>
    simp only [Ev.keepsTo, decide_eq_true_eq] at hk
    simp [Ev.isTo, hk, hne.symm]
  | secretbox conn msg ok =>
    simp only [Ev.keepsTo, decide_eq_true_eq] at hk
    simp [Ev.isTo, hk, hne.symm]
  | _ => rfl

section parts

variable (env : ReturningEnv) (s : Server) (fd : Fd) (c : ClientInfo)

theorem received_keepsTo (id : ConnId) (pkt : Option Bytes) (ch : Chan) (n : ℕ) :
    Adds (Ev.keepsTo id) s ((s.received fd c pkt ch).touch fd n) :=
  (Adds.received rfl rfl s ch).trans (.touch rfl _ n)

theorem dropped_keepsTo (id : ConnId) : Adds (Ev.keepsTo id) s (s.dropped fd c) := by
  refine ⟨dropLog fd c, dropped_log s fd c, ?_⟩
  unfold dropLog
  split <;> simp [Ev.keepsTo]

theorem keyStored_keepsTo (pk : Bytes) :
    Adds (Ev.keepsTo c.session.conn) s (s.keyStored env fd c pk) := by
  obtain ⟨ok, htr⟩ := keyStored_trace env s fd c pk
  exact ⟨_, htr, by simp [Ev.keepsTo]⟩

theorem keyed_keepsTo (payload : Bytes) :
    Adds (Ev.keepsTo c.session.conn) s (s.keyed env fd c payload) := by
  obtain ⟨ok, htr⟩ := keyed_trace env s fd c payload
  exact ⟨_, htr, by simp [Ev.keepsTo]⟩

end parts

/-! ### Nobody else is touched -/

/-- From `s` to `s'` nothing changes for the other connections: no send to them, no change of their
    entries, none of the names. -/
structure Alone (fd : Fd) (id : ConnId) (s s' : Server) : Prop where
  sends : Adds (Ev.keepsTo id) s s'
  usernames : s'.usernames = s.usernames
  others : ∀ k, k ≠ fd → s'.clients.lookup k = s.clients.lookup k

namespace Alone

variable {fd : Fd} {id : ConnId} {a b c : Server}

theorem trans (h : Alone fd id a b) (k : Alone fd id b c) : Alone fd id a c where
  sends := h.sends.trans k.sends
  usernames := k.usernames.trans h.usernames
  others := fun j hj => (k.others j hj).trans (h.others j hj)

variable (env : ReturningEnv) (s : Server) (c : ClientInfo)

theorem received (pkt : Option Bytes) (ch : Chan) (n : ℕ) :
    Alone fd id s ((s.received fd c pkt ch).touch fd n) :=
  ⟨received_keepsTo s fd c id pkt ch n, rfl, fun _ _ => rfl⟩

/-- The disconnect of a client that is not registered. -/
theorem dropped (hreg : c.registered = false) : Alone fd id s (s.dropped fd c) where
  sends := dropped_keepsTo s fd c id
  usernames := by
    rw [Server.dropped_usernames, if_neg (by simp [hreg])]
  others := fun k hk => by
    rw [Server.dropped_clients, AList.lookup_erase_ne hk]

theorem keyStored (pk : Bytes) : Alone fd c.session.conn s (s.keyStored env fd c pk) where
  sends := keyStored_keepsTo env s fd c pk
  usernames := (keyStored_sendsOnly env s fd c pk).usernames
  others := fun k hk => by
    rw [(keyStored_sendsOnly env s fd c pk).clients, Server.write_clients,
      AList.lookup_replace_ne _ _ hk]

theorem keyed (payload : Bytes) : Alone fd c.session.conn s (s.keyed env fd c payload) where
  sends := keyed_keepsTo env s fd c payload
  usernames := ((SendsOnly.touch s fd 1).trans
    (Server.sendPacket_sendsOnly env c.session .groupKey payload (s.touch fd 1))).usernames
  others := fun k hk => by
    rw [Server.keyed, Server.write_clients, AList.lookup_replace_ne _ _ hk,
      (Server.sendPacket_sendsOnly env c.session .groupKey payload (s.touch fd 1)).clients]
    rfl

end Alone

section stranger

variable (na : Sodium) (env : ReturningEnv) {s s' : Server} {fd : Fd} {c : ClientInfo}

theorem disconnected_unregistered (s : Server) (fd : Fd) (hreg : c.registered = false) :
    s.disconnected na env fd c = s.dropped fd c := by
  rw [Server.disconnected, if_neg (by simp [hreg])]

/-- A handler of an unregistered client that returns has touched nobody else, or registered the
    client. -/
theorem Outcome.alone (hreg : c.registered = false) (hout : Outcome na env s fd c (.ok () s')) :
    Alone fd c.session.conn s s' ∨ ∃ p ch uname, NamePacket na s c p ch uname ∧
      uname ∉ s.usernames ∧ s' = ((((s.received fd c (some p) ch).touch fd 1).named fd c
        uname).broadcasted na env (connectNotice uname)).used fd := by
  cases hout with
  | @noKey pkt ch =>
    have hrecv : Alone fd c.session.conn s ((s.received fd c pkt ch).touch fd 0) :=
      Alone.received s c pkt ch 0
    rw [Server.touch_zero] at hrecv
    exact Or.inl hrecv
  | @badKey pk ch =>
    have hrecv : Alone fd c.session.conn s ((s.received fd c (some pk) ch).touch fd 0) :=
      Alone.received s c (some pk) ch 0
    rw [Server.touch_zero] at hrecv
    have hdrop : Alone fd c.session.conn ((s.received fd c (some pk) ch).keyStored env fd c pk)
        (((s.received fd c (some pk) ch).keyStored env fd c pk).dropped fd
          { c with clientPk := pk }) := Alone.dropped _ _ hreg
    rw [disconnected_unregistered na env _ fd (c := { c with clientPk := pk }) hreg]
    exact Or.inl ((hrecv.trans (Alone.keyStored env _ c pk)).trans hdrop)
  | @keyed pk ch nonce cipher =>
    have hrecv : Alone fd c.session.conn s ((s.received fd c (some pk) ch).touch fd 0) :=
      Alone.received s c (some pk) ch 0
    rw [Server.touch_zero] at hrecv
    exact Or.inl ((hrecv.trans (Alone.keyStored env _ c pk)).trans
      (Alone.keyed env _ { c with clientPk := pk } (nonce ++ cipher)))
  | @rejected pkt ch n =>
    rw [disconnected_unregistered na env _ fd hreg]
    exact Or.inl ((Alone.received s c pkt ch n).trans (Alone.dropped _ c hreg))
  | @named p ch uname hk hr hd hname hu =>
    exact Or.inr ⟨p, ch, uname, ⟨hk, hr, hd, hname⟩, hu, rfl⟩
  | forwarded _ hr => rw [hreg] at hr; cases hr

/-- What a registration sends to others: notices of the arrival, and of the departures it causes. -/
theorem named_notices (hs : Store s) (hl : s.clients.lookup fd = some c) {p : Bytes} {ch : Chan}
    {uname : Bytes} (hp : NamePacket na s c p ch uname) (hu : uname ∉ s.usernames) :
    ∃ T, (((((s.received fd c (some p) ch).touch fd 1).named fd c uname).broadcasted na env
        (connectNotice uname)).used fd).trace = s.trace ++ T ∧
      ∀ id, ∀ x ∈ packetsTo id T, ∃ m, x.1 = .secretbox m ∧
        SealedBox na s.groupKey m (some x.2.1) ∧ (m = connectNotice uname ∨
          ∃ k d, (Registered s k d ∨ k = fd ∧ d = { c with username := uname, registered := true }) ∧
            (∃ m', (m', false) ∈ boxesTo d.session.conn T) ∧ m = disconnectNotice d.username) := by
  set t := ((s.received fd c (some p) ch).touch fd 1).named fd c uname with ht
  have hstore : Store t := ((hs.received fd c (some p) ch).touch fd 1).named hl hp.keyExchanged
    hp.unregistered hu
  have hreg : ∀ {k d}, Registered t k d → Registered s k d ∨ k = fd ∧
      d = { c with username := uname, registered := true } := by
    intro k d hd
    have hiff : Registered t k d ↔ (k = fd ∧ d = { c with username := uname, registered := true } ∧
        true = true) ∨ (k ≠ fd ∧ Registered ((s.received fd c (some p) ch).touch fd 1) k d) :=
      Store.registered_replace hl rfl
    rcases hiff.mp hd with ⟨hk, hd, -⟩ | ⟨-, hd⟩
    · exact Or.inr ⟨hk, hd⟩
    · exact Or.inl hd
  obtain ⟨T₁, rs, hdep⟩ := broadcasted_departures na env hstore (connectNotice uname)
  obtain ⟨T₁', hann⟩ := broadcasted_announces na env (connectNotice uname) t
  obtain rfl : T₁ = T₁' := List.append_cancel_left (hdep.trace.symm.trans hann.trace)
  -- the handler sends only inside the broadcast
  have hadds : ∀ id, Adds (fun e => !e.isTo id) s t := fun id =>
    ((Adds.received rfl rfl s ch).trans (.touch rfl _ 1)).trans (.named rfl rfl rfl _ c uname)
  obtain ⟨T₀, hT₀, hnot⟩ := Adds.uniform hadds
  have hquiet : ∀ id, ∀ e ∈ T₀, e.isTo id = false := fun id e he => by simpa using hnot id e he
  set live := ((t.broadcasted na env (connectNotice uname)).clients.lookup fd).isSome
  refine ⟨T₀ ++ T₁ ++ [.access fd live], ?_, fun id x hx => ?_⟩
  · rw [Server.used_trace, hdep.trace, hT₀, List.append_assoc, List.append_assoc, List.append_assoc]
  · have hlast : packetsTo id (T₀ ++ T₁ ++ [.access fd live]) = packetsTo id T₁ := by
      rw [packetsTo_append, packetsTo_append, (projections_nil (hquiet id)).2]
      exact List.append_nil _
    rw [hlast] at hx
    obtain ⟨-, m, hm, hsite, hsealed⟩ := hann.packets id x hx
    refine ⟨m, hsite, hsealed, ?_⟩
    have hdeparts : Ev.broadcast m ∈ T₁.filter Ev.departs := List.mem_filter.mpr ⟨hm, rfl⟩
    rw [hdep.announced] at hdeparts
    rcases List.mem_cons.mp hdeparts with heq | hdeparts
    · cases heq
      exact Or.inl rfl
    · obtain ⟨⟨k, d⟩, hd, heq⟩ := List.mem_flatMap.mp hdeparts
      obtain ⟨hd, m', hm'⟩ := (hdep.removed k d).mp hd
      refine Or.inr ⟨k, d, hreg hd, ⟨m', ?_⟩, by simpa using heq⟩
      rw [boxesTo_append, boxesTo_append]
      exact List.mem_append_left _ (List.mem_append_right _ hm')

variable (env : Env)

/-- STRANGERS: in every reachable state, an event on an unregistered client whose handler returns
    sends to no other connection, changes no name and no entry but its own, or its packet opens to a
    free name, and all that others are sent is the notice of its arrival and those of the
    departures of registered clients for which a send failed. -/
theorem stranger_effects (h : Reach na env s) (hen : (Event.client fd).enabled s = true)
    (hl : s.clients.lookup fd = some c) (hreg : c.registered = false)
    (hok : handle na env (.client fd) s = .ok () s') :
    s'.trace = s.trace ++ eventLog na env (.client fd) s ∧
    (((∀ id, id ≠ c.session.conn → packetsTo id (eventLog na env (.client fd) s) = []) ∧
        s'.usernames = s.usernames ∧
        ∀ k, k ≠ fd → s'.clients.lookup k = s.clients.lookup k) ∨
      ∃ p ch uname, NamePacket na s c p ch uname ∧ uname ∉ s.usernames ∧
        ∀ id, id ≠ c.session.conn → ∀ x ∈ packetsTo id (eventLog na env (.client fd) s),
          ∃ m, x.1 = .secretbox m ∧ SealedBox na s.groupKey m (some x.2.1) ∧
            (m = connectNotice uname ∨ ∃ k d,
              (Registered s k d ∨ k = fd ∧ d = { c with username := uname, registered := true }) ∧
              (∃ m', (m', false) ∈ boxesTo d.session.conn (eventLog na env (.client fd) s)) ∧
              m = disconnectNotice d.username)) := by
  have hs := h.store na env
  have hs' : Store (s.log (.dispatch c.session.conn)) := hs.sendsOnly (SendsOnly.log s _)
  have hret : SendsReturn na env (.client fd) s :=
    (step_returning ((step_some na env).mpr ⟨hen, hok⟩)).1
  rw [hret.handle] at hok
  rw [hret.eventLog]
  obtain ⟨d, hd, hout⟩ := client_outcome na env.returning hs hen
  obtain rfl : d = c := Option.some.inj (hd.symm.trans hl)
  have hafter : stateAfter na env.returning (.client fd) s = s' := by
    rw [stateAfter_eq, hok]
    rfl
  have htrace : s'.trace = s.trace ++ eventLog na env.returning (.client fd) s := by
    rw [← hafter]
    exact (client_shuts na env.returning hs hen).trace
  refine ⟨htrace, ?_⟩
  rw [hok] at hout
  rcases hout.alone na env.returning hreg with halone | ⟨p, ch, uname, hp, hu, rfl⟩
  · have hdispatch : Adds (Ev.keepsTo d.session.conn) s (s.log (.dispatch d.session.conn)) :=
      Adds.log (by rfl) s
    exact Or.inl ⟨fun id hne => (hdispatch.trans halone.sends).others htrace hne, halone.usernames,
      halone.others⟩
  · obtain ⟨T, hT, hnotices⟩ := named_notices na env.returning hs' hl hp hu
    have hlog : eventLog na env.returning (.client fd) s = .dispatch d.session.conn :: T := by
      refine List.append_cancel_left (htrace.symm.trans (hT.trans ?_))
      rw [Server.log_trace, List.append_assoc]
      rfl
    refine Or.inr ⟨p, ch, uname, namePacket_log.mp hp, hu, fun id _ x hx => ?_⟩
    rw [hlog] at hx ⊢
    exact hnotices id x hx

/-- The second client registers while the first has just failed: the first is told nothing, and
    the second hears of both. -/
theorem stranger_effects_arrival : ∃ s c s', sampleRun [5] (joins 0 5 (ascii "al") ++ connects 1 6 ++
      [.net (.arrive 1 (wire (sampleSealed (ascii "bo"))))]) = some s ∧
    s.clients.lookup 6 = some c ∧ c.registered = false ∧
    handle Sodium.plain (Env.failing [5]) (.client 6) s = .ok () s' ∧
    s'.trace = s.trace ++ eventLog Sodium.plain (Env.failing [5]) (.client 6) s := by
  have hrun : (sampleRun [5] (joins 0 5 (ascii "al") ++ connects 1 6 ++
      [.net (.arrive 1 (wire (sampleSealed (ascii "bo"))))])).map
      (fun s => ((Event.client 6).enabled s, (s.clients.lookup 6).map ClientInfo.registered,
        ((handle Sodium.plain (Env.failing [5]) (.client 6)).result s).isSome)) =
      some (true, some false, true) := by decide +kernel
  obtain ⟨s, hs, heq⟩ := Option.map_eq_some_iff.mp hrun
  simp only [Prod.mk.injEq] at heq
  obtain ⟨hen, hc, hres⟩ := heq
  obtain ⟨c, hl, hreg⟩ := Option.map_eq_some_iff.mp hc
  obtain ⟨⟨⟨⟩, s'⟩, hr⟩ := Option.isSome_iff_exists.mp hres
  have hok := ServerM.result_eq_some.mp hr
  exact ⟨s, c, s', hs, hl, hreg, hok, (stranger_effects Sodium.plain (Env.failing [5])
    (sampleRun_reach hs) hen hl hreg hok).1⟩

/-! ### The username packet -/

/-- The packet holds no nonce and MAC, or does not open under the group key. -/
def Unopenable (s : Server) (p : Bytes) : Prop :=
  p.length < secretboxNonceBytes + secretboxMacBytes ∨
    na.secretboxOpenEasy (p.drop secretboxNonceBytes) (p.take secretboxNonceBytes) s.groupKey = none

/-- The packet `p` of the client of `fd` is handled safely: neither size wraps, no exception escapes,
    and a packet that does not open gets this client disconnected and nobody else touched. -/
structure NameSafe (s : Server) (fd : Fd) (p : Bytes) : Prop where
  sizes : secretboxNonceBytes ≤ p.length →
    (usernameBufferSize (p.drop secretboxNonceBytes).length : ℤ) =
      (p.length : ℤ) - secretboxNonceBytes - secretboxMacBytes
  returns : ∀ t, handle na env (.client fd) s ≠ .error .lengthError t
  refused : Unopenable na s p → ∃ t, handle na env (.client fd) s = .ok () t ∧
    fd ∉ t.clients ∧ t.usernames = s.usernames ∧
    ∀ k, k ≠ fd → t.clients.lookup k = s.clients.lookup k

/-- The length of the ciphertext is a `size_t` difference that does not wrap, and the size of the
    name does not either, unless it is short. -/
theorem usernameBufferSize_exact {p : Bytes} (hp : p.length < 2 ^ 32)
    (hlong : secretboxNonceBytes ≤ p.length) :
    (usernameBufferSize (p.drop secretboxNonceBytes).length : ℤ) =
      (p.length : ℤ) - secretboxNonceBytes - secretboxMacBytes ↔ ¬ ShortName p := by
  rw [ShortName, List.length_drop]
  unfold usernameBufferSize secretboxNonceBytes secretboxMacBytes at *
  omega

/-- USERNAME PACKETS: in every reachable state, the packet of a client that has exchanged keys and is
    not registered is handled safely exactly when it is shorter than a nonce or as long as a nonce
    and a MAC. -/
theorem name_safe_iff (h : Reach na env s) (hen : (Event.client fd).enabled s = true)
    (hl : s.clients.lookup fd = some c) (hk : c.keyExchanged = true) (hreg : c.registered = false)
    {p : Bytes} {ch : Chan}
    (hd : recvPacket (s.kernel.conns c.session.conn).toServer = .done (some p) ch) :
    NameSafe na env s fd p ↔
      p.length < secretboxNonceBytes ∨ secretboxNonceBytes + secretboxMacBytes ≤ p.length := by
  have hs := h.store na env
  obtain ⟨d, hd', hout⟩ := client_outcome na env.returning hs hen
  obtain rfl : d = c := Option.some.inj (hd'.symm.trans hl)
  have hp := recvPacket_length hd
  constructor
  · intro hsafe
    by_contra hnot
    rw [not_or, not_lt, not_le] at hnot
    exact (usernameBufferSize_exact hp hnot.1).mp (hsafe.sizes hnot.1) hnot
  · intro hlen
    have hlong : ¬ ShortName p := by
      rintro ⟨h₁, h₂⟩
      omega
    have hfits : secretboxNonceBytes ≤ p.length →
        usernameBufferSize (p.drop secretboxNonceBytes).length ≤ vectorMaxSize :=
      fun hn => not_lt.mp fun hover => hlong ((usernameBufferSize_overflow hp hn).mp hover)
    -- the event of a packet that does not open is a disconnect
    have hopens : ∀ {q uname}, recvPacket (s.kernel.conns d.session.conn).toServer =
        .done (some q) ch → SealedName na s.groupKey q uname → ¬ Unopenable na s p := by
      intro q uname hq hname hun
      cases hd.symm.trans hq
      rcases hun with hshort | hnone
      · have := hname.long
        omega
      · rw [hname.opens] at hnone
        cases hnone
    refine ⟨fun hn => (usernameBufferSize_exact hp hn).mpr hlong, ?_, ?_⟩
    · intro t ht
      have hret : SendsReturn na env (.client fd) s := by
        by_contra hstop
        obtain ⟨how, u, -, herr, -⟩ := handle_stops hstop
        cases herr.symm.trans ht
      rw [← hret.handle, ht] at hout
      cases hout with
      | tooShort _ _ hq hn hover =>
        cases hd.symm.trans hq
        exact absurd (hfits hn) (not_le.mpr hover)
    · intro hun
      -- to disconnect a client without name, nothing is sent
      have hrefused : ∃ t, handle na env.returning (.client fd) s = .ok () t ∧
          t.kernel.sends = s.kernel.sends ∧ fd ∉ t.clients ∧ t.usernames = s.usernames ∧
          ∀ k, k ≠ fd → t.clients.lookup k = s.clients.lookup k := by
        generalize handle na env.returning (.client fd) s = r at hout
        cases hout with
        | blocked hb => cases hd.symm.trans hb
        | noKey hk' _ _ => rw [hk] at hk'; cases hk'
        | badKey hk' _ _ _ => rw [hk] at hk'; cases hk'
        | keyed hk' _ _ _ _ => rw [hk] at hk'; cases hk'
        | forwarded _ hreg' _ => rw [hreg] at hreg'; cases hreg'
        | tooShort _ _ hq hn hover =>
          cases hd.symm.trans hq
          exact absurd (hfits hn) (not_le.mpr hover)
        | taken _ _ hq hname _ =>
          cases hd.symm.trans hq
          exact absurd hun (hopens hd hname)
        | named _ _ hq hname _ =>
          cases hd.symm.trans hq
          exact absurd hun (hopens hd hname)
        | @rejected pkt ch' n _ hq _ =>
          have halone : Alone fd d.session.conn (s.log (.dispatch d.session.conn))
              ((((s.log (.dispatch d.session.conn)).received fd d pkt ch').touch fd n).dropped
                fd d) := (Alone.received _ d pkt ch' n).trans (Alone.dropped _ d hreg)
          rw [disconnected_unregistered na env.returning _ fd hreg]
          exact ⟨_, rfl, Kernel.close_sends _ fd, notMem_dropped _ fd d, halone.usernames,
            halone.others⟩
      obtain ⟨t, ht, hsends, hgone, hnames, hothers⟩ := hrefused
      have hret : SendsReturn na env (.client fd) s := by
        rw [SendsReturn, stateAfter_eq, ht, resultState, hsends]
        exact Env.SendsReturn.self
      exact ⟨t, hret.handle.trans ht, hgone, hnames, hothers⟩

/-- A packet of one byte: its client is disconnected. -/
theorem name_safe_byte : ∃ s, sampleRun [] (connects 0 5 ++ [.net (.arrive 0 (wire [7]))]) = some s ∧
    NameSafe Sodium.plain (Env.failing []) s 5 [7] := by
  have hrun : (sampleRun [] (connects 0 5 ++ [.net (.arrive 0 (wire [7]))])).map
      (fun s => ((Event.client 5).enabled s, (s.clients.lookup 5).map fun c =>
        (c.keyExchanged, c.registered, decide (recvPacket (s.kernel.conns c.session.conn).toServer =
          .done (some [7]) ⟨[], .alive, []⟩)))) = some (true, some (true, false, true)) := by
    decide +kernel
  obtain ⟨s, hs, heq⟩ := Option.map_eq_some_iff.mp hrun
  rw [Prod.mk.injEq] at heq
  obtain ⟨c, hl, hc⟩ := Option.map_eq_some_iff.mp heq.2
  simp only [Prod.mk.injEq, decide_eq_true_eq] at hc
  exact ⟨s, hs, (name_safe_iff Sodium.plain (Env.failing []) (sampleRun_reach hs) heq.1 hl hc.1
    hc.2.1 hc.2.2).mpr (by decide)⟩

/-- A packet of 24 bytes: a nonce and nothing else. The size of the name wraps, and the
    `std::length_error` leaves the handler. -/
theorem bare_nonce_escapes : ¬ ∀ s, Reach Sodium.plain (Env.failing []) s → ∀ fd c p ch,
    (Event.client fd).enabled s = true → s.clients.lookup fd = some c →
    c.keyExchanged = true → c.registered = false →
    recvPacket (s.kernel.conns c.session.conn).toServer = .done (some p) ch →
    NameSafe Sodium.plain (Env.failing []) s fd p := by
  intro hall
  have hrun : (sampleRun [] (connects 0 5 ++
      [.net (.arrive 0 (wire (List.replicate secretboxNonceBytes 7)))])).map
      (fun s => ((Event.client 5).enabled s, (s.clients.lookup 5).map fun c =>
        (c.keyExchanged, c.registered, decide (recvPacket (s.kernel.conns c.session.conn).toServer =
          .done (some (List.replicate secretboxNonceBytes 7)) ⟨[], .alive, []⟩)),
        (handle Sodium.plain (Env.failing []) (.client 5)).fault s)) =
      some (true, some (true, false, true), some .lengthError) := by decide +kernel
  obtain ⟨s, hs, heq⟩ := Option.map_eq_some_iff.mp hrun
  simp only [Prod.mk.injEq] at heq
  obtain ⟨hen, hc, hres⟩ := heq
  obtain ⟨c, hl, hc⟩ := Option.map_eq_some_iff.mp hc
  simp only [Prod.mk.injEq, decide_eq_true_eq] at hc
  have hsafe := hall s (sampleRun_reach hs) 5 c _ _ hen hl hc.1 hc.2.1 hc.2.2
  obtain ⟨t, hr⟩ := ServerM.fault_eq_some.mp hres
  exact hsafe.returns t hr

end stranger

end CliChat
