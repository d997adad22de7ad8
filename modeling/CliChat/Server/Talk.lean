import CliChat.Server.Wire

/-! @src server/src/server.cpp | name:HandleClientEvent | scheme:case analysis

    What one `HandleClientEvent` reads and what it sends to whom. `Talk` is `Outcome` seen from the
    connections: it has the same cases, with the packet that was read, the packets to every
    connection, and the entries that are left. Results about conversations inspect a `Talk`; they
    look neither at the states on the way nor at the log. -/

namespace CliChat

open Transition

/-- The packets to every connection. -/
abbrev Sends := ConnId → List (Site × Bytes × Bool)

/-- `xs` to `id`, and nothing to the others. -/
def Sends.only (id : ConnId) (xs : List (Site × Bytes × Bool)) : Sends :=
  fun id' => if id' = id then xs else []

@[simp] theorem Sends.only_self (id : ConnId) (xs : List (Site × Bytes × Bool)) :
    Sends.only id xs id = xs := if_pos rfl

theorem Sends.only_ne {id id' : ConnId} (h : id' ≠ id) (xs : List (Site × Bytes × Bool)) :
    Sends.only id xs id' = [] := if_neg h

/-! ### Broadcasts -/

/-- A broadcast of `msg` from `s` to `s'`: its log is `T`, and `rs` left. -/
structure Broadcasts (na : Sodium) (s : Server) (msg : Bytes) (s' : Server) (T : List Ev)
    (rs : List (Σ _ : Fd, ClientInfo)) : Prop where
  departures : Departures s msg s' T rs
  announces : Announces na s s' T
  /-- What a registered client is sent first is the message. -/
  first : ∀ fd c, Registered s fd c → ∃ payload ok rest, SealedBox na s.groupKey msg payload ∧
    packetsTo c.session.conn T =
      (payload.map fun p => (Site.secretbox msg, p, ok)).toList ++ rest

section broadcasts

variable (na : Sodium) (env : ReturningEnv) {s : Server}

theorem broadcasted_first (hs : Store s) (msg : Bytes) :
    ∃ T, (s.broadcasted na env msg).trace = s.trace ++ T ∧
      ∀ fd c, Registered s fd c → ∃ payload ok rest, SealedBox na s.groupKey msg payload ∧
        packetsTo c.session.conn T =
          (payload.map fun p => (Site.secretbox msg, p, ok)).toList ++ rest := by
  obtain ⟨-, boxes, hpass, htr⟩ := cascade_send na env msg s
  have hrest : ((cascade na env).send msg s).2.trace <+: (s.broadcasted na env msg).trace := by
    refine broadcasted_invariant na env
      (I := fun _ t => ((cascade na env).send msg s).2.trace <+: t.trace) (List.prefix_refl _)
      ?_ ?_ ?_
    · exact fun fd rest t h _ => h
    · exact fun fd rest t c h _ _ => h.trans (Shrinks.dropped t fd c).trace
    · exact fun fd rest t c h _ _ => (h.trans (Shrinks.dropped t fd c).trace).trans
        (shrinks_send na env _ _).trace
  obtain ⟨T, hT⟩ := hrest
  refine ⟨.broadcast msg :: boxes.flatMap (Box.events msg) ++ T, ?_, fun fd c hc => ?_⟩
  · rw [← hT, htr, List.append_assoc]
  · obtain ⟨b, hb, hbe⟩ := (mem_boxes hpass).mpr hc
    cases hbe
    refine ⟨b.payload, b.ok, packetsTo b.client.session.conn T, hpass.sealed b hb, ?_⟩
    rw [packetsTo_append, packetsTo_box hs.table hpass hb]

theorem broadcasted_broadcasts (hs : Store s) (msg : Bytes) :
    ∃ T rs, Broadcasts na s msg (s.broadcasted na env msg) T rs := by
  obtain ⟨T, rs, hdep⟩ := broadcasted_departures na env hs msg
  obtain ⟨T', hann⟩ := broadcasted_announces na env msg s
  obtain ⟨T'', htr, hfirst⟩ := broadcasted_first na env hs msg
  obtain rfl : T = T' := List.append_cancel_left (hdep.trace.symm.trans hann.trace)
  obtain rfl : T = T'' := List.append_cancel_left (hdep.trace.symm.trans htr)
  exact ⟨T, rs, hdep, hann, hfirst⟩

/-- The messages of a broadcast are notices, if its own message is one. -/
theorem Broadcasts.notice {na : Sodium} {s s' : Server} {msg : Bytes} {T : List Ev}
    {rs : List (Σ _ : Fd, ClientInfo)} (h : Broadcasts na s msg s' T rs) {id : ConnId}
    {x : Site × Bytes × Bool} (hx : x ∈ packetsTo id T) :
    ∃ m, x.1 = .secretbox m ∧ SealedBox na s.groupKey m (some x.2.1) ∧
      (m = msg ∨ ∃ r ∈ rs, m = disconnectNotice r.2.username) := by
  obtain ⟨-, m, hm, hsite, hsealed⟩ := h.announces.packets id x hx
  refine ⟨m, hsite, hsealed, ?_⟩
  have hdeparts : Ev.broadcast m ∈ T.filter Ev.departs := List.mem_filter.mpr ⟨hm, rfl⟩
  rw [h.departures.announced] at hdeparts
  rcases List.mem_cons.mp hdeparts with heq | hdeparts
  · cases heq
    exact Or.inl rfl
  · obtain ⟨r, hr, heq⟩ := List.mem_flatMap.mp hdeparts
    exact Or.inr ⟨r, hr, by simpa using heq⟩

/-- Who is not registered is sent nothing. -/
theorem Broadcasts.silent {na : Sodium} {s s' : Server} {msg : Bytes} {T : List Ev}
    {rs : List (Σ _ : Fd, ClientInfo)} (h : Broadcasts na s msg s' T rs) {id : ConnId}
    (hid : ∀ fd c, Registered s fd c → c.session.conn ≠ id) : packetsTo id T = [] := by
  refine List.eq_nil_iff_forall_not_mem.mpr fun x hx => ?_
  obtain ⟨⟨fd, c, hc, hconn⟩, -⟩ := h.announces.packets id x hx
  exact hid fd c hc hconn

end broadcasts

/-! ### One handler -/

/-- The ways through `HandleClientEvent` for the entry `c` of `fd`: the packet read, how it ends, and
    the packets to every connection. -/
inductive Talk (na : Sodium) (s : Server) (fd : Fd) (c : ClientInfo) :
    Option Bytes → EStateM.Result Fault Server Unit → Sends → Prop where
  | blocked {s'} : s'.clients = s.clients → Talk na s fd c none (.error .blocked s') fun _ => []
  | noKey {pkt s'} : c.keyExchanged = false → (∀ p ∈ pkt, p.length ≠ boxPublicKeyBytes) →
      s'.clients = s.clients → Talk na s fd c pkt (.ok () s') fun _ => []
  | badKey {pk s' ok} : c.keyExchanged = false → pk.length = boxPublicKeyBytes →
      s'.clients = (s.clients.replace fd { c with clientPk := pk }).erase fd →
      Talk na s fd c (some pk) (.ok () s')
        (Sends.only c.session.conn [(.serverPk, s.serverPk, ok)])
  | keyed {pk s' nonce cipher ok ok'} : c.keyExchanged = false → c.registered = false →
      pk.length = boxPublicKeyBytes → nonce.length = boxNonceBytes →
      na.boxEasy s.groupKey nonce pk s.serverSk = some cipher →
      s'.clients = s.clients.replace fd { c with clientPk := pk, keyExchanged := true } →
      Talk na s fd c (some pk) (.ok () s') (Sends.only c.session.conn
        [(.serverPk, s.serverPk, ok), (.groupKey, nonce ++ cipher, ok')])
  /-- An unregistered client is disconnected. -/
  | rejected {pkt s'} : c.keyExchanged = true → c.registered = false →
      s'.clients = s.clients.erase fd → Talk na s fd c pkt (.ok () s') fun _ => []
  | tooShort {p s'} : c.keyExchanged = true → c.registered = false → s'.clients = s.clients →
      Talk na s fd c (some p) (.error .lengthError s') fun _ => []
  | taken {p s' uname payload ok} : c.keyExchanged = true → c.registered = false →
      SealedName na s.groupKey p uname → uname ∈ s.usernames →
      SealedBox na s.groupKey (ascii "SERVER::USERNAME_TAKEN") payload →
      s'.clients = s.clients → s'.usernames = s.usernames →
      Talk na s fd c (some p) (.error .deadlock s') (Sends.only c.session.conn
        (payload.map fun q => (Site.secretbox (ascii "SERVER::USERNAME_TAKEN"), q, ok)).toList)
  | named {p t s' uname T rs} : c.keyExchanged = true → c.registered = false →
      SealedName na s.groupKey p uname → uname ∉ s.usernames → Store t →
      t.clients = s.clients.replace fd { c with username := uname, registered := true } →
      t.groupKey = s.groupKey →
      Broadcasts na t (connectNotice uname) s' T rs →
      ∀ {s''}, s''.clients = s'.clients →
      Talk na s fd c (some p) (.ok () s'') fun id => packetsTo id T
  /-- A registered client has left. -/
  | left {t s' T rs} : c.registered = true → Store t → t.clients = s.clients.erase fd →
      t.groupKey = s.groupKey →
      Broadcasts na t (disconnectNotice c.username) s' T rs →
      Talk na s fd c none (.ok () s') fun id => packetsTo id T
  | forwarded {p s' sends} : c.registered = true → s'.clients = s.clients →
      (∀ k d, Registered s k d → ∃ ok, sends d.session.conn = [(.forward c.session.conn, p, ok)]) →
      (∀ id, (∀ k d, Registered s k d → d.session.conn ≠ id) → sends id = []) →
      Talk na s fd c (some p) (.ok () s') sends

/-- `RecvPacket` on the session of `c` returns `pkt`. -/
def Hears (s : Server) (c : ClientInfo) (pkt : Option Bytes) : Prop :=
  ∃ ch, recvPacket (s.kernel.conns c.session.conn).toServer = .done pkt ch

/-- The log from `s` to `s'` tells of these sends, and of `pkt` from `c` as the only packet read. -/
def Told (c : ClientInfo) (pkt : Option Bytes) (sends : Sends) (s s' : Server) : Prop :=
  ∃ T, s'.trace = s.trace ++ T ∧ (∀ id, packetsTo id T = sends id) ∧
    ∀ id, packetsFrom id T = if id = c.session.conn then pkt.toList else []

/-- Log entries that are neither sends nor receipts. -/
def Ev.mute (e : Ev) : Bool :=
  match e with
  | .send .. => false
  | .recv .. => false
  | _ => true

theorem mute_projections {T : List Ev} (h : ∀ e ∈ T, e.mute = true) (id : ConnId) :
    packetsTo id T = [] ∧ packetsFrom id T = [] := by
  refine ⟨packetsTo_eq_nil id fun e he => ?_, packetsFrom_eq_nil id fun e he => ?_⟩
  · have hm := h e he
    cases e <;> first | rfl | cases hm
  · have hm := h e he
    cases e <;> first | rfl | cases hm

namespace Told

variable {c : ClientInfo} {pkt : Option Bytes} {f : Sends} {a b d : Server} {T : List Ev}

/-- More is sent. -/
theorem sent (h : Told c pkt f a b) (htr : d.trace = b.trace ++ T)
    (hfrom : ∀ id, packetsFrom id T = []) {g : Sends} (hto : ∀ id, f id ++ packetsTo id T = g id) :
    Told c pkt g a d := by
  obtain ⟨T₀, hT₀, hsent, hread⟩ := h
  refine ⟨T₀ ++ T, by rw [htr, hT₀, List.append_assoc], fun id => ?_, fun id => ?_⟩
  · rw [packetsTo_append, hsent, hto]
  · rw [packetsFrom_append, hread, hfrom, List.append_nil]

theorem mute (h : Told c pkt f a b) (htr : d.trace = b.trace ++ T)
    (hT : ∀ e ∈ T, e.mute = true) : Told c pkt f a d :=
  h.sent htr (fun id => (mute_projections hT id).2) fun id => by
    rw [(mute_projections hT id).1, List.append_nil]

theorem received (s : Server) (fd : Fd) (c : ClientInfo) (pkt : Option Bytes) (ch : Chan) :
    Told c pkt (fun _ => []) s (s.received fd c pkt ch) := by
  refine ⟨List.replicate 3 (.access fd true) ++ [.recv c.session.conn pkt],
    by simp [Server.received], fun id => packetsTo_eq_nil id (by simp [Ev.packetTo]), fun id => ?_⟩
  rw [packetsFrom_append, packetsFrom_eq_nil id (by simp [Ev.packetFrom]), List.nil_append]
  cases pkt with
  | none => simp [packetsFrom, Ev.packetFrom]
  | some p =>
    by_cases h : id = c.session.conn
    · simp [packetsFrom, Ev.packetFrom, h]
    · have hne : ¬ c.session.conn = id := fun h' => h h'.symm
      simp [packetsFrom, Ev.packetFrom, h, hne]

theorem touch (h : Told c pkt f a b) (fd : Fd) (n : ℕ) : Told c pkt f a (b.touch fd n) :=
  h.mute rfl fun e he => by rw [List.eq_of_mem_replicate he]; rfl

theorem dropped (h : Told c pkt f a b) (fd : Fd) (c' : ClientInfo) :
    Told c pkt f a (b.dropped fd c') := by
  refine h.mute (dropped_log b fd c') ?_
  unfold dropLog
  split <;> simp [Ev.mute]

theorem keyStored (env : ReturningEnv) (h : Told c pkt (fun _ => []) a b) (fd : Fd) (pk : Bytes) :
    ∃ ok, Told c pkt (Sends.only c.session.conn [(.serverPk, b.serverPk, ok)]) a
      (b.keyStored env fd c pk) := by
  obtain ⟨ok, htr⟩ := keyStored_trace env b fd c pk
  refine ⟨ok, h.sent htr (fun id => by simp [packetsFrom, Ev.packetFrom]) fun id => ?_⟩
  by_cases hid : id = c.session.conn
  · subst hid
    simp [packetsTo, Ev.packetTo, Sends.only, List.filterMap_cons]
  · have hne : ¬ c.session.conn = id := fun h' => hid h'.symm
    simp [packetsTo, Ev.packetTo, Sends.only, hid, hne]

end Told

section talk

variable (na : Sodium) (env : ReturningEnv) {s : Server} {fd : Fd} {c : ClientInfo}
  {r : EStateM.Result Fault Server Unit}

/-- The entries after the key exchange. -/
theorem keyed_clients (s : Server) (fd : Fd) (c : ClientInfo) (pk payload : Bytes) :
    ((s.keyStored env fd c pk).keyed env fd { c with clientPk := pk } payload).clients =
      s.clients.replace fd { c with clientPk := pk, keyExchanged := true } := by
  rw [Server.keyed, Server.write_clients, (Server.sendPacket_sendsOnly env _ _ _ _).clients,
    Server.touch_clients, (keyStored_sendsOnly env s fd c pk).clients, Server.write_clients,
    AList.replace_replace]

theorem packetsTo_sends (site : Site) (p : Bytes) (id : ConnId) :
    ∀ sent : List (ClientInfo × Bool),
      packetsTo id (sent.map fun x => .send x.1.session.conn site p x.2) =
        sent.flatMap fun x => if x.1.session.conn = id then [(site, p, x.2)] else []
  | [] => rfl
  | x :: sent => by
    rw [List.map_cons, List.flatMap_cons, ← packetsTo_sends site p id sent]
    by_cases h : x.1.session.conn = id <;> simp [packetsTo, Ev.packetTo, h]

/-- The entries that are sent a forward: those of the registered clients. -/
theorem mem_sent_iff {sent : List (ClientInfo × Bool)}
    (hsent : sent.map Prod.fst = (s.clients.entries.filter fun e => e.2.registered).map Sigma.snd)
    {d : ClientInfo} : d ∈ sent.map Prod.fst ↔ ∃ k, Registered s k d := by
  rw [hsent]
  constructor
  · intro hd
    obtain ⟨⟨k, d⟩, he, rfl⟩ := List.mem_map.mp hd
    obtain ⟨he, hreg⟩ := List.mem_filter.mp he
    exact ⟨k, AList.lookup_of_mem_entries he, hreg⟩
  · rintro ⟨k, hd, hreg⟩
    have hmem : (⟨k, d⟩ : Σ _ : Fd, ClientInfo) ∈ s.clients.entries.filter fun e => e.2.registered :=
      List.mem_filter.mpr ⟨AList.mem_entries_of_lookup hd, hreg⟩
    exact List.mem_map.mpr ⟨⟨k, d⟩, hmem, rfl⟩

/-- No two of them share a connection. -/
theorem sent_conns_nodup (hs : Table s) {sent : List (ClientInfo × Bool)}
    (hsent : sent.map Prod.fst = (s.clients.entries.filter fun e => e.2.registered).map Sigma.snd) :
    (sent.map fun x => x.1.session.conn).Nodup := by
  have hconns : sent.map (fun x => x.1.session.conn) =
      (s.clients.entries.filter fun e => e.2.registered).map fun e => e.2.session.conn := by
    have hmap := congrArg (List.map fun d : ClientInfo => d.session.conn) hsent
    rwa [List.map_map, List.map_map] at hmap
  rw [hconns]
  exact registered_conns_nodup hs

/-- A forward sends once to each of these. -/
theorem packetsTo_sent (hs : Table s) {sent : List (ClientInfo × Bool)}
    (hsent : sent.map Prod.fst = (s.clients.entries.filter fun e => e.2.registered).map Sigma.snd)
    (site : Site) (p : Bytes) {x : ClientInfo × Bool} (hx : x ∈ sent) :
    packetsTo x.1.session.conn (sent.map fun x => .send x.1.session.conn site p x.2) =
      [(site, p, x.2)] := by
  rw [packetsTo_sends]
  exact flatMap_select (fun x : ClientInfo × Bool => x.1.session.conn)
    (fun x => [(site, p, x.2)]) (sent_conns_nodup hs hsent) hx

/-- A forward sends to every registered client once, and to nobody else. -/
theorem packetsTo_forward (hs : Table s) {sent : List (ClientInfo × Bool)}
    (hsent : sent.map Prod.fst = (s.clients.entries.filter fun e => e.2.registered).map Sigma.snd)
    (site : Site) (p : Bytes) :
    (∀ k d, Registered s k d → ∃ ok, packetsTo d.session.conn
        (sent.map fun x => .send x.1.session.conn site p x.2) = [(site, p, ok)]) ∧
      ∀ id, (∀ k d, Registered s k d → d.session.conn ≠ id) →
        packetsTo id (sent.map fun x => .send x.1.session.conn site p x.2) = [] := by
  refine ⟨fun k d hd => ?_, fun id hid => ?_⟩
  · obtain ⟨x, hx, rfl⟩ := List.mem_map.mp ((mem_sent_iff hsent).mpr ⟨k, hd⟩)
    exact ⟨x.2, packetsTo_sent hs hsent site p hx⟩
  · rw [packetsTo_sends]
    refine List.flatMap_eq_nil_iff.mpr fun x hx => if_neg ?_
    obtain ⟨k, hd⟩ := (mem_sent_iff hsent).mp (List.mem_map_of_mem hx)
    exact hid k x.1 hd

/-- COMPLETE: every way through the handler is a `Talk` that the log tells. -/
theorem Outcome.talk (hs : Store s) (hl : s.clients.lookup fd = some c)
    (hout : Outcome na env s fd c r) :
    ∃ pkt sends, (Hears s c pkt ∨ ∃ t, r = .error .blocked t) ∧ Talk na s fd c pkt r sends ∧
      Told c pkt sends s (resultState r) := by
  have hrecv : ∀ pkt ch n, Told c pkt (fun _ => []) s ((s.received fd c pkt ch).touch fd n) :=
    fun pkt ch n => (Told.received s fd c pkt ch).touch fd n
  have hstore : ∀ pkt ch n, Store ((s.received fd c pkt ch).touch fd n) :=
    fun pkt ch n => (hs.received fd c pkt ch).touch fd n
  cases hout with
  | blocked hb =>
    refine ⟨none, _, Or.inr ⟨_, rfl⟩, .blocked rfl, List.replicate 3 (.access fd true), rfl,
      fun id => ?_, fun id => ?_⟩
    · exact packetsTo_eq_nil id (by simp [Ev.packetTo])
    · rw [packetsFrom_eq_nil id (by simp [Ev.packetFrom])]
      simp
  | @noKey pkt ch hk hd hlen =>
    exact ⟨pkt, _, Or.inl ⟨ch, hd⟩, .noKey hk hlen rfl, Told.received s fd c pkt ch⟩
  | @badKey pk ch nonce hk hd hlen hbox =>
    have hreg : ({ c with clientPk := pk } : ClientInfo).registered = false :=
      (hs.unregistered hl hk :)
    obtain ⟨ok, htold⟩ := (Told.received s fd c (some pk) ch).keyStored env fd pk
    have hdrop : ((s.received fd c (some pk) ch).keyStored env fd c pk).disconnected na env fd
        { c with clientPk := pk } = ((s.received fd c (some pk) ch).keyStored env fd c pk).dropped fd
          { c with clientPk := pk } := by
      rw [Server.disconnected, if_neg (by rw [hreg]; exact Bool.false_ne_true)]
    rw [hdrop]
    refine ⟨some pk, Sends.only c.session.conn [(.serverPk, s.serverPk, ok)], Or.inl ⟨ch, hd⟩,
      .badKey hk hlen ?_, htold.dropped fd _⟩
    rw [Server.dropped_clients, (keyStored_sendsOnly env _ fd c pk).clients]
    rfl
  | @keyed pk ch nonce cipher hk hd hlen hnonce hbox =>
    obtain ⟨ok, htold⟩ := (Told.received s fd c (some pk) ch).keyStored env fd pk
    obtain ⟨ok', htr⟩ := keyed_trace env ((s.received fd c (some pk) ch).keyStored env fd c pk) fd
      { c with clientPk := pk } (nonce ++ cipher)
    refine ⟨some pk, Sends.only c.session.conn
      [(.serverPk, s.serverPk, ok), (.groupKey, nonce ++ cipher, ok')], Or.inl ⟨ch, hd⟩,
      .keyed hk (hs.unregistered hl hk) hlen hnonce hbox
      (keyed_clients env (s.received fd c (some pk) ch) fd c pk (nonce ++ cipher)),
      htold.sent htr (fun id => by simp [packetsFrom, Ev.packetFrom]) fun id => ?_⟩
    by_cases hid : id = c.session.conn
    · subst hid
      simp [packetsTo, Ev.packetTo, Sends.only, List.filterMap_cons, Server.received]
    · have hne : ¬ c.session.conn = id := fun h' => hid h'.symm
      simp [packetsTo, Ev.packetTo, Sends.only, hid, hne]
  | @rejected pkt ch n hk hd hrej =>
    by_cases hreg : c.registered = true
    · cases hrej with
      | short hr => rw [hreg] at hr; cases hr
      | unsealed hr => rw [hreg] at hr; cases hr
      | closed =>
        have hst : Store (((s.received fd c none ch).touch fd 0).dropped fd c) :=
          (hstore none ch 0).dropped hl
        obtain ⟨T, rs, hb⟩ := broadcasted_broadcasts na env hst (disconnectNotice c.username)
        rw [Server.disconnected, if_pos hreg]
        refine ⟨none, _, Or.inl ⟨ch, hd⟩, .left hreg hst rfl rfl hb, ?_⟩
        exact ((hrecv none ch 0).dropped fd c).sent hb.departures.trace hb.announces.reads
          fun _ => rfl
    · have hreg' : c.registered = false := by simpa using hreg
      rw [Server.disconnected, if_neg hreg]
      exact ⟨pkt, _, Or.inl ⟨ch, hd⟩, .rejected hk hreg' rfl, (hrecv pkt ch n).dropped fd c⟩
  | @tooShort p ch hk hreg hd _ _ =>
    exact ⟨some p, _, Or.inl ⟨ch, hd⟩, .tooShort hk hreg rfl, hrecv (some p) ch 1⟩
  | @taken p ch uname hk hreg hd hname hu =>
    obtain ⟨hsend, payload, hsealed, -, htr⟩ := sendSecretbox_spec na env c.session
      (ascii "SERVER::USERNAME_TAKEN")
      (((s.received fd c (some p) ch).touch fd 1).locked.touch fd 1)
    have hlocked : Told c (some p) (fun _ => []) s
        (((s.received fd c (some p) ch).touch fd 1).locked.touch fd 1) :=
      ((hrecv (some p) ch 1).mute (T := [.lock true]) rfl (by simp [Ev.mute])).touch fd 1
    set told := ((((s.received fd c (some p) ch).touch fd 1).locked.touch fd 1).sendSecretbox na env
      c.session (ascii "SERVER::USERNAME_TAKEN")).1
    refine ⟨some p, Sends.only c.session.conn (payload.map fun q =>
        (Site.secretbox (ascii "SERVER::USERNAME_TAKEN"), q, told)).toList, Or.inl ⟨ch, hd⟩,
      .taken hk hreg hname hu hsealed hsend.clients hsend.usernames,
      (hlocked.sent htr (fun id => ?_) fun id => ?_).mute (T := [.lock false]) rfl
        (by simp [Ev.mute])⟩
    · cases payload <;> simp [boxEvents, packetsFrom, Ev.packetFrom]
    · rw [List.nil_append, packetsTo_boxEvents]
      by_cases hid : id = c.session.conn
      · rw [if_pos hid.symm, hid, Sends.only_self]
      · rw [if_neg fun h' => hid h'.symm, Sends.only_ne hid]
  | @named p ch uname hk hreg hd hname hu =>
    have hst : Store (((s.received fd c (some p) ch).touch fd 1).named fd c uname) :=
      (hstore (some p) ch 1).named hl hk hreg hu
    obtain ⟨T, rs, hb⟩ := broadcasted_broadcasts na env hst (connectNotice uname)
    refine ⟨some p, _, Or.inl ⟨ch, hd⟩, .named hk hreg hname hu hst rfl rfl hb (by rfl), ?_⟩
    have hnamed : Told c (some p) (fun _ => []) s
        (((s.received fd c (some p) ch).touch fd 1).named fd c uname) :=
      (hrecv (some p) ch 1).mute rfl (by simp [Ev.mute])
    exact (hnamed.sent hb.departures.trace hb.announces.reads fun _ => rfl).mute
      (T := [.access fd _]) rfl (by simp [Ev.mute])
  | @forwarded p ch hk hreg hd =>
    obtain ⟨hsend, sent, hsent, htr⟩ := forwardTo_spec env c.session.conn p s.clients.entries
      ((s.received fd c (some p) ch).touch fd 1)
    obtain ⟨hto, hnot⟩ := packetsTo_forward hs.table hsent (.forward c.session.conn) p
    refine ⟨some p, fun id => packetsTo id (sent.map fun x => .send x.1.session.conn
      (.forward c.session.conn) p x.2), Or.inl ⟨ch, hd⟩, .forwarded hreg hsend.clients hto hnot,
      (hrecv (some p) ch 1).sent htr (fun id => ?_) fun _ => rfl⟩
    refine packetsFrom_eq_nil id fun e he => ?_
    obtain ⟨x, -, rfl⟩ := List.mem_map.mp he
    rfl

end talk

end CliChat
