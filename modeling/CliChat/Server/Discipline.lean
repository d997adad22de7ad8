import CliChat.Server.Departures

/-! @src server/src/server.cpp | name:HandleClientEvent, DisconnectClient | scheme:locks and references

    Two disciplines of the handlers, read off the log: `m_clientsMutex` is acquired only while it is
    free, and a reference `ClientInfo&` is used only while its entry is in the map. All ways
    through a handler keep both, with two exceptions, and the results say exactly when these are
    taken: a name that is taken makes the thread wait for itself, and a client that its own
    arrival disconnects is used once more. -/

namespace CliChat

open Transition

/-! ### What a state change adds to the log -/

/-- An acquisition finds the mutex free. -/
def Ev.lockFree : Ev → Bool
  | .lock free => free
  | _ => true

/-- A use of a reference finds its entry. -/
def Ev.live : Ev → Bool
  | .access _ live => live
  | _ => true

/-- The event is not a call of `HandleClientEvent`. -/
def Ev.inner : Ev → Bool
  | .dispatch _ => false
  | _ => true

/-- The log grows by events that satisfy `p`. -/
def Adds (p : Ev → Bool) (s s' : Server) : Prop :=
  ∃ T, s'.trace = s.trace ++ T ∧ ∀ e ∈ T, p e = true

namespace Adds

variable {p : Ev → Bool} {a b c : Server}

theorem of_eq (h : b.trace = a.trace) : Adds p a b :=
  ⟨[], by rw [h, List.append_nil], by simp⟩

theorem trans (h : Adds p a b) (k : Adds p b c) : Adds p a c := by
  obtain ⟨T, hT, hp⟩ := h
  obtain ⟨T', hT', hp'⟩ := k
  refine ⟨T ++ T', by rw [hT', hT, List.append_assoc], ?_⟩
  intro e he
  rcases List.mem_append.mp he with he | he
  · exact hp e he
  · exact hp' e he

theorem mono {q : Ev → Bool} (h : Adds p a b) (hpq : ∀ e, p e = true → q e = true) :
    Adds q a b := by
  obtain ⟨T, hT, hp⟩ := h
  exact ⟨T, hT, fun e he => hpq e (hp e he)⟩

/-- All events of a log satisfy `p` if the old ones do. -/
theorem all (h : Adds p a b) : (∀ e ∈ b.trace, p e = true) ↔ ∀ e ∈ a.trace, p e = true := by
  obtain ⟨T, hT, hp⟩ := h
  rw [hT]
  constructor
  · exact fun h e he => h e (List.mem_append_left _ he)
  · intro h e he
    rcases List.mem_append.mp he with he | he
    · exact h e he
    · exact hp e he

theorem log {e : Ev} (he : p e = true) (s : Server) : Adds p s (s.log e) :=
  ⟨[e], rfl, by simpa using he⟩

/-- One log for a family of properties. -/
theorem uniform {ι : Type} [Inhabited ι] {q : ι → Ev → Bool} (h : ∀ i, Adds (q i) a b) :
    ∃ T, b.trace = a.trace ++ T ∧ ∀ i, ∀ e ∈ T, q i e = true := by
  obtain ⟨T, hT, -⟩ := h default
  refine ⟨T, hT, fun i => ?_⟩
  obtain ⟨T', hT', hq⟩ := h i
  obtain rfl : T = T' := List.append_cancel_left (hT.symm.trans hT')
  exact hq

theorem touch {fd : Fd} (he : p (.access fd true) = true) (s : Server) (n : ℕ) :
    Adds p s (s.touch fd n) := by
  refine ⟨_, rfl, fun e hmem => ?_⟩
  rw [List.eq_of_mem_replicate hmem]
  exact he

theorem received {fd : Fd} {c : ClientInfo} {pkt : Option Bytes} (he : p (.access fd true) = true)
    (hr : p (.recv c.session.conn pkt) = true) (s : Server) (ch : Chan) :
    Adds p s (s.received fd c pkt ch) :=
  (touch he s 3).trans ⟨[.recv c.session.conn pkt], rfl, by simpa using hr⟩

theorem named {fd : Fd} (he : p (.access fd true) = true) (hl : p (.lock true) = true)
    (hu : p .unlock = true) (s : Server) (c : ClientInfo) (uname : Bytes) :
    Adds p s (s.named fd c uname) := ⟨_, rfl, by simp [he, hl, hu]⟩

end Adds

/-- An event inside a handler that keeps both disciplines. -/
def Ev.sound (e : Ev) : Bool := e.lockFree && (e.live && e.inner)

theorem Ev.sound_iff {e : Ev} :
    e.sound = true ↔ e.lockFree = true ∧ e.live = true ∧ e.inner = true := by
  rw [sound, Bool.and_eq_true, Bool.and_eq_true]

/-- A descriptor is closed. -/
def Ev.closes : Ev → Bool
  | .close _ => true
  | _ => false

namespace Adds

variable {s s' : Server}

theorem lockFree (h : Adds Ev.sound s s') : Adds Ev.lockFree s s' :=
  h.mono fun _ he => (Ev.sound_iff.mp he).1

theorem live (h : Adds Ev.sound s s') : Adds Ev.live s s' :=
  h.mono fun _ he => (Ev.sound_iff.mp he).2.1

theorem inner (h : Adds Ev.sound s s') : Adds Ev.inner s s' :=
  h.mono fun _ he => (Ev.sound_iff.mp he).2.2

theorem sound (h : Adds Ev.closes s s') : Adds Ev.sound s s' :=
  h.mono fun e he => by cases e <;> first | rfl | cases he

end Adds

section updates

variable (na : Sodium) (env : ReturningEnv) (s : Server) (fd : Fd) (c : ClientInfo)

theorem touch_adds (n : ℕ) : Adds Ev.sound s (s.touch fd n) := .touch rfl s n

theorem received_adds (pkt : Option Bytes) (ch : Chan) :
    Adds Ev.sound s (s.received fd c pkt ch) := .received rfl rfl s ch

theorem boxEvents_sound (conn : ConnId) (msg : Bytes) (payload : Option Bytes) (ok : Bool) :
    ∀ e ∈ boxEvents conn msg payload ok, e.sound = true := by
  cases payload <;> simp [boxEvents, Ev.sound, Ev.lockFree, Ev.live, Ev.inner]

theorem sendSecretbox_adds (sess : NetworkSession) (msg : Bytes) :
    Adds Ev.sound s (s.sendSecretbox na env sess msg).2 := by
  obtain ⟨-, payload, -, -, htr⟩ := sendSecretbox_spec na env sess msg s
  exact ⟨_, htr, boxEvents_sound _ _ _ _⟩

/-- A thread that waits for itself has used live references only. -/
theorem lockedOut_adds :
    Adds Ev.live s (s.lockedOut na env fd c) ∧ Adds Ev.inner s (s.lockedOut na env fd c) := by
  have hlocked : Adds Ev.sound s s.locked :=
    ⟨[.lock true], rfl, by simp [Ev.sound, Ev.lockFree, Ev.live, Ev.inner]⟩
  have hsent := (hlocked.trans (touch_adds s.locked fd 1)).trans
    (sendSecretbox_adds na env _ c.session (ascii "SERVER::USERNAME_TAKEN"))
  exact ⟨hsent.live.trans (Adds.log (by rfl) _), hsent.inner.trans (Adds.log (by rfl) _)⟩

theorem dropped_adds : Adds Ev.sound s (s.dropped fd c) := by
  refine ⟨dropLog fd c, dropped_log s fd c, ?_⟩
  unfold dropLog
  split <;> simp [Ev.sound, Ev.lockFree, Ev.live, Ev.inner]

theorem send_adds (msg : Bytes) : Adds Ev.sound s ((cascade na env).send msg s).2 := by
  obtain ⟨-, boxes, -, htr⟩ := cascade_send na env msg s
  refine ⟨_, htr, fun e he => ?_⟩
  rcases List.mem_cons.mp he with rfl | he
  · rfl
  · obtain ⟨b, -, he⟩ := List.mem_flatMap.mp he
    exact boxEvents_sound _ _ _ _ e he

theorem broadcasted_adds (msg : Bytes) : Adds Ev.sound s (s.broadcasted na env msg) :=
  broadcasted_relation na env (R := Adds Ev.sound) (fun _ _ _ => Adds.trans)
    (fun m t => send_adds na env t m) (fun t k d _ => dropped_adds t k d) msg s

theorem disconnected_adds : Adds Ev.sound s (s.disconnected na env fd c) := by
  rw [Server.disconnected]
  split
  · exact (dropped_adds s fd c).trans (broadcasted_adds na env _ _)
  · exact dropped_adds s fd c

theorem keyStored_adds (pk : Bytes) : Adds Ev.sound s (s.keyStored env fd c pk) := by
  obtain ⟨ok, htr⟩ := keyStored_trace env s fd c pk
  exact ⟨_, htr, by simp [Ev.sound, Ev.lockFree, Ev.live, Ev.inner]⟩

theorem keyed_adds (payload : Bytes) : Adds Ev.sound s (s.keyed env fd c payload) := by
  obtain ⟨ok, htr⟩ := keyed_trace env s fd c payload
  exact ⟨_, htr, by simp [Ev.sound, Ev.lockFree, Ev.live, Ev.inner]⟩

theorem named_adds (uname : Bytes) : Adds Ev.sound s (s.named fd c uname) :=
  .named rfl rfl rfl s c uname

theorem forwardTo_adds (src : ConnId) (pkt : Bytes) (l : List (Σ _ : Fd, ClientInfo)) :
    Adds Ev.sound s (s.forwardTo env src pkt l) := by
  obtain ⟨-, sent, -, htr⟩ := forwardTo_spec env src pkt l s
  refine ⟨_, htr, fun e he => ?_⟩
  obtain ⟨x, -, rfl⟩ := List.mem_map.mp he
  rfl

theorem handleNewConnection_adds (accepts : List AcceptResult) :
    Adds Ev.closes s (handleNewConnection accepts s) := by
  refine Server.handleNewConnection_invariant (I := Adds Ev.closes s) ?_ ?_ accepts s
    (Adds.of_eq rfl)
  · exact fun t k r ci co h _ => h.trans (Adds.of_eq rfl)
  · exact fun t k ci co h _ => h.trans ⟨[.close k], rfl, by simp [Ev.closes]⟩

theorem stop_adds : Adds Ev.closes s (stop s) := by
  unfold stop
  split
  · exact Adds.of_eq rfl
  · dsimp only
    split <;> split
    · exact (Adds.log (by rfl) s).trans (Adds.log (by rfl) _)
    · exact Adds.log (by rfl) s
    · exact Adds.log (by rfl) s
    · exact Adds.of_eq rfl

end updates

/-! ### The two exceptions -/

/-- The packet `p` at the head of the stream of `c` asks for the name `uname`. -/
structure NamePacket (na : Sodium) (s : Server) (c : ClientInfo) (p : Bytes) (ch : Chan)
    (uname : Bytes) : Prop where
  keyExchanged : c.keyExchanged = true
  unregistered : c.registered = false
  received : CliChat.recvPacket (s.kernel.conns c.session.conn).toServer = .done (some p) ch
  name : SealedName na s.groupKey p uname

/-- The client asks for a name. -/
def AsksFor (na : Sodium) (s : Server) (c : ClientInfo) (uname : Bytes) : Prop :=
  ∃ p ch, NamePacket na s c p ch uname

/-- What the packet of a client opens to, read as a name. -/
def Server.nameRead (na : Sodium) (s : Server) (id : ConnId) : Option Bytes :=
  (CliChat.recvPacket (s.kernel.conns id).toServer).packet.bind fun p =>
    na.secretboxOpenEasy (p.drop secretboxNonceBytes) (p.take secretboxNonceBytes) s.groupKey

theorem AsksFor.nameRead {na : Sodium} {s : Server} {c : ClientInfo} {uname : Bytes}
    (h : AsksFor na s c uname) : s.nameRead na c.session.conn = some uname := by
  obtain ⟨p, ch, hp⟩ := h
  rw [Server.nameRead, hp.received]
  exact hp.name.opens

/-- It asks for one name only. -/
theorem AsksFor.unique {na : Sodium} {s : Server} {c : ClientInfo} {uname uname' : Bytes}
    (h : AsksFor na s c uname) (h' : AsksFor na s c uname') : uname = uname' :=
  Option.some.inj (h.nameRead.symm.trans h'.nameRead)

/-- What a client asks for does not depend on the log. -/
theorem namePacket_log {na : Sodium} {s : Server} {e : Ev} {c : ClientInfo} {p : Bytes} {ch : Chan}
    {uname : Bytes} : NamePacket na (s.log e) c p ch uname ↔ NamePacket na s c p ch uname :=
  ⟨fun h => ⟨h.1, h.2, h.3, h.4⟩, fun h => ⟨h.1, h.2, h.3, h.4⟩⟩

section exceptions

variable (na : Sodium) (env : ReturningEnv) {s : Server} {fd : Fd} {c : ClientInfo}
  {r : EStateM.Result Fault Server Unit}

/-- A client that asks for no name is handled without a breach. -/
theorem Outcome.exceptions (hs : Store s) (hl : s.clients.lookup fd = some c)
    (hout : Outcome na env s fd c r) :
    (∃ p ch uname, NamePacket na s c p ch uname ∧ uname ∈ s.usernames ∧
      r = .error .deadlock (((s.received fd c (some p) ch).touch fd 1).lockedOut na env fd c)) ∨
    (∃ p ch uname, NamePacket na s c p ch uname ∧ uname ∉ s.usernames ∧
      r = .ok () (((((s.received fd c (some p) ch).touch fd 1).named fd c uname).broadcasted na env
        (connectNotice uname)).used fd)) ∨
    ((∀ uname, ¬ AsksFor na s c uname) ∧ Adds Ev.sound s (resultState r) ∧
      (resultState r).clientsMutex = false) := by
  have hrecv : ∀ pkt ch n, Adds Ev.sound s ((s.received fd c pkt ch).touch fd n) :=
    fun pkt ch n => (received_adds s fd c pkt ch).trans (touch_adds _ fd n)
  have hstore : ∀ pkt ch, Store (s.received fd c pkt ch) := hs.received fd c
  have hlook : ∀ pkt ch, (s.received fd c pkt ch).clients.lookup fd = some c := fun _ _ => hl
  have hkey : c.keyExchanged = false → ∀ uname, ¬ AsksFor na s c uname := by
    rintro hk uname ⟨p, ch, hp⟩
    rw [hp.keyExchanged] at hk
    cases hk
  cases hout with
  | blocked hb =>
    refine Or.inr (Or.inr ⟨?_, touch_adds s fd 3, hs.free⟩)
    rintro uname ⟨p, ch, hp⟩
    rw [hp.received] at hb
    cases hb
  | @noKey pkt ch hk hd hlen =>
    exact Or.inr (Or.inr ⟨hkey hk, received_adds s fd c pkt ch, hs.free⟩)
  | @badKey pk ch nonce hk hd hlen hbox =>
    have hlk := keyStored_lookup env (hlook (some pk) ch) pk
    have hst := (hstore (some pk) ch).toReady.keyStored env (hlook (some pk) ch) pk
    exact Or.inr (Or.inr ⟨hkey hk, ((received_adds s fd c _ _).trans
      (keyStored_adds env _ fd c pk)).trans (disconnected_adds na env _ fd _),
      (disconnect_eq na env hst hlk).2.free⟩)
  | @keyed pk ch nonce cipher hk hd hlen hnonce hbox =>
    have hlk := keyStored_lookup env (hlook (some pk) ch) pk
    have hst := ((hstore (some pk) ch).keyStored env (hlook (some pk) ch) pk).1
    exact Or.inr (Or.inr ⟨hkey hk, ((received_adds s fd c _ _).trans
      (keyStored_adds env _ fd c pk)).trans (keyed_adds env _ fd _ _),
      (hst.keyed' env hlk (nonce ++ cipher)).1.free⟩)
  | @rejected pkt ch n hk hd hrej =>
    refine Or.inr (Or.inr ⟨?_, (hrecv pkt ch n).trans (disconnected_adds na env _ fd c),
      (disconnect_eq na env ((hstore pkt ch).touch fd n).toReady (hlook pkt ch)).2.free⟩)
    rintro uname ⟨p, ch', hp⟩
    have hsame := hd.symm.trans hp.received
    cases hsame
    cases hrej with
    | short _ hshort => exact absurd hp.name.long (not_le.mpr hshort)
    | unsealed _ _ _ hopen =>
      rw [hp.name.opens] at hopen
      cases hopen
  | @tooShort p ch hk hreg hd hlong hover =>
    refine Or.inr (Or.inr ⟨?_, hrecv (some p) ch 1, hs.free⟩)
    rintro uname ⟨p', ch', hp⟩
    have hsame := hd.symm.trans hp.received
    cases hsame
    exact absurd hp.name.fits (not_le.mpr hover)
  | @taken p ch uname hk hreg hd hname hu =>
    exact Or.inl ⟨p, ch, uname, ⟨hk, hreg, hd, hname⟩, hu, rfl⟩
  | @named p ch uname hk hreg hd hname hu =>
    exact Or.inr (Or.inl ⟨p, ch, uname, ⟨hk, hreg, hd, hname⟩, hu, rfl⟩)
  | @forwarded p ch hk hreg hd =>
    have hsend := (forwardTo_spec env c.session.conn p s.clients.entries
      ((s.received fd c (some p) ch).touch fd 1)).1
    refine Or.inr (Or.inr ⟨?_, (hrecv (some p) ch 1).trans (forwardTo_adds env _ _ _ _),
      hsend.clientsMutex.trans hs.free⟩)
    rintro uname ⟨p', ch', hp⟩
    rw [hp.unregistered] at hreg
    cases hreg

end exceptions

/-! ### Events -/

section events

variable (na : Sodium) (env : Env) {s s' : Server}

/-- What the handling of an event adds to the log. -/
def eventLog (e : Event) (s : Server) : List Ev :=
  (stateAfter na env e s).trace.drop s.trace.length

theorem eventLog_eq {e : Event} {T : List Ev}
    (h : (stateAfter na env e s).trace = s.trace ++ T) : eventLog na env e s = T := by
  rw [eventLog, h, List.drop_left]

theorem step_stateAfter {e : Event} (h : step na env e s = some s') :
    stateAfter na env e s = s' := by
  rw [stateAfter_eq, ((step_some na env).mp h).2]
  rfl

variable {na env} in
theorem SendsReturn.eventLog {e : Event} (h : SendsReturn na env e s) :
    eventLog na env e s = eventLog na env.returning e s := by
  rw [CliChat.eventLog, CliChat.eventLog, h.stateAfter]

theorem eventLog_begins (e : Event) (s : Server) :
    eventLog na env e s <+: eventLog na env.returning e s :=
  (stateAfter_begins na env e s).drop _

/-- Where a `send` does not return, at least this call is missing in the log. -/
theorem eventLog_stops {e : Event} (h : ¬ SendsReturn na env e s) :
    ∃ ev, eventLog na env e s ++ [ev] <+: eventLog na env.returning e s := by
  obtain ⟨how, t, ev, herr, hgrew, ht⟩ := handle_stops h
  have hdrop := ht.drop s.trace.length
  rw [List.drop_append_of_le_length hgrew.length_le] at hdrop
  refine ⟨ev, ?_⟩
  rw [eventLog, stateAfter_eq na env, herr]
  exact hdrop

/-- An event of no client adds nothing but closed descriptors. -/
theorem other_adds (hs : Store s) {e : Event} (he : ∀ fd, e ≠ .client fd) :
    Adds Ev.closes s (stateAfter na env e s) ∧ (stateAfter na env e s).clientsMutex = false := by
  cases e with
  | listener accepts =>
    exact ⟨handleNewConnection_adds s accepts, (hs.handleNewConnection accepts).1.free⟩
  | client fd => exact absurd rfl (he fd)
  | net act => exact ⟨Adds.of_eq rfl, hs.free⟩
  | waitFails => exact ⟨stop_adds s, hs.stop.1.free⟩

variable (env : ReturningEnv)

/-- An enabled client event is handled by `HandleClientEvent`, and ends in an outcome. -/
theorem client_outcome (hs : Store s) {fd : Fd} (hen : (Event.client fd).enabled s = true) :
    ∃ c, s.clients.lookup fd = some c ∧ Outcome na env (s.log (.dispatch c.session.conn)) fd c
      (handle na env (.client fd) s) := by
  obtain ⟨-, ⟨c, hl⟩, -⟩ := enabled_client.mp hen
  refine ⟨c, hl, ?_⟩
  rw [handle_client na env hl]
  exact handleClientEvent_outcome na env (hs.toReady.sendsOnly (SendsOnly.log s _)) hl

/-- The log of a client event starts with the call of its handler, and holds no other call. -/
theorem client_log (hs : Store s) {fd : Fd} {c : ClientInfo}
    (hen : (Event.client fd).enabled s = true) (hl : s.clients.lookup fd = some c) :
    ∃ T, (stateAfter na env (.client fd) s).trace = s.trace ++ .dispatch c.session.conn :: T ∧
      ∀ e ∈ T, e.inner = true := by
  obtain ⟨d, hd, hout⟩ := client_outcome na env hs hen
  obtain rfl : d = c := Option.some.inj (hd.symm.trans hl)
  have hs' : Store (s.log (.dispatch d.session.conn)) := hs.sendsOnly (SendsOnly.log s _)
  have hadds : Adds Ev.inner (s.log (.dispatch d.session.conn))
      (stateAfter na env (.client fd) s) := by
    rw [stateAfter_eq]
    rcases hout.exceptions na env hs' hl with
      ⟨p, ch, uname, -, -, hr⟩ | ⟨p, ch, uname, -, -, hr⟩ | ⟨-, hadds, -⟩
    · rw [hr]
      exact ((received_adds _ fd d (some p) ch).trans (touch_adds _ fd 1)).inner.trans
        (lockedOut_adds na env _ fd d).2
    · rw [hr]
      exact ((((received_adds _ fd d (some p) ch).trans (touch_adds _ fd 1)).trans
        (named_adds _ fd d uname)).trans (broadcasted_adds na env _ _)).inner.trans
        (Adds.log (by rfl) _)
    · exact hadds.inner
  obtain ⟨T, hT, hp⟩ := hadds
  exact ⟨T, by rw [hT, Server.log_trace, List.append_assoc]; rfl, hp⟩

/-- The log only grows. -/
theorem event_prefix (hs : Store s) {e : Event} (hen : e.enabled s = true) :
    s.trace <+: (stateAfter na env e s).trace := by
  by_cases hclient : ∃ fd, e = .client fd
  · obtain ⟨fd, rfl⟩ := hclient
    obtain ⟨c, hl, -⟩ := client_outcome na env hs hen
    obtain ⟨T, hT, -⟩ := client_log na env hs hen hl
    exact hT ▸ List.prefix_append _ _
  · obtain ⟨⟨T, hT, -⟩, -⟩ := other_adds na env hs fun fd he => hclient ⟨fd, he⟩
    exact hT ▸ List.prefix_append _ _

end events

/-! ### Locks -/

section locks

variable (na : Sodium) (env : ReturningEnv) {s s' : Server}

/-- The mutex was free at each acquisition so far, and is free now. -/
def LockDiscipline (s : Server) : Prop :=
  (∀ e ∈ s.trace, e.lockFree = true) ∧ s.clientsMutex = false

/-- The event is a username packet whose name is in `m_usernames`. -/
def NameTaken (s : Server) (e : Event) : Prop :=
  ∃ fd c uname, e = .client fd ∧ s.clients.lookup fd = some c ∧ AsksFor na s c uname ∧
    uname ∈ s.usernames

/-- STEP: an event keeps the lock discipline, whether its handler returns or not, unless it asks
    for a name that is taken: then its handler waits for a mutex that its own thread holds. -/
theorem event_lockDiscipline (hs : Store s) (hL : LockDiscipline s) {e : Event}
    (hen : e.enabled s = true) :
    (¬ NameTaken na s e ∧ LockDiscipline (stateAfter na env e s)) ∨
    (NameTaken na s e ∧ ¬ LockDiscipline (stateAfter na env e s) ∧
      handle na env e s = .error .deadlock (stateAfter na env e s)) := by
  by_cases hclient : ∃ fd, e = .client fd
  · obtain ⟨fd, rfl⟩ := hclient
    obtain ⟨c, hl, hout⟩ := client_outcome na env hs hen
    have hs' : Store (s.log (.dispatch c.session.conn)) := hs.sendsOnly (SendsOnly.log s _)
    have hlog : Adds Ev.lockFree s (s.log (.dispatch c.session.conn)) := Adds.log (by rfl) s
    rw [stateAfter_eq]
    have hnot : ∀ uname, (AsksFor na s c uname → uname ∉ s.usernames) → AsksFor na s c uname →
        ¬ NameTaken na s (.client fd) := by
      rintro uname hno hasks ⟨k, d, uname', he, hd, hasks', hu⟩
      cases he
      obtain rfl : d = c := Option.some.inj (hd.symm.trans hl)
      rw [hasks'.unique hasks] at hu
      exact hno hasks hu
    rcases hout.exceptions na env hs' hl with
      ⟨p, ch, uname, hp, hu, hr⟩ | ⟨p, ch, uname, hp, hu, hr⟩ | ⟨hno, hadds, hfree⟩
    · refine Or.inr ⟨⟨fd, c, uname, rfl, hl, ⟨p, ch, namePacket_log.mp hp⟩, hu⟩, ?_, ?_⟩
      · rw [hr]
        intro hdisc
        have hfalse := hdisc.1 (.lock false) (by
          rw [resultState, Server.lockedOut, Server.log_trace]
          exact List.mem_append_right _ (List.mem_singleton_self _))
        cases hfalse
      · rw [hr]
        rfl
    · have hstore := (((hs'.received fd c (some p) ch).touch fd 1).named hl hp.keyExchanged
        hp.unregistered hu).broadcasted na env (connectNotice uname)
      refine Or.inl ⟨hnot uname (fun _ => hu) ⟨p, ch, namePacket_log.mp hp⟩, ?_, ?_⟩
      · have hadds : Adds Ev.lockFree s (resultState (handle na env (.client fd) s)) := by
          rw [hr]
          refine (hlog.trans ?_).trans (Adds.log (by rfl) _)
          exact ((((received_adds _ fd c _ _).trans (touch_adds _ fd 1)).trans
            (named_adds _ fd c uname)).trans (broadcasted_adds na env _ _)).lockFree
        exact hadds.all.mpr hL.1
      · rw [hr]
        exact hstore.free
    · refine Or.inl ⟨?_, (hlog.trans hadds.lockFree).all.mpr hL.1, hfree⟩
      rintro ⟨k, d, uname, he, hd, ⟨p, ch, hp⟩, -⟩
      cases he
      obtain rfl : d = c := Option.some.inj (hd.symm.trans hl)
      exact hno uname ⟨p, ch, namePacket_log.mpr hp⟩
  · obtain ⟨hadds, hfree⟩ := other_adds na env hs fun fd he => hclient ⟨fd, he⟩
    refine Or.inl ⟨?_, hadds.sound.lockFree.all.mpr hL.1, hfree⟩
    rintro ⟨fd, c, uname, he, -⟩
    exact hclient ⟨fd, he⟩

theorem Initial.lockDiscipline (h : Initial s) : LockDiscipline s := by
  obtain ⟨l, ep, pk, sk, gk, -, -, -, -, rfl⟩ := h
  exact ⟨by simp [Server.started], rfl⟩

variable (env : Env)

/-- Handlers that return have kept the lock discipline. -/
theorem Reach.lockDiscipline (h : Reach na env s) : LockDiscipline s := by
  have hinv : Store s ∧ LockDiscipline s := by
    refine Reachable.invariant (I := fun s => Store s ∧ LockDiscipline s)
      (fun t ht => ⟨ht.store, ht.lockDiscipline⟩) ?_ h
    rintro e t t' ⟨hs, hL⟩ hstep
    obtain ⟨hret, -⟩ := step_returning hstep
    obtain ⟨hen, hok⟩ := (step_some na env).mp hstep
    refine ⟨(hs.step na env hstep).1, ?_⟩
    rw [← step_stateAfter na env hstep, hret.stateAfter]
    rcases event_lockDiscipline na env.returning hs hL hen with ⟨-, hd⟩ | ⟨-, -, hdead⟩
    · exact hd
    · rw [← hret.handle, hok] at hdead
      cases hdead
  exact hinv.2

/-- LOCKS: in every reachable state the log shows no acquisition of a held mutex. An event keeps it
    so exactly when it does not ask for a name that is taken; if a `send` of its handler does not
    return, the handler has not acquired a held mutex so far. -/
theorem lockDiscipline_iff (h : Reach na env s) :
    LockDiscipline s ∧
    (∀ e, e.enabled s = true → SendsReturn na env e s →
      (LockDiscipline (stateAfter na env e s) ↔ ¬ NameTaken na s e)) ∧
    ∀ e, e.enabled s = true → ¬ NameTaken na s e →
      ∀ ev ∈ (stateAfter na env e s).trace, ev.lockFree = true := by
  have hevent := fun e => event_lockDiscipline na env.returning (h.store na env)
    (h.lockDiscipline na env) (e := e)
  refine ⟨h.lockDiscipline na env, fun e hen hret => ?_, fun e hen hno => ?_⟩
  · rw [hret.stateAfter]
    rcases hevent e hen with ⟨hn, hd⟩ | ⟨hn, hd, -⟩
    · exact ⟨fun _ => hn, fun _ => hd⟩
    · exact ⟨fun hd' => absurd hd' hd, fun hn' => absurd hn hn'⟩
  · rcases hevent e hen with ⟨-, hd⟩ | ⟨hn, -⟩
    · exact fun ev hev => hd.1 ev ((stateAfter_begins na env e s).subset hev)
    · exact absurd hn hno

end locks

/-- A second client asks for a name that is free: the lock is taken and given back. -/
theorem lockDiscipline_second : ∃ s,
    sampleRun [] (joins 0 5 (ascii "al") ++ connects 1 6 ++
      [.net (.arrive 1 (wire (sampleSealed (ascii "bo"))))]) = some s ∧
    ¬ NameTaken Sodium.plain s (.client 6) ∧
    LockDiscipline (stateAfter Sodium.plain (Env.failing []) (.client 6) s) := by
  have hrun : (sampleRun [] (joins 0 5 (ascii "al") ++ connects 1 6 ++
      [.net (.arrive 1 (wire (sampleSealed (ascii "bo"))))])).map
      (fun s => ((Event.client 6).enabled s, s.usernames,
        (s.clients.lookup 6).map (fun c => c.session.conn), s.nameRead Sodium.plain 1)) =
      some (true, {ascii "al"}, some 1, some (ascii "bo")) := by decide +kernel
  obtain ⟨s, hs, heq⟩ := Option.map_eq_some_iff.mp hrun
  simp only [Prod.mk.injEq, Option.map_eq_some_iff] at heq
  obtain ⟨hen, hnames, ⟨c, hl, hconn⟩, hread⟩ := heq
  have hfree : ¬ NameTaken Sodium.plain s (.client 6) := by
    rintro ⟨fd, d, uname, he, hd, hasks, hu⟩
    cases he
    obtain rfl : d = c := Option.some.inj (hd.symm.trans hl)
    have hname := hasks.nameRead
    rw [hconn, hread] at hname
    rw [← Option.some.inj hname, hnames] at hu
    exact absurd hu (by decide)
  exact ⟨s, hs, hfree, ((lockDiscipline_iff Sodium.plain (Env.failing [])
    (sampleRun_reach hs)).2.1 (.client 6) hen .of_failing).mpr hfree⟩

/-- A second client asks for the name of the first: `HandleClientEvent` waits for itself. -/
theorem taken_name_deadlocks : ¬ ∀ s, Reach Sodium.plain (Env.failing []) s →
    ∀ e, e.enabled s = true → LockDiscipline (stateAfter Sodium.plain (Env.failing []) e s) := by
  intro hall
  have hrun : (sampleRun [] (joins 0 5 (ascii "al") ++ connects 1 6 ++
      [.net (.arrive 1 (wire (sampleSealed (ascii "al"))))])).map
      (fun s => ((Event.client 6).enabled s,
        (stateAfter Sodium.plain (Env.failing []) (.client 6) s).trace.all Ev.lockFree)) =
      some (true, false) := by decide +kernel
  obtain ⟨s, hs, heq⟩ := Option.map_eq_some_iff.mp hrun
  rw [Prod.mk.injEq] at heq
  have hfree := List.all_eq_true.mpr (hall s (sampleRun_reach hs) (.client 6) heq.1).1
  rw [heq.2] at hfree
  cases hfree

end CliChat
