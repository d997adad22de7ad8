import CliChat.Server.Discipline

/-! @src server/src/server.cpp | name:HandleClientEvent | scheme:rule of composition

    A handler is a sequence of parts: a packet is received, a key stored, a name taken, a message
    broadcast. `Outcome.relation` says once how a property of the whole follows: a transitive
    relation that each part respects relates the two ends of every way through the handler, also of
    the ways that get stuck.

        received ─┬──────────────────────────────▶ noKey
                  ├─ keyStored ─┬─ disconnected ──▶ badKey
                  │             └─ keyed ─────────▶ keyed
                  ├─ disconnected ────────────────▶ rejected
                  ├─ lockedOut ───────────────────▶ taken
                  ├─ named ─ broadcasted ─ used ──▶ named
                  └─ forwardTo ───────────────────▶ forwarded -/

namespace CliChat

variable (na : Sodium) (env : ReturningEnv)

/-- `R` is transitive, and relates the two ends of each part of a handler. -/
structure HandlerParts (R : Server → Server → Prop) : Prop where
  trans : ∀ {a b c}, R a b → R b c → R a c
  touch : ∀ s fd n, R s (s.touch fd n)
  received : ∀ {s fd c}, Store s → s.clients.lookup fd = some c → ∀ {pkt ch},
    CliChat.recvPacket (s.kernel.conns c.session.conn).toServer = .done pkt ch →
    R s (s.received fd c pkt ch)
  keyStored : ∀ {s fd c}, Store s → s.clients.lookup fd = some c → c.keyExchanged = false →
    ∀ pk, R s (s.keyStored env fd c pk)
  keyed : ∀ {s fd c}, Store s → s.clients.lookup fd = some c → c.keyExchanged = false →
    ∀ payload, R s (s.keyed env fd c payload)
  lockedOut : ∀ {s fd c}, Store s → s.clients.lookup fd = some c → c.registered = false →
    R s (s.lockedOut na env fd c)
  named : ∀ {s fd c}, Store s → s.clients.lookup fd = some c → c.keyExchanged = true →
    c.registered = false → ∀ {uname}, uname ∉ s.usernames → R s (s.named fd c uname)
  used : ∀ s fd, R s (s.used fd)
  dropped : ∀ {s fd c}, Store s → s.clients.lookup fd = some c → R s (s.dropped fd c)
  broadcasted : ∀ {s}, Store s → ∀ msg, R s (s.broadcasted na env msg)
  forwardTo : ∀ {s}, Store s → ∀ src pkt, R s (s.forwardTo env src pkt s.clients.entries)

section relation

variable {na env} {R : Server → Server → Prop} {s : Server} {fd : Fd} {c : ClientInfo}
  {r : EStateM.Result Fault Server Unit}

/-- A disconnect is a drop, and for a registered client a broadcast. -/
theorem HandlerParts.disconnected (hR : HandlerParts na env R) (hs : Store s)
    (hl : s.clients.lookup fd = some c) : R s (s.disconnected na env fd c) := by
  rw [Server.disconnected]
  split
  · exact hR.trans (hR.dropped hs hl) (hR.broadcasted (hs.dropped hl) _)
  · exact hR.dropped hs hl

/-- RULE: what the parts respect, the handler respects. -/
theorem Outcome.relation (hR : HandlerParts na env R) (hs : Store s)
    (hl : s.clients.lookup fd = some c) (hout : Outcome na env s fd c r) :
    R s (resultState r) := by
  have hstore : ∀ pkt ch, Store (s.received fd c pkt ch) := hs.received fd c
  have hlook : ∀ pkt ch, (s.received fd c pkt ch).clients.lookup fd = some c := fun _ _ => hl
  -- the state in which a packet of a client with keys is looked at
  have hrecv : ∀ {pkt ch}, CliChat.recvPacket (s.kernel.conns c.session.conn).toServer =
      .done pkt ch → ∀ n, R s ((s.received fd c pkt ch).touch fd n) :=
    fun hd n => hR.trans (hR.received hs hl hd) (hR.touch _ fd n)
  cases hout with
  | blocked => exact hR.touch s fd 3
  | noKey _ hd => exact hR.received hs hl hd
  | @badKey pk ch nonce hk hd =>
    have hkey := ((hstore (some pk) ch).keyStored env (hlook (some pk) ch) pk).1
    exact hR.trans (hR.trans (hR.received hs hl hd) (hR.keyStored (hstore _ _) (hlook _ _) hk pk))
      (hR.disconnected hkey (keyStored_lookup env (hlook (some pk) ch) pk))
  | @keyed pk ch nonce cipher hk hd =>
    have hkey := ((hstore (some pk) ch).keyStored env (hlook (some pk) ch) pk).1
    exact hR.trans (hR.trans (hR.received hs hl hd) (hR.keyStored (hstore _ _) (hlook _ _) hk pk))
      (hR.keyed hkey (keyStored_lookup env (hlook (some pk) ch) pk) hk (nonce ++ cipher))
  | @rejected pkt ch n hk hd =>
    exact hR.trans (hrecv hd n) (hR.disconnected ((hstore pkt ch).touch fd n) (hlook pkt ch))
  | tooShort _ _ hd => exact hrecv hd 1
  | @taken p ch uname hk hreg hd =>
    exact hR.trans (hrecv hd 1)
      (hR.lockedOut ((hstore (some p) ch).touch fd 1) (hlook (some p) ch) hreg)
  | @named p ch uname hk hreg hd _ hu =>
    have hs₁ := (hstore (some p) ch).touch fd 1
    have hs₂ := hs₁.named (hlook (some p) ch) hk hreg hu
    exact hR.trans (hR.trans (hR.trans (hrecv hd 1) (hR.named hs₁ (hlook (some p) ch) hk hreg hu))
      (hR.broadcasted hs₂ _)) (hR.used _ fd)
  | @forwarded p ch hk hreg hd =>
    exact hR.trans (hrecv hd 1) (hR.forwardTo ((hstore (some p) ch).touch fd 1) _ p)

end relation

end CliChat
