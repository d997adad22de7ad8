import CliChat.Server.Serves

/-! @src server/src/server.cpp | name:HandleClientEvent | scheme:handshake

    The server's part of the handshake. What it has sent to a connection begins with the two keys
    (`Opened`); the entry knows the key that the client sent (`KeyState`); an entry whose handshake
    is done stays in the map until another packet comes or the stream ends (`Held`); and a sealed
    name that is free is registered. The first two also hold where a handler is stuck.

        packetsTo    serverPk, groupKey, …          entry    keyExchanged, clientPk
        dialogue     clientPk, name, …                       registered, username       -/

namespace CliChat

open Transition

/-! ### What was sent -/

/-- The packets to `id` begin with the server's key, and the group key boxed for `id`. -/
def Opened (na : Sodium) (s : Server) (id : ConnId) (xs : List (Site × Bytes × Bool)) : Prop :=
  ∃ gk ok ok' rest, GroupKeyBox na s id gk ∧
    xs = (.serverPk, s.serverPk, ok) :: (.groupKey, gk, ok') :: rest

section opened

variable {na : Sodium} {s s' : Server} {id : ConnId} {xs : List (Site × Bytes × Bool)}

/-- One packet is the server's key, and two open. -/
theorem Conforms.opening (h : Conforms na s id xs) :
    xs = [] ∨ (∃ ok, xs = [(.serverPk, s.serverPk, ok)]) ∨ Opened na s id xs := by
  cases h with
  | silent => exact Or.inl rfl
  | greeted => exact Or.inr (Or.inl ⟨_, rfl⟩)
  | keyed hgk => exact Or.inr (Or.inr ⟨_, _, _, [], hgk, rfl⟩)
  | joined hgk _ _ _ => exact Or.inr (Or.inr ⟨_, _, _, _, hgk, rfl⟩)

theorem Refused.opened (h : Refused na s id xs) : Opened na s id xs := by
  cases h with
  | intro hgk _ _ _ => exact ⟨_, _, _, _, hgk, rfl⟩

end opened

/-! ### What the entry knows -/

/-- The flag of the key exchange and the stored key, against the log. -/
structure KeyState (s : Server) (c : ClientInfo) : Prop where
  new : c.keyExchanged = false → packetsTo c.session.conn s.trace = []
  keyed : c.keyExchanged = true → (dialogue c.session.conn s.trace)[0]? = some c.clientPk

section entries

variable {na : Sodium} {env : ReturningEnv} {s s' : Server} {fd : Fd} {c : ClientInfo}
  {pkt : Option Bytes} {r : EStateM.Result Fault Server Unit} {sends : Sends}

theorem Phase.keyState (h : Phase na s c) : KeyState s c := by
  have hkeyed : c.keyExchanged = true → (dialogue c.session.conn s.trace)[0]? = some c.clientPk →
      KeyState s c := by
    intro hk hsaid
    refine ⟨fun hk' => ?_, fun _ => hsaid⟩
    rw [hk] at hk'
    cases hk'
  cases h with
  | new hk _ hto _ =>
    refine ⟨fun _ => hto, fun hk' => ?_⟩
    rw [hk] at hk'
    cases hk'
  | keyed hk _ hsaid => exact hkeyed hk (by rw [hsaid]; rfl)
  | registered hk _ hsaid => exact hkeyed hk (by rw [hsaid]; rfl)

theorem KeyState.extend (h : KeyState s c) {T : List Ev} (htr : s'.trace = s.trace ++ T)
    (hnew : c.keyExchanged = false → packetsTo c.session.conn T = []) : KeyState s' c where
  new hk := by rw [htr, packetsTo_append, h.new hk, hnew hk, List.append_nil]
  keyed hk := getElem?_of_prefix (dialogue_mono (htr ▸ List.prefix_append _ _)) (h.keyed hk)

/-- Where a handler is stuck, the entries are those from before it, and they know their keys. -/
theorem Conversing.stuck (hs : Store s) (h : Conversing na s) {e : Event}
    (hen : e.enabled s = true) {f : Fault} {t : Server} (hr : handle na env e s = .error f t)
    (hf : f ≠ .blocked) : ∀ k d, (stateAfter na env e s).clients.lookup k = some d →
      KeyState (stateAfter na env e s) d := by
  have hafter : stateAfter na env e s = t := by
    rw [stateAfter_eq, hr]
    rfl
  rw [hafter]
  have hok : ∀ t', handle na env e s = .ok () t' → False := by
    intro t' ht'
    rw [hr] at ht'
    cases ht'
  cases e with
  | listener accepts => exact (hok _ rfl).elim
  | net act => exact (hok _ rfl).elim
  | waitFails => exact (hok _ rfl).elim
  | client fd =>
    obtain ⟨c, pkt, sends, hl, -, ht, ⟨T, htr, hto, -⟩, -⟩ := client_talk env hs hen
    rw [hafter] at htr
    rw [hr] at ht
    have htr' : t.trace = s.trace ++ (.dispatch c.session.conn :: T) :=
      htr.trans (List.append_assoc ..)
    have hkey : ∀ k d, s.clients.lookup k = some d →
        (d.keyExchanged = false → sends d.session.conn = []) → KeyState t d := by
      intro k d hd hnew
      refine (h.phases k d hd).keyState.extend htr' fun hk => ?_
      exact (hto _).trans (hnew hk)
    intro k d hd
    cases ht with
    | blocked => exact absurd rfl hf
    | tooShort _ _ hc => exact hkey k d (hc ▸ hd) fun _ => rfl
    | taken hk _ _ _ _ hc _ =>
      refine hkey k d (hc ▸ hd) fun hk' => Sends.only_ne ?_ _
      -- the entry itself has exchanged its keys
      intro hconn
      obtain ⟨-, rfl⟩ := hs.table.conn_inj (hc ▸ hd) hl hconn
      rw [hk] at hk'
      cases hk'

/-- Unregistered entries of others stay where they are. -/
theorem Talk.stays (h : Talk na s fd c pkt r sends) {k : Fd} {d : ClientInfo} (hk : k ≠ fd)
    (hd : s.clients.lookup k = some d) (hreg : d.registered = false) :
    (resultState r).clients.lookup k = some d := by
  cases h with
  | blocked hc => rwa [resultState, hc]
  | noKey _ _ hc => rwa [resultState, hc]
  | tooShort _ _ hc => rwa [resultState, hc]
  | taken _ _ _ _ _ hc => rwa [resultState, hc]
  | forwarded _ hc => rwa [resultState, hc]
  | badKey _ _ hc => rwa [resultState, hc, AList.lookup_erase_ne hk, AList.lookup_replace_ne _ _ hk]
  | keyed _ _ _ _ _ hc => rwa [resultState, hc, AList.lookup_replace_ne _ _ hk]
  | rejected _ _ hc => rwa [resultState, hc, AList.lookup_erase_ne hk]
  | named _ _ _ _ _ hc _ hb hc' =>
    rw [resultState, hc']
    refine (hb.departures.silent k d ?_ hreg).1
    rwa [hc, AList.lookup_replace_ne _ _ hk]
  | left _ _ hc _ hb =>
    refine (hb.departures.silent k d ?_ hreg).1
    rwa [hc, AList.lookup_erase_ne hk]

end entries

/-! ### Who stays in the map -/

/-- While no more than the key of `id` has been read, and its stream lives, its entry stays. -/
def Held (s : Server) : Prop :=
  ∀ id, s.running = true → (s.kernel.conns id).toServer.ending = .alive →
    2 ≤ (packetsTo id s.trace).length → (dialogue id s.trace).length ≤ 1 →
      ∃ fd c, s.clients.lookup fd = some c ∧ c.session.conn = id

section held

variable {na : Sodium} (env : ReturningEnv) {s : Server}

/-- STEP: a client event removes nobody who has only sent a key. -/
theorem Held.client (hs : Store s) (hc : Conversing na s) (h : Held s) {fd : Fd}
    (hen : (Event.client fd).enabled s = true) : Held (stateAfter na env (.client fd) s) := by
  intro id _ halive hlen hshort
  have hst := client_streams na env hs hen
  rw [(hst.read id).ending] at halive
  obtain ⟨c, pkt, sends, hl, hheard, ht, ⟨T, htr, hto, hfrom⟩, -⟩ := client_talk env hs hen
  have hrunning : s.running = true := (enabled_client.mp hen).1
  have htr' : (stateAfter na env (.client fd) s).trace =
      s.trace ++ (.dispatch c.session.conn :: T) := htr.trans (List.append_assoc ..)
  have hpackets : packetsTo id (stateAfter na env (.client fd) s).trace =
      packetsTo id s.trace ++ sends id := by
    rw [htr', packetsTo_append, ← hto]
    rfl
  have hread : packetsFrom id (.dispatch c.session.conn :: T) =
      if id = c.session.conn then pkt.toList else [] := hfrom id
  -- a registered client has sent too much
  have hunnamed : ∀ k d, s.clients.lookup k = some d → d.session.conn = id →
      d.registered = false := by
    rintro k d hd rfl
    by_contra hreg
    have hnamed := (hc.phases k d hd).named (by simpa using hreg)
    have hgrows := (@dialogue_mono d.session.conn _ _
      (htr' ▸ List.prefix_append s.trace _)).length_le
    omega
  rw [hpackets] at hlen
  rw [stateAfter_eq]
  have hl' : (s.log (.dispatch c.session.conn)).clients.lookup fd = some c := hl
  generalize handle na env (.client fd) s = r at hheard ht ⊢
  by_cases hid : id = c.session.conn
  · subst hid
    have hreg := hunnamed fd c hl rfl
    have hphase := hc.phases fd c hl
    rw [if_pos rfl] at hread
    -- whoever has sent a key has not sent another packet
    have hsilent : c.keyExchanged = true → ∀ p, pkt ≠ some p := by
      rintro hk p rfl
      rw [hphase.asks hk hreg htr' hread] at hshort
      simp at hshort
    cases ht with
    | blocked hcl => exact ⟨fd, c, hcl ▸ hl, rfl⟩
    | noKey _ _ hcl => exact ⟨fd, c, hcl ▸ hl, rfl⟩
    | tooShort _ _ hcl => exact ⟨fd, c, hcl ▸ hl, rfl⟩
    | taken _ _ _ _ _ hcl => exact ⟨fd, c, hcl ▸ hl, rfl⟩
    | forwarded _ hcl => exact ⟨fd, c, hcl ▸ hl, rfl⟩
    | badKey hk =>
      rw [hphase.keyState.new hk, Sends.only_self] at hlen
      simp at hlen
    | @keyed pk s' _ _ _ _ _ _ _ _ _ hcl =>
      have hkeyed : s'.clients.lookup fd = some { c with clientPk := pk, keyExchanged := true } := by
        rw [hcl]
        exact AList.lookup_replace_self _ (AList.mem_of_lookup hl)
      exact ⟨fd, _, hkeyed, rfl⟩
    | rejected hk _ _ =>
      rcases hheard with ⟨ch, hd⟩ | ⟨t, hr⟩
      · cases pkt with
        | some p => exact absurd rfl (hsilent hk p)
        | none => exact absurd ((recvPacket_suffix hd).2.trans halive) (recvPacket_none hd).2
      · cases hr
    | named hk => exact absurd rfl (hsilent hk _)
    | left hr => rw [hreg] at hr; cases hr
  · have hnil : sends id = [] := by
      by_contra hsent
      obtain ⟨k, d, hd, hconn⟩ := (ht.others hl' hid).1 hsent
      have hunreg := hunnamed k d hd.1 hconn
      rw [hd.2] at hunreg
      cases hunreg
    rw [hnil, List.append_nil] at hlen
    rw [if_neg hid] at hread
    rw [htr', dialogue_append_quiet hread] at hshort
    obtain ⟨k, d, hd, hconn⟩ := h id hrunning halive hlen hshort
    have hk : k ≠ fd := by
      rintro rfl
      exact hid (by rw [← hconn, Option.some.inj (hd.symm.trans hl)])
    exact ⟨k, d, ht.stays hk hd (hunnamed k d hd hconn), hconn⟩

/-- A stream that lives has lived before. -/
theorem Kernel.net_alive (k : Kernel) (a : NetAct) {id : ConnId}
    (h : ((k.net a).conns id).toServer.ending = .alive) :
    (k.conns id).toServer.ending = .alive := by
  by_cases hid : id = a.conn
  · subst hid
    cases a <;> simp only [Kernel.net, NetAct.conn] at h ⊢ <;> split at h <;> assumption
  · rwa [k.net_conns_ne a hid] at h

/-- Accepting keeps the entries. -/
theorem handleNewConnection_keeps (hs : Store s) (accepts : List AcceptResult) {k : Fd} {d : ClientInfo}
    (hd : s.clients.lookup k = some d) :
    (handleNewConnection accepts s).clients.lookup k = some d := by
  have hloop : Store (handleNewConnection accepts s) ∧
      (handleNewConnection accepts s).clients.lookup k = some d := by
    refine Server.handleNewConnection_invariant
      (I := fun t => Store t ∧ t.clients.lookup k = some d) ?_ ?_ accepts s ⟨hs, hd⟩
    · rintro t fd r ci co ⟨ht, hkeep⟩ hfree
      refine ⟨(ht.admitted hfree r ci co).1, ?_⟩
      rw [ht.lookup_admitted hfree, if_neg ?_]
      · exact hkeep
      · rintro rfl
        rw [ht.lookup_free hfree] at hkeep
        cases hkeep
    · exact fun t fd ci co ⟨ht, hkeep⟩ hfree => ⟨(ht.refused hfree ci co).1, hkeep⟩
  exact hloop.2

/-- STEP: nor does any other event of a running server. -/
theorem Held.event (hs : Store s) (hw : Wired s) (hc : Conversing na s) (h : Held s) {e : Event}
    (hen : e.enabled s = true) : Held (stateAfter na env e s) := by
  cases e with
  | client fd => exact h.client env hs hc hen
  | net act =>
    intro id hrunning halive
    refine h id hrunning ?_
    exact s.kernel.net_alive act halive
  | waitFails =>
    intro id hrunning
    simp only [Event.enabled] at hen
    have hstopped : (stop s).running = false := by
      rw [stop, if_neg (by simp [hen])]
      dsimp only
      split <;> split <;> rfl
    rw [show stateAfter na env .waitFails s = stop s from rfl, hstopped] at hrunning
    cases hrunning
  | listener accepts =>
    intro id _ halive hlen hshort
    obtain ⟨T, hT, hcloses⟩ := handleNewConnection_adds s accepts
    obtain ⟨hto, hfrom⟩ := mute_projections (mute_of_closes hcloses) id
    have hafter : stateAfter na env (.listener accepts) s = handleNewConnection accepts s := rfl
    rw [hafter] at halive hlen hshort ⊢
    rw [hT, packetsTo_append, hto, List.append_nil] at hlen
    rw [hT, dialogue_append_quiet hfrom] at hshort
    rcases (handleNewConnection_conns hw accepts id).2 with hsame | ⟨hid, -⟩
    · rw [hsame] at halive
      obtain ⟨k, d, hd, hconn⟩ := h id hen halive hlen hshort
      exact ⟨k, d, handleNewConnection_keeps hs accepts hd, hconn⟩
    · rw [(hw.fresh id hid).1] at hlen
      simp at hlen

theorem Initial.held (h : Initial s) : Held s := by
  obtain ⟨listenfd, epollfd, pk, sk, gk, -, -, -, -, rfl⟩ := h
  intro id _ _ hlen
  simp [Server.started, packetsTo] at hlen

/-- INVARIANT: in every reachable state. -/
theorem Reach.held (h : Reach na env s) (hseal : Seals na s.groupKey) : Held s :=
  Reach.seals_invariant env (fun _ => Initial.held)
    (fun _ _ hs hw hc hh hen => hh.event env hs hw hc hen) h hseal

end held

/-! ### A name is registered -/

section registers

variable (na : Sodium) (env : ReturningEnv) {s : Server} {fd : Fd} {c : ClientInfo}

/-- What a client seals is a name for the server. -/
theorem SealedBox.sealedName {na : Sodium} {key uname p : Bytes} (hkey : na.SecretboxInverts key)
    (h : SealedBox na key uname (some p)) (hlen : uname.length ≤ vectorMaxSize) :
    SealedName na key p uname := by
  obtain ⟨nonce, hnonce, hp⟩ := h
  obtain ⟨c, hc, rfl⟩ := Option.map_eq_some_iff.mp hp.symm
  have htake : (nonce ++ c).take secretboxNonceBytes = nonce := List.take_left' hnonce
  have hdrop : (nonce ++ c).drop secretboxNonceBytes = c := List.drop_left' hnonce
  refine ⟨?_, ?_, ?_⟩
  · rw [List.length_append, hnonce]
    exact Nat.le_add_right _ _
  · rw [hdrop, hkey.length uname nonce c hc, usernameBufferSize]
    unfold vectorMaxSize at *
    omega
  · rw [htake, hdrop]
    exact hkey.opens uname nonce c hc

/-- A sealed name that is free is registered. The client stays if nothing fails that the handler
    sends to it. -/
theorem registers (hs : Store s) (hseal : Seals na s.groupKey)
    (hen : (Event.client fd).enabled s = true) (hl : s.clients.lookup fd = some c)
    (hk : c.keyExchanged = true) (hreg : c.registered = false) {p uname : Bytes} {ch : Chan}
    (hd : recvPacket (s.kernel.conns c.session.conn).toServer = .done (some p) ch)
    (hname : SealedName na s.groupKey p uname) (hu : uname ∉ s.usernames) :
    ∃ s', step na env (.client fd) s = some s' ∧
      ((∀ x ∈ packetsTo c.session.conn (eventLog na env (.client fd) s), x.2.2 = true) →
        s'.clients.lookup fd = some { c with username := uname, registered := true } ∧
          uname ∈ s'.usernames) := by
  obtain ⟨c', hl', hout⟩ := client_outcome na env hs hen
  obtain rfl : c = c' := Option.some.inj (hl.symm.trans hl')
  set s₀ := s.log (.dispatch c.session.conn) with hs₀
  have hstore : Store s₀ := hs.sendsOnly (SendsOnly.log s _)
  have hd₀ : recvPacket (s₀.kernel.conns c.session.conn).toServer = .done (some p) ch := hd
  -- the packet is read, and it is this name
  have hread : ∀ {pkt ch'}, recvPacket (s₀.kernel.conns c.session.conn).toServer = .done pkt ch' →
      pkt = some p := by
    intro pkt ch' hd'
    rw [hd₀] at hd'
    cases hd'
    rfl
  generalize hr : handle na env (.client fd) s = r at hout
  cases hout with
  | blocked hb => rw [hd₀] at hb; cases hb
  | noKey hk' => rw [hk] at hk'; cases hk'
  | badKey hk' => rw [hk] at hk'; cases hk'
  | keyed hk' => rw [hk] at hk'; cases hk'
  | forwarded _ hreg' => rw [hreg] at hreg'; cases hreg'
  | rejected _ hd' hrej =>
    cases hread hd'
    cases hrej with
    | short _ hlen => exact absurd hname.long (not_le.mpr hlen)
    | unsealed _ _ _ hopen =>
      have hopens := hname.opens
      rw [show s.groupKey = s₀.groupKey from rfl, hopen] at hopens
      cases hopens
  | tooShort _ _ hd' _ hlen =>
    cases hread hd'
    exact absurd hname.fits (not_le.mpr hlen)
  | taken _ _ hd' hname' hu' =>
    cases hread hd'
    obtain rfl := Option.some.inj (hname.opens.symm.trans hname'.opens)
    exact absurd hu' hu
  | @named p' ch' uname' _ _ hd' hname' _ =>
    cases hread hd'
    obtain rfl := Option.some.inj (hname.opens.symm.trans hname'.opens)
    set t := ((s₀.received fd c (some p) ch').touch fd 1).named fd c uname with ht
    have htstore : Store t := ((hstore.received fd c (some p) ch').touch fd 1).named hl hk hreg hu
    obtain ⟨T, rs, hb⟩ := broadcasted_broadcasts na env htstore (connectNotice uname)
    have hstep := (step_some na env).mpr ⟨hen, hr⟩
    refine ⟨_, hstep, fun hok => ?_⟩
    -- the sends of the broadcast are among those of the handler
    obtain ⟨X, hX, -⟩ : Told c (some p) (fun _ => []) s₀ t :=
      ((Told.received s₀ fd c (some p) ch').touch fd 1).mute rfl (by simp [Ev.mute])
    have hlog : eventLog na env (.client fd) s = .dispatch c.session.conn :: (X ++ T ++
        [.access fd ((t.broadcasted na env (connectNotice uname)).clients.lookup fd).isSome]) := by
      refine eventLog_eq na env ?_
      rw [step_stateAfter na env hstep, Server.used_trace, hb.departures.trace, hX]
      simp [s₀]
    have hstays : ⟨fd, { c with username := uname, registered := true }⟩ ∉ rs := by
      intro hgone
      obtain ⟨-, m, hm⟩ := (hb.departures.removed _ _).mp hgone
      obtain ⟨x, hx, hfail⟩ := hb.announces.failed hseal _ m hm
      have hsent : x ∈ packetsTo c.session.conn (eventLog na env (.client fd) s) := by
        rw [hlog, ← List.singleton_append, packetsTo_append, packetsTo_append, packetsTo_append]
        exact List.mem_append_right _ (List.mem_append_left _ (List.mem_append_right _ hx))
      rw [hok x hsent] at hfail
      cases hfail
    have hentry : ((t.broadcasted na env (connectNotice uname)).used fd).clients.lookup fd =
        some { c with username := uname, registered := true } :=
      (hb.departures.left _ _).mpr ⟨AList.lookup_replace_self _ (AList.mem_of_lookup hl), hstays⟩
    exact ⟨hentry, ((hs.step na env hstep).1.names uname).mpr ⟨fd, _, ⟨hentry, rfl⟩, rfl⟩⟩

end registers

end CliChat
