import CliChat.Server.Handshake
import CliChat.System.Streams

/-! @src client/src/client.cpp, server/src/server.cpp | name:Start, HandleClientEvent | scheme:agreement

    The handshake, from both ends. A client that is asked for its name holds the server's key and
    the group key, and its entry in the server's map holds the client's key, whatever happens on
    other connections in between. The next packet that the server reads from it is its name, and
    it is registered under that name if nobody holds it.

        client   key ──▶   ◀── serverPk, groupKey    name ──▶
        server                keyExchanged             registered                         -/

namespace CliChat

open Framing Transition

/-! ### The server, wherever it stands -/

section served

variable {na : Sodium} {env : ReturningEnv} {σ : System}

/-- The server's key keeps its size. -/
theorem Reach.serverPk_length {s : Server} (h : Reach na env s) :
    s.serverPk.length = boxPublicKeyBytes := by
  have hinv : Store s ∧ s.serverPk.length = boxPublicKeyBytes := by
    refine Reachable.invariant (I := fun s => Store s ∧ s.serverPk.length = boxPublicKeyBytes)
      (fun s hs => ⟨hs.store, ?_⟩) ?_ h
    · obtain ⟨listenfd, epollfd, pk, sk, gk, -, -, -, hpk, rfl⟩ := hs
      exact hpk
    · rintro e s s' ⟨hs, hpk⟩ hstep
      have hkeys : SameKeys s (stateAfter na env e s) :=
        event_sameKeys env hs ((step_some na env).mp hstep).1
      rw [step_stateAfter na env hstep] at hkeys
      exact ⟨(hs.step na env hstep).1, hkeys.serverPk ▸ hpk⟩
  exact hinv.2

theorem Served.serverPk_length (h : Served na env σ) :
    σ.server.serverPk.length = boxPublicKeyBytes := by
  refine h.elim (P := fun s => s.serverPk.length = boxPublicKeyBytes)
    (fun s hs => hs.serverPk_length) fun s e f t hs hen _ _ => ?_
  have hkeys : SameKeys s (stateAfter na env e s) := event_sameKeys env (hs.store na env) hen
  rw [hkeys.serverPk]
  exact hs.serverPk_length

/-- The keys are the same where the server is stuck. -/
theorem event_groupKey {s : Server} (h : Reach na env s) {e : Event} (hen : e.enabled s = true) :
    (stateAfter na env e s).groupKey = s.groupKey := by
  have hkeys : SameKeys s (stateAfter na env e s) := event_sameKeys env (h.store na env) hen
  exact hkeys.groupKey

/-- Every connection is in its protocol, or its name was refused. -/
theorem Served.conforms (h : Served na env σ) (hseal : Seals na σ.server.groupKey) (id : ConnId) :
    Conforms na σ.server id (packetsTo id σ.server.trace) ∨
      Refused na σ.server id (packetsTo id σ.server.trace) := by
  refine h.elim (P := fun s => Seals na s.groupKey → Conforms na s id (packetsTo id s.trace) ∨
    Refused na s id (packetsTo id s.trace)) (fun s hs hseal => ?_)
    (fun s e f t hs hen _ _ hseal => ?_) hseal
  · exact Or.inl ((protocol_conformance env hs hseal).1 id)
  · rw [event_groupKey hs hen] at hseal
    exact ((protocol_conformance env hs hseal).2.1 e hen (env.sendsReturn _ _) id).imp_right
      And.right

/-- The entries know the keys of their clients. -/
theorem Served.keyState (h : Served na env σ) (hseal : Seals na σ.server.groupKey) {fd : Fd}
    {c : ClientInfo} (hl : σ.server.clients.lookup fd = some c) : KeyState σ.server c := by
  refine h.elim (P := fun s => Seals na s.groupKey → ∀ k d, s.clients.lookup k = some d →
    KeyState s d) (fun s hs hseal k d hd => ?_) (fun s e f t hs hen hr hf hseal => ?_) hseal fd c hl
  · exact (((hs.conversing env).2.2 hseal).phases k d hd).keyState
  · rw [event_groupKey hs hen] at hseal
    obtain ⟨hst, -, hconv⟩ := hs.conversing env
    exact (hconv hseal).stuck hst hen hr hf

/-- Nobody loses its entry who has only sent its key. -/
theorem Served.held (h : Served na env σ) (hseal : Seals na σ.server.groupKey) :
    Held σ.server := by
  refine h.elim (P := fun s => Seals na s.groupKey → Held s) (fun s hs => hs.held env)
    (fun s e f t hs hen _ _ hseal => ?_) hseal
  rw [event_groupKey hs hen] at hseal
  obtain ⟨hst, hw, hconv⟩ := hs.conversing env
  exact (hs.held env hseal).event env hst hw (hconv hseal) hen

end served

/-! ### What an honest client and the server agree on -/

section agreement

variable {na : Sodium} {env : ReturningEnv} {honest : ConnId → Bool} {σ : System} {id : ConnId}

/-- The first packet that is read of an honest client is its key, so it is all dialogue. -/
theorem Sound.key_heard (hσ : Sound na env honest σ) (hid : honest id = true)
    (hup : ∀ y ∈ (σ.client id).sent.take 1, Whole y) :
    dialogue id σ.server.trace = σ.heardFrom id ∧ (σ.heardFrom id = [] ∨
      ∃ rest, σ.heardFrom id = (σ.client id).clientPk :: rest) := by
  have hfirst := hσ.heardFirst id hid 1 hup
  rcases hheard : σ.heardFrom id with _ | ⟨p, rest⟩
  · have hnil : packetsFrom id σ.server.trace = [] := hheard
    refine ⟨?_, Or.inl rfl⟩
    rw [dialogue, hnil]
    rfl
  · have hvoice := (hσ.sane id hid).voice
    rw [hheard] at hfirst
    have hstage : (σ.client id).stage ≠ .connected := by
      intro hstage
      rw [hvoice.mute hstage] at hfirst
      simp at hfirst
    obtain ⟨hlen, ok, more, hsent⟩ := hvoice.opening hstage
    rw [hsent, List.map_cons, List.take_succ_cons, List.take_zero] at hfirst
    obtain rfl : p = (σ.client id).clientPk := (List.cons_prefix_cons.mp hfirst).1
    have hpackets : packetsFrom id σ.server.trace = (σ.client id).clientPk :: rest := hheard
    refine ⟨?_, Or.inr ⟨rest, rfl⟩⟩
    rw [dialogue, hpackets, List.dropWhile_cons_of_neg (by simp [hlen])]

/-- The group key that is sent to an honest client is boxed for it. -/
theorem Sound.groupKeyBox (hσ : Sound na env honest σ) (hid : honest id = true)
    (hup : ∀ y ∈ (σ.client id).sent.take 1, Whole y) {gk : Bytes}
    (h : GroupKeyBox na σ.server id gk) : ∃ nonce cipher : Bytes, nonce.length = boxNonceBytes ∧
      na.boxEasy σ.server.groupKey nonce (σ.client id).clientPk σ.server.serverSk = some cipher ∧
      gk = nonce ++ cipher := by
  obtain ⟨pk, nonce, cipher, hpk, hnonce, hbox, rfl⟩ := h
  obtain ⟨hdialogue, hheard⟩ := hσ.key_heard hid hup
  rw [hdialogue] at hpk
  rcases hheard with hnil | ⟨rest, hcons⟩
  · rw [hnil] at hpk
    cases hpk
  · rw [hcons] at hpk
    cases hpk
    exact ⟨nonce, cipher, hnonce, hbox, rfl⟩

/-- The key of a client fits a frame. -/
theorem Sound.key_whole (hσ : Sound na env honest σ) (hid : honest id = true)
    (hok : ∀ y ∈ (σ.client id).sent.take 1, y.2 = true) :
    ∀ y ∈ (σ.client id).sent.take 1, Whole y := by
  have hvoice := (hσ.sane id hid).voice
  intro y hy
  have hstage : (σ.client id).stage ≠ .connected := by
    intro hstage
    rw [hvoice.mute hstage] at hy
    cases hy
  obtain ⟨hlen, ok, more, hsent⟩ := hvoice.opening hstage
  refine ⟨hok y hy, ?_⟩
  rw [hsent, List.take_succ_cons, List.take_zero, List.mem_singleton] at hy
  rw [hy, hlen]
  decide

/-- So do the two keys of the server. -/
theorem Sound.greeting_whole (hσ : Sound na env honest σ) (hid : honest id = true)
    (hseal : Seals na σ.server.groupKey) (hbox : na.BoxInverts σ.server.serverPk σ.server.serverSk
      (σ.client id).clientPk (σ.client id).clientSk)
    (hkey : σ.server.groupKey.length = secretboxKeyBytes)
    (hup : ∀ y ∈ (σ.client id).sent.take 1, Whole y)
    (hok : ∀ y ∈ (σ.sentTo id).take 2, y.2 = true) : ∀ y ∈ (σ.sentTo id).take 2, Whole y := by
  have hpk : σ.server.serverPk.length < 2 ^ 32 := by
    rw [hσ.served.serverPk_length]
    decide
  have hopened : Opened na σ.server id (packetsTo id σ.server.trace) →
      ∀ y ∈ (σ.sentTo id).take 2, Whole y := by
    rintro ⟨gk, ok, ok', rest, hgk, hsent⟩ y hy
    obtain ⟨nonce, cipher, hnonce, hcipher, rfl⟩ := hσ.groupKeyBox hid hup hgk
    refine ⟨hok y hy, ?_⟩
    rw [System.sentTo, hsent] at hy
    simp only [List.map_cons, List.take_succ_cons, List.take_zero, List.mem_cons,
      List.not_mem_nil, or_false] at hy
    rcases hy with rfl | rfl
    · exact hpk
    · dsimp only
      rw [List.length_append, hnonce, hbox.length _ _ _ hcipher, hkey]
      decide
  rcases hσ.served.conforms hseal id with hc | hr
  · rcases hc.opening with hnil | ⟨ok, hone⟩ | ho
    · intro y hy
      rw [System.sentTo, hnil] at hy
      cases hy
    · intro y hy
      refine ⟨hok y hy, ?_⟩
      rw [System.sentTo, hone] at hy
      simp only [List.map_cons, List.map_nil, List.take_succ_cons, List.take_nil,
        List.mem_singleton] at hy
      rw [hy]
      exact hpk
    · exact hopened ho
  · exact hopened hr.opened

/-- What the client holds after the handshake. -/
structure Agrees (σ : System) (id : ConnId) : Prop where
  serverPk : (σ.client id).serverPk = σ.server.serverPk
  groupKey : (σ.client id).groupKey = σ.server.groupKey

/-- A client past its handshake has read what the server opened with. -/
theorem Sound.opened (hσ : Sound na env honest σ) (hid : honest id = true)
    (hseal : Seals na σ.server.groupKey)
    (hstage : (σ.client id).stage = .promptsUsername ∨ (σ.client id).stage = .started)
    (hdown : ∀ y ∈ (σ.sentTo id).take 2, Whole y) :
    ∃ gk ok ok' rest, GroupKeyBox na σ.server id gk ∧ packetsTo id σ.server.trace =
        (.serverPk, σ.server.serverPk, ok) :: (.groupKey, gk, ok') :: rest ∧
      (σ.client id).taken = σ.server.serverPk :: gk :: (σ.client id).inbox.map Prod.fst ∧
      (σ.client id).serverPk = σ.server.serverPk ∧
      na.boxOpenEasy (gk.drop boxNonceBytes) (gk.take boxNonceBytes) σ.server.serverPk
        (σ.client id).clientSk = some (σ.client id).groupKey := by
  obtain ⟨k, g, htaken, hpk, hopen⟩ := (hσ.sane id hid).ear.tuned hstage
  have hfirst := hσ.takenFirst id hid 2 hdown
  rw [htaken, List.take_succ_cons, List.take_succ_cons, List.take_zero] at hfirst
  have hlen : 2 ≤ (packetsTo id σ.server.trace).length := by
    simpa [System.sentTo] using hfirst.length_le
  -- two packets open the conversation
  have hopened : Opened na σ.server id (packetsTo id σ.server.trace) := by
    rcases hσ.served.conforms hseal id with hc | hr
    · rcases hc.opening with hnil | ⟨ok, hone⟩ | ho
      · rw [hnil] at hlen
        simp at hlen
      · rw [hone] at hlen
        simp at hlen
      · exact ho
    · exact hr.opened
  obtain ⟨gk, ok, ok', rest, hgk, hsent⟩ := hopened
  rw [System.sentTo, hsent] at hfirst
  simp only [List.map_cons, List.cons_prefix_cons] at hfirst
  obtain ⟨rfl, rfl, -⟩ := hfirst
  have hserver : (σ.client id).serverPk = σ.server.serverPk := by
    rw [hpk, List.take_of_length_le hσ.served.serverPk_length.le]
  rw [hserver] at hopen
  exact ⟨g, ok, ok', rest, hgk, hsent, htaken, hserver, hopen⟩

/-- Who was sent the group key has been heard. -/
theorem GroupKeyBox.heard {gk : Bytes} (h : GroupKeyBox na σ.server id gk) :
    1 ≤ (σ.heardFrom id).length := by
  obtain ⟨pk, _, _, hpk, -⟩ := h
  have hlt := (List.getElem?_eq_some_iff.mp hpk).1
  have hle : (dialogue id σ.server.trace).length ≤ (σ.heardFrom id).length :=
    dialogue_length_le _ _
  omega

/-- AGREEMENT: the client has the server's keys, and the server has read the client's. -/
theorem Sound.agrees (hσ : Sound na env honest σ) (hid : honest id = true)
    (hseal : Seals na σ.server.groupKey) (hbox : na.BoxInverts σ.server.serverPk σ.server.serverSk
      (σ.client id).clientPk (σ.client id).clientSk)
    (hstage : (σ.client id).stage = .promptsUsername ∨ (σ.client id).stage = .started)
    (hup : ∀ y ∈ (σ.client id).sent.take 1, Whole y) (hdown : ∀ y ∈ (σ.sentTo id).take 2, Whole y) :
    Agrees σ id ∧ 2 ≤ (packetsTo id σ.server.trace).length ∧
      ∃ rest, σ.heardFrom id = (σ.client id).clientPk :: rest := by
  obtain ⟨gk, ok, ok', rest, hgk, hsent, -, hserver, hopen⟩ := hσ.opened hid hseal hstage hdown
  obtain ⟨nonce, cipher, hnonce, hcipher, rfl⟩ := hσ.groupKeyBox hid hup hgk
  rw [List.drop_left' hnonce, List.take_left' hnonce] at hopen
  have hgroup := hbox.opens _ _ _ hcipher
  rw [hopen] at hgroup
  refine ⟨⟨hserver, Option.some.inj hgroup⟩, by rw [hsent]; simp, ?_⟩
  refine (hσ.key_heard hid hup).2.resolve_left fun hnil => ?_
  have hheard := hgk.heard
  rw [hnil] at hheard
  simp at hheard

/-- The second packet of a client that has started is its name. -/
theorem Sound.name_sent (hσ : Sound na env honest σ) (hid : honest id = true)
    (hseal : Seals na (σ.client id).groupKey) (hstage : (σ.client id).stage = .started) :
    ∃ ok q ok' rest, (σ.client id).sent = ((σ.client id).clientPk, ok) :: (q, ok') :: rest ∧
      SealedBox na (σ.client id).groupKey (σ.client id).username (some q) := by
  have hvoice := (hσ.sane id hid).voice
  obtain ⟨-, ok, more, hsent⟩ := hvoice.opening (by rw [hstage]; decide)
  obtain ⟨ok', said, hnamed⟩ := hvoice.named hstage
  have hsealed := hvoice.sealed hseal
  rw [hnamed, hsent, List.tail_cons] at hsealed
  obtain ⟨y, rest, ⟨hbox, heq⟩, -, rfl⟩ := List.forall₂_cons_left_iff.mp hsealed
  exact ⟨ok, y.1, y.2, rest, hsent, hbox⟩

/-- The key and the name of a client fit a frame. -/
theorem Sound.name_whole (hσ : Sound na env honest σ) (hid : honest id = true)
    (hseal : Seals na (σ.client id).groupKey)
    (hsecret : na.SecretboxInverts (σ.client id).groupKey)
    (hstage : (σ.client id).stage = .promptsUsername ∨ (σ.client id).stage = .started)
    (hok : ∀ y ∈ (σ.client id).sent.take 2, y.2 = true) :
    ∀ y ∈ (σ.client id).sent.take 2, Whole y := by
  have hvoice := (hσ.sane id hid).voice
  have hfirst := hσ.key_whole hid fun y hy =>
    hok y ((List.take_prefix_take_left (by omega)).subset hy)
  rcases hstage with hstage | hstage
  · obtain ⟨-, ok, more, hsent⟩ := hvoice.opening (by rw [hstage]; decide)
    have hnil := (hvoice.unsaid (by rw [hstage]; decide) (by rw [hstage]; decide)).2
    rw [hsent, List.tail_cons] at hnil
    rw [hsent, hnil] at hfirst ⊢
    exact hfirst
  · obtain ⟨ok, q, ok', rest, hsent, hbox⟩ := hσ.name_sent hid hseal hstage
    intro y hy
    refine ⟨hok y hy, ?_⟩
    rw [hsent] at hy hfirst
    simp only [List.take_succ_cons, List.take_zero, List.mem_cons, List.not_mem_nil,
      or_false] at hy
    rcases hy with rfl | rfl
    · exact (hfirst _ (by simp)).2
    · have hsized := hvoice.sized hstage
      unfold maxUsernameLen at hsized
      dsimp only
      rw [hbox.length hsecret, secretboxNonceBytes, secretboxMacBytes]
      omega

/-- The packet that the server reads of a client that is keyed and not registered is its name. -/
theorem Sound.name_read (hσ : Sound na env honest σ) (hid : honest id = true)
    (hseal : Seals na (σ.client id).groupKey) (hstage : (σ.client id).stage = .started)
    (hup : ∀ y ∈ (σ.client id).sent.take 2, Whole y)
    (hheard : σ.heardFrom id = [(σ.client id).clientPk]) {p : Bytes} {ch : Chan}
    (hrecv : recvPacket (σ.conn id).toServer = .done (some p) ch) :
    SealedBox na (σ.client id).groupKey (σ.client id).username (some p) := by
  obtain ⟨ok, q, ok', rest, hsent, hbox⟩ := hσ.name_sent hid hseal hstage
  have hpipe := (hσ.up id hid fun y hy => hup y (by
    rw [hheard] at hy
    exact (List.take_prefix_take_left (by simp)).subset hy)).pipe
  rcases hpipe with hdrained | hpipe
  · cases recvPacket_drained hrecv hdrained
  · have hnext := (hpipe.packet hrecv (by rw [hheard]; exact hup)).read
    rw [hheard, hsent] at hnext
    simp only [List.map_cons, List.cons_append, List.nil_append, List.cons_prefix_cons] at hnext
    rw [hnext.2.1]
    exact hbox

end agreement

/-! ### The handshake -/

section handshake

variable {na : Sodium} {env : Env} {utf8 : Bytes → Bool} {honest : ConnId → Bool} {σ : System}

/-- The turn of a client whose name is read next ends if its sends return, and a free name is then
    registered. -/
theorem registers_next (hst : Store σ.server) (hseal : Seals na σ.server.groupKey)
    (hrun : σ.halted = false) {fd : Fd} {c : ClientInfo}
    (hen : (Event.client fd).enabled σ.server = true) (hl : σ.server.clients.lookup fd = some c)
    (hk : c.keyExchanged = true) (hreg : c.registered = false) {p uname : Bytes} {ch : Chan}
    (hrecv : recvPacket (σ.conn c.session.conn).toServer = .done (some p) ch)
    (hname : SealedName na σ.server.groupKey p uname) (hu : uname ∉ σ.server.usernames) :
    ((∃ σ', systemStep na env utf8 honest (.server (.client fd)) σ = some σ') ↔
      SendsReturn na env (.client fd) σ.server) ∧
    ∀ σ', systemStep na env utf8 honest (.server (.client fd)) σ = some σ' →
      σ'.halted = false ∧ ((∀ y ∈ σ'.sentTo c.session.conn, y.2 = true) →
        σ'.server.clients.lookup fd = some { c with username := uname, registered := true } ∧
        uname ∈ σ'.server.usernames) := by
  obtain ⟨s', hstep, hregistered⟩ := registers na env.returning hst hseal hen hl hk hreg hrecv
    hname hu
  obtain ⟨-, hr⟩ := (step_some na env.returning).mp hstep
  have htaken : systemStep na env.returning utf8 honest (.server (.client fd)) σ =
      some { σ with server := s' } := by
    simp only [systemStep, System.serverStep, Event.foreign, if_true]
    rw [if_pos ⟨hrun, hen⟩, hr]
  refine ⟨⟨?_, fun hret => ⟨{ σ with server := s' }, ?_⟩⟩, fun σ' hσ' => ?_⟩
  · rintro ⟨σ', hσ'⟩
    simp only [systemStep, Option.ite_none_right_eq_some] at hσ'
    exact (serverStep_returning hσ'.2).1
  · simp only [systemStep, System.serverStep, Event.foreign, if_true]
    rw [if_pos ⟨hrun, hen⟩, hret.handle, hr]
  · cases (systemStep_returning hσ').symm.trans htaken
    refine ⟨hrun, fun hok => hregistered fun x hx => ?_⟩
    have htrace := (client_streams na env.returning hst hen).trace
    rw [step_stateAfter na env.returning hstep] at htrace
    refine hok x.2 (List.mem_map_of_mem ?_)
    rw [htrace, packetsTo_append]
    exact List.mem_append_right _ hx

/-- HANDSHAKE: a client that has reached its prompt, or gone on, holds the server's keys. Its entry
    is keyed and holds its key, and is there while the server runs, the stream lives and nothing
    more was read. The next packet read of it is its name, and a free name is registered when the
    handler has returned, which it does if its sends do. -/
theorem handshake_agreement (h : SystemReach na env utf8 honest σ) (id : ConnId)
    (hid : honest id = true) (hseal : Seals na σ.server.groupKey)
    (hsecret : na.SecretboxInverts σ.server.groupKey)
    (hbox : na.BoxInverts σ.server.serverPk σ.server.serverSk (σ.client id).clientPk
      (σ.client id).clientSk)
    (hkey : σ.server.groupKey.length = secretboxKeyBytes)
    (hstage : (σ.client id).stage = .promptsUsername ∨ (σ.client id).stage = .started)
    (hup : ∀ y ∈ (σ.client id).sent.take 2, y.2 = true)
    (hdown : ∀ y ∈ (σ.sentTo id).take 2, y.2 = true) :
    Agrees σ id ∧
    (∀ fd c, σ.server.clients.lookup fd = some c → c.session.conn = id →
      c.keyExchanged = true ∧ c.clientPk = (σ.client id).clientPk) ∧
    (((σ.client id).stage = .started → (σ.heardFrom id).length ≤ 1) → σ.server.running = true →
      (σ.conn id).toServer.ending = .alive →
      ∃ fd c, σ.server.clients.lookup fd = some c ∧ c.session.conn = id) ∧
    ((σ.client id).stage = .started → σ.halted = false → σ.server.running = true →
      ∀ fd c p ch, σ.server.clients.lookup fd = some c → c.session.conn = id →
      c.registered = false → recvPacket (σ.conn id).toServer = .done (some p) ch →
      SealedBox na σ.server.groupKey (σ.client id).username (some p) ∧
      ((σ.client id).username ∉ σ.server.usernames →
        ((∃ σ', systemStep na env utf8 honest (.server (.client fd)) σ = some σ') ↔
          SendsReturn na env (.client fd) σ.server) ∧
        ∀ σ', systemStep na env utf8 honest (.server (.client fd)) σ = some σ' →
          σ'.halted = false ∧ ((∀ y ∈ σ'.sentTo id, y.2 = true) →
            σ'.server.clients.lookup fd =
              some { c with username := (σ.client id).username, registered := true } ∧
            (σ.client id).username ∈ σ'.server.usernames))) := by
  have hσ := h.sound
  have hfirst := hσ.key_whole hid fun y hy =>
    hup y ((List.take_prefix_take_left (by omega)).subset hy)
  have hgreeting := hσ.greeting_whole hid hseal hbox hkey hfirst hdown
  obtain ⟨hagrees, hlen, rest, hheard⟩ := hσ.agrees hid hseal hbox hstage hfirst hgreeting
  have hdialogue := (hσ.key_heard hid hfirst).1
  have hwhole := hσ.name_whole hid (hagrees.groupKey ▸ hseal) (hagrees.groupKey ▸ hsecret) hstage hup
  have hentry : ∀ fd c, σ.server.clients.lookup fd = some c → c.session.conn = id →
      c.keyExchanged = true ∧ c.clientPk = (σ.client id).clientPk := by
    rintro fd c hl rfl
    have hstate := hσ.served.keyState hseal hl
    have hk : c.keyExchanged = true := by
      by_contra hk
      rw [hstate.new (by simpa using hk)] at hlen
      simp at hlen
    have hpk := hstate.keyed hk
    rw [hdialogue, hheard] at hpk
    exact ⟨hk, (Option.some.inj hpk).symm⟩
  refine ⟨hagrees, hentry, fun hshort hrunning halive => ?_, ?_⟩
  · refine hσ.served.held hseal id hrunning halive hlen ?_
    rw [hdialogue]
    rcases hstage with hstage | hstage
    · -- at the prompt the client has sent nothing else
      have hvoice := (hσ.sane id hid).voice
      have htail := (hvoice.unsaid (by rw [hstage]; decide) (by rw [hstage]; decide)).2
      have hread := (hσ.heardFirst id hid 2 hwhole).length_le
      rw [List.length_take, List.length_map] at hread
      have hone : (σ.client id).sent.length ≤ 1 := by
        rw [← Nat.sub_eq_zero_iff_le, ← List.length_tail, htail]
        rfl
      omega
    · exact hshort hstage
  · intro hstart hrun hrunning fd c p ch hl hconn hreg hrecv
    obtain ⟨hk, -⟩ := hentry fd c hl hconn
    have hreach := hσ.served.reached hrun
    obtain ⟨hst, -, hconv⟩ := hreach.conversing env.returning
    have hheard' : σ.heardFrom id = [(σ.client id).clientPk] := by
      subst hconn
      have hpk := (hentry fd c hl rfl).2
      cases (hconv hseal).phases fd c hl with
      | new hk' => rw [hk] at hk'; cases hk'
      | registered _ hr => rw [hreg] at hr; cases hr
      | keyed _ _ hsaid => rw [← hdialogue, hsaid, hpk]
    have hname := hσ.name_read hid (hagrees.groupKey ▸ hseal) hstart hwhole hheard' hrecv
    rw [hagrees.groupKey] at hname
    refine ⟨hname, fun hu => ?_⟩
    have hlen' : (σ.client id).username.length ≤ vectorMaxSize :=
      ((hσ.sane id hid).voice.sized hstart).trans (by decide)
    have hen : (Event.client fd).enabled σ.server = true := by
      have hlisten := (hreach.matched na env.returning hrunning).listen
      have hmem : fd ∈ σ.server.clients := AList.mem_of_lookup hl
      have hfd : fd ≠ σ.server.listenfd := fun heq => hlisten (heq ▸ hmem)
      exact enabled_client.mpr ⟨hrunning, ⟨_, hl⟩, hfd⟩
    subst hconn
    exact registers_next hst hseal hrun hen hl hk hreg hrecv (hname.sealedName hsecret hlen') hu

end handshake

/-- One client has joined, and the name of a second has arrived: it agrees with the server, and is
    registered. -/
theorem handshake_agreement_second : ∃ σ σ',
    sampleSystemRun (fun _ => true) (enters 0 5 (ascii "al") ++ prompts 1 6 ++
      [naming 1 (ascii "bo"), .arrives 1 1000]) = some σ ∧ Agrees σ 1 ∧
    systemStep Sodium.plain (Env.failing []) (fun _ => true) (fun _ => true)
      (.server (.client 6)) σ = some σ' ∧ ascii "bo" ∈ σ'.server.usernames := by
  have hrun : ((sampleSystemRun (fun _ => true) (enters 0 5 (ascii "al") ++ prompts 1 6 ++
      [naming 1 (ascii "bo"), .arrives 1 1000])).any fun σ =>
        (systemStep Sodium.plain (Env.failing []) (fun _ => true) (fun _ => true)
          (.server (.client 6)) σ).any fun σ' =>
        decide (((σ.client 1).stage = .started ∧ (σ.client 1).username = ascii "bo" ∧
          (σ.client 1).clientSk = (σ.client 1).clientPk ∧ σ.server.serverSk = σ.server.serverPk ∧
          σ.server.groupKey.length = secretboxKeyBytes) ∧
          ((σ.client 1).sent.map Prod.snd = [true, true] ∧
            (σ.sentTo 1).map Prod.snd = [true, true] ∧
            (σ'.sentTo 1).map Prod.snd = [true, true, true]) ∧
          (σ.halted = false ∧ σ.server.running = true ∧ σ.server.usernames = {ascii "al"}) ∧
          (σ.server.clients.lookup 6).map (fun c => (c.session.conn, c.registered)) =
            some (1, false) ∧
          (recvPacket (σ.conn 1).toServer).packet.isSome = true)) = true := by
    decide +kernel
  obtain ⟨σ, hσ, hrest⟩ := (Option.any_eq_true _ _).mp hrun
  obtain ⟨σ', hσ', heq⟩ := (Option.any_eq_true _ _).mp hrest
  obtain ⟨⟨hstage, hname, hsk, hserverSk, hgroup⟩, ⟨hsent, hsentTo, hsentTo'⟩,
    ⟨hhalt, hrunning, hnames⟩, hentry, hread⟩ := of_decide_eq_true heq
  obtain ⟨c, hl, hc⟩ := Option.map_eq_some_iff.mp hentry
  rw [Prod.mk.injEq] at hc
  have hall : ∀ {xs : List (Bytes × Bool)} {n : ℕ}, xs.map Prod.snd = List.replicate n true →
      ∀ y ∈ xs, y.2 = true := fun h y hy =>
    List.eq_of_mem_replicate (h ▸ List.mem_map_of_mem (f := Prod.snd) hy)
  obtain ⟨hagrees, -, -, hnext⟩ := handshake_agreement (sampleSystemRun_reach hσ) 1 rfl
    (fun _ _ => rfl) (Sodium.plain_secretboxInverts _)
    (by rw [hserverSk, hsk]; exact Sodium.plain_boxInverts _ _) hgroup (Or.inr hstage)
    (fun y hy => hall (n := 2) hsent y (List.mem_of_mem_take hy))
    (fun y hy => hall (n := 2) hsentTo y (List.mem_of_mem_take hy))
  obtain ⟨p, hp⟩ := Option.isSome_iff_exists.mp hread
  obtain ⟨ch, hrecv⟩ := Recvd.packet_eq_some.mp hp
  obtain ⟨-, hfree⟩ := hnext hstage hhalt hrunning 6 c p ch hl hc.1 hc.2 hrecv
  obtain ⟨-, hregistered⟩ := hfree (by rw [hname, hnames]; decide)
  have hin := ((hregistered σ' hσ').2 (hall (n := 3) hsentTo')).2
  rw [hname] at hin
  exact ⟨σ, σ', hσ, hagrees, hσ', hin⟩

end CliChat
