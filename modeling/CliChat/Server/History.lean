import CliChat.Server.Offers

/-! @src server/src/server.cpp | name:BroadcastEncrypted, HandleClientEvent | scheme:corollaries

    What the refinement gives: one history of which every connection was offered a piece, a roster
    that every client can keep, connect and disconnect notices that take turns, and speakers that
    say what the server has received from them.

        history        +al  +bo  al:"hi"  +cy  -bo
        offered to al  +al  +bo  al:"hi"  +cy  -bo      names in use: al, cy
        offered to bo       +bo  al:"hi"  +cy
        offered to cy                     +cy  -bo -/

namespace CliChat

open Transition

section results

variable (na : Sodium) (env : Env) {s s' : Server}

/-- ONE HISTORY: there is one sequence of announcements such that every connection, of the present
    and of the past, was offered a contiguous piece of it, which starts with its own arrival and
    holds all that it said itself. A registered client was offered all of it from there on. -/
theorem one_history (h : Reach na env s) : ∃ history, ∀ id, ∃ told,
    offersTo id s.trace = told.map render ∧ told <:+: history ∧
    (told = [] ∨ ∃ n, told.head? = some (.joined n) ∧ (∀ m, HoldsName s id m → m = n) ∧
      (Seals na s.groupKey → AskedName na s id n)) ∧
    Room.spoken id told = Room.spoken id history ∧
    (RegisteredConn s id → told ≠ [] ∧ told <:+ history) := by
  obtain ⟨ρ, hreach, hρ⟩ := h.room na env
  have hsound := Room.sound hreach
  refine ⟨ρ.history, fun id => ⟨ρ.inbox id, hρ.offered id, hsound.piece id, ?_, hsound.own id,
    fun hid => ?_⟩⟩
  · by_cases hid : id ∈ ρ.seen
    · obtain ⟨n, hn, hname⟩ := hsound.first id hid
      refine Or.inr ⟨n, hn, fun m hm => ?_, fun hseal => ?_⟩
      · exact hname m ((hρ.member (hρ.running hm.registered) id m).mpr hm)
      · have hbacked := h.returning.backed na env.returning hseal id
        have hconv := (h.returning.conversing env.returning).2.2 hseal
        have hfirst := (hconv.conforms id).first (hbacked.symm.trans (hρ.offered id))
        obtain ⟨uname, hasked, hhead⟩ := hfirst.resolve_left fun hnil => by
          rw [hnil] at hn
          cases hn
        obtain rfl := Room.Item.joined.inj (Option.some.inj (hhead.symm.trans hn))
        exact hasked
    · exact Or.inl (hsound.stranger id hid)
  · have hmem := (hρ.isSome_iff (hρ.running hid) id).mpr hid
    obtain ⟨n, hn⟩ := Option.isSome_iff_exists.mp hmem
    obtain ⟨m, hm, -⟩ := hsound.first id (hsound.named id n hn)
    refine ⟨?_, hsound.current id hmem⟩
    intro hnil
    rw [hnil] at hm
    cases hm

/-- Of three clients, one has left because the notice of another could not be sent to it. What the
    other two were offered are ends of one history; what it was offered itself is a piece, which
    starts with the name it asked for. -/
theorem one_history_three : ∃ s history told told' gone,
    sampleRun [10] (joins 0 5 (ascii "al") ++ joins 1 6 (ascii "bo") ++ joins 2 7 (ascii "cy")) =
      some s ∧
    offersTo 0 s.trace = List.map render told ∧ told <:+ history ∧
    offersTo 2 s.trace = List.map render told' ∧ told' <:+ history ∧
    gone <:+: history ∧ gone.head? = some (.joined (ascii "bo")) ∧
    AskedName Sodium.plain s 1 (ascii "bo") ∧
    offersTo 2 s.trace = [.notice (connectNotice (ascii "cy")),
      .notice (disconnectNotice (ascii "bo"))] := by
  have hrun : (sampleRun [10] (joins 0 5 (ascii "al") ++ joins 1 6 (ascii "bo") ++
      joins 2 7 (ascii "cy"))).map (fun s => ([5, 7].map fun fd =>
        (s.clients.lookup fd).map fun c => (c.registered, c.session.conn),
        offersTo 1 s.trace, offersTo 2 s.trace)) =
      some ([some (true, 0), some (true, 2)],
        [.notice (connectNotice (ascii "bo")), .notice (connectNotice (ascii "cy"))],
        [.notice (connectNotice (ascii "cy")), .notice (disconnectNotice (ascii "bo"))]) := by
    decide +kernel
  obtain ⟨s, hs, heq⟩ := Option.map_eq_some_iff.mp hrun
  simp only [List.map_cons, List.map_nil, Prod.mk.injEq, List.cons.injEq, and_true] at heq
  obtain ⟨⟨h5, h7⟩, h₁, h₂⟩ := heq
  obtain ⟨history, hall⟩ := one_history Sodium.plain (Env.failing [10]) (sampleRun_reach hs)
  obtain ⟨told, htold, -, -, -, hend⟩ := hall 0
  obtain ⟨told', htold', -, -, -, hend'⟩ := hall 2
  obtain ⟨gone, hgone, hpiece, hfirst, -, -⟩ := hall 1
  rw [h₁] at hgone
  obtain ⟨a, l, rfl, ha, -⟩ := List.map_eq_cons_iff.mp hgone.symm
  obtain ⟨n, hn, -, hasked⟩ := hfirst.resolve_left (List.cons_ne_nil a l)
  obtain rfl : a = .joined (ascii "bo") := render_injective ha
  obtain rfl := Room.Item.joined.inj (Option.some.inj hn)
  exact ⟨s, history, told, told', _, hs, htold, (hend (.of_lookup h5)).2, htold',
    (hend' (.of_lookup h7)).2, hpiece, rfl, hasked fun _ _ => rfl, h₂⟩

/-- ROSTER: a client that is registered at both ends of a run can keep the set of names in use up to
    date from what it is offered. -/
theorem roster_replay (h : Reach na env s) {es : List Event}
    (hrun : run (step na env) es s = some s') {id : ConnId} (hid : RegisteredConn s id)
    (hid' : RegisteredConn s' id) : ∃ T, ∃ items : List (Room.Item ConnId Bytes Bytes),
      s'.trace = s.trace ++ T ∧
      offersTo id T = items.map render ∧
      items.foldl Room.Item.effect {n | n ∈ s.usernames} = {n | n ∈ s'.usernames} := by
  have hs := h.store na env
  obtain ⟨ρ, hreach, hρ⟩ := h.room na env
  obtain ⟨acts, ρ', hacts, hρ'⟩ := hρ.run na env hs hrun
  obtain ⟨items, hfollows⟩ := Room.follows (Room.sound hreach) hacts
  obtain ⟨T, hT, -⟩ := (h.stretch na env hrun).log
  have hs' := Reach.store na env (h.trans hrun)
  have hmem := (hρ.isSome_iff (hρ.running hid) id).mpr hid
  have hmem' := (hρ'.isSome_iff (hρ'.running hid') id).mpr hid'
  obtain ⟨n, hn⟩ := Option.isSome_iff_exists.mp hmem
  have hinbox := hfollows.inbox id ((Room.sound hreach).named id n hn) hmem'
  refine ⟨T, items, hT, ?_, ?_⟩
  · have hoffered := hρ'.offered id
    rw [hT, offersTo_append, hρ.offered, hinbox, List.map_append] at hoffered
    exact List.append_cancel_left hoffered
  · rw [← hρ.present_eq hs (hρ.running hid), ← hρ'.present_eq hs' (hρ'.running hid')]
    exact hfollows.present.symm

/-- Three clients have joined; the notice that a fourth joins cannot be sent to one of them. From
    the two notices another client works out who is there. -/
theorem roster_replay_cascade : ∃ s s' T, ∃ items : List (Room.Item ConnId Bytes Bytes),
    sampleRun [15] (joins 0 5 (ascii "al") ++ joins 1 6 (ascii "bo") ++ joins 2 7 (ascii "cy")) =
      some s ∧
    run (step Sodium.plain (Env.failing [15])) (joins 3 8 (ascii "di")) s = some s' ∧
    s'.trace = s.trace ++ T ∧ offersTo 1 T = items.map render ∧
    items.foldl Room.Item.effect {n | n ∈ s.usernames} = {n | n ∈ s'.usernames} ∧
    offersTo 1 T = [.notice (connectNotice (ascii "di")),
      .notice (disconnectNotice (ascii "cy"))] := by
  have hrun : (sampleRun [15] (joins 0 5 (ascii "al") ++ joins 1 6 (ascii "bo") ++
      joins 2 7 (ascii "cy"))).bind (fun s => (run (step Sodium.plain (Env.failing [15]))
        (joins 3 8 (ascii "di")) s).map fun s' => ([s, s'].map fun m =>
          (m.clients.lookup 6).map fun c => (c.registered, c.session.conn),
          offersTo 1 (s'.trace.drop s.trace.length))) =
      some ([some (true, 1), some (true, 1)], [.notice (connectNotice (ascii "di")),
        .notice (disconnectNotice (ascii "cy"))]) := by decide +kernel
  obtain ⟨s, hs, hrest⟩ := Option.bind_eq_some_iff.mp hrun
  obtain ⟨s', hs', heq⟩ := Option.map_eq_some_iff.mp hrest
  simp only [List.map_cons, List.map_nil, Prod.mk.injEq, List.cons.injEq, and_true] at heq
  obtain ⟨⟨h6, h6'⟩, hoffers⟩ := heq
  obtain ⟨T, items, hT, hitems, heffect⟩ := roster_replay Sodium.plain (Env.failing [15])
    (sampleRun_reach hs) hs' (.of_lookup h6) (.of_lookup h6')
  rw [hT, List.drop_left] at hoffers
  exact ⟨s, s', T, items, hs, hs', hT, hitems, heffect, hoffers⟩

/-- TURNS: in what a registered client was offered, connect and disconnect notices of a name take
    turns, and the last one tells whether the name is in use. -/
theorem notices_alternate (h : Reach na env s) {id : ConnId} (hid : RegisteredConn s id)
    (n : Bytes) : ∃ told b, offersTo id s.trace = told.map render ∧
      Room.Alternates b (Room.turns n told) (decide (n ∈ s.usernames)) ∧
      ∀ x, (Room.turns n told).getLast? = some x → (x = true ↔ n ∈ s.usernames) := by
  obtain ⟨ρ, hreach, hρ⟩ := h.room na env
  have hpresent := hρ.present_eq (h.store na env) (hρ.running hid)
  have hin : decide (n ∈ s.usernames) = true ↔ n ∈ ρ.present := by
    rw [decide_eq_true_iff, hpresent]
    exact Iff.rfl
  obtain ⟨b, hb⟩ := Room.alternates_inbox hreach
    ((hρ.isSome_iff (hρ.running hid) id).mpr hid) n hin
  refine ⟨ρ.inbox id, b, hρ.offered id, hb, fun x hx => ?_⟩
  rw [hb.last hx, decide_eq_true_iff]

/-- In a run in which "bo" has left, the last notice about it that "al" was offered says so. -/
theorem notices_alternate_three : ∃ s told,
    sampleRun [10] (joins 0 5 (ascii "al") ++ joins 1 6 (ascii "bo") ++ joins 2 7 (ascii "cy")) =
      some s ∧
    offersTo 0 s.trace = List.map render told ∧
    (∀ x, (Room.turns (ascii "bo") told).getLast? = some x →
      (x = true ↔ ascii "bo" ∈ s.usernames)) ∧
    ascii "bo" ∉ s.usernames := by
  have hrun : (sampleRun [10] (joins 0 5 (ascii "al") ++ joins 1 6 (ascii "bo") ++
      joins 2 7 (ascii "cy"))).map (fun s => ((s.clients.lookup 5).map fun c =>
        (c.registered, c.session.conn), decide (ascii "bo" ∈ s.usernames))) =
      some (some (true, 0), false) := by decide +kernel
  obtain ⟨s, hs, heq⟩ := Option.map_eq_some_iff.mp hrun
  obtain ⟨h5, hbo⟩ := Prod.mk.inj heq
  obtain ⟨told, b, htold, -, hlast⟩ := notices_alternate Sodium.plain (Env.failing [10])
    (sampleRun_reach hs) (.of_lookup h5) (ascii "bo")
  exact ⟨s, told, hs, htold, hlast, of_decide_eq_false hbo⟩

end results

/-! ### Who says what -/

/-- What is forwarded of a client to itself is what it sent after its key and its name. -/
def Echoes (s : Server) : Prop := ∀ id, forwards id (packetsTo id s.trace) = chat id s.trace

section echoes

variable {na : Sodium} {env : ReturningEnv} {s s' : Server} {fd : Fd} {c : ClientInfo}
  {pkt : Option Bytes} {r : EStateM.Result Fault Server Unit} {sends : Sends}

/-- A registered client is sent back what it says. -/
theorem Talk.echoes (h : Talk na s fd c pkt r sends) (hs : Store s)
    (hl : s.clients.lookup fd = some c) (hreg : c.registered = true) :
    CliChat.forwards c.session.conn (sends c.session.conn) = pkt.toList := by
  have hkeyed := hs.keyed fd c ⟨hl, hreg⟩
  cases h with
  | blocked => rfl
  | noKey hk => rw [hkeyed] at hk; cases hk
  | badKey hk => rw [hkeyed] at hk; cases hk
  | keyed hk => rw [hkeyed] at hk; cases hk
  | rejected _ hr => rw [hreg] at hr; cases hr
  | tooShort _ hr => rw [hreg] at hr; cases hr
  | taken _ hr => rw [hreg] at hr; cases hr
  | named _ hr => rw [hreg] at hr; cases hr
  | left _ _ _ _ hb =>
    refine forwards_eq_nil fun x hx => ?_
    obtain ⟨-, m, -, hsite, -⟩ := hb.notices (Or.inr rfl) hx
    rw [hsite]
    simp
  | @forwarded p _ _ _ _ hto =>
    obtain ⟨ok, heq⟩ := hto fd c ⟨hl, hreg⟩
    rw [heq]
    simp [CliChat.forwards]

/-- One packet more makes no chat of a client that has no name. -/
theorem Phase.chat_nil (h : Phase na s c) (hreg : c.registered = false) {T : List Ev}
    (hfrom : packetsFrom c.session.conn T = pkt.toList) :
    CliChat.chat c.session.conn (s.trace ++ T) = [] := by
  have hone : (packetsFrom c.session.conn T).length ≤ 1 := by
    rw [hfrom]
    cases pkt <;> simp
  refine List.drop_eq_nil_of_le ?_
  by_cases hk : c.keyExchanged = true
  · obtain ⟨gk, ok, ok', hsaid, -, -⟩ := h.unnamed hk hreg
    rw [dialogue_append_ne (by rw [hsaid]; simp), hsaid, List.length_append, List.length_singleton]
    omega
  · obtain ⟨-, -, hsaid⟩ := h.unkeyed (by simpa using hk)
    rw [dialogue_append_nil hsaid]
    exact (dialogue_length_le _ T).trans (hone.trans one_le_two)

/-- STEP: every event, also one whose handler gets stuck. -/
theorem Echoes.event (hs : Store s) (hc : Conversing na s) (h : Echoes s) {e : Event}
    (hen : e.enabled s = true) : Echoes (stateAfter na env e s) := by
  intro id
  by_cases hclient : ∃ fd, e = .client fd
  · obtain ⟨fd, rfl⟩ := hclient
    obtain ⟨c, pkt, sends, hl, -, ht, ⟨T, htr, hto, hfrom⟩, -⟩ := client_talk env hs hen
    have hs' : Store (s.log (.dispatch c.session.conn)) := hs.sendsOnly (SendsOnly.log s _)
    have htr' : (stateAfter na env (.client fd) s).trace =
        s.trace ++ (.dispatch c.session.conn :: T) := htr.trans (List.append_assoc ..)
    have hsends : packetsTo id (.dispatch c.session.conn :: T) = sends id := hto id
    have hread : packetsFrom id (.dispatch c.session.conn :: T) =
        if id = c.session.conn then pkt.toList else [] := hfrom id
    rw [htr', packetsTo_append, hsends, forwards_append, h id]
    by_cases hid : id = c.session.conn
    · subst hid
      rw [if_pos rfl] at hread
      by_cases hreg : c.registered = true
      · have hlong := (hc.phases fd c hl).named hreg
        have hne : dialogue c.session.conn s.trace ≠ [] := by
          intro hnil
          rw [hnil] at hlong
          simp at hlong
        rw [ht.echoes hs' hl hreg, chat, chat, dialogue_append_ne hne, hread,
          List.drop_append_of_le_length hlong]
      · have hreg' : c.registered = false := by simpa using hreg
        have hbefore := @Phase.chat_nil _ _ _ none (hc.phases fd c hl) hreg' [] rfl
        rw [List.append_nil] at hbefore
        rw [hbefore, (hc.phases fd c hl).chat_nil hreg' hread]
        rcases ht.relays c.session.conn c.session.conn with hnil | ⟨hr', -⟩
        · exact hnil
        · exact absurd hr' hreg
    · have hquiet : forwards id (sends id) = [] := by
        rcases ht.relays id id with hnil | ⟨-, heq, -⟩
        · exact hnil
        · exact absurd heq hid
      rw [if_neg hid] at hread
      rw [hquiet, List.append_nil, chat, chat, dialogue_append_quiet hread]
  · obtain ⟨⟨T, hT, hcloses⟩, -⟩ := other_adds na env hs fun fd he => hclient ⟨fd, he⟩
    obtain ⟨hto, hfrom⟩ := mute_projections (mute_of_closes hcloses) id
    rw [hT, packetsTo_append, hto, List.append_nil, h id, chat, chat, dialogue_append_quiet hfrom]

theorem Initial.echoes (h : Initial s) : Echoes s := by
  obtain ⟨listenfd, epollfd, pk, sk, gk, -, -, -, -, rfl⟩ := h
  exact fun id => rfl

/-- The packet of `id` in an offer. -/
def Offer.packetOf (id : ConnId) : Offer → Option Bytes
  | .packet src p => if src = id then some p else none
  | .notice _ => none

/-- The packets that a room was told of are those that were forwarded. -/
theorem spoken_inbox {id : ConnId} : ∀ {l : List Ev} {told : List (Room.Item ConnId Bytes Bytes)},
    offersTo id l = told.map render → Room.spoken id told = forwards id (packetsTo id l) := by
  have hrender : ∀ told : List (Room.Item ConnId Bytes Bytes), Room.spoken id told =
      (told.map render).filterMap (Offer.packetOf id) := by
    intro told
    rw [Room.spoken, List.filterMap_map]
    congr 1
    funext a
    cases a <;> rfl
  intro l told h
  rw [hrender, ← h, offersTo, forwards, packetsTo, List.filterMap_filterMap,
    List.filterMap_filterMap]
  congr 1
  funext e
  cases e with
  | send conn site p ok =>
    cases site <;> by_cases hid : conn = id <;> simp [Ev.offer, Ev.packetTo, Offer.packetOf, hid]
  | secretbox conn msg ok =>
    by_cases hid : conn = id <;> simp [Ev.offer, Ev.packetTo, Offer.packetOf, hid]
  | _ => rfl

/-- What a connection says in the room is what the server has read of it as chat. -/
theorem Represents.spoken {ρ : ChatRoom} (hρ : Represents s ρ)
    (hroom : Reachable Room.step (· = Room.State.empty) ρ) (h : Reach na env s)
    (hseal : Seals na s.groupKey) (id : ConnId) :
    Room.spoken id ρ.history = chat id s.trace := by
  have hechoes : Echoes s := Reach.seals_invariant env (fun _ => Initial.echoes)
    (fun _ _ hs _ hc he hen => he.event hs hc hen) h hseal
  rw [← (Room.sound hroom).own id, spoken_inbox (hρ.offered id), hechoes id]

variable {env : Env}

/-- SAID: in the history of the room, a connection says exactly the packets that the server has
    received from it after its key and its name, each once and in this order. -/
theorem history_spoken (h : Reach na env s) (hseal : Seals na s.groupKey) : ∃ ρ : ChatRoom,
    Reachable Room.step (· = Room.State.empty) ρ ∧ Represents s ρ ∧
    ∀ id, Room.spoken id ρ.history = chat id s.trace := by
  obtain ⟨ρ, hreach, hρ⟩ := h.room na env
  exact ⟨ρ, hreach, hρ, hρ.spoken hreach h.returning hseal⟩

end echoes

/-- "al" says hi, and that is all that it says in the room. -/
theorem history_spoken_two : ∃ s ρ,
    sampleRun [] (joins 0 5 (ascii "al") ++ joins 1 6 (ascii "bo") ++
      packetFrom 0 5 (sampleSealed (ascii "al: hi"))) = some s ∧
    Represents s ρ ∧ Room.spoken 0 ρ.history = [sampleSealed (ascii "al: hi")] := by
  have hrun : (sampleRun [] (joins 0 5 (ascii "al") ++ joins 1 6 (ascii "bo") ++
      packetFrom 0 5 (sampleSealed (ascii "al: hi")))).map (fun s => chat 0 s.trace) =
      some [sampleSealed (ascii "al: hi")] := by decide +kernel
  obtain ⟨s, hs, hchat⟩ := Option.map_eq_some_iff.mp hrun
  obtain ⟨ρ, -, hρ, hspoken⟩ := history_spoken (sampleRun_reach hs) fun _ _ => rfl
  exact ⟨s, ρ, hs, hρ, (hspoken 0).trans hchat⟩

/-! ### One order for all -/

/-- `told` is what the server has sent to `id` of the `history`. -/
structure Tells (na : Sodium) (s : Server) (id : ConnId)
    (history told : List (Room.Item ConnId Bytes Bytes)) : Prop where
  conforms : Conforms na s id (packetsTo id s.trace)
  piece : told <:+: history
  own : Room.spoken id told = Room.spoken id history
  current : RegisteredConn s id → told ≠ [] ∧ told <:+ history
  packets : (packetsTo id s.trace).filterMap offerOf = told.map render

/-- There is a piece of the `history` for every connection but one whose name was refused, and every
    connection says there what the server has read of it as chat. -/
structure Ordered (na : Sodium) (s : Server) (history : List (Room.Item ConnId Bytes Bytes)) :
    Prop where
  told : ∀ id, (∃ told, Tells na s id history told) ∨
    Refused na s id (packetsTo id s.trace) ∧ ¬RegisteredConn s id
  said : ∀ id, Room.spoken id history = chat id s.trace

section ordered

variable {na : Sodium} {env : ReturningEnv} {s s' : Server}
  {history told : List (Room.Item ConnId Bytes Bytes)}

theorem Reach.ordered (h : Reach na env s) (hseal : Seals na s.groupKey) :
    ∃ history, (∀ id, ∃ told, Tells na s id history told) ∧
      ∀ id, Room.spoken id history = chat id s.trace := by
  obtain ⟨ρ, hroom, hρ⟩ := h.room na env
  have hsound := Room.sound hroom
  have hconv := (h.conversing env).2.2 hseal
  refine ⟨ρ.history, fun id => ⟨ρ.inbox id, hconv.conforms id, hsound.piece id, hsound.own id,
    fun hid => ?_, ?_⟩, hρ.spoken hroom h hseal⟩
  · have hmem := (hρ.isSome_iff (hρ.running hid) id).mpr hid
    obtain ⟨n, hn⟩ := Option.isSome_iff_exists.mp hmem
    obtain ⟨m, hm, -⟩ := hsound.first id (hsound.named id n hn)
    refine ⟨fun hnil => ?_, hsound.current id hmem⟩
    rw [hnil] at hm
    cases hm
  · rw [← h.backed na env hseal id, hρ.offered id]

/-- To a connection that is sent nothing, the server has told what it had. -/
theorem Tells.quiet {id : ConnId} {T : List Ev} (h : Tells na s id history told)
    (hkeys : SameKeys s s') (htr : s'.trace = s.trace ++ T) (hto : packetsTo id T = [])
    (hreg : RegisteredConn s' id → RegisteredConn s id) : Tells na s' id history told := by
  have hsent : packetsTo id s'.trace = packetsTo id s.trace := by
    rw [htr, packetsTo_append, hto, List.append_nil]
  refine ⟨?_, h.piece, h.own, fun hid => h.current (hreg hid), ?_⟩
  · rw [hsent]
    exact h.conforms.mono hkeys (htr ▸ List.prefix_append _ _)
  · rw [hsent]
    exact h.packets

/-- Where a name is refused, or is too short, the server says nothing to the others. -/
theorem Ordered.stuck (hreach : Reach na env s) (hseal : Seals na s.groupKey)
    (htold : ∀ id, ∃ told, Tells na s id history told)
    (hchat : ∀ id, Room.spoken id history = chat id s.trace) {e : Event}
    (hen : e.enabled s = true) {f : Fault} {t : Server} (hr : handle na env e s = .error f t)
    (hf : f ≠ .blocked) : Ordered na (stateAfter na env e s) history := by
  obtain ⟨hs, hw, hconv⟩ := hreach.conversing env
  have hafter : stateAfter na env e s = t := by
    rw [stateAfter_eq, hr]
    rfl
  have hok : ∀ t', handle na env e s = .ok () t' → False := by
    intro t' ht'
    rw [hr] at ht'
    cases ht'
  rw [hafter]
  cases e with
  | listener accepts => exact (hok _ rfl).elim
  | net act => exact (hok _ rfl).elim
  | waitFails => exact (hok _ rfl).elim
  | client fd =>
    obtain ⟨c, pkt, sends, hl, -, ht, ⟨T, htr, hto, hfrom⟩, hkeys⟩ := client_talk env hs hen
    rw [hafter] at htr hkeys
    rw [hr] at ht
    have hsame : SameKeys s t := ⟨hkeys.serverPk, hkeys.serverSk, hkeys.groupKey⟩
    have htr' : t.trace = s.trace ++ (.dispatch c.session.conn :: T) :=
      htr.trans (List.append_assoc ..)
    have hread : ∀ id, packetsFrom id (.dispatch c.session.conn :: T) =
        if id = c.session.conn then pkt.toList else [] := hfrom
    have hphase := (hconv hseal).phases fd c hl
    -- a connection that is sent nothing
    have hquiet : t.clients = s.clients → ∀ id, sends id = [] →
        ∃ told, Tells na t id history told := by
      intro hc id hnil
      obtain ⟨told, htells⟩ := htold id
      refine ⟨told, htells.quiet hsame htr' ((hto id).trans hnil) ?_⟩
      rintro ⟨k, d, hd, hconn⟩
      exact ⟨k, d, by rwa [Registered, hc] at hd, hconn⟩
    -- the packet of a client that has no name yet is no chat
    have hsaid : c.keyExchanged = true → c.registered = false →
        ∀ id, Room.spoken id history = chat id t.trace := by
      intro hk hreg id
      rw [hchat, htr']
      by_cases hid : id = c.session.conn
      · subst hid
        obtain ⟨gk, ok, ok', hone, -, -⟩ := hphase.unnamed hk hreg
        have hlen : pkt.toList.length ≤ 1 := by cases pkt <;> simp
        rw [chat, chat, dialogue_append_ne (by rw [hone]; simp), hone, hread, if_pos rfl]
        exact (List.drop_eq_nil_of_le (by simp)).trans
          (List.drop_eq_nil_of_le (by rw [List.length_append, List.length_singleton]; omega)).symm
      · rw [chat, chat, dialogue_append_quiet (by rw [hread, if_neg hid])]
    cases ht with
    | blocked => exact absurd rfl hf
    | tooShort hk hreg hc => exact ⟨fun id => .inl (hquiet hc id rfl), hsaid hk hreg⟩
    | @taken p _ uname payload ok hk hreg hname hu hp hc hu' =>
      refine ⟨fun id => ?_, hsaid hk hreg⟩
      by_cases hid : id = c.session.conn
      · subst hid
        obtain ⟨q, rfl⟩ := hseal.payload hp
        have hsent : packetsTo c.session.conn (.dispatch c.session.conn :: T) =
            [(.secretbox (ascii "SERVER::USERNAME_TAKEN"), q, ok)] :=
          (hto _).trans (Sends.only_self _ _)
        refine .inr ⟨hphase.refused hk hreg hsame htr' hname (hu' ▸ hu) hp
          ((hread _).trans (if_pos rfl)) hsent, ?_⟩
        rintro ⟨k, d, ⟨hd, hdreg⟩, hconn⟩
        obtain ⟨-, rfl⟩ := hs.table.conn_inj (hc ▸ hd) hl hconn
        rw [hreg] at hdreg
        cases hdreg
      · exact .inl (hquiet hc id (Sends.only_ne hid _))

end ordered

end CliChat
