import CliChat.Server.Conformance

/-! @src server/src/server.cpp | name:BroadcastEncrypted | scheme:views of registered clients

    What two clients see that are registered at both ends of a stretch of a run. A handler offers
    every client that stays registered the same items in the same order: one packet when it
    forwards, and otherwise its own notice and then one notice for each client that the clean-up
    removes. The nested broadcasts keep one common order, so the views are equal.

        A   … m₀   "x has disconnected"   "y has disconnected"   p₁ …
        B   … m₀   "x has disconnected"   "y has disconnected"   p₁ …           -/

namespace CliChat

open Transition

/-- The connection `id` belongs to a registered client. -/
def RegisteredConn (s : Server) (id : ConnId) : Prop :=
  ∃ fd c, Registered s fd c ∧ c.session.conn = id

/-- What a client can compare with another: the bytes of a packet, the text of a notice. -/
inductive Item where
  | packet (p : Bytes)
  | notice (msg : Bytes)
  deriving DecidableEq

/-- A notice has a nonce of its own for each client, any other packet is the same bytes. -/
def item (x : Site × Bytes × Bool) : Item :=
  match x.1 with
  | .secretbox msg => .notice msg
  | _ => .packet x.2.1

/-- The items sent to `id`, in order. -/
def itemsTo (id : ConnId) (l : List Ev) : List Item := (packetsTo id l).map item

/-- The packets of `src` that were forwarded, out of those sent to a connection. -/
def forwards (src : ConnId) (xs : List (Site × Bytes × Bool)) : List Bytes :=
  xs.filterMap fun x => if x.1 = .forward src then some x.2.1 else none

theorem itemsTo_append (id : ConnId) (l m : List Ev) :
    itemsTo id (l ++ m) = itemsTo id l ++ itemsTo id m := by
  rw [itemsTo, packetsTo_append, List.map_append]
  rfl

theorem forwards_append (src : ConnId) (xs ys : List (Site × Bytes × Bool)) :
    forwards src (xs ++ ys) = forwards src xs ++ forwards src ys := List.filterMap_append

/-! ### One handler -/

/-- Packets that carry notices are these notices, and none is forwarded. -/
theorem items_notices : ∀ {xs : List (Site × Bytes × Bool)} {msgs : List Bytes},
    xs.map (fun x => (x.1, x.2.2)) = msgs.map (fun m => (Site.secretbox m, true)) →
    xs.map item = msgs.map .notice ∧ ∀ src, forwards src xs = []
  | [], [], _ => ⟨rfl, fun _ => rfl⟩
  | [], _ :: _, h => by cases h
  | _ :: _, [], h => by cases h
  | (site, p, ok) :: xs, m :: msgs, h => by
    rw [List.map_cons, List.map_cons, List.cons.injEq, Prod.mk.injEq] at h
    obtain ⟨⟨rfl, -⟩, hrest⟩ := h
    obtain ⟨hitems, hforwards⟩ := items_notices hrest
    refine ⟨by rw [List.map_cons, List.map_cons, hitems]; rfl, fun src => ?_⟩
    have hcons : forwards src ((Site.secretbox m, p, ok) :: xs) = forwards src xs := by
      simp [forwards]
    rw [hcons, hforwards src]

section talk

variable {na : Sodium} {s s' : Server} {fd : Fd} {c : ClientInfo} {pkt : Option Bytes}
  {r : EStateM.Result Fault Server Unit} {sends : Sends}

/-- The connection of a client that is not registered is not registered. -/
theorem RegisteredConn.ne_of_unregistered (hs : Store s) (hl : s.clients.lookup fd = some c)
    (hreg : c.registered = false) {id : ConnId} (h : RegisteredConn s id) :
    id ≠ c.session.conn := by
  rintro rfl
  obtain ⟨k, d, hd, hconn⟩ := h
  obtain ⟨rfl, rfl⟩ := hs.table.conn_inj hd.1 hl hconn
  rw [hd.2] at hreg
  cases hreg

/-- What is sent to a client that is not registered, no one else receives. -/
theorem RegisteredConn.only_nil (hs : Store s) (hl : s.clients.lookup fd = some c)
    (hreg : c.registered = false) {id : ConnId} (h : RegisteredConn s id)
    (xs : List (Site × Bytes × Bool)) : Sends.only c.session.conn xs id = [] :=
  Sends.only_ne (h.ne_of_unregistered hs hl hreg) xs

/-- STEP: a handler offers the same items to all who are registered before and after it. -/
theorem Talk.same_items (hs : Store s) (hl : s.clients.lookup fd = some c)
    (h : Talk na s fd c pkt r sends) :
    ∃ items, ∀ id, RegisteredConn s id → RegisteredConn (resultState r) id →
      (sends id).map item = items := by
  -- nothing is sent to anyone but an unregistered client
  have honly : c.registered = false → ∀ xs, ∀ id, RegisteredConn s id →
      (Sends.only c.session.conn xs id).map item = [] := by
    intro hreg xs id hid
    rw [hid.only_nil hs hl hreg]
    rfl
  cases h with
  | blocked => exact ⟨[], fun _ _ _ => rfl⟩
  | noKey => exact ⟨[], fun _ _ _ => rfl⟩
  | rejected => exact ⟨[], fun _ _ _ => rfl⟩
  | tooShort => exact ⟨[], fun _ _ _ => rfl⟩
  | badKey hk => exact ⟨[], fun id hid _ => honly (hs.unregistered hl hk) _ id hid⟩
  | keyed _ hreg => exact ⟨[], fun id hid _ => honly hreg _ id hid⟩
  | taken _ hreg => exact ⟨[], fun id hid _ => honly hreg _ id hid⟩
  | @named p t s' uname T rs hk hreg hname hu ht hclients hkey hb s'' hc' =>
    refine ⟨(connectNotice uname :: notices rs).map .notice, fun id _ hid' => ?_⟩
    obtain ⟨k, d, ⟨hd, hdreg⟩, rfl⟩ := hid'
    rw [resultState, hc'] at hd
    exact (items_notices (hb.departures.survivors k d ⟨hd, hdreg⟩).2).1
  | @left t s' T rs hreg ht hclients hkey hb =>
    refine ⟨(disconnectNotice c.username :: notices rs).map .notice, fun id _ hid' => ?_⟩
    obtain ⟨k, d, hd, rfl⟩ := hid'
    exact (items_notices (hb.departures.survivors k d hd).2).1
  | @forwarded p s' sends hreg hclients hto hnot =>
    refine ⟨[.packet p], fun id hid _ => ?_⟩
    obtain ⟨k, d, hd, rfl⟩ := hid
    obtain ⟨ok, heq⟩ := hto k d hd
    rw [heq]
    rfl

/-- STEP: between two who are registered before and after it, a handler forwards what it read. -/
theorem Talk.forwards (hs : Store s) (hl : s.clients.lookup fd = some c)
    (h : Talk na s fd c pkt r sends) {src id : ConnId} (hsrc : RegisteredConn s src)
    (hsrc' : RegisteredConn (resultState r) src) (hid : RegisteredConn s id)
    (hid' : RegisteredConn (resultState r) id) :
    forwards src (sends id) = if src = c.session.conn then pkt.toList else [] := by
  -- unless the handler forwards, the client it serves is not the sender
  have hother : CliChat.forwards src (sends id) = [] → src ≠ c.session.conn →
      CliChat.forwards src (sends id) = if src = c.session.conn then pkt.toList else [] := by
    intro hnil hne
    rw [hnil, if_neg hne]
  have hunreg : c.registered = false → src ≠ c.session.conn :=
    fun hreg => hsrc.ne_of_unregistered hs hl hreg
  have honly : c.registered = false → ∀ xs,
      CliChat.forwards src (Sends.only c.session.conn xs id) = [] := by
    intro hreg xs
    rw [hid.only_nil hs hl hreg]
    rfl
  cases h with
  | blocked => simp [CliChat.forwards]
  | noKey hk => exact hother rfl (hunreg (hs.unregistered hl hk))
  | rejected _ hreg => exact hother rfl (hunreg hreg)
  | tooShort _ hreg => exact hother rfl (hunreg hreg)
  | badKey hk => exact hother (honly (hs.unregistered hl hk) _) (hunreg (hs.unregistered hl hk))
  | keyed _ hreg => exact hother (honly hreg _) (hunreg hreg)
  | taken _ hreg => exact hother (honly hreg _) (hunreg hreg)
  | @named p t s' uname T rs hk hreg hname hu ht hclients hkey hb s'' hc' =>
    obtain ⟨k, d, ⟨hd, hdreg⟩, rfl⟩ := hid'
    rw [resultState, hc'] at hd
    exact hother ((items_notices (hb.departures.survivors k d ⟨hd, hdreg⟩).2).2 src) (hunreg hreg)
  | @left t s' T rs hreg ht hclients hkey hb =>
    obtain ⟨k, d, hd, rfl⟩ := hid'
    refine hother ((items_notices (hb.departures.survivors k d hd).2).2 src) ?_
    rintro rfl
    -- who has left is not registered any more
    obtain ⟨k', d', ⟨hd', -⟩, hconn⟩ := hsrc'
    have hl' := ((hb.departures.left k' d').mp hd').1
    rw [hclients] at hl'
    by_cases hk : k' = fd
    · rw [hk, AList.lookup_erase] at hl'
      cases hl'
    · rw [AList.lookup_erase_ne hk] at hl'
      exact hk (hs.table.conn_inj hl' hl hconn).1
  | @forwarded p s' sends hreg hclients hto hnot =>
    obtain ⟨k, d, hd, rfl⟩ := hid
    obtain ⟨ok, heq⟩ := hto k d hd
    rw [heq]
    by_cases hsame : src = c.session.conn
    · simp [CliChat.forwards, hsame]
    · have hne : ¬ c.session.conn = src := fun h' => hsame h'.symm
      simp [CliChat.forwards, hsame, hne]

end talk

/-! ### Runs -/

/-- Who is registered at both ends of a run is registered in between. -/
theorem Evolves.between {a b c : Server} (ha : Store a) (h : Evolves a b) (k : Evolves b c)
    {id : ConnId} (hid : RegisteredConn a id) (hid' : RegisteredConn c id) :
    RegisteredConn b id := by
  obtain ⟨fd, d, hd, rfl⟩ := hid
  obtain ⟨fd', d', hd', hconn⟩ := hid'
  have hold : d'.session.conn < a.kernel.accepted := by
    rw [hconn]
    exact ha.table.fresh fd _ (ha.table.entry fd d hd.1).2.2.2
  obtain ⟨m, hm, hgrow'⟩ := k.entries fd' d' hd'.1 (hold.trans_le h.accepted)
  obtain ⟨e, he, hgrow⟩ := h.entries fd' m hm (hgrow'.conn ▸ hold)
  have hsame : e.session.conn = d.session.conn :=
    hgrow.conn.symm.trans (hgrow'.conn.symm.trans hconn)
  obtain ⟨rfl, rfl⟩ := ha.table.conn_inj he hd.1 hsame
  exact ⟨fd', m, ⟨hm, hgrow.registered hd.2⟩, hgrow.conn⟩

/-- A stretch of a run, seen by those who are registered at both ends: they are sent the same items,
    and what one of them says is forwarded to the others. -/
structure Stretch (s s' : Server) : Prop where
  store : Store s
  evolves : Evolves s s'
  log : ∃ T, s'.trace = s.trace ++ T ∧
    (∃ items, ∀ id, RegisteredConn s id → RegisteredConn s' id → itemsTo id T = items) ∧
    ∀ src id, RegisteredConn s src → RegisteredConn s' src → RegisteredConn s id →
      RegisteredConn s' id → forwards src (packetsTo id T) = packetsFrom src T

theorem Stretch.refl {s : Server} (h : Store s) : Stretch s s :=
  ⟨h, Evolves.refl s, [], (List.append_nil _).symm, ⟨[], fun _ _ _ => rfl⟩, fun _ _ _ _ _ _ => rfl⟩

theorem Stretch.trans {a b c : Server} (h : Stretch a b) (k : Stretch b c) : Stretch a c := by
  obtain ⟨T, hT, ⟨items, hitems⟩, hfor⟩ := h.log
  obtain ⟨T', hT', ⟨items', hitems'⟩, hfor'⟩ := k.log
  have hmid : ∀ {id}, RegisteredConn a id → RegisteredConn c id → RegisteredConn b id :=
    fun ha hc => Evolves.between h.store h.evolves k.evolves ha hc
  refine ⟨h.store, h.evolves.trans k.evolves, T ++ T', by rw [hT', hT, List.append_assoc],
    ⟨items ++ items', fun id ha hc => ?_⟩, fun src id hs hs' hi hi' => ?_⟩
  · rw [itemsTo_append, hitems id ha (hmid ha hc), hitems' id (hmid ha hc) hc]
  · rw [packetsTo_append, forwards_append, packetsFrom_append,
      hfor src id hs (hmid hs hs') hi (hmid hi hi'), hfor' src id (hmid hs hs') hs' (hmid hi hi') hi']

section runs

variable (na : Sodium) (env : ReturningEnv) {s s' : Server}

/-- STEP: every handler that returns is a stretch. -/
theorem Stretch.step (hs : Store s) {e : Event} (h : step na env e s = some s') :
    Stretch s s' := by
  obtain ⟨hen, hr⟩ := (step_some na env).mp h
  refine ⟨hs, (hs.step na env h).2, ?_⟩
  by_cases hclient : ∃ fd, e = .client fd
  · obtain ⟨fd, rfl⟩ := hclient
    obtain ⟨c, pkt, sends, hl, -, ht, ⟨T, hT, hto, hfrom⟩, -⟩ :=
      @client_talk na env _ hs _ hen
    have hs' : Store (s.log (.dispatch c.session.conn)) := hs.sendsOnly (SendsOnly.log s _)
    rw [step_stateAfter na env h] at hT
    rw [hr] at ht
    obtain ⟨items, hitems⟩ := ht.same_items hs' hl
    refine ⟨.dispatch c.session.conn :: T, hT.trans (List.append_assoc ..), ⟨items, ?_⟩, ?_⟩
    · intro id hid hid'
      rw [← hitems id hid hid', ← hto]
      rfl
    · intro src id hsrc hsrc' hid hid'
      have hfor := ht.forwards hs' hl hsrc hsrc' hid hid'
      rw [← hto, ← hfrom] at hfor
      exact hfor
  · obtain ⟨⟨T, hT, hcloses⟩, -⟩ := other_adds na env hs fun fd he => hclient ⟨fd, he⟩
    rw [step_stateAfter na env h] at hT
    have hnil := fun id => mute_projections (mute_of_closes hcloses) id
    refine ⟨T, hT, ⟨[], fun id _ _ => ?_⟩, fun src id _ _ _ _ => ?_⟩
    · rw [itemsTo, (hnil id).1]
      rfl
    · rw [(hnil id).1, (hnil src).2]
      rfl

variable (env : Env)

/-- RUNS: every run from a reachable state is a stretch. -/
theorem Reach.stretch (h : Reach na env s) {es : List Event}
    (hrun : run (CliChat.step na env) es s = some s') : Stretch s s' :=
  run_relation (CliChat.step na env) (I := Store) (R := Stretch)
    (fun _ _ _ hs ht => (hs.step na env ht).1) (fun _ => Stretch.refl) (fun _ _ _ => Stretch.trans)
    (fun _ _ _ hs ht => Stretch.step na env.returning hs (step_returning ht).2)
    (h.store na env) hrun

/-- AGREEMENT: two clients that are registered at both ends of a run are sent the same items in the
    same order, whatever sends to others fail, and even when a packet to one of the two does. -/
theorem same_conversation (h : Reach na env s) {es : List Event}
    (hrun : run (step na env) es s = some s') {a b : ConnId}
    (ha : RegisteredConn s a) (ha' : RegisteredConn s' a) (hb : RegisteredConn s b)
    (hb' : RegisteredConn s' b) :
    ∃ T, s'.trace = s.trace ++ T ∧ itemsTo a T = itemsTo b T := by
  obtain ⟨T, hT, ⟨items, hitems⟩, -⟩ := (h.stretch na env hrun).log
  exact ⟨T, hT, by rw [hitems a ha ha', hitems b hb hb']⟩

end runs

/-! ### Only chat is forwarded -/

/-- What is forwarded of a client is what it sent after its key and its name, in order. -/
def Relays (s : Server) : Prop :=
  ∀ src id, (forwards src (packetsTo id s.trace)).Sublist (chat src s.trace)

section relays

variable {na : Sodium} {env : ReturningEnv} {s s' : Server} {fd : Fd} {c : ClientInfo}
  {pkt : Option Bytes} {r : EStateM.Result Fault Server Unit} {sends : Sends}

theorem forwards_eq_nil {src : ConnId} {xs : List (Site × Bytes × Bool)}
    (h : ∀ x ∈ xs, x.1 ≠ .forward src) : forwards src xs = [] :=
  List.filterMap_eq_nil_iff.mpr fun x hx => if_neg (h x hx)

/-- A handler forwards nothing, or the packet of a registered client. -/
theorem Talk.relays (h : Talk na s fd c pkt r sends) (src id : ConnId) :
    CliChat.forwards src (sends id) = [] ∨ c.registered = true ∧ src = c.session.conn ∧
      CliChat.forwards src (sends id) = pkt.toList := by
  have honly : ∀ xs : List (Site × Bytes × Bool), (∀ x ∈ xs, x.1 ≠ .forward src) →
      CliChat.forwards src (Sends.only c.session.conn xs id) = [] := by
    intro xs hxs
    refine forwards_eq_nil fun x hx => ?_
    unfold Sends.only at hx
    split at hx
    · exact hxs x hx
    · cases hx
  have hnotices : ∀ {t t' : Server} {msg name : Bytes} {T rs}, Broadcasts na t msg t' T rs →
      (msg = connectNotice name ∨ msg = disconnectNotice name) →
      CliChat.forwards src (packetsTo id T) = [] := by
    intro t t' msg name T rs hb hmsg
    refine forwards_eq_nil fun x hx => ?_
    obtain ⟨-, m, -, hsite, -⟩ := hb.notices hmsg hx
    rw [hsite]
    simp
  cases h with
  | blocked => exact Or.inl rfl
  | noKey => exact Or.inl rfl
  | rejected => exact Or.inl rfl
  | tooShort => exact Or.inl rfl
  | badKey => exact Or.inl (honly _ (by simp))
  | keyed => exact Or.inl (honly _ (by simp))
  | @taken p s' uname payload ok => exact Or.inl (honly _ (by cases payload <;> simp))
  | named _ _ _ _ _ _ _ hb => exact Or.inl (hnotices hb (Or.inl rfl))
  | left _ _ _ _ hb => exact Or.inl (hnotices hb (Or.inr rfl))
  | @forwarded p s' sends hreg _ hto hnot =>
    by_cases hid : ∃ k d, Registered s k d ∧ d.session.conn = id
    · obtain ⟨k, d, hd, rfl⟩ := hid
      obtain ⟨ok, heq⟩ := hto k d hd
      rw [heq]
      by_cases hsrc : src = c.session.conn
      · exact Or.inr ⟨hreg, hsrc, by simp [CliChat.forwards, hsrc]⟩
      · exact Or.inl (forwards_eq_nil (by simp [Ne.symm hsrc]))
    · rw [hnot id fun k d hd hconn => hid ⟨k, d, hd, hconn⟩]
      exact Or.inl rfl

/-- STEP: every event, also one whose handler gets stuck. -/
theorem Relays.event (hs : Store s) (hc : Conversing na s) (h : Relays s) {e : Event}
    (hen : e.enabled s = true) : Relays (stateAfter na env e s) := by
  intro src id
  by_cases hclient : ∃ fd, e = .client fd
  · obtain ⟨fd, rfl⟩ := hclient
    obtain ⟨c, pkt, sends, hl, -, ht, ⟨T, htr, hto, hfrom⟩, -⟩ := client_talk env hs hen
    have htr' : (stateAfter na env (.client fd) s).trace =
        s.trace ++ (.dispatch c.session.conn :: T) := htr.trans (List.append_assoc ..)
    have hsends : packetsTo id (.dispatch c.session.conn :: T) = sends id := hto id
    rw [htr', packetsTo_append, hsends, forwards_append]
    rcases ht.relays src id with hnil | ⟨hreg, rfl, heq⟩
    · rw [hnil, List.append_nil]
      exact (h src id).trans (chat_mono (List.prefix_append _ _)).sublist
    · -- what a registered client sends is chat
      have hread : packetsFrom c.session.conn (.dispatch c.session.conn :: T) = pkt.toList :=
        (hfrom _).trans (if_pos rfl)
      have hlong := (hc.phases fd c hl).named hreg
      have hgrows : chat c.session.conn (s.trace ++ (.dispatch c.session.conn :: T)) =
          chat c.session.conn s.trace ++ pkt.toList := by
        have hne : dialogue c.session.conn s.trace ≠ [] := by
          intro hnil
          rw [hnil] at hlong
          simp at hlong
        rw [chat, dialogue_append_ne hne, hread, List.drop_append_of_le_length hlong]
        rfl
      rw [heq, hgrows]
      exact (h _ id).append (List.Sublist.refl _)
  · obtain ⟨⟨T, hT, hcloses⟩, -⟩ := other_adds na env hs fun fd he => hclient ⟨fd, he⟩
    obtain ⟨hto, -⟩ := mute_projections (mute_of_closes hcloses) id
    rw [hT, packetsTo_append, hto, List.append_nil]
    exact (h src id).trans (chat_mono (List.prefix_append _ _)).sublist

theorem Initial.relays (h : Initial s) : Relays s := by
  obtain ⟨listenfd, epollfd, pk, sk, gk, -, -, -, -, rfl⟩ := h
  exact fun src id => List.nil_sublist _

/-- INVARIANT: in every reachable state. -/
theorem Reach.relays (h : Reach na env s) (hseal : Seals na s.groupKey) : Relays s :=
  Reach.seals_invariant env (fun _ => Initial.relays)
    (fun _ _ hs _ hc hr hen => hr.event hs hc hen) h hseal

end relays

/-- A registered client, from what the map holds. -/
theorem RegisteredConn.of_lookup {s : Server} {fd : Fd} {id : ConnId}
    (h : (s.clients.lookup fd).map (fun c => (c.registered, c.session.conn)) = some (true, id)) :
    RegisteredConn s id := by
  obtain ⟨c, hl, heq⟩ := Option.map_eq_some_iff.mp h
  simp only [Prod.mk.injEq] at heq
  exact ⟨fd, c, ⟨hl, heq.1⟩, heq.2⟩

/-- Three clients have joined; the notice that a fourth joins cannot be sent to one of them, and
    another says something. The two that stay see both notices and the packet. -/
theorem same_conversation_cascade : ∃ s s' T,
    sampleRun [15] (joins 0 5 (ascii "al") ++ joins 1 6 (ascii "bo") ++ joins 2 7 (ascii "cy")) =
      some s ∧
    run (step Sodium.plain (Env.failing [15])) (joins 3 8 (ascii "di") ++
      packetFrom 1 6 (sampleSealed (ascii "bo: hi"))) s = some s' ∧
    s'.trace = s.trace ++ T ∧ itemsTo 0 T = itemsTo 1 T ∧
    itemsTo 1 T = [.notice (connectNotice (ascii "di")), .notice (disconnectNotice (ascii "cy")),
      .packet (sampleSealed (ascii "bo: hi"))] := by
  have hrun : (sampleRun [15] (joins 0 5 (ascii "al") ++ joins 1 6 (ascii "bo") ++
      joins 2 7 (ascii "cy"))).bind (fun s => (run (step Sodium.plain (Env.failing [15]))
        (joins 3 8 (ascii "di") ++ packetFrom 1 6 (sampleSealed (ascii "bo: hi"))) s).map fun s' =>
        ([s, s'].flatMap fun m => [5, 6].map fun fd =>
          (m.clients.lookup fd).map fun c => (c.registered, c.session.conn),
          itemsTo 1 (s'.trace.drop s.trace.length))) =
      some ([some (true, 0), some (true, 1), some (true, 0), some (true, 1)],
        [.notice (connectNotice (ascii "di")), .notice (disconnectNotice (ascii "cy")),
          .packet (sampleSealed (ascii "bo: hi"))]) := by decide +kernel
  obtain ⟨s, hs, hrest⟩ := Option.bind_eq_some_iff.mp hrun
  obtain ⟨s', hs', heq⟩ := Option.map_eq_some_iff.mp hrest
  simp only [List.flatMap_cons, List.flatMap_nil, List.map_cons, List.map_nil, List.append_nil,
    List.cons_append, List.nil_append, Prod.mk.injEq, List.cons.injEq, and_true] at heq
  obtain ⟨⟨h5, h6, h5', h6'⟩, hitems⟩ := heq
  obtain ⟨T, hT, hsame⟩ := same_conversation Sodium.plain (Env.failing [15]) (sampleRun_reach hs)
    hs' (.of_lookup h5) (.of_lookup h5') (.of_lookup h6) (.of_lookup h6')
  rw [hT, List.drop_left] at hitems
  exact ⟨s, s', T, hs, hs', hT, hsame, hitems⟩

end CliChat
