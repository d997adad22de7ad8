import CliChat.Server.Invariant
import CliChat.Server.Log

/-! @src server/src/server.cpp | name:BroadcastEncrypted | scheme:loop invariant

    What a broadcast with cascading disconnects does. The worklist loop of `broadcasted` keeps
    `Round`: the clients that left so far (`rs`) were registered and had a failed send, each was
    announced right after it left and got nothing more; who waits in the worklist and is still
    there had a failed send; whoever else is registered got the message and every announcement so
    far. With an empty worklist this is the whole story (`Departures`). -/

namespace CliChat

/-- The announcements of those who left, in order. -/
def notices (rs : List (Σ _ : Fd, ClientInfo)) : List Bytes :=
  rs.map fun r => disconnectNotice r.2.username

/-- Their removals, each followed by its announcement. -/
def departureLog (rs : List (Σ _ : Fd, ClientInfo)) : List Ev :=
  rs.flatMap fun r => [.erase r.1 r.2, .broadcast (disconnectNotice r.2.username)]

/-- `b` is not a send to a client that `a` removes. -/
def NotAfterErase (a b : Ev) : Prop := ∀ fd c, a = .erase fd c → b.isTo c.session.conn = false

/-- `msgs` were offered to `id` in this order, each once, and every send succeeded. -/
def ReceivedAll (id : ConnId) (msgs : List Bytes) (T : List Ev) : Prop :=
  boxesTo id T = msgs.map (fun m => (m, true)) ∧
    (packetsTo id T).map (fun x => (x.1, x.2.2)) = msgs.map fun m => (Site.secretbox m, true)

/-- `msg` was broadcast from `s` to `s'`, with the log `T`, and `rs` left in this order. -/
structure Departures (s : Server) (msg : Bytes) (s' : Server) (T : List Ev)
    (rs : List (Σ _ : Fd, ClientInfo)) : Prop where
  trace : s'.trace = s.trace ++ T
  /-- Those who left are the registered clients with a failed send, each once. -/
  removed : ∀ fd c, ⟨fd, c⟩ ∈ rs ↔
    Registered s fd c ∧ ∃ m, (m, false) ∈ boxesTo c.session.conn T
  nodup : (rs.map Sigma.fst).Nodup
  /-- The others stay as they were. -/
  left : ∀ fd c, s'.clients.lookup fd = some c ↔ s.clients.lookup fd = some c ∧ ⟨fd, c⟩ ∉ rs
  names : ∀ n, n ∈ s'.usernames ↔ n ∈ s.usernames ∧ ∀ r ∈ rs, r.2.username ≠ n
  /-- The broadcasts are the message and one announcement for each who left, after it left. -/
  announced : T.filter Ev.departs = .broadcast msg :: departureLog rs
  /-- Who left gets nothing more. -/
  after : T.Pairwise NotAfterErase
  survivors : ∀ fd c, Registered s' fd c → ReceivedAll c.session.conn (msg :: notices rs) T
  silent : ∀ fd c, s.clients.lookup fd = some c → c.registered = false →
    s'.clients.lookup fd = some c ∧ ∀ e ∈ T, e.isTo c.session.conn = false

/-- The part of the loop invariant that does not depend on the worklist. -/
structure Gone (s : Server) (t : Server) (T : List Ev) (rs : List (Σ _ : Fd, ClientInfo)) :
    Prop where
  store : Store t
  trace : t.trace = s.trace ++ T
  removed : ∀ r ∈ rs, Registered s r.1 r.2 ∧ ∃ m, (m, false) ∈ boxesTo r.2.session.conn T
  nodup : (rs.map Sigma.fst).Nodup
  left : ∀ fd c, t.clients.lookup fd = some c ↔ s.clients.lookup fd = some c ∧ ⟨fd, c⟩ ∉ rs
  erased : ∀ fd c, .erase fd c ∈ T → ⟨fd, c⟩ ∈ rs
  after : T.Pairwise NotAfterErase
  silent : ∀ fd c, s.clients.lookup fd = some c → c.registered = false →
    ∀ e ∈ T, e.isTo c.session.conn = false

/-- The descriptors `W` wait to be looked at in `t`, and everyone else has received `msgs`. -/
structure Waiting (W : List Fd) (msgs : List Bytes) (t : Server) (T : List Ev) : Prop where
  waiting : ∀ fd ∈ W, ∀ c, t.clients.lookup fd = some c →
    c.registered = true ∧ ∃ m, (m, false) ∈ boxesTo c.session.conn T
  others : ∀ fd c, Registered t fd c → fd ∉ W → ReceivedAll c.session.conn msgs T

/-- The loop invariant, before a disconnect. -/
structure Round (s : Server) (msg : Bytes) (W : List Fd) (t : Server) (T : List Ev)
    (rs : List (Σ _ : Fd, ClientInfo)) : Prop where
  gone : Gone s t T rs
  announced : T.filter Ev.departs = .broadcast msg :: departureLog rs
  waiting : Waiting W (msg :: notices rs) t T

/-! ### The log of a disconnect -/

/-- What `dropped` appends to the log. -/
def dropLog (fd : Fd) (c : ClientInfo) : List Ev :=
  [.lock true, .access fd true, .access fd true, .epollDel fd, .access fd true, .close fd,
    .access fd true, .access fd true] ++ (if c.registered then [.access fd true] else []) ++
    [.erase fd c, .unlock]

theorem dropped_log (s : Server) (fd : Fd) (c : ClientInfo) :
    (s.dropped fd c).trace = s.trace ++ dropLog fd c := rfl

theorem dropLog_departs (fd : Fd) (c : ClientInfo) :
    (dropLog fd c).filter Ev.departs = [.erase fd c] := by
  unfold dropLog
  split <;> rfl

theorem dropLog_isTo (fd : Fd) (c : ClientInfo) (id : ConnId) :
    ∀ e ∈ dropLog fd c, e.isTo id = false := by
  unfold dropLog
  split <;> simp [Ev.isTo]

theorem dropLog_after (fd : Fd) (c : ClientInfo) : (dropLog fd c).Pairwise NotAfterErase :=
  List.pairwise_of_forall_mem_list fun _ _ b hb _ d _ => dropLog_isTo fd c d.session.conn b hb

theorem mem_dropLog_erase {fd k : Fd} {c d : ClientInfo} (h : .erase k d ∈ dropLog fd c) :
    k = fd ∧ d = c := by
  have hmem : Ev.erase k d ∈ (dropLog fd c).filter Ev.departs := List.mem_filter.mpr ⟨h, rfl⟩
  rw [dropLog_departs, List.mem_singleton] at hmem
  cases hmem
  exact ⟨rfl, rfl⟩

theorem ReceivedAll.append {id : ConnId} {msgs msgs' : List Bytes} {T T' : List Ev}
    (h : ReceivedAll id msgs T) (h' : ReceivedAll id msgs' T') :
    ReceivedAll id (msgs ++ msgs') (T ++ T') := by
  obtain ⟨hb, hp⟩ := h
  obtain ⟨hb', hp'⟩ := h'
  exact ⟨by rw [boxesTo_append, hb, hb', List.map_append],
    by rw [packetsTo_append, List.map_append, hp, hp', List.map_append]⟩

theorem ReceivedAll.of_silent {id : ConnId} {T : List Ev} (h : ∀ e ∈ T, e.isTo id = false) :
    ReceivedAll id [] T := by
  obtain ⟨hb, hp⟩ := projections_nil h
  rw [ReceivedAll, hb, hp]
  exact ⟨rfl, rfl⟩

/-! ### The rounds -/

section rounds

variable {na : Sodium} {env : ReturningEnv} {s t t' : Server} {msg m : Bytes} {W L : List Fd}
  {msgs : List Bytes} {T P : List Ev} {rs : List (Σ _ : Fd, ClientInfo)}

/-- The targets of a pass are clients that have not left. -/
theorem Gone.pass (hs : Store s) (h : Gone s t T rs) (hsend : SendsOnly t t')
    (htr : t'.trace = t.trace ++ P) (hP : Pass t m L P) : Gone s t' (T ++ P) rs := by
  have hold : ∀ fd c, Registered t fd c → s.clients.lookup fd = some c ∧ ⟨fd, c⟩ ∉ rs :=
    fun fd c hc => (h.left fd c).mp hc.1
  have hnoerase : ∀ fd c, .erase fd c ∉ P := by
    intro fd c hmem
    have hf : Ev.erase fd c ∈ P.filter Ev.departs := List.mem_filter.mpr ⟨hmem, rfl⟩
    rw [hP.departs, List.mem_singleton] at hf
    cases hf
  refine ⟨h.store.sendsOnly hsend, ?_, ?_, h.nodup, ?_, ?_, ?_, ?_⟩
  · rw [htr, h.trace, List.append_assoc]
  · intro r hr
    obtain ⟨hreg, n, hn⟩ := h.removed r hr
    exact ⟨hreg, n, by rw [boxesTo_append]; exact List.mem_append_left _ hn⟩
  · intro fd c
    rw [hsend.clients]
    exact h.left fd c
  · intro fd c hmem
    rcases List.mem_append.mp hmem with hmem | hmem
    · exact h.erased fd c hmem
    · exact absurd hmem (hnoerase fd c)
  · rw [List.pairwise_append]
    refine ⟨h.after, ?_, ?_⟩
    · refine List.pairwise_of_forall_mem_list fun a ha b _ fd c heq => ?_
      exact absurd (heq ▸ ha) (hnoerase fd c)
    · rintro a ha b hb fd c rfl
      by_contra hto
      obtain ⟨k, d, hd, hconn⟩ := hP.only b hb _ (by simpa using hto)
      have hgone := h.erased fd c ha
      obtain ⟨hl, hnot⟩ := hold k d hd
      obtain ⟨rfl, rfl⟩ := hs.table.conn_inj hl (h.removed _ hgone).1.1 hconn
      exact hnot hgone
  · intro fd c hl hreg e he
    rcases List.mem_append.mp he with he | he
    · exact h.silent fd c hl hreg e he
    · by_contra hto
      obtain ⟨k, d, hd, hconn⟩ := hP.only e he _ (by simpa using hto)
      obtain ⟨rfl, rfl⟩ := hs.table.conn_inj (hold k d hd).1 hl hconn
      rw [hd.2] at hreg
      cases hreg

/-- A pass appends its message for those it reaches, and its failures to the worklist. -/
theorem Waiting.pass (hw : Waiting W msgs t T) (hsend : SendsOnly t t') (hP : Pass t m L P) :
    Waiting (L ++ W) (msgs ++ [m]) t' (T ++ P) where
  waiting := by
    intro fd hfd c hl
    rw [hsend.clients] at hl
    rw [boxesTo_append]
    rcases List.mem_append.mp hfd with hfd | hfd
    · obtain ⟨d, hd⟩ := hP.listed fd hfd
      obtain rfl : d = c := Option.some.inj (hd.1.symm.trans hl)
      refine ⟨hd.2, m, List.mem_append_right _ ?_⟩
      rw [hP.failed fd d hd hfd]
      exact List.mem_singleton_self _
    · obtain ⟨hreg, n, hn⟩ := hw.waiting fd hfd c hl
      exact ⟨hreg, n, List.mem_append_left _ hn⟩
  others := by
    intro fd c hc hfd
    have hc' : Registered t fd c := by
      rw [Registered, ← hsend.clients]
      exact hc
    rw [List.mem_append, not_or] at hfd
    exact (hw.others fd c hc' hfd.2).append (hP.reached fd c hc' hfd.1)

/-- A disconnect moves the client from the worklist to those who left. -/
theorem Gone.dropped (h : Gone s t T rs) {fd : Fd} {c : ClientInfo}
    (hl : t.clients.lookup fd = some c) (hreg : c.registered = true)
    (hfail : ∃ m, (m, false) ∈ boxesTo c.session.conn T) :
    Gone s (t.dropped fd c) (T ++ dropLog fd c) (rs ++ [⟨fd, c⟩]) := by
  obtain ⟨hls, hnot⟩ := (h.left fd c).mp hl
  have hnofd : fd ∉ rs.map Sigma.fst := by
    intro hmem
    obtain ⟨r, hr, rfl⟩ := List.mem_map.mp hmem
    obtain rfl : r.2 = c := Option.some.inj ((h.removed r hr).1.1.symm.trans hls)
    exact hnot hr
  refine ⟨h.store.dropped hl, ?_, ?_, ?_, ?_, ?_, ?_, ?_⟩
  · rw [dropped_log, h.trace, List.append_assoc]
  · intro r hr
    rw [boxesTo_append]
    rcases List.mem_append.mp hr with hr | hr
    · obtain ⟨hreg, n, hn⟩ := h.removed r hr
      exact ⟨hreg, n, List.mem_append_left _ hn⟩
    · rw [List.mem_singleton] at hr
      subst hr
      obtain ⟨n, hn⟩ := hfail
      exact ⟨⟨hls, hreg⟩, n, List.mem_append_left _ hn⟩
  · rw [List.map_append, List.map_singleton]
    exact h.nodup.append (List.nodup_singleton _) (by simpa using hnofd)
  · intro k d
    rw [Server.dropped_clients, List.mem_append, not_or, List.mem_singleton]
    by_cases hk : k = fd
    · subst hk
      rw [AList.lookup_erase]
      constructor
      · intro hd
        cases hd
      · rintro ⟨hd, -, hne⟩
        obtain rfl : d = c := Option.some.inj (hd.symm.trans hls)
        exact absurd rfl hne
    · rw [AList.lookup_erase_ne hk, h.left k d]
      constructor
      · rintro ⟨hd, hmem⟩
        exact ⟨hd, hmem, fun heq => hk (congrArg Sigma.fst heq)⟩
      · rintro ⟨hd, hmem, -⟩
        exact ⟨hd, hmem⟩
  · intro k d hmem
    rcases List.mem_append.mp hmem with hmem | hmem
    · exact List.mem_append_left _ (h.erased k d hmem)
    · obtain ⟨rfl, rfl⟩ := mem_dropLog_erase hmem
      exact List.mem_append_right _ (List.mem_singleton_self _)
  · rw [List.pairwise_append]
    exact ⟨h.after, dropLog_after fd c, fun _ _ b hb _ d _ => dropLog_isTo fd c _ b hb⟩
  · intro k d hd hdreg e he
    rcases List.mem_append.mp he with he | he
    · exact h.silent k d hd hdreg e he
    · exact dropLog_isTo fd c _ e he

theorem Waiting.dropped {fd : Fd} {rest : List Fd} (hw : Waiting (fd :: rest) msgs t T)
    (c : ClientInfo) : Waiting rest msgs (t.dropped fd c) (T ++ dropLog fd c) where
  waiting := by
    intro k hk d hd
    obtain ⟨hreg, n, hn⟩ :=
      hw.waiting k (List.mem_cons_of_mem _ hk) d ((Shrinks.dropped t fd c).lookup hd)
    exact ⟨hreg, n, by rw [boxesTo_append]; exact List.mem_append_left _ hn⟩
  others := by
    intro k d hd hk
    obtain ⟨hne, hd⟩ := Store.registered_dropped.mp hd
    have hrec := (hw.others k d hd (by simp [hne, hk])).append
      (ReceivedAll.of_silent (dropLog_isTo fd c d.session.conn))
    rwa [List.append_nil] at hrec

variable (na env)

/-- START: the pass of the message itself. -/
theorem Round.start (hs : Store s) (msg : Bytes) :
    ∃ T, Round s msg ((cascade na env).send msg s).1 ((cascade na env).send msg s).2 T [] := by
  obtain ⟨hsend, P, hP, htr⟩ := cascade_pass na env hs.table msg
  have hgone : Gone s s [] [] :=
    ⟨hs, by simp, by simp, by simp, by simp, by simp, List.Pairwise.nil, by simp⟩
  have hwait : Waiting [] [] s [] :=
    ⟨by simp, fun fd c _ _ => ReceivedAll.of_silent (by simp)⟩
  have hround := hwait.pass hsend hP
  rw [List.append_nil] at hround
  exact ⟨P, hgone.pass hs hsend htr hP, hP.departs, hround⟩

/-- STEP: one disconnect of the worklist, with its announcement. -/
theorem Round.next (hs : Store s) {fd : Fd} {rest : List Fd} {c : ClientInfo}
    (h : Round s msg (fd :: rest) t T rs) (hl : t.clients.lookup fd = some c) :
    ∃ T', Round s msg
      (((cascade na env).send (disconnectNotice c.username) (t.dropped fd c)).1 ++ rest)
      ((cascade na env).send (disconnectNotice c.username) (t.dropped fd c)).2 T'
      (rs ++ [⟨fd, c⟩]) := by
  obtain ⟨hreg, hfail⟩ := h.waiting.waiting fd List.mem_cons_self c hl
  have hgone := h.gone.dropped hl hreg hfail
  have hwait := h.waiting.dropped c
  obtain ⟨hsend, P, hP, htr⟩ :=
    cascade_pass na env hgone.store.table (disconnectNotice c.username)
  refine ⟨T ++ dropLog fd c ++ P, hgone.pass hs hsend htr hP, ?_, ?_⟩
  · rw [List.filter_append, List.filter_append, h.announced, dropLog_departs, hP.departs]
    simp [departureLog]
  · have hmsgs : msg :: notices (rs ++ [⟨fd, c⟩]) =
        (msg :: notices rs) ++ [disconnectNotice c.username] := by simp [notices]
    rw [hmsgs]
    exact hwait.pass hsend hP

/-- STEP: an entry of the worklist that has left meanwhile. -/
theorem Round.absent {fd : Fd} {rest : List Fd} (h : Round s msg (fd :: rest) t T rs)
    (hl : t.clients.lookup fd = none) : Round s msg rest t T rs := by
  refine ⟨h.gone, h.announced, fun k hk => h.waiting.waiting k (List.mem_cons_of_mem _ hk), ?_⟩
  intro k d hd hk
  refine h.waiting.others k d hd ?_
  rw [List.mem_cons, not_or]
  refine ⟨?_, hk⟩
  rintro rfl
  rw [hd.1] at hl
  cases hl

/-- END: with nobody waiting, the invariant is the result. -/
theorem Round.departures (hs : Store s) (h : Round s msg [] t T rs) :
    Departures s msg t T rs where
  trace := h.gone.trace
  removed := by
    intro fd c
    constructor
    · exact fun hmem => h.gone.removed _ hmem
    · rintro ⟨hc, m, hm⟩
      by_contra hnot
      have hreg : Registered t fd c := ⟨(h.gone.left fd c).mpr ⟨hc.1, hnot⟩, hc.2⟩
      rw [(h.waiting.others fd c hreg (by simp)).1] at hm
      simp at hm
  nodup := h.gone.nodup
  left := h.gone.left
  names := by
    intro n
    rw [h.gone.store.names, hs.names]
    constructor
    · rintro ⟨fd, c, hc, rfl⟩
      obtain ⟨hl, hnot⟩ := (h.gone.left fd c).mp hc.1
      refine ⟨⟨fd, c, ⟨hl, hc.2⟩, rfl⟩, ?_⟩
      rintro ⟨k, d⟩ hd heq
      have hdreg := (h.gone.removed _ hd).1
      obtain rfl := hs.unique k fd d c hdreg ⟨hl, hc.2⟩ heq
      obtain rfl : d = c := Option.some.inj (hdreg.1.symm.trans hl)
      exact hnot hd
    · rintro ⟨⟨fd, c, hc, rfl⟩, hall⟩
      exact ⟨fd, c, ⟨(h.gone.left fd c).mpr ⟨hc.1, fun hmem => hall _ hmem rfl⟩, hc.2⟩, rfl⟩
  announced := h.announced
  after := h.gone.after
  survivors := fun fd c hc => h.waiting.others fd c hc (by simp)
  silent := by
    intro fd c hl hreg
    refine ⟨(h.gone.left fd c).mpr ⟨hl, fun hmem => ?_⟩, h.gone.silent fd c hl hreg⟩
    rw [(h.gone.removed _ hmem).1.2] at hreg
    cases hreg

/-- CORRECT: a broadcast and the disconnects it causes, from any state of the store. -/
theorem broadcasted_departures (hs : Store s) (msg : Bytes) :
    ∃ T rs, Departures s msg (s.broadcasted na env msg) T rs := by
  have hloop : ∃ T rs, Round s msg [] (s.broadcasted na env msg) T rs := by
    refine broadcasted_invariant na env (I := fun W t => ∃ T rs, Round s msg W t T rs) ?_ ?_ ?_ ?_
    · obtain ⟨T, h⟩ := Round.start na env hs msg
      exact ⟨T, [], h⟩
    · rintro fd rest t ⟨T, rs, h⟩ hl
      exact ⟨T, rs, h.absent hl⟩
    · rintro fd rest t c ⟨T, rs, h⟩ hl hreg
      rw [(h.waiting.waiting fd List.mem_cons_self c hl).1] at hreg
      cases hreg
    · rintro fd rest t c ⟨T, rs, h⟩ hl -
      obtain ⟨T', h'⟩ := Round.next na env hs h hl
      exact ⟨T', _, h'⟩
  obtain ⟨T, rs, h⟩ := hloop
  exact ⟨T, rs, h.departures hs⟩

/-- From `s` to `s'` the log grows by `T`, whose packets are its broadcast messages, sealed, to
    clients that were registered. -/
structure Announces (na : Sodium) (s s' : Server) (T : List Ev) : Prop where
  trace : s'.trace = s.trace ++ T
  groupKey : s'.groupKey = s.groupKey
  registered : ∀ fd c, Registered s' fd c → Registered s fd c
  packets : ∀ id, ∀ x ∈ packetsTo id T, (∃ fd c, Registered s fd c ∧ c.session.conn = id) ∧
    ∃ m, .broadcast m ∈ T ∧ x.1 = .secretbox m ∧ SealedBox na s.groupKey m (some x.2.1)
  reads : ∀ id, packetsFrom id T = []
  /-- Where sealing does not fail, a failed box is a failed send. -/
  failed : Seals na s.groupKey → ∀ id m, (m, false) ∈ boxesTo id T →
    ∃ x ∈ packetsTo id T, x.2.2 = false

theorem Announces.trans {na : Sodium} {a b c : Server} (h : Announces na a b T)
    (k : Announces na b c P) : Announces na a c (T ++ P) where
  trace := by rw [k.trace, h.trace, List.append_assoc]
  groupKey := k.groupKey.trans h.groupKey
  registered := fun fd d hd => h.registered fd d (k.registered fd d hd)
  packets := by
    intro id x hx
    rw [packetsTo_append] at hx
    rcases List.mem_append.mp hx with hx | hx
    · obtain ⟨hto, m, hm, hsealed⟩ := h.packets id x hx
      exact ⟨hto, m, List.mem_append_left _ hm, hsealed⟩
    · obtain ⟨⟨fd, d, hd, hid⟩, m, hm, hsite, hsealed⟩ := k.packets id x hx
      exact ⟨⟨fd, d, h.registered fd d hd, hid⟩, m, List.mem_append_right _ hm, hsite,
        h.groupKey ▸ hsealed⟩
  reads := fun id => by rw [packetsFrom_append, h.reads, k.reads, List.append_nil]
  failed := by
    intro hseal id m hm
    rw [boxesTo_append] at hm
    rw [packetsTo_append]
    rcases List.mem_append.mp hm with hm | hm
    · obtain ⟨x, hx, hfalse⟩ := h.failed hseal id m hm
      exact ⟨x, List.mem_append_left _ hx, hfalse⟩
    · obtain ⟨x, hx, hfalse⟩ := k.failed (h.groupKey ▸ hseal) id m hm
      exact ⟨x, List.mem_append_right _ hx, hfalse⟩

/-- A broadcast sends nothing but its message and the announcements it leads to. -/
theorem broadcasted_announces (msg : Bytes) (s : Server) :
    ∃ T, Announces na s (s.broadcasted na env msg) T := by
  refine broadcasted_relation na env (R := fun s s' => ∃ T, Announces na s s' T)
    (fun _ _ _ ⟨_, h⟩ ⟨_, k⟩ => ⟨_, h.trans k⟩) ?_ ?_ msg s
  · intro m t
    obtain ⟨hsend, boxes, hpass, htr⟩ := cascade_send na env m t
    refine ⟨_, htr, hsend.groupKey, fun fd c hc => ?_, fun id x hx => ?_, fun id => ?_,
      fun hseal id m' hm => ?_⟩
    · rwa [Registered, hsend.clients] at hc
    · change x ∈ packetsTo id (boxes.flatMap (Box.events m)) at hx
      rw [packetsTo_flatMap] at hx
      obtain ⟨b, hb, hx⟩ := List.mem_flatMap.mp hx
      rw [Box.events, packetsTo_boxEvents] at hx
      split at hx
      · rename_i hconn
        obtain ⟨p, hp, rfl⟩ := Option.map_eq_some_iff.mp (Option.mem_toList.mp hx)
        exact ⟨⟨b.fd, b.client, (mem_boxes hpass).mp ⟨b, hb, rfl⟩, hconn⟩, m, List.mem_cons_self,
          rfl, hp ▸ hpass.sealed b hb⟩
      · cases hx
    · change packetsFrom id (boxes.flatMap (Box.events m)) = []
      rw [packetsFrom, List.filterMap_flatMap]
      exact List.flatMap_eq_nil_iff.mpr fun b _ => packetsFrom_boxEvents ..
    · change (m', false) ∈ boxesTo id (boxes.flatMap (Box.events m)) at hm
      change ∃ x ∈ packetsTo id (boxes.flatMap (Box.events m)), x.2.2 = false
      rw [boxesTo_flatMap] at hm
      rw [packetsTo_flatMap]
      obtain ⟨b, hb, hm⟩ := List.mem_flatMap.mp hm
      obtain ⟨q, hq⟩ := hseal.payload (hpass.sealed b hb)
      rw [Box.events, boxesTo_boxEvents] at hm
      split at hm
      · rename_i hconn
        rw [List.mem_singleton, Prod.mk.injEq] at hm
        refine ⟨(.secretbox m, q, b.ok), List.mem_flatMap.mpr ⟨b, hb, ?_⟩, hm.2.symm⟩
        rw [Box.events, packetsTo_boxEvents, if_pos hconn, hq]
        exact List.mem_singleton_self _
      · cases hm
  · intro t fd c _
    have hnil : ∀ id, packetsTo id (dropLog fd c) = [] :=
      fun id => (projections_nil (dropLog_isTo fd c id)).2
    refine ⟨dropLog fd c, dropped_log t fd c, rfl,
      fun k d hd => (Store.registered_dropped.mp hd).2, fun id x hx => ?_, fun id => ?_,
      fun _ id m hm => ?_⟩
    · rw [hnil] at hx
      cases hx
    · refine packetsFrom_eq_nil id ?_
      unfold dropLog
      split <;> simp [Ev.packetFrom]
    · rw [(projections_nil (dropLog_isTo fd c id)).1] at hm
      cases hm

/-- From every reachable state and for every message, `BroadcastEncrypted` returns if its sends do
    (any bound on the depth of its recursion that exceeds the number of clients gives this result),
    and what it did is described by `Departures`. -/
theorem broadcast_departures (h : Reach na env s) (msg : Bytes) :
    (∀ fuel, s.clients.entries.length < fuel →
      broadcastEncrypted na env fuel msg s = .ok () (s.broadcasted na env msg)) ∧
    (s.broadcasted na env msg).clientsMutex = false ∧
    ∃ T rs, Departures s msg (s.broadcasted na env msg) T rs := by
  have hs := h.store na env
  refine ⟨fun fuel hfuel => ?_, (broadcast_eq na env hs.toReady msg).2.free,
    broadcasted_departures na env hs msg⟩
  exact (broadcastEncrypted_eq na env fuel msg s _ hs.toReady
    ((cascade na env).broadcast_eq_purge fuel msg s hfuel)).1

end rounds

/-- `BroadcastEncrypted` returns, under every bound on the depth of its recursion that exceeds the
    number of clients, with the mutex free, and what it did is described by `Departures`. -/
def Departs (na : Sodium) (env : Env) (s : Server) (msg : Bytes) : Prop :=
  ∃ s' T rs, (∀ fuel, s.clients.entries.length < fuel →
    broadcastEncrypted na env fuel msg s = .ok () s') ∧
    s'.clientsMutex = false ∧ Departures s msg s' T rs

/-- BROADCAST: from every reachable state and for every message, `BroadcastEncrypted` does what it
    should exactly when every `send` that it comes to returns; otherwise it stops in one. -/
theorem broadcast_departures_iff {na : Sodium} {env : Env} {s : Server} (h : Reach na env s)
    (msg : Bytes) :
    (Departs na env s msg ↔
      env.SendsReturn s.kernel.sends (s.broadcasted na env.returning msg).kernel.sends) ∧
    (¬ Departs na env s msg → ∀ fuel, s.clients.entries.length < fuel →
      ∃ how t, broadcastEncrypted na env fuel msg s = .error (.send how) t) := by
  obtain ⟨hok, hfree, T, rs, hd⟩ := broadcast_departures na env.returning h.returning msg
  have hmirrors := fun fuel => Mirrors.broadcastEncrypted env na fuel msg
  have hreturns : env.SendsReturn s.kernel.sends
      (s.broadcasted na env.returning msg).kernel.sends → Departs na env s msg := by
    refine fun hret => ⟨_, T, rs, fun fuel hfuel => ?_, hfree, hd⟩
    have hsame := (hmirrors fuel).same s
    rw [hok fuel hfuel] at hsame
    exact hsame hret
  have hstops : ¬ env.SendsReturn s.kernel.sends
      (s.broadcasted na env.returning msg).kernel.sends → ∀ fuel,
      s.clients.entries.length < fuel →
      ∃ how t, broadcastEncrypted na env fuel msg s = .error (.send how) t := by
    intro hno fuel hfuel
    have hstop := (hmirrors fuel).stops s
    rw [hok fuel hfuel] at hstop
    obtain ⟨how, t, -, herr, -⟩ := hstop hno
    exact ⟨how, t, herr⟩
  refine ⟨⟨?_, hreturns⟩, fun hno => hstops fun hret => hno (hreturns hret)⟩
  rintro ⟨s', -, -, hok', -, -⟩
  by_contra hno
  obtain ⟨how, t, herr⟩ := hstops hno _ (Nat.lt_succ_self _)
  rw [hok' _ (Nat.lt_succ_self _)] at herr
  cases herr

/-- Three clients; the send to the second fails, and the announcement of its departure fails for the
    third. Only the first is left. -/
theorem broadcast_departures_three : ∃ s s' T rs,
    sampleRun [13, 16] (joins 0 5 (ascii "al") ++ joins 1 6 (ascii "bo") ++
      joins 2 7 (ascii "cy")) = some s ∧
    Departures s (ascii "hi") s' T rs ∧ s'.clients.keys = [7] := by
  have hrun : (sampleRun [13, 16] (joins 0 5 (ascii "al") ++ joins 1 6 (ascii "bo") ++
      joins 2 7 (ascii "cy"))).map (fun s => (s.clients.entries.length,
        ((broadcastEncrypted Sodium.plain (Env.failing [13, 16]) 4 (ascii "hi")).result s).map
          fun x => x.2.clients.keys)) = some (3, some [7]) := by decide +kernel
  obtain ⟨s, hs, hkeys⟩ := Option.map_eq_some_iff.mp hrun
  obtain ⟨hlength, hleft⟩ := Prod.mk.inj hkeys
  have hreturn := (ReturningEnv.failing [13, 16]).sendsReturn s.kernel.sends
    (s.broadcasted Sodium.plain (Env.failing [13, 16]).returning (ascii "hi")).kernel.sends
  obtain ⟨s', T, rs, hok, -, hd⟩ :=
    (broadcast_departures_iff (sampleRun_reach hs) (ascii "hi")).1.mpr hreturn
  rw [ServerM.result_eq_some.mpr (hok 4 (by omega))] at hleft
  exact ⟨s, s', T, rs, hs, hd, Option.some.inj hleft⟩

/-- Three clients, of which two have reset their connections. Both sends fail; the departure of the
    third is announced to the second, whose connection is gone, and the server is killed. -/
theorem reset_peers_kill : ¬ ∀ s, Reach Sodium.plain (Env.stopping [12, 13] 15 .killed) s →
    ∀ msg, Departs Sodium.plain (Env.stopping [12, 13] 15 .killed) s msg := by
  intro hall
  have hrun : (Transition.run (step Sodium.plain (Env.stopping [12, 13] 15 .killed))
      (joins 0 5 (ascii "al") ++ joins 1 6 (ascii "bo") ++ joins 2 7 (ascii "cy"))
      sampleServer).map
      (fun s => (s.clients.entries.length,
        (broadcastEncrypted Sodium.plain (Env.stopping [12, 13] 15 .killed) 4
          (ascii "hi")).fault s)) = some (3, some (.send .killed)) := by decide +kernel
  obtain ⟨s, hs, heq⟩ := Option.map_eq_some_iff.mp hrun
  obtain ⟨hlength, hfault⟩ := Prod.mk.inj heq
  obtain ⟨t, ht⟩ := ServerM.fault_eq_some.mp hfault
  obtain ⟨s', -, -, hok, -, -⟩ := hall s ⟨_, _, sampleServer_initial, hs⟩ (ascii "hi")
  rw [hok 4 (by omega)] at ht
  cases ht

end CliChat
