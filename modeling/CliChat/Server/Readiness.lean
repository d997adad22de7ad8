import CliChat.Server.EventLoop
import CliChat.Server.Sockets

/-! @src server/src/server.cpp | name:EventLoop, HandleClientEvent | scheme:readiness

    What an event that epoll reports is taken for. The descriptor is readable: the handler expects a
    whole packet or the end of the stream (`readable_waits_iff`). The stream has ended: the handler
    expects to be the last for this connection (`dead_removed_iff`). The descriptor is the one that
    was reported: the loop expects it to belong to the same connection (`dispatch_owner_iff`).

        batch  [5, listener, 6]   5 leaves, and its announcement fails for 6
               [listener, 6]      accept returns 5 and 6 again
               [6]                found: but it is another connection -/

namespace CliChat

open Transition

variable (na : Sodium) {env : ReturningEnv} {s s' : Server} {fd : Fd} {c : ClientInfo}

/-! ### A readable descriptor -/

/-- The handler waits when its `RecvPacket` does. -/
theorem Outcome.waits_iff {r : EStateM.Result Fault Server Unit} (hout : Outcome na env s fd c r) :
    (∀ t, r ≠ .error .blocked t) ↔
      recvPacket (s.kernel.conns c.session.conn).toServer ≠ .blocks := by
  have hread : ∀ {r : EStateM.Result Fault Server Unit} {pkt ch},
      recvPacket (s.kernel.conns c.session.conn).toServer = .done pkt ch →
      (∀ t, r ≠ .error .blocked t) → ((∀ t, r ≠ .error .blocked t) ↔
        recvPacket (s.kernel.conns c.session.conn).toServer ≠ .blocks) := by
    intro r pkt ch hd hr
    exact iff_of_true hr (by rw [hd]; simp)
  cases hout with
  | blocked hb => exact iff_of_false (fun hall => hall _ rfl) (fun hne => hne hb)
  | noKey _ hd => exact hread hd (by simp)
  | badKey _ hd => exact hread hd (by simp)
  | keyed _ hd => exact hread hd (by simp)
  | rejected _ hd => exact hread hd (by simp)
  | tooShort _ _ hd => exact hread hd (by simp)
  | taken _ _ hd => exact hread hd (by simp)
  | named _ _ hd => exact hread hd (by simp)
  | forwarded _ _ hd => exact hread hd (by simp)

variable (env : Env)

/-- READABLE: in every reachable state, the handler of a client event waits in no `recv` exactly when
    the stream of the client has ended or starts with a whole frame. -/
theorem readable_waits_iff (h : Reach na env s) (hen : (Event.client fd).enabled s = true)
    (hl : s.clients.lookup fd = some c) :
    (∀ t, handle na env (.client fd) s ≠ .error .blocked t) ↔
      (s.kernel.conns c.session.conn).toServer.ending ≠ .alive ∨
        HoldsFrame (s.kernel.conns c.session.conn).toServer.bytes := by
  obtain ⟨d, hd, hout⟩ := client_outcome na env.returning (h.store na env) hen
  obtain rfl : d = c := Option.some.inj (hd.symm.trans hl)
  have hwaits : (∀ t, handle na env (.client fd) s ≠ .error .blocked t) ↔
      recvPacket (s.kernel.conns d.session.conn).toServer ≠ .blocks := by
    by_cases hret : SendsReturn na env (.client fd) s
    · rw [hret.handle]
      exact hout.waits_iff
    · -- a handler that waits in `recv` has sent nothing
      obtain ⟨how, t, -, herr, -⟩ := handle_stops hret
      refine iff_of_true (fun u hu => by cases herr.symm.trans hu) fun hb => hret ?_
      have hblocked : ∃ u, handle na env.returning (.client fd) s = .error .blocked u := by
        by_contra hno
        exact hout.waits_iff.mp (fun u hu => hno ⟨u, hu⟩) hb
      obtain ⟨u, hu⟩ := hblocked
      rw [hu] at hout
      rw [SendsReturn, stateAfter_eq, hu]
      cases hout with
      | blocked => exact Env.SendsReturn.self
  rw [hwaits, ne_eq, recvPacket_blocks_iff, not_and_or, not_not]

/-- A client whose key has arrived is served. -/
theorem readable_waits_key : ∃ s, sampleRun [] [.listener [.conn 5 true .none [] []],
      .net (.arrive 0 (wire (List.replicate boxPublicKeyBytes 5)))] = some s ∧
    ∀ t, handle Sodium.plain (Env.failing []) (.client 5) s ≠ .error .blocked t := by
  have hrun : (sampleRun [] [.listener [.conn 5 true .none [] []],
      .net (.arrive 0 (wire (List.replicate boxPublicKeyBytes 5)))]).map
      (fun s => ((Event.client 5).enabled s, (s.clients.lookup 5).map fun c =>
        (s.kernel.conns c.session.conn).toServer.bytes)) =
      some (true, some (wire (List.replicate boxPublicKeyBytes 5))) := by
    decide +kernel
  obtain ⟨s, hs, heq⟩ := Option.map_eq_some_iff.mp hrun
  rw [Prod.mk.injEq] at heq
  obtain ⟨c, hl, hbytes⟩ := Option.map_eq_some_iff.mp heq.2
  have hframe : HoldsFrame (s.kernel.conns c.session.conn).toServer.bytes :=
    ⟨List.replicate boxPublicKeyBytes 5, [], by decide, by rw [hbytes, List.append_nil]; rfl⟩
  exact ⟨s, hs, (readable_waits_iff Sodium.plain (Env.failing []) (sampleRun_reach hs) heq.1 hl).mpr
    (Or.inr hframe)⟩

/-- Two clients have joined; the first sends two bytes of a header and stays silent. Its handler
    waits, and the second is not served. -/
theorem half_header_waits : ¬ ∀ s, Reach Sodium.plain (Env.failing []) s → ∀ fd c,
    (Event.client fd).enabled s = true → s.clients.lookup fd = some c →
    (s.kernel.conns c.session.conn).toServer.bytes ≠ [] →
    ∀ t, handle Sodium.plain (Env.failing []) (.client fd) s ≠ .error .blocked t := by
  intro hall
  have hrun : (sampleRun [] (joins 0 5 (ascii "al") ++ joins 1 6 (ascii "bo") ++
      [.net (.arrive 0 [0, 0])])).map (fun s => ((Event.client 5).enabled s,
        (s.clients.lookup 5).map fun c => (s.kernel.conns c.session.conn).toServer.bytes,
        (handle Sodium.plain (Env.failing []) (.client 5)).fault s)) =
      some (true, some [0, 0], some .blocked) := by decide +kernel
  obtain ⟨s, hs, heq⟩ := Option.map_eq_some_iff.mp hrun
  simp only [Prod.mk.injEq] at heq
  obtain ⟨hen, hbytes, hres⟩ := heq
  obtain ⟨c, hl, hc⟩ := Option.map_eq_some_iff.mp hbytes
  obtain ⟨t, hr⟩ := ServerM.fault_eq_some.mp hres
  exact hall s (sampleRun_reach hs) 5 c hen hl (by rw [hc]; simp) t hr

/-! ### A connection that has ended -/

/-- The descriptor is in none of the three views. -/
def Removed (s : Server) (fd : Fd) : Prop :=
  fd ∉ s.clients ∧ s.kernel.fds fd = none ∧ fd ∉ s.kernel.epoll

/-- The map decides. -/
theorem Matched.removed_iff (h : Matched s) (hfd : fd ≠ s.listenfd) :
    Removed s fd ↔ fd ∉ s.clients := by
  refine ⟨fun hr => hr.1, fun hnot => ⟨hnot, ?_, ?_⟩⟩
  · rw [h.sockets] at hnot
    simpa using hnot
  · rw [h.epoll]
    rintro (hk | hk)
    · exact hnot hk
    · exact hfd hk

/-- DEAD: in every reachable state, the handler that finds the connection of its client closed or
    failed returns if its sends do, and when it has returned, the connection is removed exactly when
    its keys had been exchanged. -/
theorem dead_removed_iff (h : Reach na env s) (hen : (Event.client fd).enabled s = true)
    (hl : s.clients.lookup fd = some c) {ch : Chan}
    (hdead : recvPacket (s.kernel.conns c.session.conn).toServer = .done none ch) :
    ((∃ s', handle na env (.client fd) s = .ok () s') ↔ SendsReturn na env (.client fd) s) ∧
    ∀ s', handle na env (.client fd) s = .ok () s' →
      (Removed s' fd ↔ c.keyExchanged = true) := by
  have hs := h.store na env
  obtain ⟨hrun, -, hfd⟩ := enabled_client.mp hen
  have hmatched := (h.matched na env hrun).event na env.returning hs hen (by simp)
  have hremoved : Removed (stateAfter na env.returning (.client fd) s) fd ↔
      fd ∉ (stateAfter na env.returning (.client fd) s).clients :=
    hmatched.removed_iff (by rw [(client_shuts na env.returning hs hen).listenfd]; exact hfd)
  obtain ⟨d, hd, hout⟩ := client_outcome na env.returning hs hen
  obtain rfl : d = c := Option.some.inj (hd.symm.trans hl)
  rw [stateAfter_eq] at hremoved
  have hread : ∀ {pkt ch'}, recvPacket (s.kernel.conns d.session.conn).toServer = .done pkt ch' →
      pkt = none := by
    intro pkt ch' hd'
    cases hdead.symm.trans hd'
    rfl
  have hdone : ∃ s', handle na env.returning (.client fd) s = .ok () s' ∧
      (Removed s' fd ↔ d.keyExchanged = true) := by
    generalize handle na env.returning (.client fd) s = r at hout hremoved
    cases hout with
    | blocked hb => cases hdead.symm.trans hb
    | noKey hk _ _ =>
      refine ⟨_, rfl, hremoved.trans ?_⟩
      rw [hk]
      exact iff_of_false (fun hnot => hnot (AList.mem_of_lookup hl)) Bool.false_ne_true
    | badKey _ hr => cases hread hr
    | keyed _ hr => cases hread hr
    | rejected hk _ _ =>
      refine ⟨_, rfl, hremoved.trans ?_⟩
      exact iff_of_true (notMem_disconnected na env.returning _ fd d) hk
    | tooShort _ _ hr => cases hread hr
    | taken _ _ hr => cases hread hr
    | named _ _ hr => cases hread hr
    | forwarded _ _ hr => cases hread hr
  obtain ⟨t, ht, hiff⟩ := hdone
  have hreturns : ∀ {s'}, handle na env (.client fd) s = .ok () s' →
      SendsReturn na env (.client fd) s := fun hok =>
    (step_returning ((step_some na env).mpr ⟨hen, hok⟩)).1
  refine ⟨⟨fun ⟨s', hok⟩ => hreturns hok, fun hret => ⟨t, hret.handle.trans ht⟩⟩, fun s' hok => ?_⟩
  rw [(hreturns hok).handle, ht] at hok
  cases hok
  exact hiff

/-- The only client, registered, has left. -/
theorem dead_removed_registered : ∃ s s',
    sampleRun [] (joins 0 5 (ascii "al") ++ [.net (.ends 0 .eof)]) = some s ∧
    handle Sodium.plain (Env.failing []) (.client 5) s = .ok () s' ∧ Removed s' 5 := by
  have hrun : (sampleRun [] (joins 0 5 (ascii "al") ++ [.net (.ends 0 .eof)])).map
      (fun s => ((Event.client 5).enabled s, (s.clients.lookup 5).map fun c =>
        (c.keyExchanged, decide (recvPacket (s.kernel.conns c.session.conn).toServer =
          .done none ⟨[], .eof, []⟩)))) = some (true, some (true, true)) := by decide +kernel
  obtain ⟨s, hs, heq⟩ := Option.map_eq_some_iff.mp hrun
  rw [Prod.mk.injEq] at heq
  obtain ⟨c, hl, hc⟩ := Option.map_eq_some_iff.mp heq.2
  rw [Prod.mk.injEq, decide_eq_true_eq] at hc
  obtain ⟨hreturns, hiff⟩ :=
    dead_removed_iff Sodium.plain (Env.failing []) (sampleRun_reach hs) heq.1 hl hc.2
  obtain ⟨s', hok⟩ := hreturns.mpr .of_failing
  exact ⟨s, s', hs, hok, (hiff s' hok).mpr hc.1⟩

/-- A client leaves before it sends a key: its entry, its socket and its place in epoll stay. -/
theorem early_leaver_stays : ¬ ∀ s, Reach Sodium.plain (Env.failing []) s → ∀ fd c ch,
    (Event.client fd).enabled s = true → s.clients.lookup fd = some c →
    recvPacket (s.kernel.conns c.session.conn).toServer = .done none ch →
    ∀ s', handle Sodium.plain (Env.failing []) (.client fd) s = .ok () s' → Removed s' fd := by
  intro hall
  have hrun : (sampleRun [] [.listener [.conn 5 true .none [] []], .net (.ends 0 .eof)]).map
      (fun s => ((Event.client 5).enabled s, (s.clients.lookup 5).map fun c =>
        decide (recvPacket (s.kernel.conns c.session.conn).toServer = .done none ⟨[], .eof, []⟩),
        ((handle Sodium.plain (Env.failing []) (.client 5)).result s).map
          fun x => x.2.kernel.fds 5)) =
      some (true, some true, some (some 0)) := by decide +kernel
  obtain ⟨s, hs, heq⟩ := Option.map_eq_some_iff.mp hrun
  simp only [Prod.mk.injEq] at heq
  obtain ⟨hen, hdead, hres⟩ := heq
  obtain ⟨c, hl, hc⟩ := Option.map_eq_some_iff.mp hdead
  obtain ⟨⟨⟨⟩, t⟩, hr, hopen⟩ := Option.map_eq_some_iff.mp hres
  have hok := ServerM.result_eq_some.mp hr
  have hgone := (hall s (sampleRun_reach hs) 5 c _ hen hl (of_decide_eq_true hc) t hok).2.1
  cases hgone.symm.trans hopen

/-! ### A descriptor that is used again -/

/-- The connection that an event hands to `HandleClientEvent`. -/
def Ev.dispatched : Ev → Option ConnId
  | .dispatch id => some id
  | _ => none

/-- The descriptors that `HandleNewConnection` puts into the map. -/
def handedOut : List AcceptResult → Server → List Fd
  | [], _ => []
  | .error :: _, _ => []
  | .conn fd epollOk rehash cutsIn cutsOut :: rest, s =>
    if !s.running then []
    else if !s.isFree fd then []
    else if !epollOk then handedOut rest (s.refused fd cutsIn cutsOut)
    else fd :: handedOut rest (s.admitted fd rehash cutsIn cutsOut)

/-- The calls of `HandleClientEvent` along a batch: the descriptor of the event and the connection
    of the entry. -/
def dispatches : List EpollEvent → Server → List (Fd × ConnId)
  | [], _ => []
  | ev :: rest, s =>
    if ev.fd = (ev.before s).listenfd then
      dispatches rest (handleNewConnection ev.accepts (ev.before s))
    else
      match (ev.before s).clients.lookup ev.fd with
      | none => []
      | some it =>
        (ev.fd, it.session.conn) ::
          match handle na env (.client ev.fd) (ev.before s) with
          | .ok _ t => dispatches rest t
          | .error _ _ => []

/-- No client event that the batch comes to names a descriptor that was handed out before: by an
    accept earlier in the batch, or one of `out`. -/
def NotReused : List Fd → List EpollEvent → Server → Prop
  | _, [], _ => True
  | out, ev :: rest, s =>
    if ev.fd = (ev.before s).listenfd then
      NotReused (handedOut ev.accepts (ev.before s) ++ out) rest
        (handleNewConnection ev.accepts (ev.before s))
    else
      match (ev.before s).clients.lookup ev.fd with
      | none => True
      | some _ => ev.fd ∉ out ∧
          match handle na env (.client ev.fd) (ev.before s) with
          | .ok _ t => NotReused out rest t
          | .error _ _ => True

instance NotReused.decidable : ∀ out evs s, Decidable (NotReused na env out evs s)
  | _, [], _ => isTrue trivial
  | out, ev :: rest, s =>
    if hfd : ev.fd = (ev.before s).listenfd then
      have := NotReused.decidable (handedOut ev.accepts (ev.before s) ++ out) rest
        (handleNewConnection ev.accepts (ev.before s))
      decidable_of_iff _ (by rw [NotReused, if_pos hfd])
    else
      match hl : (ev.before s).clients.lookup ev.fd with
      | none => isTrue (by rw [NotReused, if_neg hfd, hl]; trivial)
      | some _ =>
        match hres : handle na env (.client ev.fd) (ev.before s) with
        | .ok _ t =>
          have := NotReused.decidable out rest t
          decidable_of_iff (ev.fd ∉ out ∧ NotReused na env out rest t)
            (by rw [NotReused, if_neg hfd, hl, hres])
        | .error _ _ =>
          decidable_of_iff (ev.fd ∉ out ∧ True) (by rw [NotReused, if_neg hfd, hl, hres])

/-- The state in which a batch ends, or in which a handler of it is stuck. -/
def afterBatch (evs : List EpollEvent) (s : Server) : Server :=
  match handleBatch na env evs s with
  | .ok _ s' => s'
  | .error _ s' => s'

/-- Inside a handler nothing is dispatched. -/
theorem dispatched_inner {T : List Ev} (h : ∀ e ∈ T, e.inner = true) :
    T.filterMap Ev.dispatched = [] := by
  refine List.filterMap_eq_nil_iff.mpr fun e he => ?_
  cases e with
  | dispatch id => cases h _ he
  | _ => rfl

/-- A handler is one call. -/
theorem dispatched_client (id : ConnId) {T : List Ev} (h : ∀ e ∈ T, e.inner = true) :
    (Ev.dispatch id :: T).filterMap Ev.dispatched = [id] := by
  rw [List.filterMap_cons, dispatched_inner h]
  rfl

/-- The log of a client event starts with the call of its handler, also where a `send` does not
    return. -/
theorem client_call (hs : Store s) (hen : (Event.client fd).enabled s = true)
    (hl : s.clients.lookup fd = some c) :
    ∃ T, (stateAfter na env (.client fd) s).trace = s.trace ++ .dispatch c.session.conn :: T ∧
      ∀ e ∈ T, e.inner = true := by
  obtain ⟨T, hT, hinner⟩ := client_log na env.returning hs hen hl
  by_cases hret : SendsReturn na env (.client fd) s
  · rw [hret.stateAfter]
    exact ⟨T, hT, hinner⟩
  · rw [SendsReturn] at hret
    rw [stateAfter_eq, handle_client na _ hl] at hT hret ⊢
    obtain ⟨how, t, ev, herr, ⟨T₀, ht⟩, hprefix⟩ :=
      (Mirrors.handleClientEvent env na fd).stops (s.log (.dispatch c.session.conn)) hret
    rw [herr]
    refine ⟨T₀, ?_, fun e he => hinner e ?_⟩
    · rw [List.append_cons]
      exact ht.symm
    · have hless := (List.prefix_append t.trace [ev]).trans hprefix
      rw [hT, ← ht, Server.log_trace, List.append_assoc, List.singleton_append,
        List.prefix_append_right_inj, List.cons_prefix_cons] at hless
      exact hless.2.subset he

/-- ADEQUATE: `dispatches` lists the calls that the log shows. -/
theorem dispatches_log : ∀ (evs : List EpollEvent) (s : Server), Store s → s.running = true →
    ∃ T, (afterBatch na env evs s).trace = s.trace ++ T ∧
      T.filterMap Ev.dispatched = (dispatches na env evs s).map Prod.snd
  | [], s, _, _ => ⟨[], (List.append_nil _).symm, rfl⟩
  | ev :: rest, s, hs, hrun => by
    have hbefore := (before_store hs ev).1
    rw [afterBatch, dispatches]
    by_cases hfd : ev.fd = (ev.before s).listenfd
    · obtain ⟨T₀, hT₀, hinner⟩ := listener_log ev.accepts (ev.before s)
      obtain ⟨T, hT, hcalls⟩ := dispatches_log rest _ (hbefore.handleNewConnection ev.accepts).1
        ((handleNewConnection_steady ev.accepts (ev.before s)).running.trans hrun)
      rw [handleBatch_cons, if_pos hfd, if_pos hfd]
      refine ⟨T₀ ++ T, ?_, ?_⟩
      · rw [afterBatch] at hT
        rw [hT, hT₀, List.append_assoc]
        rfl
      · rw [List.filterMap_append, dispatched_inner hinner, List.nil_append, hcalls]
    · rw [if_neg hfd]
      rcases hl : (ev.before s).clients.lookup ev.fd with _ | c
      · rw [handleBatch_cons, if_neg hfd, hl]
        exact ⟨[], (List.append_nil _).symm, rfl⟩
      · obtain ⟨hen, heq⟩ := handleBatch_client na env rest hfd hl hrun
        obtain ⟨T₀, hT₀, hinner⟩ := client_call na env hbefore hen hl
        obtain ⟨d, hd, hout⟩ := client_outcome na env.returning hbefore hen
        rw [heq]
        rw [stateAfter_eq] at hT₀
        dsimp only
        rcases hres : handle na env (.client ev.fd) (ev.before s) with ⟨_, t⟩ | ⟨e, t⟩
        · have hstep : step na env (.client ev.fd) (ev.before s) = some t :=
            (step_some na env).mpr ⟨hen, hres⟩
          rw [← (step_returning hstep).1.handle, hres] at hout
          rw [hres] at hT₀
          obtain ⟨T, hT, hcalls⟩ := dispatches_log rest t (hbefore.step na env hstep).1
            (hout.steady.running.trans hrun)
          refine ⟨.dispatch c.session.conn :: T₀ ++ T, ?_, ?_⟩
          · rw [afterBatch] at hT
            dsimp only
            rw [hT, show t.trace = _ from hT₀, List.append_assoc]
            rfl
          · rw [List.filterMap_append, dispatched_client _ hinner, hcalls]
            rfl
        · rw [hres] at hT₀
          exact ⟨.dispatch c.session.conn :: T₀, hT₀, dispatched_client _ hinner⟩

/-- In `s`, whose entries come from `s₀` or from an accept after it, `out` are the descriptors of
    the new ones. -/
def NewOnes (s₀ : Server) (out : List Fd) (s : Server) : Prop :=
  ∀ fd c, s.clients.lookup fd = some c → (s₀.kernel.accepted ≤ c.session.conn ↔ fd ∈ out)

/-- What an accept adds is handed out. -/
theorem NewOnes.handleNewConnection {s₀ : Server} : ∀ (accepts : List AcceptResult) (s : Server)
    (out : List Fd), Store s → s₀.kernel.accepted ≤ s.kernel.accepted → NewOnes s₀ out s →
    NewOnes s₀ (handedOut accepts s ++ out) (handleNewConnection accepts s)
  | [], _, _, _, _, h => h
  | .error :: _, _, _, _, _, h => h
  | .conn fd epollOk r ci co :: rest, s, out, hs, hle, h => by
    rw [CliChat.handleNewConnection, handedOut]
    by_cases hrun : s.running = true
    · have hgo : ¬ (!s.running) = true := by simp [hrun]
      rw [if_neg hgo, if_neg hgo]
      by_cases hfree : s.isFree fd = true
      · have hopen : ¬ (!s.isFree fd) = true := by simp [hfree]
        rw [if_neg hopen, if_neg hopen]
        dsimp only
        cases epollOk with
        | true =>
          have hnew : NewOnes s₀ (fd :: out) (s.admitted fd r ci co) := by
            intro k d hd
            rw [hs.lookup_admitted hfree] at hd
            by_cases hk : k = fd
            · rw [if_pos hk] at hd
              cases hd
              exact iff_of_true hle (by simp [hk])
            · rw [if_neg hk] at hd
              rw [h k d hd, List.mem_cons]
              exact ⟨Or.inr, fun hor => hor.resolve_left hk⟩
          have hrest := NewOnes.handleNewConnection rest _ (fd :: out) (hs.admitted hfree r ci co).1
            (hle.trans (Nat.le_succ _)) hnew
          intro k d hd
          rw [hrest k d hd]
          simp only [Bool.not_true, Bool.false_eq_true, if_false, List.mem_append, List.mem_cons]
          tauto
        | false =>
          have hle' : s₀.kernel.accepted ≤ (s.refused fd ci co).kernel.accepted := by
            rw [Server.refused_accepted]
            exact hle.trans (Nat.le_succ _)
          exact NewOnes.handleNewConnection rest _ out (hs.refused hfree ci co).1 hle' h
      · have hopen : (!s.isFree fd) = true := by simpa using hfree
        rw [if_pos hopen, if_pos hopen]
        exact h
    · have hgo : (!s.running) = true := by simpa using hrun
      rw [if_pos hgo, if_pos hgo]
      exact h

/-- A client event accepts nobody. -/
theorem NewOnes.client {s₀ : Server} {out : List Fd} (hs : Store s) (h : NewOnes s₀ out s)
    (hstep : step na env (.client fd) s = some s') : NewOnes s₀ out s' := by
  obtain ⟨hs', hev⟩ := hs.step na env hstep
  have hacc := (client_shuts na env.returning hs ((step_some na env).mp hstep).1).accepted
  rw [step_stateAfter na env.returning (step_returning hstep).2] at hacc
  intro k d hd
  have hlt : d.session.conn < s.kernel.accepted := by
    rw [← hacc]
    exact hs'.table.fresh k _ (hs'.table.entry k d hd).2.2.2
  obtain ⟨d₀, hd₀, hgrow⟩ := hev.entries k d hd hlt
  rw [hgrow.conn]
  exact h k d₀ hd₀

/-- An entry belongs to the owner of its descriptor at the start exactly when it is not new. -/
theorem owner_iff {s₀ : Server} (hs₀ : Store s₀) {out : List Fd} (hev : Evolves s₀ s)
    (h : NewOnes s₀ out s) (hl : s.clients.lookup fd = some c) :
    s₀.owner fd = some c.session.conn ↔ fd ∉ out := by
  rw [← not_iff_not, not_not, ← h fd c hl]
  constructor
  · intro hne
    by_contra hlt
    obtain ⟨d, hd, hgrow⟩ := hev.entries fd c hl (not_le.mp hlt)
    exact hne (by rw [Server.owner, hd, Option.map_some, hgrow.conn])
  · intro hle howner
    obtain ⟨d, hd, hconn⟩ := Option.map_eq_some_iff.mp howner
    have hlt := hs₀.table.fresh fd _ (hs₀.table.entry fd d hd).2.2.2
    rw [hconn] at hlt
    exact absurd hle (not_le.mpr hlt)

theorem dispatches_owner {s₀ : Server} (hs₀ : Store s₀) : ∀ (evs : List EpollEvent) (s : Server)
    (out : List Fd), Store s → Evolves s₀ s → s.running = true → NewOnes s₀ out s →
    ((∀ x ∈ dispatches na env evs s, s₀.owner x.1 = some x.2) ↔ NotReused na env out evs s)
  | [], _, _, _, _, _, _ => iff_of_true (by simp [dispatches]) trivial
  | ev :: rest, s, out, hs, hev, hrun, h => by
    obtain ⟨hbefore, hev'⟩ := before_store hs ev
    have hnew : NewOnes s₀ out (ev.before s) := h
    rw [dispatches, NotReused]
    by_cases hfd : ev.fd = (ev.before s).listenfd
    · obtain ⟨hs₁, hev₁⟩ := hbefore.handleNewConnection ev.accepts
      rw [if_pos hfd, if_pos hfd]
      exact dispatches_owner hs₀ rest _ _ hs₁ ((hev.trans hev').trans hev₁)
        ((handleNewConnection_steady ev.accepts (ev.before s)).running.trans hrun)
        (hnew.handleNewConnection ev.accepts _ _ hbefore (hev.trans hev').accepted)
    · rw [if_neg hfd, if_neg hfd]
      rcases hl : (ev.before s).clients.lookup ev.fd with _ | c
      · exact iff_of_true (by simp) trivial
      · obtain ⟨hen, -⟩ := handleBatch_client na env rest hfd hl hrun
        obtain ⟨d, hd, hout⟩ := client_outcome na env.returning hbefore hen
        have howner := owner_iff hs₀ (hev.trans hev') hnew hl
        dsimp only
        rw [List.forall_mem_cons, howner]
        refine and_congr_right fun _ => ?_
        rcases hres : handle na env (.client ev.fd) (ev.before s) with ⟨_, t⟩ | ⟨e, t⟩
        · have hstep : step na env (.client ev.fd) (ev.before s) = some t :=
            (step_some na env).mpr ⟨hen, hres⟩
          rw [← (step_returning hstep).1.handle, hres] at hout
          obtain ⟨hs₁, hev₁⟩ := hbefore.step na env hstep
          exact dispatches_owner hs₀ rest t out hs₁ ((hev.trans hev').trans hev₁)
            (hout.steady.running.trans hrun) (hnew.client na env hbefore hstep)
        · exact iff_of_true (by simp) trivial

/-- DISPATCH: from every reachable state of a running server, the calls of `HandleClientEvent` in a
    batch are all for the connections that owned the descriptors when the batch was reported,
    exactly when no event the batch comes to names a descriptor handed out earlier in it. -/
theorem dispatch_owner_iff (h : Reach na env s) (hrun : s.running = true)
    (evs : List EpollEvent) :
    (∃ T, (afterBatch na env evs s).trace = s.trace ++ T ∧
      T.filterMap Ev.dispatched = (dispatches na env evs s).map Prod.snd) ∧
    ((∀ x ∈ dispatches na env evs s, s.owner x.1 = some x.2) ↔ NotReused na env [] evs s) := by
  have hs := h.store na env
  have hnew : NewOnes s [] s := by
    intro fd c hl
    have hlt := hs.table.fresh fd _ (hs.table.entry fd c hl).2.2.2
    exact iff_of_false (not_le.mpr hlt) List.not_mem_nil
  exact ⟨dispatches_log na env evs s hs hrun,
    dispatches_owner na env hs evs s [] hs (Evolves.refl s) hrun hnew⟩

/-- Two clients have joined, and a batch reports the listener and both, which have left. -/
theorem dispatch_owner_two : ∃ s,
    sampleRun [] (joins 0 5 (ascii "al") ++ joins 1 6 (ascii "bo")) = some s ∧
    dispatches Sodium.plain (Env.failing []) [⟨3, [], [.conn 7 true .none [] []]⟩,
      ⟨5, [.ends 0 .eof], []⟩, ⟨6, [.ends 1 .eof], []⟩] s = [(5, 0), (6, 1)] ∧
    ∀ x ∈ dispatches Sodium.plain (Env.failing []) [⟨3, [], [.conn 7 true .none [] []]⟩,
      ⟨5, [.ends 0 .eof], []⟩, ⟨6, [.ends 1 .eof], []⟩] s, s.owner x.1 = some x.2 := by
  have hrun : (sampleRun [] (joins 0 5 (ascii "al") ++ joins 1 6 (ascii "bo"))).map
      (fun s => (s.running, dispatches Sodium.plain (Env.failing [])
          [⟨3, [], [.conn 7 true .none [] []]⟩, ⟨5, [.ends 0 .eof], []⟩, ⟨6, [.ends 1 .eof], []⟩] s,
        decide (NotReused Sodium.plain (Env.failing []) []
          [⟨3, [], [.conn 7 true .none [] []]⟩, ⟨5, [.ends 0 .eof], []⟩, ⟨6, [.ends 1 .eof], []⟩]
          s))) = some (true, [(5, 0), (6, 1)], true) := by decide +kernel
  obtain ⟨s, hs, heq⟩ := Option.map_eq_some_iff.mp hrun
  simp only [Prod.mk.injEq, decide_eq_true_eq] at heq
  obtain ⟨hr, hcalls, hnot⟩ := heq
  exact ⟨s, hs, hcalls, (dispatch_owner_iff Sodium.plain (Env.failing []) (sampleRun_reach hs) hr
    _).2.mpr hnot⟩

/-- The batch of the diagram: both clients leave, and two others are waiting. The announcement of
    the first departure fails for the second, and accept returns both descriptors again. -/
theorem reused_descriptor_dispatched : ¬ ∀ s, Reach Sodium.plain (Env.failing [7]) s →
    s.running = true → ∀ evs : List EpollEvent, evs.length ≤ maxExents →
      (evs.map EpollEvent.fd).Nodup → (∀ ev ∈ evs, ev.fd ∈ s.kernel.epoll) →
      ∀ x ∈ dispatches Sodium.plain (Env.failing [7]) evs s, s.owner x.1 = some x.2 := by
  intro hall
  have hrun : (sampleRun [7] (joins 0 5 (ascii "al") ++ joins 1 6 (ascii "bo") ++
      [.net (.ends 0 .eof), .net (.ends 1 .error)])).map (fun s => (s.running, s.kernel.epoll,
        s.owner 6, dispatches Sodium.plain (Env.failing [7]) [⟨5, [], []⟩,
          ⟨3, [], [.conn 5 true .none [] [], .conn 6 true .none [] []]⟩, ⟨6, [], []⟩] s)) =
      some (true, {3, 5, 6}, some 1, [(5, 0), (6, 3)]) := by decide +kernel
  obtain ⟨s, hs, heq⟩ := Option.map_eq_some_iff.mp hrun
  simp only [Prod.mk.injEq] at heq
  obtain ⟨hr, hepoll, howner, hcalls⟩ := heq
  have hbad := hall s (sampleRun_reach hs) hr
    [⟨5, [], []⟩, ⟨3, [], [.conn 5 true .none [] [], .conn 6 true .none [] []]⟩, ⟨6, [], []⟩]
    (by decide) (by decide) (by rw [hepoll]; simp) (6, 3) (by rw [hcalls]; simp)
  rw [howner] at hbad
  cases hbad

end CliChat
