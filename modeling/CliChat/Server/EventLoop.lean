import CliChat.Common.FrameStream
import CliChat.Server.Discipline

/-! @src server/src/server.cpp | name:EventLoop | scheme:batches

    What happens to a batch of events. Handling an event may remove clients that later events of
    the batch are about, and `EventLoop` returns at the first such event. -/

namespace CliChat

open Transition

/-! ### Which client events return -/

/-- A packet that holds a nonce, and less than a MAC after it. -/
def ShortName (p : Bytes) : Prop :=
  secretboxNonceBytes ≤ p.length ∧ p.length < secretboxNonceBytes + secretboxMacBytes

/-- The size of the name underflows for such packets only. -/
theorem usernameBufferSize_overflow {p : Bytes} (hp : p.length < 2 ^ 32)
    (hlong : secretboxNonceBytes ≤ p.length) :
    vectorMaxSize < usernameBufferSize (p.drop secretboxNonceBytes).length ↔ ShortName p := by
  rw [ShortName, List.length_drop]
  unfold vectorMaxSize usernameBufferSize secretboxNonceBytes secretboxMacBytes at *
  omega

/-- `HandleClientEvent` comes to an end for the client `c`: its packet is there, and it is neither a
    name too short to be one nor a name that is taken. -/
structure Returns (na : Sodium) (s : Server) (c : ClientInfo) : Prop where
  arrived : CliChat.recvPacket (s.kernel.conns c.session.conn).toServer ≠ .blocks
  long : c.keyExchanged = true → c.registered = false → ∀ p ch,
    CliChat.recvPacket (s.kernel.conns c.session.conn).toServer = .done (some p) ch → ¬ ShortName p
  free : ∀ uname, AsksFor na s c uname → uname ∉ s.usernames

section returns

variable (na : Sodium) (env : ReturningEnv) {s s' : Server} {fd : Fd} {c : ClientInfo}

/-- A packet decides: it is no short name, and the name in it is free. -/
theorem Returns.of_packet {na : Sodium} {p : Bytes} {ch : Chan}
    (hd : CliChat.recvPacket (s.kernel.conns c.session.conn).toServer = .done (some p) ch)
    (hlong : ¬ ShortName p)
    (hfree : ∀ uname, SealedName na s.groupKey p uname → uname ∉ s.usernames) :
    Returns na s c := by
  refine ⟨by rw [hd]; simp, ?_, ?_⟩
  · intro _ _ p' ch' hd'
    cases hd.symm.trans hd'
    exact hlong
  · rintro uname ⟨p', ch', hp⟩
    cases hd.symm.trans hp.received
    exact hfree uname hp.name

/-- A registered client is only waited for. -/
theorem Returns.of_registered {na : Sodium} (hreg : c.registered = true)
    (harrived : CliChat.recvPacket (s.kernel.conns c.session.conn).toServer ≠ .blocks) :
    Returns na s c := by
  refine ⟨harrived, fun _ hno => ?_, fun uname ⟨p, ch, hp⟩ => ?_⟩
  · rw [hreg] at hno
    cases hno
  · have hno := hp.unregistered
    rw [hreg] at hno
    cases hno

/-- A name that fits a vector is not short. -/
theorem not_shortName {p : Bytes} (hp : p.length < 2 ^ 32)
    (hlong : secretboxNonceBytes ≤ p.length)
    (hfits : usernameBufferSize (p.drop secretboxNonceBytes).length ≤ vectorMaxSize) :
    ¬ ShortName p := fun hshort =>
  absurd ((usernameBufferSize_overflow hp hlong).mpr hshort) (not_lt.mpr hfits)

theorem handleClientEvent_returns (hs : Store s) (hl : s.clients.lookup fd = some c) :
    (∃ s', handleClientEvent na env fd s = .ok () s') ↔ Returns na s c := by
  have hout := handleClientEvent_outcome na env hs.toReady hl
  generalize handleClientEvent na env fd s = r at hout
  -- a client that asks for no name, and whose packet is there, is fine
  have hfine : ∀ {pkt ch}, CliChat.recvPacket (s.kernel.conns c.session.conn).toServer =
      .done pkt ch → (c.keyExchanged = false ∨ c.registered = true ∨ pkt = none) →
      Returns na s c := by
    intro pkt ch hd hcase
    refine ⟨by rw [hd]; simp, ?_, ?_⟩
    · intro hk hreg p ch' hd'
      rw [hd] at hd'
      cases hd'
      rw [hk, hreg] at hcase
      simp at hcase
    · rintro uname ⟨p, ch', hp⟩
      have hd' := hp.received
      rw [hd] at hd'
      cases hd'
      rw [hp.keyExchanged, hp.unregistered] at hcase
      simp at hcase
  have hok : ∀ (t : Server), Returns na s c →
      ((∃ s', (EStateM.Result.ok () t : EStateM.Result Fault Server Unit) = .ok () s') ↔
        Returns na s c) := fun t h => ⟨fun _ => h, fun _ => ⟨t, rfl⟩⟩
  have herr : ∀ (e : Fault) (t : Server), ¬ Returns na s c →
      ((∃ s', (EStateM.Result.error e t : EStateM.Result Fault Server Unit) = .ok () s') ↔
        Returns na s c) := by
    intro e t h
    refine ⟨?_, fun h' => absurd h' h⟩
    rintro ⟨s', hs'⟩
    cases hs'
  cases hout with
  | blocked hb => exact herr _ _ fun h => h.arrived hb
  | noKey hk hd hlen => exact hok _ (hfine hd (Or.inl hk))
  | badKey hk hd hlen hbox => exact hok _ (hfine hd (Or.inl hk))
  | keyed hk hd hlen hnonce hbox => exact hok _ (hfine hd (Or.inl hk))
  | forwarded hk hreg hd => exact hok _ (hfine hd (Or.inr (Or.inl hreg)))
  | tooShort hk hreg hd hlong hover =>
    exact herr _ _ fun h => h.long hk hreg _ _ hd
      ((usernameBufferSize_overflow (recvPacket_length hd) hlong).mp hover)
  | taken hk hreg hd hname hu =>
    exact herr _ _ fun h => h.free _ ⟨_, _, hk, hreg, hd, hname⟩ hu
  | @named p ch uname hk hreg hd hname hu =>
    refine hok _ (.of_packet hd (not_shortName (recvPacket_length hd) hname.long hname.fits) ?_)
    intro uname' hname'
    rwa [Option.some.inj (hname'.opens.symm.trans hname.opens)]
  | @rejected pkt ch n hk hd hrej =>
    cases hrej with
    | closed => exact hok _ (hfine hd (Or.inr (Or.inr rfl)))
    | @short p hreg hshort =>
      exact hok _ (.of_packet hd (fun h => absurd h.1 (not_le.mpr hshort))
        fun uname hname => absurd hname.long (not_le.mpr hshort))
    | @unsealed p hreg hlong hfits hopen =>
      refine hok _ (.of_packet hd (not_shortName (recvPacket_length hd) hlong hfits) ?_)
      intro uname hname
      rw [hname.opens] at hopen
      cases hopen

end returns

/-! ### Batches are runs -/

section batches

variable (na : Sodium) (env : Env) {s s' : Server}

/-- The network activity before an event. -/
def EpollEvent.before (ev : EpollEvent) (s : Server) : Server :=
  { s with kernel := ev.net.foldl Kernel.net s.kernel }

theorem net_run (acts : List NetAct) : ∀ s : Server,
    run (step na env) (acts.map Event.net) s =
      some { s with kernel := acts.foldl Kernel.net s.kernel } := by
  induction acts with
  | nil => exact fun s => rfl
  | cons a acts ih =>
    intro s
    rw [List.map_cons, run_cons]
    exact ih { s with kernel := s.kernel.net a }

/-- The network activity before an event keeps the invariant. -/
theorem before_store {s : Server} (hs : Store s) (ev : EpollEvent) :
    Store (ev.before s) ∧ Evolves s (ev.before s) := by
  have hfold : ∀ (acts : List NetAct) (t : Server), Store t →
      Store { t with kernel := acts.foldl Kernel.net t.kernel } ∧
        Evolves t { t with kernel := acts.foldl Kernel.net t.kernel } := by
    intro acts
    induction acts with
    | nil => exact fun t ht => ⟨ht, Evolves.refl t⟩
    | cons a acts ih =>
      intro t ht
      obtain ⟨ha, hea⟩ := ht.net a
      obtain ⟨hrest, herest⟩ := ih _ ha
      exact ⟨hrest, hea.trans herest⟩
  exact hfold ev.net s hs

/-- The turn of an event: the listener's, a client's, or that of a descriptor without entry. -/
theorem handleBatch_cons (ev : EpollEvent) (rest : List EpollEvent) (s : Server) :
    handleBatch na env (ev :: rest) s =
      if ev.fd = (ev.before s).listenfd then
        handleBatch na env rest (handleNewConnection ev.accepts (ev.before s))
      else
        match (ev.before s).clients.lookup ev.fd with
        | none => .ok false (ev.before s)
        | some it => (dispatch na env ev.fd it >>= fun _ => handleBatch na env rest) (ev.before s) := by
  rw [handleBatch, ServerM.bind_ok (ServerM.modify_apply _ s), ServerM.bind_ok (ServerM.get_apply _)]
  show (if ev.fd = (ev.before s).listenfd then _ else _ : ServerM Bool) (ev.before s) = _
  split
  · rw [ServerM.bind_ok (ServerM.modify_apply _ _)]
  · show (match (ev.before s).clients.lookup ev.fd with
      | none => pure false
      | some it => dispatch na env ev.fd it >>= fun _ => handleBatch na env rest : ServerM Bool)
        (ev.before s) = _
    cases (ev.before s).clients.lookup ev.fd <;> rfl

/-- The turn of a client: one step of the server, and then the rest. -/
theorem handleBatch_client {ev : EpollEvent} (rest : List EpollEvent) {c : ClientInfo}
    (hfd : ev.fd ≠ (ev.before s).listenfd) (hl : (ev.before s).clients.lookup ev.fd = some c)
    (hrun : s.running = true) :
    (Event.client ev.fd).enabled (ev.before s) = true ∧
      handleBatch na env (ev :: rest) s =
        match handle na env (.client ev.fd) (ev.before s) with
        | .ok _ t => handleBatch na env rest t
        | .error e t => .error e t := by
  refine ⟨enabled_client.mpr ⟨hrun, ⟨c, hl⟩, hfd⟩, ?_⟩
  rw [handleBatch_cons, if_neg hfd, hl]
  dsimp only
  rw [ServerM.bind_apply, handle_client na env hl]
  have hdisp : dispatch na env ev.fd c (ev.before s) =
      handleClientEvent na env ev.fd ((ev.before s).log (.dispatch c.session.conn)) := rfl
  rw [hdisp]
  cases handleClientEvent na env ev.fd ((ev.before s).log (.dispatch c.session.conn)) <;> rfl

/-- How a pass over the `events` array ends in the state `m`: it returns, or a handler does not. -/
inductive BatchEnd (m : Server) : EStateM.Result Fault Server Bool → Prop
  | returned (b : Bool) : BatchEnd m (.ok b m)
  | stuck {fd : Fd} {f : Fault} {t : Server} (enabled : (Event.client fd).enabled m = true)
      (handler : handle na env (.client fd) m = .error f t) : BatchEnd m (.error f t)

/-- REFINEMENT: a batch, however far it gets, is a run of the server, which goes on running. -/
theorem handleBatch_reaches : ∀ (evs : List EpollEvent) (s : Server), Store s → s.running = true →
    ∃ es m, run (step na env) es s = some m ∧ m.running = true ∧
      BatchEnd na env m (handleBatch na env evs s)
  | [], s, _, hrun => ⟨[], s, rfl, hrun, .returned true⟩
  | ev :: rest, s, hs, hrun => by
    have hnet := net_run na env ev.net s
    have hbefore := (before_store hs ev).1
    -- the run of this event, and then that of the rest
    have hthen : ∀ {e : Event} {t : Server}, step na env e (ev.before s) = some t → Store t →
        t.running = true → ∃ es m, run (step na env) es s = some m ∧ m.running = true ∧
          BatchEnd na env m (handleBatch na env rest t) := by
      intro e t hstep ht hrun'
      obtain ⟨es, m, hes, hrunm, hend⟩ := handleBatch_reaches rest t ht hrun'
      exact ⟨ev.net.map Event.net ++ e :: es, m,
        (run_append_some _).mpr ⟨_, hnet, (run_cons_some _).mpr ⟨t, hstep, hes⟩⟩, hrunm, hend⟩
    by_cases hfd : ev.fd = (ev.before s).listenfd
    · rw [handleBatch_cons, if_pos hfd]
      exact hthen (e := .listener ev.accepts) ((step_some na env).mpr ⟨hrun, rfl⟩)
        (hbefore.handleNewConnection ev.accepts).1
        ((handleNewConnection_steady ev.accepts (ev.before s)).running.trans hrun)
    · rcases hl : (ev.before s).clients.lookup ev.fd with _ | c
      · rw [handleBatch_cons, if_neg hfd, hl]
        exact ⟨_, _, hnet, hrun, .returned false⟩
      · obtain ⟨hen, heq⟩ := handleBatch_client na env rest hfd hl hrun
        rw [heq]
        rcases hres : handle na env (.client ev.fd) (ev.before s) with ⟨_, t⟩ | ⟨e, t⟩
        · have hstep : step na env (.client ev.fd) (ev.before s) = some t :=
            (step_some na env).mpr ⟨hen, hres⟩
          obtain ⟨d, hd, hout⟩ := client_outcome na env.returning hbefore hen
          rw [← (step_returning hstep).1.handle, hres] at hout
          exact hthen hstep (hbefore.step na env hstep).1 (hout.steady.running.trans hrun)
        · exact ⟨_, _, hnet, hrun, .stuck hen hres⟩

theorem handleBatch_run (evs : List EpollEvent) (s s' : Server) (b : Bool) (hs : Store s)
    (hrun : s.running = true) (h : handleBatch na env evs s = .ok b s') :
    s'.running = true ∧ ∃ es, run (step na env) es s = some s' := by
  obtain ⟨es, m, hes, hrunm, hend⟩ := handleBatch_reaches na env evs s hs hrun
  rw [h] at hend
  cases hend with
  | returned => exact ⟨hrunm, es, hes⟩

/-- A batch adds to the log. -/
theorem handleBatch_prefix (evs : List EpollEvent) (s s' : Server) (b : Bool) (hs : Store s)
    (hrun : s.running = true) (h : handleBatch na env evs s = .ok b s') :
    s.trace <+: s'.trace := by
  obtain ⟨-, es, hes⟩ := handleBatch_run na env evs s s' b hs hrun h
  exact run_relation (step na env) (I := Store) (R := fun a b => a.trace <+: b.trace)
    (fun _ _ _ ht hst => (ht.step na env hst).1) (fun _ _ => List.prefix_refl _)
    (fun _ _ _ h k => h.trans k)
    (fun e a b ha hst => step_stateAfter na env.returning (step_returning hst).2 ▸
      event_prefix na env.returning ha ((step_some na env).mp hst).1) hs hes

end batches

/-! ### Which batches survive -/

section survival

variable (na : Sodium) (env : Env) {s s' : Server}

/-- The connection that a descriptor stands for. -/
def Server.owner (s : Server) (fd : Fd) : Option ConnId :=
  (s.clients.lookup fd).map fun c => c.session.conn

/-- In turn, each event is the listener's, or that of a client which is still the one that `owner`
    reported, with a packet that lets its handler return and sends that do. -/
def BatchOk (owner : Fd → Option ConnId) : List EpollEvent → Server → Prop
  | [], _ => True
  | ev :: rest, s =>
    if ev.fd = (ev.before s).listenfd then
      BatchOk owner rest (handleNewConnection ev.accepts (ev.before s))
    else
      ∃ c, (ev.before s).clients.lookup ev.fd = some c ∧ owner ev.fd = some c.session.conn ∧
        Returns na (ev.before s) c ∧ SendsReturn na env (.client ev.fd) (ev.before s) ∧
        BatchOk owner rest (stateAfter na env (.client ev.fd) (ev.before s))

/-- `EventLoop` goes through the whole batch and goes on, and `HandleClientEvent` was called for
    connections of the batch only (as `owner` reported them). -/
def Survives (owner : Fd → Option ConnId) (evs : List EpollEvent) (s : Server) : Prop :=
  ∃ s' T, handleBatch na env evs s = .ok true s' ∧ s'.trace = s.trace ++ T ∧
    ∀ id, .dispatch id ∈ T → ∃ ev ∈ evs, owner ev.fd = some id

/-- The turn of a client, one step further. -/
theorem client_turn (hs : Store s) {fd : Fd} {c : ClientInfo} (hl : s.clients.lookup fd = some c) :
    Returns na s c ∧ SendsReturn na env (.client fd) s ↔
      handle na env (.client fd) s = .ok () (stateAfter na env (.client fd) s) := by
  have hs' : Store (s.log (.dispatch c.session.conn)) := hs.sendsOnly (SendsOnly.log s _)
  have hlog : Returns na (s.log (.dispatch c.session.conn)) c ↔ Returns na s c := by
    constructor
    · exact fun h => ⟨h.arrived, h.long, fun u ⟨p, ch, hp⟩ => h.free u ⟨p, ch, namePacket_log.mpr hp⟩⟩
    · exact fun h => ⟨h.arrived, h.long, fun u ⟨p, ch, hp⟩ => h.free u ⟨p, ch, namePacket_log.mp hp⟩⟩
  rw [← hlog, ← handleClientEvent_returns na env.returning hs' hl,
    ← handle_client na env.returning hl]
  constructor
  · rintro ⟨⟨t, ht⟩, hret⟩
    rw [hret.stateAfter, stateAfter_eq, hret.handle, ht]
    rfl
  · intro h
    by_cases hret : SendsReturn na env (.client fd) s
    · exact ⟨⟨_, hret.handle ▸ h⟩, hret⟩
    · obtain ⟨how, t, -, herr, -⟩ := handle_stops hret
      rw [herr] at h
      cases h

/-- The listener's turn logs no call. -/
theorem listener_log (accepts : List AcceptResult) (s : Server) :
    ∃ T, (handleNewConnection accepts s).trace = s.trace ++ T ∧ ∀ e ∈ T, e.inner = true :=
  (handleNewConnection_adds s accepts).sound.inner

theorem survives_of_batchOk (owner : Fd → Option ConnId) : ∀ (evs : List EpollEvent) (s : Server),
    Store s → s.running = true → BatchOk na env owner evs s → Survives na env owner evs s
  | [], s, _, _, _ => ⟨s, [], rfl, by simp, by simp⟩
  | ev :: rest, s, hs, hrun, h => by
    have hbefore := (before_store hs ev).1
    rw [BatchOk] at h
    by_cases hfd : ev.fd = (ev.before s).listenfd
    · rw [if_pos hfd] at h
      obtain ⟨s', T, hok, htr, hdisp⟩ := survives_of_batchOk owner rest _
        (hbefore.handleNewConnection ev.accepts).1
        ((handleNewConnection_steady ev.accepts (ev.before s)).running.trans hrun) h
      obtain ⟨T₀, hT₀, hinner⟩ := listener_log ev.accepts (ev.before s)
      refine ⟨s', T₀ ++ T, ?_, ?_, ?_⟩
      · rw [handleBatch_cons, if_pos hfd, hok]
      · rw [htr, hT₀, List.append_assoc]
        rfl
      · intro id hid
        rcases List.mem_append.mp hid with hid | hid
        · cases hinner _ hid
        · obtain ⟨ev', hev', ho⟩ := hdisp id hid
          exact ⟨ev', List.mem_cons_of_mem _ hev', ho⟩
    · rw [if_neg hfd] at h
      obtain ⟨c, hl, ho, hret, hsends, hrest⟩ := h
      obtain ⟨hen, heq⟩ := handleBatch_client na env rest hfd hl hrun
      have hok := (client_turn na env hbefore hl).mp ⟨hret, hsends⟩
      have hstep : step na env (.client ev.fd) (ev.before s) =
          some (stateAfter na env (.client ev.fd) (ev.before s)) :=
        (step_some na env).mpr ⟨hen, hok⟩
      obtain ⟨d, hd, hout⟩ := client_outcome na env.returning hbefore hen
      rw [← hsends.handle, hok] at hout
      obtain ⟨s', T, hok', htr, hdisp⟩ := survives_of_batchOk owner rest _
        (hbefore.step na env hstep).1 (hout.steady.running.trans hrun) hrest
      obtain ⟨T₀, hT₀, hinner⟩ := client_log na env.returning hbefore hen hl
      rw [← hsends.stateAfter] at hT₀
      refine ⟨s', .dispatch c.session.conn :: T₀ ++ T, ?_, ?_, ?_⟩
      · rw [heq, hok]
        exact hok'
      · rw [htr, hT₀, List.append_assoc]
        rfl
      · intro id hid
        rcases List.mem_append.mp hid with hid | hid
        · rcases List.mem_cons.mp hid with hid | hid
          · cases hid
            exact ⟨ev, List.mem_cons_self, ho⟩
          · cases hinner _ hid
        · obtain ⟨ev', hev', ho'⟩ := hdisp id hid
          exact ⟨ev', List.mem_cons_of_mem _ hev', ho'⟩

/-- The log of a batch is that of its first turn, and then that of the rest. -/
theorem handleBatch_rest {evs : List EpollEvent} {s t s' : Server} {T T₀ : List Ev} (ht : Store t)
    (hrun : t.running = true) (h : handleBatch na env evs t = .ok true s')
    (htr : s'.trace = s.trace ++ T) (hT₀ : t.trace = s.trace ++ T₀) :
    ∃ T₁, s'.trace = t.trace ++ T₁ ∧ T = T₀ ++ T₁ := by
  obtain ⟨T₁, hT₁⟩ := handleBatch_prefix na env evs t s' true ht hrun h
  refine ⟨T₁, hT₁.symm, ?_⟩
  rw [← hT₁, hT₀, List.append_assoc] at htr
  exact (List.append_cancel_left htr).symm

/-- Every connection that was called is known to the start of the batch. -/
theorem batchOk_of_survives {s₀ : Server} (hs₀ : Store s₀) :
    ∀ (evs : List EpollEvent) (s s' : Server) (T : List Ev), Store s → Evolves s₀ s →
      s.running = true → handleBatch na env evs s = .ok true s' → s'.trace = s.trace ++ T →
      (∀ id, .dispatch id ∈ T → ∃ fd, s₀.owner fd = some id) → BatchOk na env s₀.owner evs s
  | [], _, _, _, _, _, _, _, _, _ => trivial
  | ev :: rest, s, s', T, hs, hev, hrun, h, htr, hdisp => by
    obtain ⟨hbefore, hev'⟩ := before_store hs ev
    rw [BatchOk]
    by_cases hfd : ev.fd = (ev.before s).listenfd
    · rw [if_pos hfd]
      rw [handleBatch_cons, if_pos hfd] at h
      obtain ⟨hnew, hevnew⟩ := hbefore.handleNewConnection ev.accepts
      have hrun' := (handleNewConnection_steady ev.accepts (ev.before s)).running.trans hrun
      obtain ⟨T₀, hT₀, -⟩ := listener_log ev.accepts (ev.before s)
      have hT₀' : (handleNewConnection ev.accepts (ev.before s)).trace = s.trace ++ T₀ := hT₀
      obtain ⟨T₁, hT₁, rfl⟩ := handleBatch_rest na env hnew hrun' h htr hT₀'
      exact batchOk_of_survives hs₀ rest _ s' T₁ hnew ((hev.trans hev').trans hevnew) hrun' h hT₁
        fun id hid => hdisp id (List.mem_append_right _ hid)
    · rw [if_neg hfd]
      rcases hl : (ev.before s).clients.lookup ev.fd with _ | c
      · rw [handleBatch_cons, if_neg hfd, hl] at h
        cases h
      · obtain ⟨hen, heq⟩ := handleBatch_client na env rest hfd hl hrun
        obtain ⟨d, hd, hout⟩ := client_outcome na env.returning hbefore hen
        rcases hres : handle na env (.client ev.fd) (ev.before s) with ⟨_, t⟩ | ⟨e, t⟩
        · have hstep : step na env (.client ev.fd) (ev.before s) = some t :=
            (step_some na env).mpr ⟨hen, hres⟩
          have hsends := (step_returning hstep).1
          rw [heq, hres] at h
          rw [← hsends.handle, hres] at hout
          have hafter : stateAfter na env (.client ev.fd) (ev.before s) = t :=
            step_stateAfter na env hstep
          obtain ⟨hst, hevst⟩ := hbefore.step na env hstep
          have hrun' := hout.steady.running.trans hrun
          obtain ⟨T₀, hT₀, -⟩ := client_log na env.returning hbefore hen hl
          rw [← hsends.stateAfter, hafter] at hT₀
          have hT₀' : t.trace = s.trace ++ .dispatch c.session.conn :: T₀ := hT₀
          obtain ⟨T₁, hT₁, rfl⟩ := handleBatch_rest na env hst hrun' h htr hT₀'
          refine ⟨c, rfl, ?_, ((client_turn na env hbefore hl).mpr (hafter ▸ hres)).1, hsends, ?_⟩
          · -- the connection is known to the start, so it still has the entry it had there
            obtain ⟨k, hk⟩ := hdisp c.session.conn (by simp)
            obtain ⟨c₀, hc₀, hconn⟩ := Option.map_eq_some_iff.mp hk
            have hold : c.session.conn < s₀.kernel.accepted := by
              rw [← hconn]
              exact hs₀.table.fresh k _ (hs₀.table.entry k c₀ hc₀).2.2.2
            obtain ⟨c₁, hc₁, hgrow⟩ := (hev.trans hev').entries ev.fd c hl hold
            rw [Server.owner, hc₁, Option.map_some, ← hgrow.conn]
          · rw [hafter]
            exact batchOk_of_survives hs₀ rest t s' T₁ hst ((hev.trans hev').trans hevst) hrun' h
              hT₁ fun id hid => hdisp id (List.mem_append_right _ hid)
        · rw [heq, hres] at h
          cases h

/-- The loop over successive `epoll_wait` calls: every batch in turn is handled without loss. -/
def LoopOk : List EpollWait → Server → Prop
  | [], _ => True
  | .failed :: _, _ => True
  | .batch evs :: rest, s =>
    BatchOk na env s.owner (evs.take maxExents) s ∧
      ∀ s', handleBatch na env (evs.take maxExents) s = .ok true s' → LoopOk rest s'

/-- `EventLoop` keeps waiting, or has returned because `epoll_wait` failed. -/
theorem eventLoop_waits : ∀ (waits : List EpollWait) (s : Server), Store s → s.running = true →
    LoopOk na env waits s →
    ∃ b s', eventLoop na env waits s = .ok b s' ∧ (b = false → .failed ∈ waits)
  | [], s, _, hrun, _ => by
    refine ⟨true, s, ?_, by simp⟩
    rw [eventLoop, ServerM.bind_ok (ServerM.get_apply s), hrun]
    rfl
  | .failed :: rest, s, _, hrun, _ => by
    refine ⟨false, stop s, ?_, by simp⟩
    rw [eventLoop, ServerM.bind_ok (ServerM.get_apply s), if_neg (by simp [hrun])]
    rfl
  | .batch evs :: rest, s, hs, hrun, h => by
    obtain ⟨s', T, hok, -, -⟩ := survives_of_batchOk na env s.owner _ s hs hrun h.1
    obtain ⟨hrun', es, hes⟩ := handleBatch_run na env _ s s' true hs hrun hok
    have hs' := run_invariant (step na env) (I := Store)
      (fun _ _ _ ht hst => (ht.step na env hst).1) hs hes
    obtain ⟨b, s'', hloop, hb⟩ := eventLoop_waits rest s' hs' hrun' (h.2 s' hok)
    refine ⟨b, s'', ?_, fun hf => List.mem_cons_of_mem _ (hb hf)⟩
    rw [eventLoop, ServerM.bind_ok (ServerM.get_apply s), if_neg (by simp [hrun]),
      ServerM.bind_ok hok, if_pos rfl]
    exact hloop

/-- EVENT LOOP: from every reachable state of a running server, a batch is handled to its end, and
    only for the connections it was reported for, exactly when in turn each event's client is
    still there and its handler returns, that is, its packet lets it and every `send` does; and if
    that holds of every batch, the loop goes on until `epoll_wait` fails. -/
theorem eventLoop_survives_iff (h : Reach na env s) (hrun : s.running = true) :
    (∀ evs : List EpollEvent, Survives na env s.owner evs s ↔ BatchOk na env s.owner evs s) ∧
    (∀ waits, LoopOk na env waits s →
      ∃ b s', eventLoop na env waits s = .ok b s' ∧ (b = false → .failed ∈ waits)) := by
  have hs := h.store na env
  refine ⟨fun evs => ⟨?_, survives_of_batchOk na env s.owner _ s hs hrun⟩,
    fun waits => eventLoop_waits na env waits s hs hrun⟩
  rintro ⟨s', T, hok, htr, hdisp⟩
  refine batchOk_of_survives na env hs _ s s' T hs (Evolves.refl s) hrun hok htr ?_
  intro id hid
  obtain ⟨ev, -, ho⟩ := hdisp id hid
  exact ⟨ev.fd, ho⟩

end survival

/-- The turn of a client, when nothing has happened since `epoll_wait`. -/
theorem batchOk_client {na : Sodium} {env : Env} {owner : Fd → Option ConnId} {fd : Fd}
    {rest : List EpollEvent} {s : Server} {c : ClientInfo} (hfd : fd ≠ s.listenfd)
    (hl : s.clients.lookup fd = some c) (ho : owner fd = some c.session.conn)
    (hret : Returns na s c) (hsends : SendsReturn na env (.client fd) s)
    (hrest : BatchOk na env owner rest (stateAfter na env (.client fd) s)) :
    BatchOk na env owner (⟨fd, [], []⟩ :: rest) s := by
  have hfd' : ¬ (⟨fd, [], []⟩ : EpollEvent).fd =
      ((⟨fd, [], []⟩ : EpollEvent).before s).listenfd := hfd
  rw [BatchOk, if_neg hfd']
  exact ⟨c, hl, ho, hret, hsends, hrest⟩

/-- The connection of a registered client whose packet is there. -/
def Server.speaker (s : Server) (fd : Fd) : Option ConnId :=
  (s.clients.lookup fd).bind fun c =>
    if c.registered ∧ CliChat.recvPacket (s.kernel.conns c.session.conn).toServer ≠ .blocks then
      some c.session.conn
    else none

theorem Server.speaker_some (na : Sodium) {s : Server} {fd : Fd} {id : ConnId}
    (h : s.speaker fd = some id) :
    ∃ c, s.clients.lookup fd = some c ∧ c.session.conn = id ∧ Returns na s c := by
  obtain ⟨c, hl, hc⟩ := Option.bind_eq_some_iff.mp h
  rw [Option.ite_none_right_eq_some] at hc
  obtain ⟨⟨hreg, harrived⟩, hconn⟩ := hc
  exact ⟨c, hl, Option.some.inj hconn, .of_registered hreg harrived⟩

/-- Two clients have joined and say something, and a batch reports both. -/
theorem eventLoop_survives_two : ∃ s,
    sampleRun [] (joins 0 5 (ascii "al") ++ joins 1 6 (ascii "bo") ++
      [.net (.arrive 0 (wire (ascii "hi"))), .net (.arrive 1 (wire (ascii "ho")))]) = some s ∧
    BatchOk Sodium.plain (Env.failing []) s.owner [⟨5, [], []⟩, ⟨6, [], []⟩] s ∧
    Survives Sodium.plain (Env.failing []) s.owner [⟨5, [], []⟩, ⟨6, [], []⟩] s := by
  have hrun : (sampleRun [] (joins 0 5 (ascii "al") ++ joins 1 6 (ascii "bo") ++
      [.net (.arrive 0 (wire (ascii "hi"))), .net (.arrive 1 (wire (ascii "ho")))])).map
      (fun s => (s.running, s.owner 6, s.speaker 5,
        (stateAfter Sodium.plain (Env.failing []) (.client 5) s).speaker 6,
        [s.listenfd, (stateAfter Sodium.plain (Env.failing []) (.client 5) s).listenfd])) =
      some (true, some 1, some 0, some 1, [3, 3]) := by decide +kernel
  obtain ⟨s, hs, heq⟩ := Option.map_eq_some_iff.mp hrun
  simp only [Prod.mk.injEq, List.cons.injEq] at heq
  obtain ⟨hr, howner, h5, h6, hl, hl', -⟩ := heq
  obtain ⟨c, hc, hconn, hret⟩ := Server.speaker_some Sodium.plain h5
  obtain ⟨d, hd, hconn', hret'⟩ := Server.speaker_some Sodium.plain h6
  have hbatch : BatchOk Sodium.plain (Env.failing []) s.owner [⟨5, [], []⟩, ⟨6, [], []⟩] s := by
    have hnot : ∀ t : Server, t.listenfd = 3 → ∀ fd ∈ [(5 : Fd), 6], fd ≠ t.listenfd := by
      rintro t ht fd hfd rfl
      rw [ht] at hfd
      exact absurd hfd (by decide)
    have ho : s.owner 5 = some c.session.conn := by
      rw [Server.owner, hc]
      rfl
    exact batchOk_client (hnot s hl 5 (by simp)) hc ho hret .of_failing
      (batchOk_client (hnot _ hl' 6 (by simp)) hd (hconn' ▸ howner) hret' .of_failing trivial)
  exact ⟨s, hs, hbatch, ((eventLoop_survives_iff Sodium.plain (Env.failing [])
    (sampleRun_reach hs) hr).1 _).mpr hbatch⟩

/-- Two clients leave, and a batch reports both. The announcement of the first departure fails for
    the second, which is removed before its turn: `EventLoop` returns. -/
theorem removed_client_ends_loop : ¬ ∀ s, Reach Sodium.plain (Env.failing [7]) s →
    s.running = true → ∀ evs : List EpollEvent, evs.length ≤ maxExents →
      (∀ ev ∈ evs, ev.fd = s.listenfd ∨ (s.clients.lookup ev.fd).isSome = true) →
      ∃ s', handleBatch Sodium.plain (Env.failing [7]) evs s = .ok true s' := by
  intro hall
  have hrun : (sampleRun [7] (joins 0 5 (ascii "al") ++ joins 1 6 (ascii "bo") ++
      [.net (.ends 0 .eof), .net (.ends 1 .error)])).map (fun s => (s.running,
        (s.clients.lookup 5).isSome, (s.clients.lookup 6).isSome,
        ((handleBatch Sodium.plain (Env.failing [7]) [⟨5, [], []⟩, ⟨6, [], []⟩]).result s).map
          Prod.fst)) = some (true, true, true, some false) := by decide +kernel
  obtain ⟨s, hs, heq⟩ := Option.map_eq_some_iff.mp hrun
  simp only [Prod.mk.injEq] at heq
  obtain ⟨hr, h5, h6, hbatch⟩ := heq
  obtain ⟨s', hok⟩ := hall s (sampleRun_reach hs) hr [⟨5, [], []⟩, ⟨6, [], []⟩] (by decide)
    (by simp [h5, h6])
  rw [ServerM.result_eq_some.mpr hok] at hbatch
  cases hbatch

end CliChat
