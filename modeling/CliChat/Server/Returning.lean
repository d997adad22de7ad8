import CliChat.Server.Ops

/-! @src server/src/server.cpp | name:Server | scheme:sends that do not return

    The server under any environment, beside the server under the environment that answers alike
    and lets a `send` fail where it would not return. While its sends return, a handler does the
    same under both; where one does not, the handler stops there, and has logged a first part of
    what the other logs (`Mirrors`). So a state that a run reaches is reached by sends that return
    (`Reach.returning`), and what is proved of them holds of every environment. -/

namespace CliChat

open Transition

/-- The answers of a schedule; a call that would not return fails instead. -/
def SendSched.answers : SendSched → Answers
  | .returns answers => answers
  | .stops _ _ => [none]

/-- The environment that answers as `env` does, with sends that return. -/
@[simps] def Env.returning (env : Env) : ReturningEnv where
  answers i := (env.sched i).answers
  nonce := env.nonce
  nonce_length := env.nonce_length

/-- The `SendPacket` calls numbered from `i` on, up to `j`, return. -/
def Env.SendsReturn (env : Env) (i j : ℕ) : Prop := ∀ k, i ≤ k → k < j → (env.sched k).Returns

theorem SendSched.Returns.eq {sched : SendSched} (h : sched.Returns) :
    .returns sched.answers = sched := by
  cases sched with
  | returns answers => rfl
  | stops parts how => exact h.elim

theorem ReturningEnv.sendsReturn (env : ReturningEnv) (i j : ℕ) :
    (env : Env).SendsReturn i j := fun _ _ _ => trivial

theorem ReturningEnv.returning (env : ReturningEnv) : (env : Env).returning = env := rfl

namespace Env.SendsReturn

variable {env : Env} {i j k : ℕ}

theorem self : env.SendsReturn i i := fun _ h h' => absurd (h.trans_lt h') (lt_irrefl _)

theorem split (hij : i ≤ j) (hjk : j ≤ k) :
    env.SendsReturn i k ↔ env.SendsReturn i j ∧ env.SendsReturn j k := by
  constructor
  · exact fun h => ⟨fun n hn hn' => h n hn (hn'.trans_le hjk), fun n hn => h n (hij.trans hn)⟩
  · rintro ⟨h, h'⟩ n hn hn'
    by_cases hj : n < j
    · exact h n hn hj
    · exact h' n (not_lt.mp hj) hn'

end Env.SendsReturn

/-! ### What sends nothing -/

theorem Kernel.net_sends (k : Kernel) (act : NetAct) : (k.net act).sends = k.sends := by
  cases act <;> simp only [Kernel.net] <;> split <;> rfl

theorem netFold_sends : ∀ (acts : List NetAct) (k : Kernel),
    (acts.foldl Kernel.net k).sends = k.sends
  | [], _ => rfl
  | act :: acts, k => (netFold_sends acts (k.net act)).trans (k.net_sends act)

theorem handleNewConnection_quiet (accepts : List AcceptResult) (s : Server) :
    (handleNewConnection accepts s).kernel.sends = s.kernel.sends ∧
      s.trace <+: (handleNewConnection accepts s).trace :=
  Server.handleNewConnection_invariant
    (I := fun t => t.kernel.sends = s.kernel.sends ∧ s.trace <+: t.trace)
    (fun _ _ _ _ _ h _ => h)
    (fun _ _ _ _ h _ => ⟨(Kernel.close_sends _ _).trans h.1, h.2.trans (List.prefix_append _ _)⟩)
    accepts s ⟨rfl, List.prefix_rfl⟩

theorem stop_quiet (s : Server) :
    (stop s).kernel.sends = s.kernel.sends ∧ s.trace <+: (stop s).trace := by
  rw [stop]
  by_cases hrun : s.running = true
  · by_cases hl : s.listenfd = -1 <;> by_cases he : s.epollfd = -1 <;>
      simp [hrun, hl, he, Server.log]
  · simp [hrun]

/-! ### Two servers side by side -/

variable {α β : Type} {env : Env}

/-- `y`, whose sends return, does what `x` does: the same while the sends of `x` return, and more
    than `x` where one does not: it logs this `send`. -/
structure Mirrors (env : Env) (x y : ServerM α) : Prop where
  grows : ∀ s, s.kernel.sends ≤ (resultState (y s)).kernel.sends ∧
    s.trace <+: (resultState (y s)).trace
  same : ∀ s, env.SendsReturn s.kernel.sends (resultState (y s)).kernel.sends → x s = y s
  stops : ∀ s, ¬ env.SendsReturn s.kernel.sends (resultState (y s)).kernel.sends →
    ∃ how t e, x s = .error (.send how) t ∧ s.trace <+: t.trace ∧
      t.trace ++ [e] <+: (resultState (y s)).trace

namespace Mirrors

/-- A computation that sends nothing. -/
theorem quiet {x : ServerM α} (h : ∀ s, (resultState (x s)).kernel.sends = s.kernel.sends ∧
    s.trace <+: (resultState (x s)).trace) : Mirrors env x x where
  grows := fun s => ⟨(h s).1.ge, (h s).2⟩
  same := fun _ _ => rfl
  stops := fun s hs => absurd ((h s).1 ▸ Env.SendsReturn.self) hs

/-- SEQUENCE RULE: what mirrors step by step mirrors as a whole. -/
protected theorem bind {x y : ServerM α} {f g : α → ServerM β} (hxy : Mirrors env x y)
    (hfg : ∀ a, Mirrors env (f a) (g a)) : Mirrors env (x >>= f) (y >>= g) := by
  -- The sends of `y >>= g` are those of `y` and then, if it returns, those of `g`.
  refine ⟨fun s => ?_, fun s hs => ?_, fun s hs => ?_⟩
  · have hgrow := hxy.grows s
    cases hy : y s with
    | error e t =>
      rw [hy] at hgrow
      rwa [ServerM.bind_error hy]
    | ok a t =>
      rw [hy] at hgrow
      rw [ServerM.bind_ok hy]
      exact ⟨hgrow.1.trans ((hfg a).grows t).1, hgrow.2.trans ((hfg a).grows t).2⟩
  · have hsame := hxy.same s
    have hgrow := hxy.grows s
    cases hy : y s with
    | error e t =>
      rw [ServerM.bind_error hy] at hs ⊢
      rw [hy] at hsame
      exact ServerM.bind_error (hsame hs) f
    | ok a t =>
      rw [hy] at hsame hgrow
      rw [ServerM.bind_ok hy, Env.SendsReturn.split hgrow.1 ((hfg a).grows t).1] at hs
      rw [ServerM.bind_ok hy, ServerM.bind_ok (hsame hs.1)]
      exact (hfg a).same t hs.2
  · have hsame := hxy.same s
    have hstop := hxy.stops s
    have hgrow := hxy.grows s
    cases hy : y s with
    | error e t =>
      rw [ServerM.bind_error hy] at hs ⊢
      rw [hy] at hstop
      obtain ⟨how, u, e, hx, hgrew, hu⟩ := hstop hs
      exact ⟨how, u, e, ServerM.bind_error hx f, hgrew, hu⟩
    | ok a t =>
      rw [hy] at hsame hstop hgrow
      rw [ServerM.bind_ok hy] at hs ⊢
      rw [Env.SendsReturn.split hgrow.1 ((hfg a).grows t).1] at hs
      by_cases hfirst : env.SendsReturn s.kernel.sends t.kernel.sends
      · obtain ⟨how, u, e, hx, hgrew, hu⟩ := (hfg a).stops t fun h => hs ⟨hfirst, h⟩
        exact ⟨how, u, e, (ServerM.bind_ok (hsame hfirst) f).trans hx, hgrow.2.trans hgrew, hu⟩
      · obtain ⟨how, u, e, hx, hgrew, hu⟩ := hstop hfirst
        exact ⟨how, u, e, ServerM.bind_error hx f, hgrew, hu.trans ((hfg a).grows t).2⟩

protected theorem ite {p : Prop} [Decidable p] {x y x' y' : ServerM α} (h : Mirrors env x y)
    (h' : Mirrors env x' y') : Mirrors env (if p then x else x') (if p then y else y') := by
  split
  · exact h
  · exact h'

/-- A computation that is chosen by the state. -/
theorem at_state {f g : Server → ServerM α} (h : ∀ s, Mirrors env (f s) (g s)) :
    Mirrors env (fun s => f s s) (fun s => g s s) :=
  ⟨fun s => (h s).grows s, fun s => (h s).same s, fun s => (h s).stops s⟩

/-! ### The primitives -/

protected theorem pure (a : α) : Mirrors env (pure a) (pure a) :=
  quiet fun _ => ⟨rfl, List.prefix_rfl⟩

protected theorem throw (e : Fault) : Mirrors env (throw e : ServerM α) (throw e) :=
  quiet fun _ => ⟨rfl, List.prefix_rfl⟩

protected theorem get : Mirrors env get get := quiet fun _ => ⟨rfl, List.prefix_rfl⟩

protected theorem modify {f : Server → Server}
    (h : ∀ s, (f s).kernel.sends = s.kernel.sends ∧ s.trace <+: (f s).trace) :
    Mirrors env (modify f) (modify f) :=
  quiet h

theorem log (e : Ev) : Mirrors env (modify fun s : Server => s.log e) (modify (·.log e)) :=
  .modify fun _ => ⟨rfl, List.prefix_append _ _⟩

theorem access (client : Fd) : Mirrors env (ServerM.access client) (ServerM.access client) := by
  refine quiet fun s => ?_
  cases h : s.clients.lookup client <;> simp only [ServerM.access, h] <;>
    exact ⟨rfl, List.prefix_append _ _⟩

theorem modifyClient (client : Fd) (f : ClientInfo → ClientInfo) :
    Mirrors env (ServerM.modifyClient client f) (ServerM.modifyClient client f) := by
  refine quiet fun s => ?_
  cases h : s.clients.lookup client <;> simp only [ServerM.modifyClient, h] <;>
    exact ⟨rfl, List.prefix_append _ _⟩

theorem lock : Mirrors env ServerM.lock ServerM.lock := by
  refine quiet fun s => ?_
  cases h : s.clientsMutex <;> simp only [ServerM.lock, h] <;>
    exact ⟨rfl, List.prefix_append _ _⟩

theorem unlock : Mirrors env ServerM.unlock ServerM.unlock :=
  quiet fun _ => ⟨rfl, List.prefix_append _ _⟩

theorem recvPacket (sess : NetworkSession) :
    Mirrors env (ServerM.recvPacket sess) (ServerM.recvPacket sess) := by
  refine quiet fun s => ?_
  unfold ServerM.recvPacket
  cases s.kernel.fds sess.socketfd with
  | none => exact ⟨rfl, List.prefix_append _ _⟩
  | some id =>
    dsimp only
    cases CliChat.recvPacket (s.kernel.conns id).toServer with
    | blocks => exact ⟨rfl, List.prefix_rfl⟩
    | done pkt ch => exact ⟨rfl, List.prefix_append _ _⟩

/-- `shutdown` and `close` send nothing. -/
theorem closeSession (client : Fd) :
    Mirrors env (ServerM.closeSession client) (ServerM.closeSession client) :=
  (access client).bind fun _ => .ite
    (.modify fun s => ⟨Kernel.close_sends s.kernel _, List.prefix_append _ _⟩) (.pure _)

variable (na : Sodium) (env)

/-- `SendPacket`: where one of its `send` calls does not return, it stops there. -/
theorem sendPacket (sess : NetworkSession) (site : Site) (data : Bytes) :
    Mirrors env (ServerM.sendPacket env sess site data)
      (ServerM.sendPacket env.returning sess site data) := by
  refine ⟨fun s => ?_, fun s hs => ?_, fun s hs => ?_⟩
  · rw [sendPacket_apply, resultState, Server.sendPacket]
    cases s.kernel.fds sess.socketfd with
    | none => exact ⟨le_rfl, List.prefix_append _ _⟩
    | some id => exact ⟨Nat.le_succ _, List.prefix_append _ _⟩
  · rw [sendPacket_apply, resultState, Server.sendPacket] at hs
    unfold ServerM.sendPacket
    cases hfd : s.kernel.fds sess.socketfd with
    | none => rfl
    | some id =>
      rw [hfd] at hs
      have hret : (env.sched s.kernel.sends).Returns := hs _ le_rfl (Nat.lt_succ_self _)
      simp only [ReturningEnv.toEnv_sched, Env.returning_answers, hret.eq]
  · rw [sendPacket_apply, resultState, Server.sendPacket] at hs ⊢
    unfold ServerM.sendPacket
    cases hfd : s.kernel.fds sess.socketfd with
    | none =>
      rw [hfd] at hs
      exact absurd Env.SendsReturn.self hs
    | some id =>
      rw [hfd] at hs
      have hstop : ¬ (env.sched s.kernel.sends).Returns := by
        intro hret
        refine hs fun k hk hk' => ?_
        obtain rfl : k = s.kernel.sends := le_antisymm (Nat.lt_succ_iff.mp hk') hk
        exact hret
      rw [← sendPacket_returns data] at hstop
      cases hr : (CliChat.sendPacket data (env.sched s.kernel.sends)).1 with
      | ok ok => exact absurd ⟨ok, hr⟩ hstop
      | error how =>
        let bs := (CliChat.sendPacket data (env.sched s.kernel.sends)).2
        exact ⟨how, { s with kernel := s.kernel.deliver id bs }, _, by simp only [hr, bs],
          List.prefix_rfl, List.prefix_rfl⟩

theorem sendSecretbox (sess : NetworkSession) (msg : Bytes) :
    Mirrors env (ServerM.sendSecretbox na env sess msg)
      (ServerM.sendSecretbox na env.returning sess msg) := by
  refine .bind (quiet fun _ => ⟨rfl, List.prefix_rfl⟩) fun nonce => .bind .get fun s => ?_
  cases na.secretboxEasy msg nonce s.groupKey with
  | none => exact .bind (log _) fun _ => .pure _
  | some cipher => exact (sendPacket env sess _ _).bind fun _ => .bind (log _) fun _ => .pure _

theorem sendToRegistered (msg : Bytes) : ∀ l : List (Σ _ : Fd, ClientInfo),
    Mirrors env (ServerM.sendToRegistered na env msg l)
      (ServerM.sendToRegistered na env.returning msg l)
  | [] => .pure _
  | ⟨_, client⟩ :: rest =>
    .ite (sendToRegistered msg rest) ((sendSecretbox env na client.session msg).bind fun _ =>
      (sendToRegistered msg rest).bind fun _ => .pure _)

theorem forwardTo (src : ConnId) (rawPkt : Bytes) : ∀ l : List (Σ _ : Fd, ClientInfo),
    Mirrors env (ServerM.forwardTo env src rawPkt l) (ServerM.forwardTo env.returning src rawPkt l)
  | [] => .pure _
  | ⟨_, otherClient⟩ :: rest =>
    .ite (forwardTo src rawPkt rest) ((sendPacket env otherClient.session _ rawPkt).bind fun _ =>
      forwardTo src rawPkt rest)

/-! ### The handlers -/

variable {env} {bc bc' : Bytes → ServerM Unit}

theorem disconnectClient (hbc : ∀ msg, Mirrors env (bc msg) (bc' msg)) (client : Fd) :
    Mirrors env (CliChat.disconnectClient bc client) (CliChat.disconnectClient bc' client) := by
  refine lock.bind fun _ => (access client).bind fun c => .bind .get fun s => ?_
  cases s.clients.lookup c.fd with
  | none => exact unlock
  | some it =>
    refine (access client).bind fun c₁ => .bind (.modify fun _ => ⟨rfl, List.prefix_append _ _⟩)
      fun _ => (closeSession client).bind fun _ => (access client).bind fun c₂ =>
        (access client).bind fun c₃ => .ite ?_ ?_
    · exact (access client).bind fun _ => .bind (.modify fun _ => ⟨rfl, List.prefix_rfl⟩) fun _ =>
        .bind (.modify fun _ => ⟨rfl, List.prefix_append _ _⟩) fun _ =>
          unlock.bind fun _ => .ite (hbc _) (.pure _)
    · exact .bind (.modify fun _ => ⟨rfl, List.prefix_append _ _⟩) fun _ =>
        unlock.bind fun _ => .ite (hbc _) (.pure _)

theorem removeListed {disc disc' : Fd → ServerM Unit} (h : ∀ fd, Mirrors env (disc fd) (disc' fd)) :
    ∀ removeList, Mirrors env (CliChat.removeListed disc removeList)
      (CliChat.removeListed disc' removeList)
  | [] => .pure _
  | fd :: rest => by
    refine .bind .get fun s => ?_
    cases s.clients.lookup fd with
    | none => exact removeListed h rest
    | some _ => exact (h fd).bind fun _ => removeListed h rest

variable (env)

theorem broadcastEncrypted : ∀ (fuel : ℕ) (msg : Bytes),
    Mirrors env (CliChat.broadcastEncrypted na env fuel msg)
      (CliChat.broadcastEncrypted na env.returning fuel msg)
  | 0, _ => .throw _
  | fuel + 1, msg =>
    .bind (log _) fun _ => .bind .get fun _ =>
      (sendToRegistered env na msg _).bind fun removeList =>
        removeListed (disconnectClient (broadcastEncrypted fuel)) removeList

theorem broadcast (msg : Bytes) :
    Mirrors env (CliChat.broadcast na env msg) (CliChat.broadcast na env.returning msg) :=
  at_state (f := fun s => CliChat.broadcastEncrypted na env (s.clients.entries.length + 1) msg)
    (g := fun s => CliChat.broadcastEncrypted na env.returning (s.clients.entries.length + 1) msg)
    fun _ => broadcastEncrypted env na _ msg

theorem disconnect (client : Fd) :
    Mirrors env (CliChat.disconnect na env client) (CliChat.disconnect na env.returning client) :=
  disconnectClient (broadcast env na) client

theorem answerKey (client : Fd) (pubkeyPkt : Bytes) :
    Mirrors env (CliChat.answerKey na env client pubkeyPkt)
      (CliChat.answerKey na env.returning client pubkeyPkt) := by
  refine (modifyClient client _).bind fun _ => .bind .get fun s => (access client).bind fun c =>
    (sendPacket env _ _ _).bind fun _ => .bind (quiet fun _ => ⟨rfl, List.prefix_rfl⟩) fun nonce =>
      (access client).bind fun c₁ => .bind .get fun s₁ => ?_
  cases na.boxEasy s₁.groupKey nonce c₁.clientPk s₁.serverSk with
  | none => exact disconnect env na client
  | some cipher =>
    exact (access client).bind fun _ => (sendPacket env _ _ _).bind fun _ => modifyClient client _

theorem keyExchange (client : Fd) :
    Mirrors env (CliChat.keyExchange na env client)
      (CliChat.keyExchange na env.returning client) := by
  refine (access client).bind fun c => (recvPacket c.session).bind fun pkt => ?_
  cases pkt with
  | none => exact .pure _
  | some pubkeyPkt => exact .ite (.pure _) (answerKey env na client pubkeyPkt)

theorem claimName (client : Fd) (uname : Bytes) :
    Mirrors env (CliChat.claimName na env client uname)
      (CliChat.claimName na env.returning client uname) := by
  refine lock.bind fun _ => .bind .get fun s => .ite ?_ ?_
  · exact (access client).bind fun _ => (sendSecretbox env na _ _).bind fun _ =>
      (disconnect env na client).bind fun _ => unlock
  · exact .bind (.modify fun _ => ⟨rfl, List.prefix_rfl⟩) fun _ => unlock.bind fun _ =>
      (modifyClient client _).bind fun _ => (modifyClient client _).bind fun _ =>
        (access client).bind fun _ => (broadcast env na _).bind fun _ =>
          (access client).bind fun _ => .pure _

theorem registerClient (client : Fd) (rawPkt : Bytes) :
    Mirrors env (CliChat.registerClient na env client rawPkt)
      (CliChat.registerClient na env.returning client rawPkt) := by
  refine .ite (disconnect env na client) (.ite (.throw _) (.bind .get fun s => ?_))
  cases na.secretboxOpenEasy (rawPkt.drop secretboxNonceBytes) (rawPkt.take secretboxNonceBytes)
    s.groupKey with
  | none => exact disconnect env na client
  | some uname => exact claimName env na client uname

theorem handleClientEvent (client : Fd) :
    Mirrors env (CliChat.handleClientEvent na env client)
      (CliChat.handleClientEvent na env.returning client) := by
  refine (access client).bind fun c => .bind .get fun s => ?_
  cases s.clients.lookup c.fd with
  | none => exact .pure _
  | some _ =>
    refine (access client).bind fun c₁ => .ite (keyExchange env na client) ?_
    refine (access client).bind fun c₂ => (recvPacket c₂.session).bind fun pkt => ?_
    cases pkt with
    | none => exact disconnect env na client
    | some rawPkt =>
      exact (access client).bind fun _ => .ite (registerClient env na client rawPkt)
        (.bind .get fun _ => forwardTo env _ rawPkt _)

theorem dispatch (fd : Fd) (it : ClientInfo) :
    Mirrors env (CliChat.dispatch na env fd it) (CliChat.dispatch na env.returning fd it) :=
  .bind (log _) fun _ => handleClientEvent env na fd

theorem handle (e : Event) :
    Mirrors env (CliChat.handle na env e) (CliChat.handle na env.returning e) := by
  cases e with
  | listener accepts => exact .modify (handleNewConnection_quiet accepts)
  | client fd =>
    refine .bind .get fun s => ?_
    cases s.clients.lookup fd with
    | none => exact .pure _
    | some it => exact dispatch env na fd it
  | net act => exact .modify fun s => ⟨s.kernel.net_sends act, List.prefix_rfl⟩
  | waitFails => exact .modify stop_quiet

/-! ### The event loop -/

theorem handleBatch : ∀ evs : List EpollEvent,
    Mirrors env (CliChat.handleBatch na env evs) (CliChat.handleBatch na env.returning evs)
  | [] => .pure _
  | ev :: rest => by
    refine .bind (.modify fun s => ⟨netFold_sends ev.net s.kernel, List.prefix_rfl⟩) fun _ =>
      .bind .get fun s => .ite ?_ ?_
    · exact .bind (.modify (handleNewConnection_quiet ev.accepts)) fun _ => handleBatch rest
    · cases s.clients.lookup ev.fd with
      | none => exact .pure _
      | some it => exact (dispatch env na ev.fd it).bind fun _ => handleBatch rest

theorem eventLoop : ∀ waits : List EpollWait,
    Mirrors env (CliChat.eventLoop na env waits) (CliChat.eventLoop na env.returning waits)
  | [] => .bind .get fun _ => .pure _
  | w :: rest => by
    refine .bind .get fun s => .ite (.pure _) ?_
    cases w with
    | failed => exact .bind (.modify stop_quiet) fun _ => .pure _
    | batch events =>
      exact (handleBatch env na _).bind fun _ => .ite (eventLoop rest) (.pure _)

end Mirrors

/-! ### Runs -/

variable (na : Sodium)

/-- Every `send` of the handler of `e` returns. -/
def SendsReturn (env : Env) (e : Event) (s : Server) : Prop :=
  env.SendsReturn s.kernel.sends (stateAfter na env.returning e s).kernel.sends

theorem stateAfter_eq (env : Env) (e : Event) (s : Server) :
    stateAfter na env e s = resultState (handle na env e s) := by
  rw [stateAfter]
  cases handle na env e s <;> rfl

variable {na} {e : Event} {s s' : Server} {es : List Event}

theorem SendsReturn.handle (h : SendsReturn na env e s) :
    handle na env e s = handle na env.returning e s := by
  rw [SendsReturn, stateAfter_eq] at h
  exact (Mirrors.handle env na e).same s h

theorem SendsReturn.stateAfter (h : SendsReturn na env e s) :
    stateAfter na env e s = stateAfter na env.returning e s := by
  rw [stateAfter_eq, stateAfter_eq, h.handle]

/-- A handler of which a `send` does not return stops there, with a first part of the log. -/
theorem handle_stops (h : ¬ SendsReturn na env e s) :
    ∃ how t ev, handle na env e s = .error (.send how) t ∧ s.trace <+: t.trace ∧
      t.trace ++ [ev] <+: (stateAfter na env.returning e s).trace := by
  rw [SendsReturn, stateAfter_eq] at h
  rw [stateAfter_eq]
  exact (Mirrors.handle env na e).stops s h

theorem SendsReturn.of_failing {bad : List ℕ} : SendsReturn na (Env.failing bad) e s :=
  (ReturningEnv.failing bad).sendsReturn _ _

/-- What is logged is a first part of what the server whose sends return logs. -/
theorem stateAfter_begins (na : Sodium) (env : Env) (e : Event) (s : Server) :
    (stateAfter na env e s).trace <+: (stateAfter na env.returning e s).trace := by
  by_cases hret : SendsReturn na env e s
  · rw [hret.stateAfter]
  · obtain ⟨how, t, ev, herr, -, ht⟩ := handle_stops hret
    rw [stateAfter_eq na env, herr]
    exact (List.prefix_append t.trace [ev]).trans ht

/-- A handler that returns has sends that return. -/
theorem step_returning (h : step na env e s = some s') :
    SendsReturn na env e s ∧ step na env.returning e s = some s' := by
  obtain ⟨hen, hok⟩ := (step_some na env).mp h
  have hret : SendsReturn na env e s := by
    by_contra hstop
    obtain ⟨how, t, -, herr, -⟩ := handle_stops hstop
    rw [hok] at herr
    cases herr
  exact ⟨hret, (step_some na env.returning).mpr ⟨hen, hret.handle ▸ hok⟩⟩

theorem step_of_returning (hret : SendsReturn na env e s)
    (h : step na env.returning e s = some s') : step na env e s = some s' := by
  obtain ⟨hen, hok⟩ := (step_some na env.returning).mp h
  rw [← hret.handle] at hok
  exact (step_some na env).mpr ⟨hen, hok⟩

/-- SIMULATION: a run is a run of the server whose sends return. -/
theorem run_returning (h : run (step na env) es s = some s') :
    run (step na env.returning) es s = some s' := by
  induction es generalizing s with
  | nil => rwa [run_nil] at h ⊢
  | cons e es ih =>
    rw [run_cons_some] at h ⊢
    obtain ⟨m, hm, hrest⟩ := h
    exact ⟨m, (step_returning hm).2, ih hrest⟩

theorem Reach.returning (h : Reach na env s) : Reach na env.returning s := by
  obtain ⟨s₀, es, h₀, hrun⟩ := h
  exact ⟨s₀, es, h₀, run_returning hrun⟩

end CliChat
