import CliChat.Server.Conformance

/-! @src server/src/server.cpp | name:Server | scheme:one connection

    What one event does to the streams of one connection (`Serves`): what was written to it is what
    the log says was sent, and what was read from it is what the log says was received. Only the
    network does more. -/

namespace CliChat

open Framing Transition

/-- The connection that the network acts on. -/
def NetAct.conn : NetAct → ConnId
  | .arrive id _ => id
  | .ends id _ => id

theorem Kernel.net_conns_ne (k : Kernel) (a : NetAct) {id : ConnId} (h : id ≠ a.conn) :
    (k.net a).conns id = k.conns id := by
  cases a <;> simp only [Kernel.net] <;> split
  · exact Function.update_of_ne h _ _
  · rfl
  · exact Function.update_of_ne h _ _
  · rfl

theorem Kernel.net_toClient (k : Kernel) (a : NetAct) (id : ConnId) :
    ((k.net a).conns id).toClient = (k.conns id).toClient := by
  by_cases h : id = a.conn
  · subst h
    cases a <;> simp only [Kernel.net, NetAct.conn] <;> split
    · rw [Kernel.consumed_conns, Function.update_self]
    · rfl
    · rw [Kernel.consumed_conns, Function.update_self]
    · rfl
  · rw [k.net_conns_ne a h]

/-- From `s` to `s'` with the log `T`: `id` was written the packets of `T`, and those of `T` were read
    from it, unless it was accepted only now. -/
structure Serves (s s' : Server) (T : List Ev) (id : ConnId) : Prop where
  written : ∃ bs, Chunks (packetsTo id T) bs ∧
    (s'.kernel.conns id).toClient.bytes = (s.kernel.conns id).toClient.bytes ++ bs
  read : Consumes (s.kernel.conns id).toServer (packetsFrom id T) (s'.kernel.conns id).toServer ∨
    s.kernel.accepted ≤ id ∧ packetsFrom id T = [] ∧
      ∃ cuts, (s'.kernel.conns id).toServer = ⟨[], .alive, cuts⟩

section events

variable (na : Sodium) (env : ReturningEnv) {s : Server}

/-- The log says nothing of `id`, and its streams have not changed. -/
theorem Serves.quiet {s' : Server} {T : List Ev} (hT : ∀ e ∈ T, e.mute = true) {id : ConnId}
    (hto : (s'.kernel.conns id).toClient.bytes = (s.kernel.conns id).toClient.bytes)
    (hfrom : (s'.kernel.conns id).toServer = (s.kernel.conns id).toServer ∨
      s.kernel.accepted ≤ id ∧ ∃ cuts, (s'.kernel.conns id).toServer = ⟨[], .alive, cuts⟩) :
    Serves s s' T id := by
  obtain ⟨hnil, hnil'⟩ := mute_projections hT id
  refine ⟨⟨[], by rw [hnil]; exact .nil, by rw [hto, List.append_nil]⟩, ?_⟩
  rcases hfrom with heq | ⟨hid, hnew⟩
  · rw [hnil', heq]
    exact Or.inl (.refl _)
  · exact Or.inr ⟨hid, hnil', hnew⟩

/-- What `HandleNewConnection` does to the streams of `id`. -/
theorem handleNewConnection_conns (hw : Wired s) (accepts : List AcceptResult) (id : ConnId) :
    ((handleNewConnection accepts s).kernel.conns id).toClient.bytes =
        (s.kernel.conns id).toClient.bytes ∧
      (((handleNewConnection accepts s).kernel.conns id).toServer = (s.kernel.conns id).toServer ∨
        s.kernel.accepted ≤ id ∧
          ∃ cuts, ((handleNewConnection accepts s).kernel.conns id).toServer = ⟨[], .alive, cuts⟩) := by
  -- one accept, followed or not by a close, starts the streams of one new connection
  have hone : ∀ (t : Server) (k : Kernel) fd ci co, Wired t →
      (∀ i, (k.conns i).toClient.bytes = ((t.kernel.accept fd ci co).conns i).toClient.bytes ∧
        (k.conns i).toServer = ((t.kernel.accept fd ci co).conns i).toServer) →
      s.kernel.accepted ≤ t.kernel.accepted →
      (t.kernel.conns id).toClient.bytes = (s.kernel.conns id).toClient.bytes →
      ((t.kernel.conns id).toServer = (s.kernel.conns id).toServer ∨
        s.kernel.accepted ≤ id ∧ ∃ cuts, (t.kernel.conns id).toServer = ⟨[], .alive, cuts⟩) →
      (k.conns id).toClient.bytes = (s.kernel.conns id).toClient.bytes ∧
      ((k.conns id).toServer = (s.kernel.conns id).toServer ∨
        s.kernel.accepted ≤ id ∧ ∃ cuts, (k.conns id).toServer = ⟨[], .alive, cuts⟩) := by
    intro t k fd ci co hwt hk hacc hto hfrom
    obtain ⟨hk₁, hk₂⟩ := hk id
    rw [hk₁, hk₂, Kernel.accept_conns, Function.update_apply]
    by_cases hid : id = t.kernel.accepted
    · rw [if_pos hid, ← hto, hid, (hwt.fresh _ le_rfl).2.2]
      exact ⟨rfl, Or.inr ⟨hacc, ci, rfl⟩⟩
    · rw [if_neg hid]
      exact ⟨hto, hfrom⟩
  have hloop : Wired (handleNewConnection accepts s) ∧
      s.kernel.accepted ≤ (handleNewConnection accepts s).kernel.accepted ∧
      ((handleNewConnection accepts s).kernel.conns id).toClient.bytes =
        (s.kernel.conns id).toClient.bytes ∧
      (((handleNewConnection accepts s).kernel.conns id).toServer = (s.kernel.conns id).toServer ∨
        s.kernel.accepted ≤ id ∧
          ∃ cuts, ((handleNewConnection accepts s).kernel.conns id).toServer = ⟨[], .alive, cuts⟩) := by
    refine Server.handleNewConnection_invariant (I := fun t => Wired t ∧
      s.kernel.accepted ≤ t.kernel.accepted ∧
      (t.kernel.conns id).toClient.bytes = (s.kernel.conns id).toClient.bytes ∧
      ((t.kernel.conns id).toServer = (s.kernel.conns id).toServer ∨
        s.kernel.accepted ≤ id ∧ ∃ cuts, (t.kernel.conns id).toServer = ⟨[], .alive, cuts⟩)) ?_ ?_
      accepts s ⟨hw, le_rfl, rfl, Or.inl rfl⟩
    · rintro t fd r ci co ⟨hwt, hacc, hto, hfrom⟩ -
      exact ⟨hwt.admitted fd r ci co, hacc.trans (Nat.le_succ _),
        hone t _ fd ci co hwt (fun _ => ⟨rfl, rfl⟩) hacc hto hfrom⟩
    · rintro t fd ci co ⟨hwt, hacc, hto, hfrom⟩ -
      refine ⟨hwt.refused fd ci co, ?_, hone t _ fd ci co hwt
        (fun i => ⟨Kernel.close_bytes _ fd i, Kernel.close_toServer _ fd i⟩) hacc hto hfrom⟩
      rw [Server.refused_accepted]
      exact hacc.trans (Nat.le_succ _)
  exact hloop.2.2

/-- The counter of connections never goes back. -/
theorem event_accepted (hs : Store s) {e : Event} (hen : e.enabled s = true) :
    s.kernel.accepted ≤ (stateAfter na env e s).kernel.accepted := by
  cases e with
  | listener accepts => exact (hs.handleNewConnection accepts).2.accepted
  | net act => exact (s.kernel.net_frame act).2.1.ge
  | waitFails => exact (stop_kernel s).2.ge
  | client fd => exact (client_shuts na env hs hen).accepted.ge

/-- STEP: what an event does to the connections that the network does not act on. -/
theorem event_serves (hs : Store s) (hw : Wired s) {e : Event} (hen : e.enabled s = true)
    {id : ConnId} (hid : ∀ a, e = .net a → a.conn ≠ id) :
    ∃ T, (stateAfter na env e s).trace = s.trace ++ T ∧ Serves s (stateAfter na env e s) T id := by
  cases e with
  | listener accepts =>
    obtain ⟨T, hT, hcloses⟩ := handleNewConnection_adds s accepts
    obtain ⟨hto, hfrom⟩ := handleNewConnection_conns hw accepts id
    exact ⟨T, hT, .quiet (mute_of_closes hcloses) hto hfrom⟩
  | net act =>
    have hconn : (s.kernel.net act).conns id = s.kernel.conns id :=
      s.kernel.net_conns_ne act fun h => hid act rfl h.symm
    exact ⟨[], (List.append_nil _).symm, .quiet (by simp) (congrArg (·.toClient.bytes) hconn)
      (Or.inl (congrArg (·.toServer) hconn))⟩
  | waitFails =>
    obtain ⟨T, hT, hcloses⟩ := stop_adds s
    have hconn : (stop s).kernel.conns id = s.kernel.conns id := by rw [(stop_kernel s).1]
    exact ⟨T, hT, .quiet (mute_of_closes hcloses) (congrArg (·.toClient.bytes) hconn)
      (Or.inl (congrArg (·.toServer) hconn))⟩
  | client fd =>
    have hst := client_streams na env hs hen
    exact ⟨_, hst.trace, hst.sent id, Or.inl (hst.read id)⟩

/-- What was received fits the header. -/
def HeardFits (s : Server) : Prop := ∀ id, ∀ p ∈ packetsFrom id s.trace, p.length < 2 ^ 32

variable {na} in
/-- STEP: every event, also one that does not return. -/
theorem HeardFits.event (h : HeardFits s) (hs : Store s) (hw : Wired s) {e : Event}
    (hen : e.enabled s = true) : HeardFits (stateAfter na env e s) := by
  intro id p hp
  by_cases hnet : ∃ a, e = .net a
  · obtain ⟨a, rfl⟩ := hnet
    exact h id p hp
  · obtain ⟨T, hT, hserves⟩ := event_serves na env hs hw hen fun a ha => absurd ⟨a, ha⟩ hnet
    rw [hT, packetsFrom_append] at hp
    rcases List.mem_append.mp hp with hp | hp
    · exact h id p hp
    · rcases hserves.read with hread | ⟨-, hnil, -⟩
      · exact hread.lengths p hp
      · rw [hnil] at hp
        cases hp

/-- RUNS: the server receives nothing longer than the header can say. -/
theorem Reach.heardFits (h : Reach na env s) : HeardFits s := by
  have hinv : (Store s ∧ Wired s) ∧ HeardFits s := by
    refine Reachable.invariant (I := fun s => (Store s ∧ Wired s) ∧ HeardFits s)
      (fun s hs => ⟨⟨hs.store, hs.wired⟩, ?_⟩) ?_ h
    · obtain ⟨listenfd, epollfd, pk, sk, gk, -, -, -, -, rfl⟩ := hs
      intro id p hp
      cases hp
    · rintro e s s' ⟨⟨hs, hw⟩, hfits⟩ hstep
      have hen := ((step_some na env).mp hstep).1
      rw [← step_stateAfter na env hstep]
      refine ⟨⟨?_, hw.event env hs hen⟩, hfits.event env hs hw hen⟩
      rw [step_stateAfter na env hstep]
      exact (hs.step na env hstep).1
  exact hinv.2

end events

end CliChat
