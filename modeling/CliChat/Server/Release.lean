import CliChat.Server.Sockets

/-! @src server/src/server.cpp | name:Stop | scheme:case analysis

    What `Stop` lets go of. It closes the listener and epoll; the client sockets belong to the
    sessions, and clearing `m_clients` destroys these without `CloseSession`: the destructor of
    `NetworkSession` is defaulted. So their descriptors stay open, and nothing refers to them.

                      listenfd   epollfd   m_clients   fds
        Stop           closed    closed     cleared     =     -/

namespace CliChat

/-! ### The descriptors of the server itself -/

/-- The states agree on the listener and on epoll. -/
structure SamePorts (s s' : Server) : Prop where
  listenfd : s'.listenfd = s.listenfd
  epollfd : s'.epollfd = s.epollfd

namespace SamePorts

variable {a b c : Server}

theorem trans (h : SamePorts a b) (k : SamePorts b c) : SamePorts a c :=
  ⟨k.listenfd.trans h.listenfd, k.epollfd.trans h.epollfd⟩

theorem of_sendsOnly (h : SendsOnly a b) : SamePorts a b := ⟨h.listenfd, h.epollfd⟩

theorem of_shrinks (h : Shrinks a b) : SamePorts a b := ⟨h.listenfd, h.epollfd⟩

end SamePorts

section runs

variable (na : Sodium) (env : ReturningEnv) {s : Server}

theorem samePorts_parts : HandlerParts na env SamePorts where
  trans := SamePorts.trans
  touch := fun _ _ _ => ⟨rfl, rfl⟩
  received := fun _ _ _ _ _ => ⟨rfl, rfl⟩
  keyStored := fun {s fd c} _ _ _ pk =>
    SamePorts.trans (b := s.write fd { c with clientPk := pk }) ⟨rfl, rfl⟩
      (.of_sendsOnly (keyStored_sendsOnly env s fd c pk))
  keyed := fun {s fd c} _ _ _ payload =>
    (SamePorts.of_sendsOnly ((SendsOnly.touch s fd 1).trans
      (Server.sendPacket_sendsOnly env c.session .groupKey payload _))).trans ⟨rfl, rfl⟩
  lockedOut := by
    intro s fd c _ _ _
    have hlocked : SamePorts s (s.locked.touch fd 1) := ⟨rfl, rfl⟩
    have hsend := (sendSecretbox_spec na env c.session (ascii "SERVER::USERNAME_TAKEN")
      (s.locked.touch fd 1)).1
    exact (hlocked.trans (.of_sendsOnly hsend)).trans (.of_sendsOnly (SendsOnly.log _ (.lock false)))
  named := fun _ _ _ _ _ _ => ⟨rfl, rfl⟩
  used := fun _ _ => ⟨rfl, rfl⟩
  dropped := fun _ _ => ⟨rfl, rfl⟩
  broadcasted := fun _ msg => .of_shrinks (shrinks_broadcasted na env msg _)
  forwardTo := fun _ src pkt => .of_sendsOnly (forwardTo_spec env src pkt _ _).1

theorem event_samePorts (hs : Store s) {e : Event} (hen : e.enabled s = true)
    (hstop : e ≠ .waitFails) : SamePorts s (stateAfter na env e s) := by
  cases e with
  | listener accepts =>
    exact Server.handleNewConnection_invariant (I := SamePorts s)
      (fun _ _ _ _ _ h _ => h.trans ⟨rfl, rfl⟩) (fun _ _ _ _ h _ => h.trans ⟨rfl, rfl⟩) accepts s
      ⟨rfl, rfl⟩
  | net act => exact ⟨rfl, rfl⟩
  | waitFails => exact absurd rfl hstop
  | client fd =>
    obtain ⟨c, hl, hout⟩ := client_outcome na env hs hen
    have hsame := hout.relation (samePorts_parts na env) (hs.sendsOnly (SendsOnly.log s _)) hl
    rw [← stateAfter_eq] at hsame
    exact ⟨hsame.listenfd, hsame.epollfd⟩

/-- The listener and epoll have two descriptors. -/
structure Ports (s : Server) : Prop where
  listenfd : 0 ≤ s.listenfd
  epollfd : 0 ≤ s.epollfd
  ne : s.listenfd ≠ s.epollfd

theorem Ports.same {s s' : Server} (h : Ports s) (k : SamePorts s s') : Ports s' where
  listenfd := k.listenfd ▸ h.listenfd
  epollfd := k.epollfd ▸ h.epollfd
  ne := by
    rw [k.listenfd, k.epollfd]
    exact h.ne

theorem Initial.ports (h : Initial s) : Ports s := by
  obtain ⟨l, ep, pk, sk, gk, hl, hep, hne, -, rfl⟩ := h
  exact ⟨hl, hep, hne⟩

theorem Reach.ports {env : Env} (h : Reach na env s) (hrun : s.running = true) : Ports s :=
  h.returning.while_running na env.returning (fun _ ht => ht.ports)
    (fun _ _ hs hp hen hstop => hp.same (event_samePorts na env.returning hs hen hstop)) hrun

end runs

/-! ### Stop -/

/-- `fd` is open in the server's process. -/
def Server.IsOpen (s : Server) (fd : Fd) : Prop :=
  fd ≠ -1 ∧ (fd = s.listenfd ∨ fd = s.epollfd) ∨ (s.kernel.fds fd).isSome = true

/-- From `s` to `s'`, with the log `T`, the server has let everything go: each descriptor that was
    open was closed once, and none is open any more. -/
structure Released (s s' : Server) (T : List Ev) : Prop where
  clients : s'.clients = ∅
  usernames : s'.usernames = ∅
  listenfd : s'.listenfd = -1
  epollfd : s'.epollfd = -1
  closed : ∀ fd, s.IsOpen fd → (closings T).count fd = 1
  shut : ∀ fd, ¬s'.IsOpen fd

theorem stop_eq {s : Server} (hp : Ports s) (hrun : s.running = true) :
    stop s = { s with
      running := false, listenfd := -1, epollfd := -1, clients := ∅, usernames := ∅
      kernel := { s.kernel with epoll := ∅ }
      trace := s.trace ++ [.close s.listenfd, .close s.epollfd] } := by
  have hl : s.listenfd ≠ -1 := fun hneg => absurd hp.listenfd (by rw [hneg]; decide)
  have hep : s.epollfd ≠ -1 := fun hneg => absurd hp.epollfd (by rw [hneg]; decide)
  simp [stop, hrun, hl, hep, Server.log]

/-- EXACT: `Stop` on a running server always clears both containers and gives up the listener and
    epoll; it lets everything go if and only if no client is connected. -/
theorem stop_releases_iff {na : Sodium} {env : Env} {s : Server} (h : Reach na env s)
    (hrun : s.running = true) :
    ((stop s).clients = ∅ ∧ (stop s).usernames = ∅ ∧ (stop s).listenfd = -1 ∧
      (stop s).epollfd = -1 ∧
      closings ((stop s).trace.drop s.trace.length) = [s.listenfd, s.epollfd]) ∧
    (Released s (stop s) ((stop s).trace.drop s.trace.length) ↔ s.clients = ∅) := by
  have hp := h.ports na hrun
  have hm := h.matched na env hrun
  have hlog : (stop s).trace.drop s.trace.length = [.close s.listenfd, .close s.epollfd] := by
    rw [stop_eq hp hrun, List.drop_left]
  have hfds : (stop s).kernel.fds = s.kernel.fds := by rw [stop_eq hp hrun]
  have hcleared : (stop s).clients = ∅ ∧ (stop s).usernames = ∅ ∧ (stop s).listenfd = -1 ∧
      (stop s).epollfd = -1 := by
    rw [stop_eq hp hrun]
    exact ⟨rfl, rfl, rfl, rfl⟩
  obtain ⟨hclients, husernames, hlisten, hepoll⟩ := hcleared
  rw [hlog]
  refine ⟨⟨hclients, husernames, hlisten, hepoll, rfl⟩, fun hrel => ?_, fun hnone => ?_⟩
  · -- a client's socket stays open
    refine AList.ext (List.eq_nil_iff_forall_not_mem.mpr fun x hx => ?_)
    have hmem : x.1 ∈ s.clients := AList.mem_keys.mpr (List.mem_map_of_mem hx)
    have hopen := (hm.sockets x.1).mp hmem
    exact hrel.shut x.1 (.inr (by rw [hfds]; exact hopen))
  · have hno : ∀ fd, s.kernel.fds fd = none := by
      intro fd
      have hnot : fd ∉ s.clients := hnone ▸ AList.notMem_empty fd
      rw [hm.sockets] at hnot
      simpa using hnot
    refine ⟨hclients, husernames, hlisten, hepoll, fun fd hfd => ?_, fun fd hfd => ?_⟩
    · rcases hfd with ⟨-, rfl | rfl⟩ | hfd
      · simp [closings, Ev.closing, hp.ne.symm]
      · simp [closings, Ev.closing, hp.ne]
      · rw [hno] at hfd
        cases hfd
    · rcases hfd with ⟨hne, hfd⟩ | hfd
      · rw [hlisten, hepoll, or_self] at hfd
        exact hne hfd
      · rw [hfds, hno] at hfd
        cases hfd

/-- A client has joined and left: the two descriptors that are open are let go. -/
theorem stop_releases_left : ∃ s,
    sampleRun [] (joins 0 5 (ascii "al") ++ [.net (.ends 0 .eof), .client 5]) = some s ∧
    closings s.trace = [5] ∧ Released s (stop s) ((stop s).trace.drop s.trace.length) := by
  have hrun : (sampleRun [] (joins 0 5 (ascii "al") ++ [.net (.ends 0 .eof), .client 5])).map
      (fun s => (s.running, s.clients.entries.length, closings s.trace)) =
      some (true, 0, [5]) := by decide +kernel
  obtain ⟨s, hs, heq⟩ := Option.map_eq_some_iff.mp hrun
  simp only [Prod.mk.injEq, List.length_eq_zero_iff] at heq
  obtain ⟨hr, hnone, hclosed⟩ := heq
  exact ⟨s, hs, hclosed, (stop_releases_iff (sampleRun_reach hs) hr).2.mpr (AList.ext hnone)⟩

/-- BUG: a client has joined. Its socket is not closed, and nothing refers to it any more. -/
theorem stop_keeps_socket : ∃ s, sampleRun [] (joins 0 5 (ascii "al")) = some s ∧
    s.running = true ∧ s.IsOpen 5 ∧
    closings ((stop s).trace.drop s.trace.length) = [s.listenfd, s.epollfd] ∧
    (stop s).clients = ∅ ∧ (stop s).IsOpen 5 ∧
    ¬Released s (stop s) ((stop s).trace.drop s.trace.length) := by
  have hrun : ((sampleRun [] (joins 0 5 (ascii "al"))).any fun s =>
      decide (s.running = true ∧ (s.kernel.fds 5).isSome = true ∧
        closings ((stop s).trace.drop s.trace.length) = [s.listenfd, s.epollfd] ∧
        (stop s).clients.entries = [] ∧ ((stop s).kernel.fds 5).isSome = true)) = true := by
    decide +kernel
  obtain ⟨s, hs, heq⟩ := (Option.any_eq_true _ _).mp hrun
  obtain ⟨hrunning, hopen, hclosed, hclients, hleft⟩ := of_decide_eq_true heq
  exact ⟨s, hs, hrunning, .inr hopen, hclosed, AList.ext hclients, .inr hleft,
    fun h => h.shut 5 (.inr hleft)⟩

end CliChat
