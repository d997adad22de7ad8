import CliChat.Server.EventLoop
import CliChat.Server.Release

/-! @src server/src/server.cpp, server/src/main.cpp | name:Server, SetupListener, Start, ~Server |
    scheme:ledger

    The life of the server program, however its system calls end. `SetupListener` goes on after a
    call that has failed, and where the first of them calls `Stop`, the later calls of `Stop` return
    at once. The ledger at the end: which descriptors were closed, how often, and which were not.

        socket ─▶ bind ─▶ listen ─▶ epoll_create1 ─▶ EventLoop ─▶ ~Server
                   │                  └─ not closed, if a call before it failed
                   └─ close, and Stop closes again                                    -/

namespace CliChat

open Transition

/-- What the calls in `SetupListener` return: a descriptor or -1, success or not. -/
structure SetupCalls where
  socket : Option ℕ
  bind : Bool
  listen : Bool
  epollCreate1 : Option ℕ
  epollCtl : Bool

/-- The descriptor, or -1. -/
def descriptor : Option ℕ → Fd
  | some fd => fd
  | none => -1

/-- A call that `SetupListener` looks at has failed. -/
def SetupCalls.failed (calls : SetupCalls) : Bool :=
  calls.socket.isNone || !calls.bind || !calls.listen || calls.epollCreate1.isNone

/-- `Server::SetupListener`. `bind` and `listen` fail on what is no descriptor. -/
def Server.setupListener (calls : SetupCalls) (s : Server) : Server :=
  let s₁ := { s with listenfd := descriptor calls.socket }
  let s₂ := if s₁.listenfd < 0 then stop s₁ else s₁
  let s₃ :=
    if calls.bind && 0 ≤ s₂.listenfd then s₂ else stop (s₂.log (.close s₂.listenfd))
  let s₄ := if calls.listen && 0 ≤ s₃.listenfd then s₃ else stop s₃
  let s₅ := { s₄ with epollfd := descriptor calls.epollCreate1 }
  let s₆ := if s₅.epollfd < 0 then stop s₅ else s₅
  -- what `epoll_ctl` returns is not looked at
  if calls.epollCtl && 0 ≤ s₆.listenfd && 0 ≤ s₆.epollfd then
    { s₆ with kernel := { s₆.kernel with epoll := insert s₆.listenfd s₆.kernel.epoll } }
  else s₆

/-- `Server::Start`: `true` while it waits in `epoll_wait`, `false` once it has returned. -/
def start (na : Sodium) (env : Env) (calls : SetupCalls) (waits : List EpollWait) :
    ServerM Bool := do
  if (← get).running then pure false
  else
    modify fun s => { s with running := true }.setupListener calls
    eventLoop na env waits

section setup

variable {calls : SetupCalls} {pk sk gk : Bytes}

/-- The descriptors that a failed setup closes: `bind` closes the listener before `Stop` does. -/
def SetupCalls.closed (calls : SetupCalls) : List Fd :=
  match calls.socket with
  | none => []
  | some l => if calls.bind then [(l : Fd)] else [(l : Fd), (l : Fd)]

end setup

section loop

variable (na : Sodium) (env : Env) {s s' : Server}

/-- INVARIANT: the descriptors of the clients are none of the server's own. -/
structure Apart (s : Server) : Prop where
  closed : ∀ k ∈ closings s.trace, k ≠ s.listenfd ∧ k ≠ s.epollfd
  epollfd : s.epollfd ∉ s.clients

namespace Apart

theorem handleNewConnection (h : Apart s) (hm : Matched s) (accepts : List AcceptResult) :
    Apart (CliChat.handleNewConnection accepts s) := by
  have hboth : Apart (CliChat.handleNewConnection accepts s) ∧
      Matched (CliChat.handleNewConnection accepts s) := by
    refine Server.handleNewConnection_invariant (I := fun t => Apart t ∧ Matched t) ?_ ?_ accepts s
      ⟨h, hm⟩
    · rintro t fd r ci co ⟨ht, hmt⟩ hfree
      obtain ⟨-, -, hepoll, -⟩ := Server.isFree_iff.mp hfree
      have hlook : ∀ k, (t.admitted fd r ci co).clients.lookup k = if k = fd then _ else _ :=
        lookup_emplace (AList.lookup_eq_none.mpr (hmt.notMem_of_free hfree)) _ r
      refine ⟨⟨ht.closed, ?_⟩, hmt.admitted hfree r ci co⟩
      change t.epollfd ∉ _
      rw [← AList.lookup_isSome, hlook, if_neg (Ne.symm hepoll), AList.lookup_isSome]
      exact ht.epollfd
    · rintro t fd ci co ⟨ht, hmt⟩ hfree
      obtain ⟨-, hlisten, hepoll, -⟩ := Server.isFree_iff.mp hfree
      refine ⟨⟨fun k hk => ?_, ht.epollfd⟩, hmt.refused hfree ci co⟩
      rw [Server.refused, Server.log_trace, closings_append] at hk
      rcases List.mem_append.mp hk with hk | hk
      · exact ht.closed k hk
      · rw [List.mem_singleton.mp hk]
        exact ⟨hlisten, hepoll⟩
  exact hboth.1

/-- STEP: every event but `Stop`. -/
theorem event (na : Sodium) (env : ReturningEnv) (hs : Store s) (hm : Matched s) (h : Apart s)
    {e : Event} (hen : e.enabled s = true) (hstop : e ≠ .waitFails) :
    Apart (stateAfter na env e s) := by
  cases e with
  | listener accepts => exact h.handleNewConnection hm accepts
  | net act => exact ⟨h.closed, h.epollfd⟩
  | waitFails => exact absurd rfl hstop
  | client fd =>
    have hshut := client_shuts na env hs hen
    have hports : SamePorts s (stateAfter na env (.client fd) s) :=
      event_samePorts na env hs hen hstop
    refine ⟨fun k hk => ?_, ?_⟩
    · rw [hports.listenfd, hports.epollfd]
      rw [hshut.trace, closings_append] at hk
      rcases List.mem_append.mp hk with hk | hk
      · exact h.closed k hk
      · have hentry := hshut.entries k hk
        exact ⟨fun heq => hm.listen (heq ▸ hentry), fun heq => h.epollfd (heq ▸ hentry)⟩
    · rw [hports.epollfd, hshut.keys]
      exact fun hk => h.epollfd hk.1

end Apart

/-- RUNS: as long as the server has not stopped. -/
theorem Reach.apart (h : Reach na env s) (hrun : s.running = true) : Apart s := by
  have hboth : Matched s ∧ Apart s := by
    refine h.returning.while_running na env.returning (I := fun s => Matched s ∧ Apart s)
      (fun t ht => ⟨ht.matched, ?_⟩) (fun t e hs ⟨hm, ha⟩ hen hstop =>
        ⟨hm.event na env.returning hs hen hstop, ha.event na env.returning hs hm hen hstop⟩) hrun
    obtain ⟨listenfd, epollfd, pk, sk, gk, -, -, -, -, rfl⟩ := ht
    exact ⟨nofun, AList.notMem_empty _⟩
  exact hboth.2

end loop

/-- The ledger of a server that has ended: the listener `l` and epoll `p` were closed once, and of
    each connection accepted the socket was closed once, or is one of those still open. -/
structure Settled (e : Server) (l p : ℕ) (closed kept : List Fd) : Prop where
  closings : closings e.trace = closed ++ [(l : Fd), (p : Fd)]
  own : (l : Fd) ∉ closed ∧ (p : Fd) ∉ closed
  nodup : kept.Nodup
  mem_kept : ∀ fd, fd ∈ kept ↔ (e.kernel.fds fd).isSome = true
  count : closed.length + kept.length = e.kernel.accepted

section ledger

variable (na : Sodium) (env : Env)

/-- `Stop` on a running server settles it. -/
theorem Reach.settled {s : Server} (h : Reach na env s) (hrun : s.running = true) {l p : ℕ}
    (hl : s.listenfd = l) (hp : s.epollfd = p) :
    ∃ closed kept, Settled (stop s) l p closed kept := by
  have hports := h.ports na hrun
  have hm := h.matched na env hrun
  have hapart := h.apart na env hrun
  have hstop := stop_eq hports hrun
  refine ⟨closings s.trace, s.clients.keys, ?_, ⟨fun hk => ?_, fun hk => ?_⟩, s.clients.nodupKeys,
    fun fd => ?_, ?_⟩
  · rw [hstop, hl, hp, closings_append]
    rfl
  · exact (hapart.closed _ hk).1 hl.symm
  · exact (hapart.closed _ hk).2 hp.symm
  · rw [hstop, AList.mem_keys.symm]
    exact hm.sockets fd
  · have hcount := hm.count
    rw [hstop]
    simpa [AList.keys, List.keys] using hcount

end ledger

end CliChat
