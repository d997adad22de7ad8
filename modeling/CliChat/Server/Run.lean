import CliChat.Lib.Transition
import CliChat.Server.Handlers

/-! @src server/src/server.cpp | name:Server | scheme:runs

    Runs of the server: any number of connections, any order of accepts, client events, network
    activity and the final `Stop`. A step is one handler that returns; a handler that does not
    return ends the run in `handle`'s error state. -/

namespace CliChat

open Transition

/-- What the server reacts to. -/
inductive Event where
  /-- The listener is readable. -/
  | listener (accepts : List AcceptResult)
  /-- A client socket is readable. -/
  | client (fd : Fd)
  | net (act : NetAct)
  /-- `epoll_wait` fails. -/
  | waitFails

variable (na : Sodium) (env : Env)

/-- The handler that `EventLoop` calls for an event. -/
def handle : Event → ServerM Unit
  | .listener accepts => modify (handleNewConnection accepts)
  | .client fd => do
    match (← get).clients.lookup fd with
    | none => pure ()
    | some it => dispatch na env fd it
  | .net act => modify fun s => { s with kernel := s.kernel.net act }
  | .waitFails => modify stop

/-- The events that `EventLoop` can be given: those of a running server, on a client it has. -/
def Event.enabled (s : Server) : Event → Bool
  | .listener _ => s.running
  | .client fd => s.running && (s.clients.lookup fd).isSome && fd != s.listenfd
  | .net _ => true
  | .waitFails => s.running

/-- One handler that returns. -/
def step (e : Event) (s : Server) : Option Server :=
  if e.enabled s then
    match handle na env e s with
    | .ok _ s' => some s'
    | .error _ _ => none
  else none

/-- The state when a handler is done, or where it is stuck. -/
def stateAfter (e : Event) (s : Server) : Server :=
  match handle na env e s with
  | .ok _ s' => s'
  | .error _ s' => s'

/-- The server as `SetupListener` leaves it. -/
def Server.started (listenfd epollfd : Fd) (serverPk serverSk groupKey : Bytes) : Server where
  clients := ∅
  usernames := ∅
  clientsMutex := false
  listenfd := listenfd
  epollfd := epollfd
  running := true
  serverPk := serverPk
  serverSk := serverSk
  groupKey := groupKey
  kernel :=
    { fds := fun _ => none
      conns := fun _ => ⟨⟨[], .alive, []⟩, ⟨[], .alive, []⟩⟩
      accepted := 0
      epoll := {listenfd}
      sends := 0
      rands := 0 }
  trace := []

/-- The initial states: two descriptors of the process are open, keys of the right sizes drawn. -/
def Initial (s : Server) : Prop :=
  ∃ listenfd epollfd pk sk gk, 0 ≤ listenfd ∧ 0 ≤ epollfd ∧ listenfd ≠ epollfd ∧
    pk.length = boxPublicKeyBytes ∧ s = Server.started listenfd epollfd pk sk gk

/-- The states that runs reach. -/
def Reach (s : Server) : Prop := Reachable (step na env) Initial s

/-- The turn of a client comes while the server runs, when the table has it. -/
theorem enabled_client {s : Server} {fd : Fd} : (Event.client fd).enabled s = true ↔
    s.running = true ∧ (∃ c, s.clients.lookup fd = some c) ∧ fd ≠ s.listenfd := by
  simp only [Event.enabled, Bool.and_eq_true, bne_iff_ne, Option.isSome_iff_exists, and_assoc]

/-- A step is an enabled event whose handler returns. -/
theorem step_some {e : Event} {s s' : Server} :
    step na env e s = some s' ↔ e.enabled s = true ∧ handle na env e s = .ok () s' := by
  unfold step
  by_cases he : e.enabled s = true
  · rw [if_pos he]
    cases handle na env e s <;> simp [he]
  · rw [if_neg he]
    simp [he]

end CliChat
