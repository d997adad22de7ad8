import CliChat.Client.ClientLoop
import CliChat.Client.MessageWindow
import CliChat.Client.Invariant
import CliChat.Common.Pipe

/-! @src client/src/client.cpp, common/src/network_session.cpp | name:Start, Stop, CloseSession |
    scheme:interleaving

    The client program from `connect` to the end of `Start`, as long as its sends return (what a
    signal does to it is in `Shutdown`). Up to the threads `Start` takes the actions of
    `Client.act`; then three threads run, and `Start` joins them, discards the keys that are
    waiting and prints why they ended. A step of a thread is one access to what the threads share: a
    flag, the socket, the queue, the window, a code from `wget_wch`. What stands under the queue's
    mutex is one step.

        HandleBroadcast  m_running? ─▶ RecvDecrypted ─▶ ui.running? ─▶ queue ─▶ …
                                         └─▶ m_stopping? ─▶ m_exitReason ─▶ Stop
        ClientLoop       m_running? ─▶ PromptInput ─▶ SendEncrypted ─▶ …
        UIUpdateLoop     m_running? ─▶ ui.running? ─▶ window ─▶ …
        Stop             m_stopping? ─▶ stopping ─▶ running ─▶ ui.running ─▶ CloseSession
        CloseSession     m_socketfd? ─▶ shutdown ─▶ close ─▶ -1
        Start            join ─▶ Cleanup: ui.running ─▶ wget_wch ─▶ … ─▶ ERR                  -/

namespace CliChat

open Transition

/-! ### Where the threads stand -/

/-- Where a call of `Stop` stands: what it does next. The last four are `CloseSession`. -/
inductive HaltPc where
  | test
  | stopping
  | running
  | uiRunning
  | socket
  | shutdown
  | close
  | clear
  deriving DecidableEq

/-- Where a thread stands; `again` in a call of `Stop` after which there is another. -/
inductive Pc (β : Type) where
  | loop (b : β)
  | halt (p : HaltPc) (again : Bool)
  | done
  deriving DecidableEq

/-- The loop of `HandleBroadcast`. -/
inductive Hearing where
  | test
  | recv
  /-- `RecvDecrypted` has returned nullopt. -/
  | lost
  /-- `m_stopping` was found clear. -/
  | blame
  /-- The control text has come. -/
  | taken
  | push (msg : Bytes)
  /-- `m_ui.running` was found set. -/
  | enqueue (msg : Bytes)
  deriving DecidableEq

/-- The loop of `ClientLoop`. -/
inductive Typing where
  | test
  | prompt
  | inPrompt (p : Prompt)
  deriving DecidableEq

/-- The loop of `UIUpdateLoop`. -/
inductive Printing where
  | test
  | print
  /-- `m_ui.running` was found set. -/
  | drain
  deriving DecidableEq

/-- Where `Start` stands while the threads run and after. -/
inductive StartPc where
  | join
  /-- In `FlushInput`. -/
  | flush
  /-- It has printed this. -/
  | returned (out : Bytes)
  deriving DecidableEq

inductive Tid where
  | broadcast
  | input
  | ui
  deriving DecidableEq

instance : Fintype Tid := ⟨{.broadcast, .input, .ui}, fun t => by cases t <;> decide⟩

namespace Pc

variable {β : Type}

/-- The call of `Stop` in which the thread stands. -/
def stop? : Pc β → Option HaltPc
  | .halt p _ => some p
  | _ => none

def isDone : Pc β → Bool
  | .done => true
  | _ => false

/-- The thread is in its loop, or has just left it. -/
def InLoop : Pc β → Prop
  | .loop _ => True
  | .halt p _ => p = .test
  | .done => False

/-- A call of `Stop` goes on at `p?`, or has returned. -/
def resume (again : Bool) : Option HaltPc → Pc β
  | some p => .halt p again
  | none => if again then .halt .test false else .done

end Pc

/-- The client program. What follows `main` is a ghost log. -/
structure Process where
  client : Client := {}
  /-- The stream from the server. -/
  ch : Chan
  /-- Whether `m_socketfd` is a descriptor, open or not. -/
  socket : Bool := true
  broadcast : Pc Hearing := .loop .test
  input : Pc Typing := .loop .test
  ui : Pc Printing := .loop .test
  /-- The lines written to `m_msgWin`. -/
  window : List WString := []
  main : StartPc := .join
  /-- The bytes that the kernel took for the server. -/
  written : Bytes := []
  /-- The strings that `PromptInput` returned to `ClientLoop`. -/
  returned : List Bytes := []
  /-- The messages that were taken off the queue. -/
  popped : List Bytes := []
  /-- The user has entered "/exit". -/
  quit : Bool := false
  /-- `PromptInput` or `PrintBufferedMessages` has thrown. -/
  threw : Bool := false
  /-- The stream has ended at the server's side. -/
  peerEnded : Bool := false
  /-- The calls of `Stop` that found `m_stopping` clear. -/
  entered : ℕ := 0
  /-- The calls of `close` with a descriptor. -/
  closes : ℕ := 0
  deriving DecidableEq

inductive ProcessAct where
  /-- `Start`, before the threads. -/
  | start (a : ClientAct)
  | broadcast
  | input (nonce : Bytes) (sched : Answers)
  /-- What `wget_wch` returns to the input thread. -/
  | key (w : Wch)
  | ui
  /-- `Start` has joined the threads, and comes to `FlushInput`. -/
  | finish
  /-- What `wget_wch` returns to `FlushInput`. -/
  | flush (w : Wch)
  | arrive (bs : Bytes)
  | ends (ending : Ending)

/-- The program takes the step, not the network. -/
def ProcessAct.own : ProcessAct → Bool
  | .arrive _ => false
  | .ends _ => false
  | _ => true

/-- `FlushInput` discards a key. -/
def ProcessAct.discards : ProcessAct → Bool
  | .flush w => w ≠ .err
  | _ => false

/-- The thread that takes the step. -/
def ProcessAct.tid : ProcessAct → Option Tid
  | .broadcast => some .broadcast
  | .input _ _ => some .input
  | .key _ => some .input
  | .ui => some .ui
  | _ => none

namespace Process

/-- What `Start` has printed when it has returned. -/
def report (s : Process) : Option Bytes :=
  match s.main with
  | .returned out => some out
  | _ => none

theorem report_eq_some {s : Process} {out : Bytes} :
    s.report = some out ↔ s.main = .returned out := by
  unfold report
  cases s.main <;> simp

/-! ### Stop -/

/-- `shutdown(m_socketfd, SHUT_RDWR)`: what has arrived can still be read. -/
def shut (ch : Chan) : Chan :=
  { ch with ending := if ch.ending = .alive then .eof else ch.ending }

/-- The next step of a call of `Stop`, and where it then stands. -/
def haltStep (s : Process) : HaltPc → Process × Option HaltPc
  | .test =>
    if s.client.stopping then (s, none) else ({ s with entered := s.entered + 1 }, some .stopping)
  | .stopping => ({ s with client := { s.client with stopping := true } }, some .running)
  | .running => ({ s with client := { s.client with running := false } }, some .uiRunning)
  | .uiRunning => ({ s with client := { s.client with uiRunning := false } }, some .socket)
  | .socket => (s, if s.socket then some .shutdown else none)
  | .shutdown => ({ s with ch := if s.socket then shut s.ch else s.ch }, some .close)
  | .close =>
    (if s.socket then
      { s with client := { s.client with sessionOpen := false }, closes := s.closes + 1 } else s,
      some .clear)
  | .clear => ({ s with socket := false }, none)

/-- The call of `Stop` in which a thread stands. -/
def halts (s : Process) : Tid → Option HaltPc
  | .broadcast => s.broadcast.stop?
  | .input => s.input.stop?
  | .ui => s.ui.stop?

/-- Whether a thread has ended. -/
def finished (s : Process) : Tid → Bool
  | .broadcast => s.broadcast.isDone
  | .input => s.input.isDone
  | .ui => s.ui.isDone

/-- The call of `Stop` by a thread goes on. -/
def resume (s : Process) (again : Bool) (p? : Option HaltPc) : Tid → Process
  | .broadcast => { s with broadcast := .resume again p? }
  | .input => { s with input := .resume again p? }
  | .ui => { s with ui := .resume again p? }

/-- A step inside `Stop`. -/
def halting (s : Process) (p : HaltPc) (again : Bool) (t : Tid) : Process :=
  (s.haltStep p).1.resume again (s.haltStep p).2 t

/-! ### The threads -/

def closedReason : Bytes := ascii "Server closed connection."

def takenReason (username : Bytes) : Bytes :=
  ascii "Username " ++ username ++ ascii " is already taken"

/-- `HandleBroadcast` has the result of `RecvDecrypted`. -/
def heard : Option Bytes → Hearing
  | none => .lost
  | some msg => if msg = usernameTaken then .taken else .push msg

variable (na : Sodium) (iswprint : WChar → Bool) (u : Utf8)

def broadcastStep (s : Process) : Option Process :=
  match s.broadcast with
  | .loop .test =>
    some { s with broadcast := if s.client.running then .loop .recv else .halt .test false }
  | .loop .recv =>
    (s.client.recvDecrypted na s.ch).map fun (msgOpt, c, ch) =>
      { s with client := c, ch := ch, broadcast := .loop (heard msgOpt) }
  | .loop .lost =>
    some { s with
      broadcast := if s.client.stopping then .halt .test false else .loop .blame }
  | .loop .blame =>
    some { s with
      client := { s.client with exitReason := closedReason }
      broadcast := .halt .test false }
  | .loop .taken =>
    some { s with
      client := { s.client with exitReason := takenReason s.client.username }
      broadcast := .halt .test true }
  | .loop (.push msg) =>
    some { s with
      broadcast := if s.client.uiRunning then .loop (.enqueue msg) else .loop .test }
  | .loop (.enqueue msg) =>
    some { s with
      client := { s.client with msgQueue := s.client.msgQueue ++ [msg] }
      broadcast := .loop .test }
  | .halt p again => some (s.halting p again .broadcast)
  | .done => none

/-- `PromptInput` has come to `p`. -/
def promptAt (s : Process) (p : Prompt) : Process :=
  { s with
    input := .loop (.inPrompt p)
    returned := s.returned ++ (p.result.bind Prod.fst).toList }

/-- The body of `ClientLoop`, after `PromptInput`. -/
def onInput (s : Process) (nonce : Bytes) (sched : Answers) : Option Bytes → Process
  | none => { s with input := .halt .test false }
  | some input =>
    if input = [] then { s with input := .loop .test }
    else if input = ascii "/exit" then { s with input := .halt .test true, quit := true }
    else
      let (_, bs, c) :=
        s.client.sendEncrypted na (s.client.username ++ ascii ": " ++ input) nonce sched
      { s with client := c, input := .loop .test, written := s.written ++ bs }

def inputStep (s : Process) (nonce : Bytes) (sched : Answers) : Option Process :=
  match s.input with
  | .loop .test =>
    some { s with input := if s.client.running then .loop .prompt else .halt .test false }
  | .loop .prompt => some (s.promptAt (.enter s.client.uiRunning))
  | .loop (.inPrompt (.testing l)) =>
    some (s.promptAt ((Prompt.testing l).test u s.client.uiRunning))
  | .loop (.inPrompt (.reading _)) => none
  | .loop (.inPrompt (.returned inputOpt _)) =>
    if nonce.length = secretboxNonceBytes then some (s.onInput na nonce sched inputOpt) else none
  -- the handler of `Start` calls `Stop`
  | .loop (.inPrompt .threw) => some { s with input := .halt .test false, threw := true }
  | .halt p again => some (s.halting p again .input)
  | .done => none

def keyStep (s : Process) (w : Wch) : Option Process :=
  match s.input with
  | .loop (.inPrompt (.reading l)) =>
    some (s.promptAt ((Prompt.reading l).read iswprint u w))
  | _ => none

def uiStep (s : Process) : Option Process :=
  match s.ui with
  | .loop .test =>
    some { s with ui := if s.client.running then .loop .print else .halt .test false }
  | .loop .print => some { s with ui := if s.client.uiRunning then .loop .drain else .loop .test }
  | .loop .drain =>
    let (window, left, threw) := CliChat.drain u s.client.msgQueue
    some { s with
      client := { s.client with msgQueue := left }
      -- the handler of `Start` calls `Stop`
      ui := if threw then .halt .test false else .loop .test
      window := s.window ++ window
      popped := s.popped ++ s.client.msgQueue.take (s.client.msgQueue.length - left.length)
      threw := s.threw || threw }
  | .halt p again => some (s.halting p again .ui)
  | .done => none

/-! ### Start -/

/-- What `Start` prints for an exit reason. -/
def exited (reason : Bytes) : Bytes :=
  if reason ≠ ascii "None" then ascii "Exited: " ++ reason ++ ascii "\n" else []

def step : ProcessAct → Process → Option Process
  | .start a, s =>
    if s.client.stage ≠ .started then
      (s.client.act na (fun _ => true) s.ch a).map fun (c, bs, ch) =>
        { s with client := c, ch := ch, socket := c.sessionOpen, written := s.written ++ bs }
    else none
  | .broadcast, s => if s.client.stage = .started then s.broadcastStep na else none
  | .input nonce sched, s =>
    if s.client.stage = .started then s.inputStep na u nonce sched else none
  | .key w, s => if s.client.stage = .started then s.keyStep iswprint u w else none
  | .ui, s => if s.client.stage = .started then s.uiStep u else none
  | .finish, s =>
    if s.broadcast = .done ∧ s.input = .done ∧ s.ui = .done ∧ s.main = .join then
      some { s with client := { s.client with uiRunning := false }, main := .flush }
    else none
  | .flush w, s =>
    if s.main = .flush then
      some { s with main := if w = .err then .returned (exited s.client.exitReason) else .flush }
    else none
  | .arrive bs, s =>
    if s.ch.ending = .alive then some { s with ch := { s.ch with bytes := s.ch.bytes ++ bs } }
    else none
  | .ends ending, s =>
    if s.peerEnded = false ∧ ending ≠ .alive then
      some { s with ch := { s.ch with ending := ending }, peerEnded := true }
    else none

/-- `CreateSession` has just connected. -/
def Initial (s : Process) : Prop := ∃ cuts, s = { ch := ⟨[], .alive, cuts⟩ }

/-- The states that runs of the program reach. -/
def Reach (s : Process) : Prop := Reachable (step na iswprint u) Initial s

/-! ### One step -/

/-- What `Stop` and the tests of the loops read and write. -/
structure Control where
  stage : Stage
  stopping : Bool
  running : Bool
  uiRunning : Bool
  sessionOpen : Bool
  ending : Ending
  socket : Bool
  peerEnded : Bool
  entered : ℕ
  closes : ℕ

def control (s : Process) : Control :=
  ⟨s.client.stage, s.client.stopping, s.client.running, s.client.uiRunning, s.client.sessionOpen,
    s.ch.ending, s.socket, s.peerEnded, s.entered, s.closes⟩

section moves

variable {na : Sodium} {iswprint : WChar → Bool} {u : Utf8} {s s' : Process}

/-- Everything a step of `HandleBroadcast` can do. -/
inductive BroadcastStep (na : Sodium) (s : Process) : Process → Prop where
  | test : s.broadcast = .loop .test → BroadcastStep na s
      { s with broadcast := if s.client.running then .loop .recv else .halt .test false }
  | recv {pkt : Option Bytes} {ch : Chan} : s.broadcast = .loop .recv →
      Client.Reads s.client s.ch pkt ch → BroadcastStep na s
      { s with
        client := s.client.decrypting na pkt
        ch := ch
        broadcast := .loop (heard (pkt.bind (openPacket na s.client.groupKey))) }
  | lost : s.broadcast = .loop .lost → BroadcastStep na s
      { s with broadcast := if s.client.stopping then .halt .test false else .loop .blame }
  | blame : s.broadcast = .loop .blame → BroadcastStep na s
      { s with
        client := { s.client with exitReason := closedReason }
        broadcast := .halt .test false }
  | taken : s.broadcast = .loop .taken → BroadcastStep na s
      { s with
        client := { s.client with exitReason := takenReason s.client.username }
        broadcast := .halt .test true }
  | push {msg : Bytes} : s.broadcast = .loop (.push msg) → BroadcastStep na s
      { s with broadcast := if s.client.uiRunning then .loop (.enqueue msg) else .loop .test }
  | enqueue {msg : Bytes} : s.broadcast = .loop (.enqueue msg) → BroadcastStep na s
      { s with
        client := { s.client with msgQueue := s.client.msgQueue ++ [msg] }
        broadcast := .loop .test }
  | halt {p : HaltPc} {again : Bool} : s.broadcast = .halt p again →
      BroadcastStep na s (s.halting p again .broadcast)

theorem broadcastStep_some (h : s.broadcastStep na = some s') : BroadcastStep na s s' := by
  unfold broadcastStep at h
  split at h
  case h_2 hpc =>
    obtain ⟨⟨msgOpt, c, ch⟩, hrecv, rfl⟩ := Option.map_eq_some_iff.mp h
    obtain ⟨pkt, rfl, rfl, hreads⟩ := Client.recvDecrypted_reads hrecv
    exact .recv hpc hreads
  all_goals cases h
  case h_1 hpc => exact .test hpc
  case h_3 hpc => exact .lost hpc
  case h_4 hpc => exact .blame hpc
  case h_5 hpc => exact .taken hpc
  case h_6 hpc => exact .push hpc
  case h_7 hpc => exact .enqueue hpc
  case h_8 hpc => exact .halt hpc

/-- What becomes of a string that `PromptInput` returned: nothing, a call of `Stop`, or a line. -/
inductive Entered (na : Sodium) (s : Process) : Option Bytes → Process → Prop where
  | none : Entered na s none { s with input := .halt .test false }
  | empty : Entered na s (some []) { s with input := .loop .test }
  | exit : Entered na s (some (ascii "/exit")) { s with input := .halt .test true, quit := true }
  | line {text bs : Bytes} {ok : Bool} {c : Client} : text ≠ [] → text ≠ ascii "/exit" →
      Client.Utters na s.client (s.client.username ++ ascii ": " ++ text) ok bs c →
      Entered na s (some text)
        { s with client := c, input := .loop .test, written := s.written ++ bs }

theorem onInput_entered {nonce : Bytes} (hnonce : nonce.length = secretboxNonceBytes)
    (sched : Answers) (inputOpt : Option Bytes) :
    Entered na s inputOpt (s.onInput na nonce sched inputOpt) := by
  unfold onInput
  split
  · exact .none
  · rename_i text
    split_ifs with hempty hexit
    · exact hempty ▸ .empty
    · exact hexit ▸ .exit
    · exact .line hempty hexit (s.client.sendEncrypted_utters na _ hnonce sched)

/-- Everything a step of `ClientLoop` can do. -/
inductive InputStep (na : Sodium) (u : Utf8) (s : Process) (nonce : Bytes) (sched : Answers) :
    Process → Prop where
  | test : s.input = .loop .test → InputStep na u s nonce sched
      { s with input := if s.client.running then .loop .prompt else .halt .test false }
  | prompt : s.input = .loop .prompt →
      InputStep na u s nonce sched (s.promptAt (.enter s.client.uiRunning))
  | tested {l : Line} : s.input = .loop (.inPrompt (.testing l)) →
      InputStep na u s nonce sched (s.promptAt ((Prompt.testing l).test u s.client.uiRunning))
  | returned {inputOpt : Option Bytes} {enter : Bool} {s' : Process} :
      s.input = .loop (.inPrompt (.returned inputOpt enter)) →
      nonce.length = secretboxNonceBytes → s' = s.onInput na nonce sched inputOpt →
      Entered na s inputOpt s' → InputStep na u s nonce sched s'
  | threw : s.input = .loop (.inPrompt .threw) →
      InputStep na u s nonce sched { s with input := .halt .test false, threw := true }
  | halt {p : HaltPc} {again : Bool} : s.input = .halt p again →
      InputStep na u s nonce sched (s.halting p again .input)

theorem inputStep_some {nonce : Bytes} {sched : Answers}
    (h : s.inputStep na u nonce sched = some s') : InputStep na u s nonce sched s' := by
  unfold inputStep at h
  split at h
  case h_5 hpc =>
    obtain ⟨hnonce, h⟩ := Option.ite_none_right_eq_some.mp h
    cases h
    exact .returned hpc hnonce rfl (onInput_entered hnonce sched _)
  all_goals cases h
  case h_1 hpc => exact .test hpc
  case h_2 hpc => exact .prompt hpc
  case h_3 hpc => exact .tested hpc
  case h_6 hpc => exact .threw hpc
  case h_7 hpc => exact .halt hpc

theorem keyStep_some {w : Wch} (h : s.keyStep iswprint u w = some s') :
    ∃ l, s.input = .loop (.inPrompt (.reading l)) ∧
      s' = s.promptAt ((Prompt.reading l).read iswprint u w) := by
  unfold keyStep at h
  split at h
  · rename_i l hpc
    cases h
    exact ⟨l, hpc, rfl⟩
  · cases h

/-- Everything a step of `UIUpdateLoop` can do. -/
inductive UiStep (u : Utf8) (s : Process) : Process → Prop where
  | test : s.ui = .loop .test → UiStep u s
      { s with ui := if s.client.running then .loop .print else .halt .test false }
  | print : s.ui = .loop .print → UiStep u s
      { s with ui := if s.client.uiRunning then .loop .drain else .loop .test }
  | drain {window : List WString} {left : List Bytes} {threw : Bool} : s.ui = .loop .drain →
      CliChat.drain u s.client.msgQueue = (window, left, threw) → UiStep u s
      { s with
        client := { s.client with msgQueue := left }
        ui := if threw then .halt .test false else .loop .test
        window := s.window ++ window
        popped := s.popped ++ s.client.msgQueue.take (s.client.msgQueue.length - left.length)
        threw := s.threw || threw }
  | halt {p : HaltPc} {again : Bool} : s.ui = .halt p again →
      UiStep u s (s.halting p again .ui)

theorem uiStep_some (h : s.uiStep u = some s') : UiStep u s s' := by
  unfold uiStep at h
  split at h <;> cases h
  case h_1 hpc => exact .test hpc
  case h_2 hpc => exact .print hpc
  case h_3 hpc => exact .drain hpc rfl
  case h_4 hpc => exact .halt hpc

/-- A step of the thread `t` outside `Stop`, by which it may call it. -/
structure Calm (t : Tid) (s s' : Process) : Prop where
  control : s'.control = s.control
  main : s'.main = s.main
  before : s.halts t = none
  active : s.finished t = false
  after : s'.halts t = none ∨ s'.halts t = some .test
  unfinished : s'.finished t = false
  others : ∀ t', t' ≠ t → s'.halts t' = s.halts t' ∧ s'.finished t' = s.finished t'

/-- Everything one step can do, by what it is for `Stop`. -/
inductive Moved (na : Sodium) (s s' : Process) : ProcessAct → Prop where
  | starts {a : ClientAct} {c : Client} {bs : Bytes} {ch : Chan} : s.client.stage ≠ .started →
      Client.Acted na (fun _ => true) s.client s.ch c bs ch →
      s' = { s with client := c, ch := ch, socket := c.sessionOpen, written := s.written ++ bs } →
      Moved na s s' (.start a)
  | calm {a : ProcessAct} {t : Tid} : s.client.stage = .started → a.tid = some t → Calm t s s' →
      Moved na s s' a
  | halts {a : ProcessAct} {t : Tid} {p : HaltPc} {again : Bool} : s.client.stage = .started →
      a.tid = some t → s.halts t = some p → s' = s.halting p again t → Moved na s s' a
  | finishes : s.broadcast = .done → s.input = .done → s.ui = .done → s.main = .join →
      s' = { s with client := { s.client with uiRunning := false }, main := .flush } →
      Moved na s s' .finish
  | flushes {w : Wch} : s.main = .flush →
      s' = { s with main := if w = .err then .returned (exited s.client.exitReason) else .flush } →
      Moved na s s' (.flush w)
  | arrives {bs : Bytes} : s' = { s with ch := { s.ch with bytes := s.ch.bytes ++ bs } } →
      Moved na s s' (.arrive bs)
  | ended {ending : Ending} : ending ≠ .alive →
      s' = { s with ch := { s.ch with ending := ending }, peerEnded := true } →
      Moved na s s' (.ends ending)

theorem InLoop.stop? {β : Type} {pc : Pc β} (h : pc.InLoop) :
    (pc.stop? = none ∨ pc.stop? = some .test) ∧ pc.isDone = false := by
  cases pc with
  | loop b => exact ⟨.inl rfl, rfl⟩
  | halt p again => exact ⟨.inr (congrArg some h), rfl⟩
  | done => exact h.elim

/-- The thread of `HandleBroadcast` alone has moved. -/
theorem Calm.broadcast {b : Hearing} (hpc : s.broadcast = .loop b) (hpc' : s'.broadcast.InLoop)
    (hinput : s'.input = s.input) (hui : s'.ui = s.ui) (hcontrol : s'.control = s.control)
    (hmain : s'.main = s.main) : Calm .broadcast s s' := by
  obtain ⟨hafter, hdone⟩ := InLoop.stop? hpc'
  refine ⟨hcontrol, hmain, by rw [halts, hpc]; rfl, by rw [finished, hpc]; rfl, hafter, hdone,
    fun t ht => ?_⟩
  cases t with
  | broadcast => exact absurd rfl ht
  | input => exact ⟨congrArg Pc.stop? hinput, congrArg Pc.isDone hinput⟩
  | ui => exact ⟨congrArg Pc.stop? hui, congrArg Pc.isDone hui⟩

theorem Calm.input {b : Typing} (hpc : s.input = .loop b) (hpc' : s'.input.InLoop)
    (hbroadcast : s'.broadcast = s.broadcast) (hui : s'.ui = s.ui)
    (hcontrol : s'.control = s.control) (hmain : s'.main = s.main) : Calm .input s s' := by
  obtain ⟨hafter, hdone⟩ := InLoop.stop? hpc'
  refine ⟨hcontrol, hmain, by rw [halts, hpc]; rfl, by rw [finished, hpc]; rfl, hafter, hdone,
    fun t ht => ?_⟩
  cases t with
  | broadcast => exact ⟨congrArg Pc.stop? hbroadcast, congrArg Pc.isDone hbroadcast⟩
  | input => exact absurd rfl ht
  | ui => exact ⟨congrArg Pc.stop? hui, congrArg Pc.isDone hui⟩

theorem Calm.ui {b : Printing} (hpc : s.ui = .loop b) (hpc' : s'.ui.InLoop)
    (hbroadcast : s'.broadcast = s.broadcast) (hinput : s'.input = s.input)
    (hcontrol : s'.control = s.control) (hmain : s'.main = s.main) : Calm .ui s s' := by
  obtain ⟨hafter, hdone⟩ := InLoop.stop? hpc'
  refine ⟨hcontrol, hmain, by rw [halts, hpc]; rfl, by rw [finished, hpc]; rfl, hafter, hdone,
    fun t ht => ?_⟩
  cases t with
  | broadcast => exact ⟨congrArg Pc.stop? hbroadcast, congrArg Pc.isDone hbroadcast⟩
  | input => exact ⟨congrArg Pc.stop? hinput, congrArg Pc.isDone hinput⟩
  | ui => exact absurd rfl ht

/-- A test of a flag goes on in the loop or leaves it. -/
theorem inLoop_ite {β : Type} (b : Bool) {x y : Pc β} (hx : x.InLoop) (hy : y.InLoop) :
    (if b then x else y).InLoop := by
  cases b
  · exact hy
  · exact hx

theorem broadcastStep_cases (h : s.broadcastStep na = some s') :
    Calm .broadcast s s' ∨ ∃ p again, s.broadcast = .halt p again ∧
      s' = s.halting p again .broadcast := by
  cases broadcastStep_some h with
  | test hpc => exact .inl (.broadcast hpc (inLoop_ite _ trivial rfl) rfl rfl rfl rfl)
  | @recv pkt ch hpc hreads =>
    have hending : ch.ending = s.ch.ending := by
      rcases hreads with ⟨-, hdone⟩ | ⟨-, -, rfl⟩
      · exact (recvPacket_suffix hdone).2
      · rfl
    refine .inl (.broadcast hpc trivial rfl rfl ?_ rfl)
    simp only [control, hending]
    rfl
  | lost hpc => exact .inl (.broadcast hpc (inLoop_ite _ rfl trivial) rfl rfl rfl rfl)
  | blame hpc => exact .inl (.broadcast hpc rfl rfl rfl rfl rfl)
  | taken hpc => exact .inl (.broadcast hpc rfl rfl rfl rfl rfl)
  | push hpc => exact .inl (.broadcast hpc (inLoop_ite _ trivial trivial) rfl rfl rfl rfl)
  | enqueue hpc => exact .inl (.broadcast hpc trivial rfl rfl rfl rfl)
  | halt hpc => exact .inr ⟨_, _, hpc, rfl⟩

theorem promptAt_calm {b : Typing} (hpc : s.input = .loop b) (p : Prompt) :
    Calm .input s (s.promptAt p) :=
  .input hpc trivial rfl rfl rfl rfl

theorem Entered.calm {b : Typing} {inputOpt : Option Bytes} (hpc : s.input = .loop b)
    (h : Entered na s inputOpt s') : Calm .input s s' := by
  cases h with
  | none => exact .input hpc rfl rfl rfl rfl rfl
  | empty => exact .input hpc trivial rfl rfl rfl rfl
  | exit => exact .input hpc rfl rfl rfl rfl rfl
  | line _ _ hutter =>
    refine .input hpc trivial rfl rfl ?_ rfl
    cases hutter <;> rfl

theorem inputStep_cases {nonce : Bytes} {sched : Answers}
    (h : s.inputStep na u nonce sched = some s') :
    Calm .input s s' ∨ ∃ p again, s.input = .halt p again ∧ s' = s.halting p again .input := by
  cases inputStep_some h with
  | test hpc => exact .inl (.input hpc (inLoop_ite _ trivial rfl) rfl rfl rfl rfl)
  | prompt hpc => exact .inl (promptAt_calm hpc _)
  | tested hpc => exact .inl (promptAt_calm hpc _)
  | returned hpc _ _ hentered => exact .inl (hentered.calm hpc)
  | threw hpc => exact .inl (.input hpc rfl rfl rfl rfl rfl)
  | halt hpc => exact .inr ⟨_, _, hpc, rfl⟩

theorem keyStep_calm {w : Wch} (h : s.keyStep iswprint u w = some s') : Calm .input s s' := by
  obtain ⟨l, hpc, rfl⟩ := keyStep_some h
  exact promptAt_calm hpc _

theorem uiStep_cases (h : s.uiStep u = some s') :
    Calm .ui s s' ∨ ∃ p again, s.ui = .halt p again ∧ s' = s.halting p again .ui := by
  cases uiStep_some h with
  | test hpc => exact .inl (.ui hpc (inLoop_ite _ trivial rfl) rfl rfl rfl rfl)
  | print hpc => exact .inl (.ui hpc (inLoop_ite _ trivial trivial) rfl rfl rfl rfl)
  | drain hpc => exact .inl (.ui hpc (inLoop_ite _ rfl trivial) rfl rfl rfl rfl)
  | halt hpc => exact .inr ⟨_, _, hpc, rfl⟩

/-- COMPLETE: a step is one of these. -/
theorem step_moved {a : ProcessAct} (h : s.step na iswprint u a = some s') : Moved na s s' a := by
  cases a with
  | start a =>
    simp only [step, Option.ite_none_right_eq_some, Option.map_eq_some_iff] at h
    obtain ⟨hstage, ⟨c, bs, ch⟩, hact, rfl⟩ := h
    exact .starts hstage (Client.act_acted hact) rfl
  | broadcast =>
    obtain ⟨hstage, h⟩ := Option.ite_none_right_eq_some.mp h
    rcases broadcastStep_cases h with hcalm | ⟨p, again, hpc, rfl⟩
    · exact .calm hstage rfl hcalm
    · exact .halts hstage rfl (t := .broadcast) (by rw [halts, hpc]; rfl) rfl
  | input nonce sched =>
    obtain ⟨hstage, h⟩ := Option.ite_none_right_eq_some.mp h
    rcases inputStep_cases h with hcalm | ⟨p, again, hpc, rfl⟩
    · exact .calm hstage rfl hcalm
    · exact .halts hstage rfl (t := .input) (by rw [halts, hpc]; rfl) rfl
  | key w =>
    obtain ⟨hstage, h⟩ := Option.ite_none_right_eq_some.mp h
    exact .calm hstage rfl (keyStep_calm h)
  | ui =>
    obtain ⟨hstage, h⟩ := Option.ite_none_right_eq_some.mp h
    rcases uiStep_cases h with hcalm | ⟨p, again, hpc, rfl⟩
    · exact .calm hstage rfl hcalm
    · exact .halts hstage rfl (t := .ui) (by rw [halts, hpc]; rfl) rfl
  | finish =>
    obtain ⟨⟨hb, hi, hu, hmain⟩, h⟩ := Option.ite_none_right_eq_some.mp h
    cases h
    exact .finishes hb hi hu hmain rfl
  | flush w =>
    obtain ⟨hmain, h⟩ := Option.ite_none_right_eq_some.mp h
    cases h
    exact .flushes hmain rfl
  | arrive bs =>
    obtain ⟨-, h⟩ := Option.ite_none_right_eq_some.mp h
    cases h
    exact .arrives rfl
  | ends ending =>
    obtain ⟨⟨-, hne⟩, h⟩ := Option.ite_none_right_eq_some.mp h
    cases h
    exact .ended hne rfl

/-! ### Up to the threads -/

/-- An action of `Start` ends it, or leaves the exit reason and the queue; the last one sends the
    name. -/
theorem acted_early {c c' : Client} {ch ch' : Chan} {bs : Bytes} {utf8 : Bytes → Bool}
    (hf : Client.Flags c) (hstage : c.stage ≠ .started) (h : Client.Acted na utf8 c ch c' bs ch') :
    c.stage ≠ .exited ∧ (c'.stage = .exited ∨
      c'.exitReason = c.exitReason ∧ c'.msgQueue = c.msgQueue ∧ c'.inbox = c.inbox ∧
        (c'.stage = .started → c'.running = true ∧ c'.username ≠ [] ∧
          c'.said = c.said ++ [(c'.username, true)])) := by
  have hidle : c.running ≠ true := fun hr => hstage (hf.running hr).1
  cases h with
  | keySent hconn => exact ⟨by simp [hconn], .inr ⟨rfl, rfl, rfl, fun h => by cases h⟩⟩
  | keyRefused hkey => exact ⟨by rcases hkey with h | h <;> simp [h], .inl rfl⟩
  | serverPkRead hkey => exact ⟨by simp [hkey], .inr ⟨rfl, rfl, rfl, fun h => by cases h⟩⟩
  | groupKeyRead hkey => exact ⟨by simp [hkey], .inr ⟨rfl, rfl, rfl, fun h => by cases h⟩⟩
  | nameRefused hname => exact ⟨by simp [hname], .inl rfl⟩
  | nameSent hname hne _ hutter =>
    cases hutter
    exact ⟨by simp [hname], .inr ⟨rfl, rfl, rfl, fun _ => ⟨rfl, hne, rfl⟩⟩⟩
  | messageRead hr => exact absurd hr hidle
  | idle hr => exact absurd hr hidle
  | left hr => exact absurd hr hidle
  | lineSent hr => exact absurd hr hidle
  | printed hr => exact absurd hr hidle
  | choked hr => exact absurd hr hidle

/-- INVARIANT: before the threads. -/
structure Idle (na : Sodium) (s : Process) : Prop where
  sane : Client.Sane na s.client
  untold : s.client.stage ≠ .exited →
    s.client.exitReason = ascii "None" ∧ s.client.msgQueue = []
  written : Written s.client.sent s.written
  ending : s.ch.ending ≠ .alive → s.peerEnded = true
  socket : s.socket = s.client.sessionOpen
  pcs : s.broadcast = .loop .test ∧ s.input = .loop .test ∧ s.ui = .loop .test
  log : s.main = .join ∧ s.window = [] ∧ s.returned = [] ∧ s.popped = [] ∧ s.quit = false ∧
    s.threw = false ∧ s.entered = 0 ∧ s.closes = 0

/-- The threads are about to start. -/
structure Fresh (na : Sodium) (s : Process) : Prop where
  sane : Client.Sane na s.client
  stopping : s.client.stopping = false
  running : s.client.running = true
  sessionOpen : s.client.sessionOpen = true
  uiRunning : s.client.uiRunning = true
  exitReason : s.client.exitReason = ascii "None"
  msgQueue : s.client.msgQueue = []
  inbox : s.client.inbox = []
  username : s.client.username ≠ []
  said : s.client.said = [(s.client.username, true)]
  written : Written s.client.sent s.written
  ending : s.ch.ending ≠ .alive → s.peerEnded = true
  socket : s.socket = true
  pcs : s.broadcast = .loop .test ∧ s.input = .loop .test ∧ s.ui = .loop .test
  log : s.main = .join ∧ s.window = [] ∧ s.returned = [] ∧ s.popped = [] ∧ s.quit = false ∧
    s.threw = false ∧ s.entered = 0 ∧ s.closes = 0

theorem Initial.idle (h : Initial s) : s.client.stage ≠ .started ∧ Idle na s := by
  obtain ⟨cuts, rfl⟩ := h
  exact ⟨by simp, .start na, fun _ => ⟨rfl, rfl⟩, .nil, fun h => absurd rfl h, rfl, ⟨rfl, rfl, rfl⟩,
    rfl, rfl, rfl, rfl, rfl, rfl, rfl, rfl⟩

/-- STEP: before the threads. -/
theorem Idle.step (h : Idle na s) (hstage : s.client.stage ≠ .started) {a : ProcessAct}
    (hm : Moved na s s' a) :
    (s'.client.stage ≠ .started → Idle na s') ∧ (s'.client.stage = .started → Fresh na s') := by
  cases hm with
  | @starts _ c bs ch _ hact heq =>
    subst heq
    have hsane : Client.Sane na c := h.sane.act hact
    have hending : ch.ending ≠ .alive → s.peerEnded = true := by
      rcases hact.linked.reads with ⟨rfl, -⟩ | ⟨pkt, hrecv, -⟩
      · exact h.ending
      · rw [(recvPacket_suffix hrecv).2]
        exact h.ending
    have hwritten : Written c.sent (s.written ++ bs) := by
      rcases hact.linked.sends with ⟨hsent, rfl⟩ | ⟨data, ok, hsent, hbs⟩
      · rw [hsent, List.append_nil]
        exact h.written
      · rw [hsent]
        exact h.written.append (.single hbs)
    obtain ⟨hgoes, hearly⟩ := acted_early h.sane.flags hstage hact
    obtain ⟨hreason₀, hqueue₀⟩ := h.untold hgoes
    refine ⟨fun _ => ⟨hsane, fun hexit => ?_, hwritten, hending, rfl, h.pcs, h.log⟩,
      fun hstart => ?_⟩
    · obtain ⟨hreason, hqueue, -⟩ := hearly.resolve_left hexit
      exact ⟨hreason.trans hreason₀, hqueue.trans hqueue₀⟩
    · have hexit : c.stage ≠ .exited := by
        dsimp only at hstart
        simp [hstart]
      obtain ⟨hreason, hqueue, hinbox, hlast⟩ := hearly.resolve_left hexit
      obtain ⟨hrun, hname, hsaid⟩ := hlast hstart
      obtain ⟨-, hstop, hopen, hui⟩ := hsane.flags.running hrun
      rw [(h.sane.voice.unsaid hstage hgoes).1, List.nil_append] at hsaid
      exact ⟨hsane, hstop, hrun, hopen, hui, hreason.trans hreason₀, hqueue.trans hqueue₀,
        hinbox.trans (h.sane.ear.unopened hstage), hname, hsaid, hwritten, hending, hopen, h.pcs,
        h.log⟩
  | calm hstart => exact absurd hstart hstage
  | halts hstart => exact absurd hstart hstage
  | finishes hdone =>
    rw [h.pcs.1] at hdone
    cases hdone
  | flushes hmain =>
    rw [h.log.1] at hmain
    cases hmain
  | arrives heq =>
    subst heq
    exact ⟨fun _ => ⟨h.sane, h.untold, h.written, h.ending, h.socket, h.pcs, h.log⟩,
      fun hstart => absurd hstart hstage⟩
  | ended _ heq =>
    subst heq
    exact ⟨fun _ => ⟨h.sane, h.untold, h.written, fun _ => rfl, h.socket, h.pcs, h.log⟩,
      fun hstart => absurd hstart hstage⟩

/-- The threads do not go back to `Start`. -/
theorem Moved.stage {a : ProcessAct} (hm : Moved na s s' a)
    (hstage : s.client.stage = .started) : s'.client.stage = .started := by
  cases hm with
  | starts hne => exact absurd hstage hne
  | calm _ _ hcalm => exact (congrArg Control.stage hcalm.control).trans hstage
  | @halts _ t p again _ _ _ heq =>
    subst heq
    rw [← hstage]
    cases t <;> cases p <;> simp only [halting, haltStep, resume] <;> split <;> rfl
  | finishes _ _ _ _ heq =>
    subst heq
    exact hstage
  | flushes _ heq =>
    subst heq
    exact hstage
  | arrives heq =>
    subst heq
    exact hstage
  | ended _ heq =>
    subst heq
    exact hstage

/-- INVARIANT RULE: what holds when the threads start, and is kept by each step from then on, holds
    whenever they run. -/
theorem Reach.phases {I : Process → Prop} (hfresh : ∀ s, Fresh na s → I s)
    (hstep : ∀ a s s', Reach na iswprint u s → s.client.stage = .started → I s →
      s.step na iswprint u a = some s' → I s') (h : Reach na iswprint u s) :
    Reach na iswprint u s ∧ (s.client.stage ≠ .started → Idle na s) ∧
      (s.client.stage = .started → I s) := by
  refine Reachable.invariant (I := fun s => Reach na iswprint u s ∧
    (s.client.stage ≠ .started → Idle na s) ∧ (s.client.stage = .started → I s)) ?_ ?_ h
  · intro s hs
    obtain ⟨hne, hidle⟩ : _ ∧ Idle na s := hs.idle
    exact ⟨.start hs, fun _ => hidle, fun hstart => absurd hstart hne⟩
  · rintro a s s' ⟨hreach, hidle, hlate⟩ hs
    refine ⟨hreach.next hs, ?_⟩
    by_cases hstart : s.client.stage = .started
    · have hstart' := (step_moved hs).stage hstart
      exact ⟨fun hne => absurd hstart' hne, fun _ => hstep a s s' hreach hstart (hlate hstart) hs⟩
    · obtain ⟨hidle', hfresh'⟩ := (hidle hstart).step hstart (step_moved hs)
      exact ⟨hidle', fun hstart' => hfresh s' (hfresh' hstart')⟩

theorem Reach.idle (h : Reach na iswprint u s) (hstage : s.client.stage ≠ .started) : Idle na s :=
  (h.phases (I := fun _ => True) (fun _ _ => trivial) fun _ _ _ _ _ _ _ => trivial).2.1 hstage

theorem Reach.invariant {I : Process → Prop} (hfresh : ∀ s, Fresh na s → I s)
    (hstep : ∀ a s s', Reach na iswprint u s → s.client.stage = .started → I s →
      s.step na iswprint u a = some s' → I s') (h : Reach na iswprint u s)
    (hstage : s.client.stage = .started) : I s :=
  (h.phases hfresh hstep).2.2 hstage

end moves

/-! ### Concrete runs -/

/-- A server's key, and a group key sealed for the client. -/
def sampleKeys : Bytes :=
  wire (List.replicate boxPublicKeyBytes 0) ++
    wire (List.replicate boxNonceBytes 0 ++
      tag (List.replicate boxNonceBytes 0) (List.replicate boxPublicKeyBytes 0) ++
      List.replicate secretboxKeyBytes 7)

/-- A run in which the user has entered the name "al", and `acts` follow. -/
def sampleRun (acts : List ProcessAct) : Option Process :=
  run (step .plain asciiPrint .core)
    (.arrive sampleKeys ::
      .start (.sendKey (List.replicate boxPublicKeyBytes 0) (List.replicate boxPublicKeyBytes 0)
        []) ::
      .start .recvServerPk :: .start .recvGroupKey ::
      .start (.sendUsername (some (ascii "al")) (List.replicate secretboxNonceBytes 1) []) :: acts)
    { ch := ⟨[], .alive, []⟩ }

theorem sampleRun_reach {acts : List ProcessAct} {s : Process} (h : sampleRun acts = some s) :
    Reach .plain asciiPrint .core s :=
  ⟨_, _, ⟨[], rfl⟩, h⟩

/-- The user enters a text, and `ClientLoop` looks at it. -/
def types (text : Bytes) : List ProcessAct :=
  [.input [] [], .input [] []] ++
    text.flatMap (fun b => [.input [] [], .key (.char b.toNat)]) ++
    [.input [] [], .key (.char newline), .input (List.replicate secretboxNonceBytes 1) []]

/-- The server sends a text, which is received and put in the queue. -/
def hears (text : Bytes) : List ProcessAct :=
  .arrive (wire (List.replicate secretboxNonceBytes 2 ++
    tag (List.replicate secretboxNonceBytes 2) (List.replicate secretboxKeyBytes 7) ++ text)) ::
    List.replicate 4 .broadcast

/-- The server ends the stream, and the thread of `HandleBroadcast` takes `n` steps. -/
def serverLeaves (n : ℕ) : List ProcessAct := .ends .eof :: List.replicate n .broadcast

/-- The other threads find the flags cleared, and `Start` returns. -/
def othersLeave : List ProcessAct :=
  [.ui, .ui, .input [] [], .input [] [], .finish, .flush .err]

end Process

end CliChat
