import CliChat.Server.State

/-! @src server/src/server.cpp | name:Server | scheme:event handlers

    The member functions of `Server`, statement by statement. A reference `ClientInfo&` is the key
    of the entry it refers to: each use of it is a lookup (`access`), logged with whether the entry
    is there. `DisconnectClient` and `BroadcastEncrypted` call each other; `broadcastEncrypted`
    takes the depth of that recursion as fuel, `broadcast` gives it one unit for each client and
    one more (the results show that this is always enough). Log lines and console output are left
    out, except that printing a client's name is a use of the reference.

        HandleClientEvent ──▶ keyExchange ─────────▶ DisconnectClient ◀─▶ BroadcastEncrypted
                │ key_exchanged                            ▲                    ▲
                ├──▶ registerClient ───────────────────────┴────────────────────┘
                │ registered
                └──▶ forwarding loop -/

namespace CliChat

namespace ServerM

/-- One use of a field through the reference `client`. -/
def access (client : Fd) : ServerM ClientInfo := fun s =>
  match s.clients.lookup client with
  | some c => .ok c (s.log (.access client true))
  | none => .ok .dangling (s.log (.access client false))

/-- A write to a field through the reference `client`. -/
def modifyClient (client : Fd) (f : ClientInfo → ClientInfo) : ServerM Unit := fun s =>
  match s.clients.lookup client with
  | some c => .ok () ({ s with clients := s.clients.replace client (f c) }.log (.access client true))
  | none => .ok () (s.log (.access client false))

/-- `m_clientsMutex.lock()`: a thread that holds it already never gets it. -/
def lock : ServerM Unit := fun s =>
  if s.clientsMutex then .error .deadlock (s.log (.lock false))
  else .ok () ({ s with clientsMutex := true }.log (.lock true))

def unlock : ServerM Unit := fun s => .ok () ({ s with clientsMutex := false }.log .unlock)

/-- A step that always returns. -/
def act {α : Type} (f : Server → α × Server) : ServerM α := fun s => .ok (f s).1 (f s).2

/-- `sess->RecvPacket()`. -/
def recvPacket (sess : NetworkSession) : ServerM (Option Bytes) := fun s =>
  match s.kernel.fds sess.socketfd with
  | none => .ok none (s.log (.recv sess.conn none))
  | some id =>
    match CliChat.recvPacket (s.kernel.conns id).toServer with
    | .blocks => .error .blocked s
    | .done pkt ch => .ok pkt ({ s with kernel := s.kernel.consumed id ch }.log (.recv sess.conn pkt))

/-- `client.session->CloseSession()`. -/
def closeSession (client : Fd) : ServerM Unit := do
  let c ← access client
  if 0 ≤ c.session.socketfd then
    modify fun s =>
      { s with
        kernel := s.kernel.close c.session.socketfd
        clients := s.clients.replace client { c with session.socketfd := -1 } }.log
        (.close c.session.socketfd)

variable (na : Sodium) (env : Env)

/-- `sess->SendPacket(data)`. On a socket that is not open (EBADF) it fails; where a `send` does not
    return, the peer has the bytes before it. -/
def sendPacket (sess : NetworkSession) (site : Site) (data : Bytes) : ServerM Bool := fun s =>
  match s.kernel.fds sess.socketfd with
  | none => .ok false (s.log (.send sess.conn site data false))
  | some id =>
    let r := CliChat.sendPacket data (env.sched s.kernel.sends)
    let s₁ := { s with kernel := s.kernel.deliver id r.2 }
    match r.1 with
    | .ok ok => .ok ok (s₁.log (.send sess.conn site data ok))
    | .error how => .error (.send how) s₁

/-- `Server::SendSecretbox`. -/
def sendSecretbox (sess : NetworkSession) (msg : Bytes) : ServerM Bool := do
  let nonce ← act fun s => s.randomNonce env
  match na.secretboxEasy msg nonce (← get).groupKey with
  | none =>
    modify (·.log (.secretbox sess.conn msg false))
    pure false
  | some cipher =>
    let ok ← sendPacket env sess (.secretbox msg) (nonce ++ cipher)
    modify (·.log (.secretbox sess.conn msg ok))
    pure ok

/-- The first loop of `BroadcastEncrypted`, with the `removeList` that it makes. -/
def sendToRegistered (msg : Bytes) : List (Σ _ : Fd, ClientInfo) → ServerM (List Fd)
  | [] => pure []
  | ⟨fd, client⟩ :: rest => do
    if !client.registered then sendToRegistered msg rest
    else
      let ok ← sendSecretbox na env client.session msg
      let removeList ← sendToRegistered msg rest
      pure (if ok then removeList else fd :: removeList)

/-- The forwarding loop of `HandleClientEvent`: the result of `SendPacket` is not looked at. -/
def forwardTo (src : ConnId) (rawPkt : Bytes) : List (Σ _ : Fd, ClientInfo) → ServerM Unit
  | [] => pure ()
  | ⟨_, otherClient⟩ :: rest => do
    if !otherClient.registered then forwardTo src rawPkt rest
    else
      let _ ← sendPacket env otherClient.session (.forward src) rawPkt
      forwardTo src rawPkt rest

end ServerM

open ServerM hiding recvPacket sendPacket

/-- `Server::DisconnectClient`; `broadcastEncrypted` is the function it calls last. -/
def disconnectClient (broadcastEncrypted : Bytes → ServerM Unit) (client : Fd) : ServerM Unit := do
  lock
  let fd := (← access client).fd
  match (← get).clients.lookup fd with
  | none => unlock
  | some it =>
    let fd' := (← access client).fd
    modify fun s => { s with kernel := s.kernel.epollDel fd' }.log (.epollDel fd')
    closeSession client
    let user := (← access client).username
    let wasRegistered := (← access client).registered
    if wasRegistered then
      let username := (← access client).username
      modify fun s => { s with usernames := s.usernames.erase username }
    modify fun s => { s with clients := s.clients.erase fd }.log (.erase fd it)
    unlock
    if wasRegistered then
      broadcastEncrypted (user ++ ascii " has disconnected")

/-- The second loop of `BroadcastEncrypted`. -/
def removeListed (disconnectClient : Fd → ServerM Unit) : List Fd → ServerM Unit
  | [] => pure ()
  | fd :: rest => do
    match (← get).clients.lookup fd with
    | none => removeListed disconnectClient rest
    | some _ =>
      disconnectClient fd
      removeListed disconnectClient rest

variable (na : Sodium) (env : Env)

/-- `Server::BroadcastEncrypted`, with at most `fuel` broadcasts inside each other. -/
def broadcastEncrypted : ℕ → Bytes → ServerM Unit
  | 0, _ => throw .outOfFuel
  | fuel + 1, msg => do
    modify (·.log (.broadcast msg))
    let removeList ← sendToRegistered na env msg (← get).clients.entries
    removeListed (disconnectClient (broadcastEncrypted fuel)) removeList

/-- `BroadcastEncrypted` as the handlers call it. -/
def broadcast (msg : Bytes) : ServerM Unit := fun s =>
  broadcastEncrypted na env (s.clients.entries.length + 1) msg s

/-- `DisconnectClient` as the handlers call it. -/
def disconnect (client : Fd) : ServerM Unit := disconnectClient (broadcast na env) client

/-- The key exchange, once the packet has the size of a key. -/
def answerKey (client : Fd) (pubkeyPkt : Bytes) : ServerM Unit := do
  modifyClient client fun c => { c with clientPk := pubkeyPkt }
  let srvpk := (← get).serverPk
  let sess := (← access client).session
  let _ ← ServerM.sendPacket env sess .serverPk srvpk
  let nonce ← act fun s => s.randomNonce env
  let pk := (← access client).clientPk
  let s ← get
  match na.boxEasy s.groupKey nonce pk s.serverSk with
  | none => disconnect na env client
  | some cipher =>
    let sess' := (← access client).session
    let _ ← ServerM.sendPacket env sess' .groupKey (nonce ++ cipher)
    modifyClient client fun c => { c with keyExchanged := true }

/-- The key exchange of `HandleClientEvent`. -/
def keyExchange (client : Fd) : ServerM Unit := do
  match ← ServerM.recvPacket (← access client).session with
  | none => pure ()
  | some pubkeyPkt =>
    if pubkeyPkt.length ≠ boxPublicKeyBytes then pure ()
    else answerKey na env client pubkeyPkt

/-- The size that the username buffer is given: a `size_t` difference. -/
def usernameBufferSize (ctLen : ℕ) : ℕ := (ctLen + 2 ^ 64 - secretboxMacBytes) % 2 ^ 64

/-- The largest `std::vector<unsigned char>`. -/
def vectorMaxSize : ℕ := 2 ^ 63 - 1

/-- The uniqueness block and the registration. The block's `lock_guard` is still held when the
    client of a taken name is disconnected. -/
def claimName (client : Fd) (uname : Bytes) : ServerM Unit := do
  lock
  if uname ∈ (← get).usernames then
    let sess := (← access client).session
    let _ ← sendSecretbox na env sess (ascii "SERVER::USERNAME_TAKEN")
    disconnect na env client
    unlock
  else
    modify fun s => { s with usernames := insert uname s.usernames }
    unlock
    modifyClient client fun c => { c with username := uname }
    modifyClient client fun c => { c with registered := true }
    let name := (← access client).username
    broadcast na env (name ++ ascii " has connected")
    -- std::cout << client.username
    let _ ← access client

/-- The username phase of `HandleClientEvent`. -/
def registerClient (client : Fd) (rawPkt : Bytes) : ServerM Unit := do
  if rawPkt.length < secretboxNonceBytes then disconnect na env client
  else
    let np := rawPkt.take secretboxNonceBytes
    let ct := rawPkt.drop secretboxNonceBytes
    if vectorMaxSize < usernameBufferSize ct.length then throw .lengthError
    else
      match na.secretboxOpenEasy ct np (← get).groupKey with
      | none => disconnect na env client
      | some uname => claimName na env client uname

/-- `Server::HandleClientEvent`. -/
def handleClientEvent (client : Fd) : ServerM Unit := do
  let fd := (← access client).fd
  match (← get).clients.lookup fd with
  | none => pure ()
  | some _ =>
    if !(← access client).keyExchanged then keyExchange na env client
    else
      let sess := (← access client).session
      match ← ServerM.recvPacket sess with
      | none => disconnect na env client
      | some rawPkt =>
        if !(← access client).registered then registerClient na env client rawPkt
        else forwardTo env sess.conn rawPkt (← get).clients.entries

/-! ### Accepting, stopping and the event loop -/

/-- What one `accept` finds: a connection under a descriptor, with the outcome of its `epoll_ctl`,
    or an error other than EAGAIN (at the end of the list, accept would block). -/
inductive AcceptResult where
  | conn (fd : Fd) (epollOk : Bool) (rehash : Rehash) (cutsIn cutsOut : List ℕ)
  | error

/-- Descriptors that `accept` may return: not open in this process. -/
def Server.isFree (s : Server) (fd : Fd) : Bool :=
  0 ≤ fd && fd != s.listenfd && fd != s.epollfd && (s.kernel.fds fd).isNone

/-- `Server::HandleNewConnection`. The kernel never returns an open descriptor: a result that names
    one is read as an error. -/
def handleNewConnection : List AcceptResult → Server → Server
  | [], s => s
  | .error :: _, s => s
  | .conn fd epollOk rehash cutsIn cutsOut :: rest, s =>
    if !s.running then s
    else if !s.isFree fd then s
    else
      let s₁ := { s with kernel := s.kernel.accept fd cutsIn cutsOut }
      if !epollOk then
        handleNewConnection rest ({ s₁ with kernel := s₁.kernel.close fd }.log (.close fd))
      else
        let info : ClientInfo := { session := ⟨fd, s.kernel.accepted⟩, fd := fd }
        handleNewConnection rest
          { s₁ with
            kernel := { s₁.kernel with epoll := insert fd s₁.kernel.epoll }
            clients := s₁.clients.emplace fd info rehash }

/-- `Server::Stop`. Clearing `m_clients` destroys the sessions, whose destructor is defaulted. -/
def stop (s : Server) : Server :=
  if !s.running then s
  else
    let s₁ := { s with running := false }
    let s₂ := if s₁.listenfd ≠ -1 then { s₁ with listenfd := -1 }.log (.close s₁.listenfd) else s₁
    let s₃ :=
      if s₂.epollfd ≠ -1 then
        { s₂ with epollfd := -1, kernel := { s₂.kernel with epoll := ∅ } }.log (.close s₂.epollfd)
      else s₂
    { s₃ with clients := ∅, usernames := ∅ }

/-- What peers do between two handlers: bytes arrive, or a peer closes or fails. -/
inductive NetAct where
  | arrive (id : ConnId) (bs : Bytes)
  | ends (id : ConnId) (ending : Ending)

/-- A stream that has ended stays as it is. -/
def Kernel.net (k : Kernel) : NetAct → Kernel
  | .arrive id bs =>
    let ch := (k.conns id).toServer
    if ch.ending = .alive then k.consumed id { ch with bytes := ch.bytes ++ bs } else k
  | .ends id ending =>
    let ch := (k.conns id).toServer
    if ch.ending = .alive then k.consumed id { ch with ending := ending } else k

/-- `MAX_EXENTS`. -/
def maxExents : ℕ := 64

/-- One element of the `events` array, with what the network did before its turn and, for the
    listener, what accept will find. -/
structure EpollEvent where
  fd : Fd
  net : List NetAct
  accepts : List AcceptResult

/-- The call of `HandleClientEvent` in `EventLoop`, for the entry `it` that `find` returned. -/
def dispatch (fd : Fd) (it : ClientInfo) : ServerM Unit := do
  modify (·.log (.dispatch it.session.conn))
  handleClientEvent na env fd

/-- One pass over the `events` array: `false` when `EventLoop` returns from within it. -/
def handleBatch : List EpollEvent → ServerM Bool
  | [] => pure true
  | ev :: rest => do
    modify fun s => { s with kernel := ev.net.foldl Kernel.net s.kernel }
    let s ← get
    if ev.fd = s.listenfd then
      modify (handleNewConnection ev.accepts)
      handleBatch rest
    else
      match s.clients.lookup ev.fd with
      | none => pure false
      | some it =>
        dispatch na env ev.fd it
        handleBatch rest

/-- What successive `epoll_wait` calls return: a batch, or -1. -/
inductive EpollWait where
  | batch (events : List EpollEvent)
  | failed

/-- `Server::EventLoop`: `true` while it waits in `epoll_wait`, `false` once it has returned. -/
def eventLoop : List EpollWait → ServerM Bool
  | [] => return (← get).running
  | w :: rest => do
    if !(← get).running then pure false
    else
      match w with
      | .failed =>
        modify stop
        pure false
      | .batch events =>
        if ← handleBatch na env (events.take maxExents) then eventLoop rest else pure false

end CliChat
