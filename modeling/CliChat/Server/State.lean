import CliChat.Common.FrameStream
import CliChat.Common.Sodium

/-! @src server/src/headers/server.hpp | name:Server | scheme:state

    The server's members and the kernel objects behind them. `Server` is the class; `Kernel` is
    what its system calls act on (descriptor table, connections, epoll interest list); `trace` is a
    ghost log of the actions that the results speak about. A handler is a `ServerM` computation: it
    returns, or stops in a `Fault` that no code of the server catches. -/

namespace CliChat

abbrev Fd := ℤ

/-- The number of a connection: connections are numbered in the order of acceptance, so a
    descriptor number that is reused names another connection. -/
abbrev ConnId := ℕ

/-- `NetworkSession`: the socket, and (ghost) the connection it was made for. -/
structure NetworkSession where
  socketfd : Fd
  conn : ConnId
  deriving DecidableEq

/-- `Server::ClientInfo`. The source leaves `client_pk` uninitialised; nothing reads it before the
    key exchange writes it. -/
structure ClientInfo where
  username : Bytes := []
  session : NetworkSession
  clientPk : Bytes := []
  fd : Fd
  registered : Bool := false
  keyExchanged : Bool := false
  deriving DecidableEq

/-- What a dangling `ClientInfo&` yields: arbitrary memory. -/
def ClientInfo.dangling : ClientInfo := { session := ⟨-1, 0⟩, fd := -1 }

/-- `m_clients`, an `unordered_map`: entries with distinct keys, in the order of iteration. -/
abbrev ClientMap := AList fun _ : Fd => ClientInfo

/-- An insertion into an `unordered_map` may rehash it, which reorders the entries at will. -/
structure Rehash where
  order : List (Σ _ : Fd, ClientInfo) → List (Σ _ : Fd, ClientInfo)
  perm : ∀ l, (order l).Perm l

/-- The rehash that keeps a new entry in front. -/
def Rehash.none : Rehash := ⟨id, fun l => List.Perm.refl l⟩

/-- `m_clients.emplace(fd, info)`: an entry that is there already stays. -/
def ClientMap.emplace (m : ClientMap) (fd : Fd) (info : ClientInfo) (r : Rehash) : ClientMap :=
  if h : fd ∈ m then m
  else
    ⟨r.order (⟨fd, info⟩ :: m.entries),
      (List.perm_nodupKeys (r.perm _)).mpr (List.nodupKeys_cons.mpr ⟨h, m.nodupKeys⟩)⟩

/-- A connection: what its peer sent and the server has not read, and the other way round. -/
structure Conn where
  toServer : Chan
  toClient : Chan

/-- The kernel objects of the server process. -/
structure Kernel where
  /-- The open client sockets and the connections behind them. -/
  fds : Fd → Option ConnId
  conns : ConnId → Conn
  /-- Connections accepted so far; the next one gets this number. -/
  accepted : ConnId
  /-- The epoll interest list. -/
  epoll : Finset Fd
  /-- `SendPacket` calls so far. -/
  sends : ℕ
  /-- `randombytes_buf` calls so far. -/
  rands : ℕ

/-- The choices of the environment: what the kernel makes of the `send` calls of the `i`-th
    `SendPacket`, and the nonce that the `i`-th `randombytes_buf` draws. -/
structure Env where
  sched : ℕ → SendSched
  nonce : ℕ → Bytes
  nonce_length : ∀ i, (nonce i).length = secretboxNonceBytes

/-- An environment in which every `send` returns. -/
structure ReturningEnv where
  answers : ℕ → Answers
  nonce : ℕ → Bytes
  nonce_length : ∀ i, (nonce i).length = secretboxNonceBytes

@[simps] def ReturningEnv.toEnv (env : ReturningEnv) : Env where
  sched i := .returns (env.answers i)
  nonce := env.nonce
  nonce_length := env.nonce_length

instance : Coe ReturningEnv Env := ⟨ReturningEnv.toEnv⟩

/-- The environment in which exactly the `SendPacket` calls numbered in `bad` fail, before their
    first byte. -/
def ReturningEnv.failing (bad : List ℕ) : ReturningEnv where
  answers i := if i ∈ bad then [none] else []
  nonce _ := List.replicate secretboxNonceBytes 0
  nonce_length _ := List.length_replicate

def Env.failing (bad : List ℕ) : Env := ReturningEnv.failing bad

/-- The environment in which the calls numbered in `bad` fail and the `n`-th does not return. -/
def Env.stopping (bad : List ℕ) (n : ℕ) (how : SendStop) : Env :=
  { Env.failing bad with sched := Function.update (Env.failing bad).sched n (.stops [] how) }

/-- The call sites of `SendPacket` in the server. -/
inductive Site where
  | serverPk
  | groupKey
  | secretbox (msg : Bytes)
  | forward (src : ConnId)
  deriving DecidableEq

/-- Logged actions. -/
inductive Ev where
  /-- `m_clientsMutex` is acquired, and whether it was free. -/
  | lock (free : Bool)
  | unlock
  /-- A field is used through the reference `client`, and whether its entry is there. -/
  | access (client : Fd) (live : Bool)
  /-- `RecvPacket` returned on a session. -/
  | recv (conn : ConnId) (pkt : Option Bytes)
  /-- `SendPacket` returned on a session. -/
  | send (conn : ConnId) (site : Site) (payload : Bytes) (ok : Bool)
  /-- `SendSecretbox` returned on a session. -/
  | secretbox (conn : ConnId) (msg : Bytes) (ok : Bool)
  /-- `BroadcastEncrypted` is entered. -/
  | broadcast (msg : Bytes)
  /-- The event loop hands an event to `HandleClientEvent`. -/
  | dispatch (conn : ConnId)
  /-- An entry leaves `m_clients`. -/
  | erase (fd : Fd) (client : ClientInfo)
  | epollDel (fd : Fd)
  | close (fd : Fd)
  deriving DecidableEq

/-- The class `Server`, the kernel it runs on, and the ghost log. -/
structure Server where
  clients : ClientMap
  usernames : Finset Bytes
  /-- Whether `m_clientsMutex` is held. -/
  clientsMutex : Bool
  listenfd : Fd
  epollfd : Fd
  running : Bool
  serverPk : Bytes
  serverSk : Bytes
  groupKey : Bytes
  kernel : Kernel
  trace : List Ev

/-- Why a handler does not return: it waits in `recv`, a `send` does not return, it waits for a
    mutex its own thread holds, a `std::length_error` leaves it, or (model only) the recursion bound
    is used up. -/
inductive Fault where
  | blocked
  | send (how : SendStop)
  | deadlock
  | lengthError
  | outOfFuel
  deriving DecidableEq

/-- Handlers: state passing with faults. -/
abbrev ServerM := EStateM Fault Server

/-! ### Kernel calls -/

namespace Kernel

/-- Bytes that the kernel took from the server join the stream of the peer. -/
@[simps] def deliver (k : Kernel) (id : ConnId) (bs : Bytes) : Kernel :=
  let c := k.conns id
  { k with
    conns := Function.update k.conns id
      { c with toClient := { c.toClient with bytes := c.toClient.bytes ++ bs } }
    sends := k.sends + 1 }

/-- The server has read from a connection. -/
@[simps] def consumed (k : Kernel) (id : ConnId) (ch : Chan) : Kernel :=
  { k with conns := Function.update k.conns id { k.conns id with toServer := ch } }

/-- `epoll_ctl(EPOLL_CTL_DEL)`. -/
@[simps] def epollDel (k : Kernel) (fd : Fd) : Kernel := { k with epoll := k.epoll.erase fd }

/-- `shutdown` and `close`: the descriptor is free again, epoll forgets it, and the peer will read
    the end of its stream. -/
def close (k : Kernel) (fd : Fd) : Kernel :=
  match k.fds fd with
  | none => k
  | some id =>
    let c := k.conns id
    { k with
      fds := Function.update k.fds fd none
      epoll := k.epoll.erase fd
      conns := Function.update k.conns id
        { c with toClient := { c.toClient with ending := .eof } } }

/-- `accept` gives a new connection the descriptor `fd`. -/
@[simps] def accept (k : Kernel) (fd : Fd) (cutsIn cutsOut : List ℕ) : Kernel :=
  { k with
    fds := Function.update k.fds fd (some k.accepted)
    conns := Function.update k.conns k.accepted ⟨⟨[], .alive, cutsIn⟩, ⟨[], .alive, cutsOut⟩⟩
    accepted := k.accepted + 1 }

end Kernel

namespace Server

@[simps] def log (s : Server) (e : Ev) : Server := { s with trace := s.trace ++ [e] }

/-- `randombytes_buf` on a nonce buffer. -/
def randomNonce (env : Env) (s : Server) : Bytes × Server :=
  (env.nonce s.kernel.rands, { s with kernel := { s.kernel with rands := s.kernel.rands + 1 } })

end Server

end CliChat
