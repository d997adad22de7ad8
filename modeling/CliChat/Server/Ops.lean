import CliChat.Lib.AssocMap
import CliChat.Server.Run

/-! @src server/src/server.cpp | name:Server | scheme:state updates

    What each primitive of a handler does to the state, as named updates with one simp lemma for
    each field, and the evaluation of the primitives. Handlers are then evaluated by rewriting, and
    no later result unfolds a primitive. The four functions that send are evaluated where every
    `send` returns. -/

namespace CliChat

/-! ### Evaluating handlers -/

namespace ServerM

variable {α β : Type}

theorem bind_apply (x : ServerM α) (f : α → ServerM β) (s : Server) :
    (x >>= f) s = match x s with
      | .ok a s' => f a s'
      | .error e s' => .error e s' := by
  cases h : x s <;> simp only [bind, EStateM.bind, h]

theorem bind_ok {x : ServerM α} {s s' : Server} {a : α} (h : x s = .ok a s') (f : α → ServerM β) :
    (x >>= f) s = f a s' := by
  rw [bind_apply, h]

theorem bind_error {x : ServerM α} {s s' : Server} {e : Fault} (h : x s = .error e s')
    (f : α → ServerM β) : (x >>= f) s = .error e s' := by
  rw [bind_apply, h]

theorem get_apply (s : Server) : (get : ServerM Server) s = .ok s s := rfl

theorem modify_apply (f : Server → Server) (s : Server) :
    (modify f : ServerM PUnit) s = .ok ⟨⟩ (f s) := rfl

/-- What a handler that returns gives, and the state it leaves. -/
def result (x : ServerM α) (s : Server) : Option (α × Server) :=
  match x s with
  | .ok a s' => some (a, s')
  | .error _ _ => none

/-- Why a handler does not return. -/
def fault (x : ServerM α) (s : Server) : Option Fault :=
  match x s with
  | .ok _ _ => none
  | .error e _ => some e

theorem result_eq_some {x : ServerM α} {s s' : Server} {a : α} :
    x.result s = some (a, s') ↔ x s = .ok a s' := by
  unfold result
  cases x s <;> simp

theorem fault_eq_some {x : ServerM α} {s : Server} {e : Fault} :
    x.fault s = some e ↔ ∃ t, x s = .error e t := by
  unfold fault
  cases x s <;> simp

theorem act_apply (f : Server → α × Server) (s : Server) : act f s = .ok (f s).1 (f s).2 := rfl

end ServerM

/-- The state that a handler leaves, or where it is stuck. -/
def resultState {α : Type} : EStateM.Result Fault Server α → Server
  | .ok _ s => s
  | .error _ s => s

/-! ### Named updates -/

namespace Server

/-- `n` uses of fields through a live reference. -/
@[simps] def touch (s : Server) (fd : Fd) (n : ℕ) : Server :=
  { s with trace := s.trace ++ List.replicate n (.access fd true) }

/-- `RecvPacket` on connection `id` returned `pkt`. -/
@[simps] def heard (s : Server) (id : ConnId) (pkt : Option Bytes) (ch : Chan) : Server :=
  { s with kernel := s.kernel.consumed id ch, trace := s.trace ++ [.recv id pkt] }

/-- An entry is updated through a live reference. -/
@[simps] def write (s : Server) (fd : Fd) (c : ClientInfo) : Server :=
  { s with clients := s.clients.replace fd c, trace := s.trace ++ [.access fd true] }

/-- The entry `c` of `fd` is disconnected, up to the announcement: its socket leaves epoll and is
    closed, its name is given back if it was registered, and it leaves the map. -/
@[simps] def dropped (s : Server) (fd : Fd) (c : ClientInfo) : Server :=
  { s with
    clients := s.clients.erase fd
    usernames := if c.registered then s.usernames.erase c.username else s.usernames
    kernel := (s.kernel.epollDel fd).close fd
    trace := s.trace ++
      ([.lock true, .access fd true, .access fd true, .epollDel fd, .access fd true, .close fd,
        .access fd true, .access fd true] ++
        (if c.registered then [.access fd true] else []) ++ [.erase fd c, .unlock]) }

theorem touch_touch (s : Server) (fd : Fd) (m n : ℕ) :
    (s.touch fd m).touch fd n = s.touch fd (m + n) := by
  simp only [touch, List.append_assoc, List.replicate_add]

end Server

/-! ### Kernel updates -/

namespace Kernel

@[simp] theorem close_fds (k : Kernel) (fd : Fd) :
    (k.close fd).fds = Function.update k.fds fd none := by
  unfold close
  split
  · rename_i h
    exact (Function.update_eq_self_iff.mpr h.symm).symm
  · rfl

@[simp] theorem close_accepted (k : Kernel) (fd : Fd) : (k.close fd).accepted = k.accepted := by
  unfold close; split <;> rfl

@[simp] theorem close_sends (k : Kernel) (fd : Fd) : (k.close fd).sends = k.sends := by
  unfold close; split <;> rfl

/-- Closing a socket does not touch what its peer sent. -/
@[simp] theorem close_toServer (k : Kernel) (fd : Fd) (id : ConnId) :
    ((k.close fd).conns id).toServer = (k.conns id).toServer := by
  unfold close
  split
  · rfl
  · dsimp only
    rw [Function.update_apply]
    split
    · rename_i h; rw [h]
    · rfl

end Kernel

/-! ### Evaluating the primitives -/

section primitives

variable {s : Server} {fd : Fd} {c : ClientInfo}

theorem access_eq (h : s.clients.lookup fd = some c) :
    ServerM.access fd s = .ok c (s.touch fd 1) := by
  rw [ServerM.access, h]; rfl

theorem modifyClient_eq (h : s.clients.lookup fd = some c) (f : ClientInfo → ClientInfo) :
    ServerM.modifyClient fd f s = .ok () (s.write fd (f c)) := by
  rw [ServerM.modifyClient, h]; rfl

theorem lock_free (h : s.clientsMutex = false) :
    ServerM.lock s = .ok () ({ s with clientsMutex := true }.log (.lock true)) := by
  simp [ServerM.lock, h]

theorem lock_held (h : s.clientsMutex = true) :
    ServerM.lock s = .error .deadlock (s.log (.lock false)) := by
  simp [ServerM.lock, h]

theorem recvPacket_blocks {sess : NetworkSession} {id : ConnId}
    (hfd : s.kernel.fds sess.socketfd = some id)
    (hb : CliChat.recvPacket (s.kernel.conns id).toServer = .blocks) :
    ServerM.recvPacket sess s = .error .blocked s := by
  rw [ServerM.recvPacket, hfd]
  dsimp only
  rw [hb]

theorem recvPacket_done {sess : NetworkSession} {pkt : Option Bytes} {ch : Chan}
    (hfd : s.kernel.fds sess.socketfd = some sess.conn)
    (hd : CliChat.recvPacket (s.kernel.conns sess.conn).toServer = .done pkt ch) :
    ServerM.recvPacket sess s = .ok pkt (s.heard sess.conn pkt ch) := by
  rw [ServerM.recvPacket, hfd]
  dsimp only
  rw [hd]
  rfl

end primitives

/-! ### Accepting -/

namespace Server

variable {s : Server} {fd : Fd}

theorem isFree_iff : s.isFree fd = true ↔
    0 ≤ fd ∧ fd ≠ s.listenfd ∧ fd ≠ s.epollfd ∧ s.kernel.fds fd = none := by
  simp [isFree, and_assoc]

/-- A connection was accepted and registered with epoll. -/
def admitted (s : Server) (fd : Fd) (rehash : Rehash) (cutsIn cutsOut : List ℕ) : Server :=
  { s with
    kernel := { s.kernel.accept fd cutsIn cutsOut with
      epoll := insert fd (s.kernel.accept fd cutsIn cutsOut).epoll }
    clients := s.clients.emplace fd { session := ⟨fd, s.kernel.accepted⟩, fd := fd } rehash }

/-- A connection was accepted, and closed because epoll refused it. -/
def refused (s : Server) (fd : Fd) (cutsIn cutsOut : List ℕ) : Server :=
  { s with kernel := (s.kernel.accept fd cutsIn cutsOut).close fd }.log (.close fd)

/-- The refused connection has left no socket behind. -/
theorem refused_fds (hfree : s.isFree fd = true) (ci co : List ℕ) :
    (s.refused fd ci co).kernel.fds = s.kernel.fds := by
  obtain ⟨-, -, -, hfd⟩ := isFree_iff.mp hfree
  have hclosed : ((s.kernel.accept fd ci co).close fd).fds =
      Function.update (Function.update s.kernel.fds fd (some s.kernel.accepted)) fd none :=
    Kernel.close_fds _ fd
  rw [Function.update_idem, Function.update_eq_self_iff.mpr hfd.symm] at hclosed
  exact hclosed

theorem refused_accepted (s : Server) (fd : Fd) (ci co : List ℕ) :
    (s.refused fd ci co).kernel.accepted = s.kernel.accepted + 1 :=
  Kernel.close_accepted _ fd

/-- LOOP RULE: what one accepted connection keeps, `HandleNewConnection` keeps. -/
theorem handleNewConnection_invariant {I : Server → Prop}
    (haccept : ∀ s fd r ci co, I s → s.isFree fd = true → I (s.admitted fd r ci co))
    (hrefuse : ∀ s fd ci co, I s → s.isFree fd = true → I (s.refused fd ci co)) :
    ∀ (accepts : List AcceptResult) (s : Server), I s → I (handleNewConnection accepts s)
  | [], _, h => h
  | .error :: _, _, h => h
  | .conn fd epollOk r ci co :: rest, s, h => by
    rw [handleNewConnection]
    by_cases hrun : s.running = true
    · rw [if_neg (by simp [hrun])]
      by_cases hfree : s.isFree fd = true
      · rw [if_neg (by simp [hfree])]
        dsimp only
        cases epollOk with
        | true =>
          exact handleNewConnection_invariant haccept hrefuse rest _ (haccept s fd r ci co h hfree)
        | false =>
          exact handleNewConnection_invariant haccept hrefuse rest _ (hrefuse s fd ci co h hfree)
      · rw [if_pos (by simpa using hfree)]
        exact h
    · rw [if_pos (by simpa using hrun)]
      exact h

end Server

/-! ### Sends that return -/

namespace Server

variable (na : Sodium) (env : ReturningEnv)

/-- `SendPacket`: whether it succeeds, and the state it leaves. -/
def sendPacket (sess : NetworkSession) (site : Site) (data : Bytes) (s : Server) : Bool × Server :=
  match s.kernel.fds sess.socketfd with
  | none => (false, s.log (.send sess.conn site data false))
  | some id =>
    let r := (env.answers s.kernel.sends).sendPacket data
    (r.1, { s with kernel := s.kernel.deliver id r.2 }.log (.send sess.conn site data r.1))

/-- `SendSecretbox`. -/
def sendSecretbox (sess : NetworkSession) (msg : Bytes) (s : Server) : Bool × Server :=
  let (nonce, s₁) := s.randomNonce env
  match na.secretboxEasy msg nonce s.groupKey with
  | none => (false, s₁.log (.secretbox sess.conn msg false))
  | some cipher =>
    let (ok, s₂) := s₁.sendPacket env sess (.secretbox msg) (nonce ++ cipher)
    (ok, s₂.log (.secretbox sess.conn msg ok))

/-- The first loop of `BroadcastEncrypted`: the list of descriptors is `removeList`. -/
def sendToRegistered (msg : Bytes) : List (Σ _ : Fd, ClientInfo) → Server → List Fd × Server
  | [], s => ([], s)
  | ⟨fd, client⟩ :: rest, s =>
    if !client.registered then sendToRegistered msg rest s
    else
      let (ok, s₁) := s.sendSecretbox na env client.session msg
      let (removeList, s₂) := sendToRegistered msg rest s₁
      (if ok then removeList else fd :: removeList, s₂)

/-- The forwarding loop. -/
def forwardTo (src : ConnId) (rawPkt : Bytes) : List (Σ _ : Fd, ClientInfo) → Server → Server
  | [], s => s
  | ⟨_, otherClient⟩ :: rest, s =>
    if !otherClient.registered then forwardTo src rawPkt rest s
    else forwardTo src rawPkt rest (s.sendPacket env otherClient.session (.forward src) rawPkt).2

end Server

section sends

variable (na : Sodium) (env : ReturningEnv) (s : Server)

theorem sendPacket_apply (sess : NetworkSession) (site : Site) (data : Bytes) :
    ServerM.sendPacket env sess site data s =
      .ok (s.sendPacket env sess site data).1 (s.sendPacket env sess site data).2 := by
  unfold ServerM.sendPacket Server.sendPacket
  cases s.kernel.fds sess.socketfd with
  | none => rfl
  | some id => simp only [ReturningEnv.toEnv_sched, Answers.sendPacket_eq]

theorem sendSecretbox_apply (sess : NetworkSession) (msg : Bytes) :
    ServerM.sendSecretbox na env sess msg s =
      .ok (s.sendSecretbox na env sess msg).1 (s.sendSecretbox na env sess msg).2 := by
  rw [ServerM.sendSecretbox, ServerM.bind_ok (ServerM.act_apply _ _),
    ServerM.bind_ok (ServerM.get_apply _), Server.sendSecretbox]
  simp only [Server.randomNonce, ReturningEnv.toEnv_nonce]
  cases na.secretboxEasy msg (env.nonce s.kernel.rands) s.groupKey with
  | none => rfl
  | some cipher => exact ServerM.bind_ok (sendPacket_apply env _ sess _ _) _

theorem sendToRegistered_apply (msg : Bytes) : ∀ (l : List (Σ _ : Fd, ClientInfo)) (s : Server),
    ServerM.sendToRegistered na env msg l s =
      .ok (s.sendToRegistered na env msg l).1 (s.sendToRegistered na env msg l).2
  | [], _ => rfl
  | ⟨fd, client⟩ :: rest, s => by
    rw [ServerM.sendToRegistered, Server.sendToRegistered]
    cases client.registered with
    | false => exact sendToRegistered_apply msg rest s
    | true =>
      simp only [Bool.not_true, Bool.false_eq_true, if_false]
      rw [ServerM.bind_ok (sendSecretbox_apply na env s _ msg),
        ServerM.bind_ok (sendToRegistered_apply msg rest _)]
      rfl

theorem forwardTo_apply (src : ConnId) (rawPkt : Bytes) :
    ∀ (l : List (Σ _ : Fd, ClientInfo)) (s : Server),
      ServerM.forwardTo env src rawPkt l s = .ok () (s.forwardTo env src rawPkt l)
  | [], _ => rfl
  | ⟨_, otherClient⟩ :: rest, s => by
    rw [ServerM.forwardTo, Server.forwardTo]
    cases otherClient.registered with
    | false => exact forwardTo_apply src rawPkt rest s
    | true =>
      simp only [Bool.not_true, Bool.false_eq_true, if_false]
      rw [ServerM.bind_ok (sendPacket_apply env s _ _ _)]
      exact forwardTo_apply src rawPkt rest _

end sends

end CliChat
