import CliChat.Common.FrameStream
import CliChat.Common.Sodium

/-! @src client/src/client.cpp | name:Client | scheme:startup and three loops

    The chat client. `Start` exchanges keys and sends the name; then three threads loop until
    `m_running` is cleared. A member function takes what its thread meets (the stream from the
    server, the user's input, a nonce, the kernel's answers to `send`) and gives the client it
    leaves, with the bytes it wrote or the stream it left. One pass of a loop is one step. The
    conversion to wide characters belongs to a library that is not there: `utf8` says of which
    strings it does not throw. A `send` returns here; one that does not is in `Shutdown`.

        connected ─▶ awaitsServerPk ─▶ awaitsGroupKey ─▶ promptsUsername ─▶ started
            a call of Start that throws, at any of them ─▶ exited

        started: HandleBroadcast (receives) ║ ClientLoop (sends) ║ UIUpdateLoop (prints) -/

namespace CliChat

/-- How far `Start` has come. -/
inductive Stage where
  | connected
  | awaitsServerPk
  | awaitsGroupKey
  | promptsUsername
  | started
  | exited
  deriving DecidableEq

/-- The class `Client`, behind a session that `CreateSession` has connected. The last four fields
    are a ghost log. -/
structure Client where
  stage : Stage := .connected
  clientPk : Bytes := []
  clientSk : Bytes := []
  serverPk : Bytes := []
  groupKey : Bytes := []
  username : Bytes := []
  /-- Whether the session's socket is open. -/
  sessionOpen : Bool := true
  /-- `m_ui.running`. -/
  uiRunning : Bool := true
  stopping : Bool := false
  running : Bool := false
  exitReason : Bytes := ascii "None"
  /-- `m_ui.m_msgQueue`. -/
  msgQueue : List Bytes := []
  /-- The packets given to `SendPacket`, and what it returned. -/
  sent : List (Bytes × Bool) := []
  /-- The strings given to `SendEncrypted`, and what it returned. -/
  said : List (Bytes × Bool) := []
  /-- The packets that `RecvPacket` returned. -/
  taken : List Bytes := []
  /-- The packets that `RecvDecrypted` read, and what it made of them. -/
  inbox : List (Bytes × Option Bytes) := []
  deriving DecidableEq

/-- `MAX_USERNAME_LEN`. -/
def maxUsernameLen : ℕ := 24

/-- The text by which the server tells a client that its name is taken. -/
def usernameTaken : Bytes := ascii "SERVER::USERNAME_TAKEN"

/-- The checks and the decryption of `RecvDecrypted`, for the packet `enc`. -/
def openPacket (na : Sodium) (groupKey enc : Bytes) : Option Bytes :=
  if enc.length < secretboxNonceBytes + secretboxMacBytes then none
  else
    let nonce := enc.take secretboxNonceBytes
    let ct := enc.drop secretboxNonceBytes
    if ct.length ≤ secretboxMacBytes then none else na.secretboxOpenEasy ct nonce groupKey

namespace Client

/-- `Client::Stop`. -/
def stop (c : Client) : Client :=
  if c.stopping then c
  else { c with stopping := true, running := false, uiRunning := false, sessionOpen := false }

/-- `m_session->SendPacket(data)`, with the bytes that reach the stream, where every `send` of it
    returns. -/
def sendPacket (c : Client) (data : Bytes) (sched : Answers) : Bool × Bytes × Client :=
  if c.sessionOpen then
    let (ok, bs) := sched.sendPacket data
    (ok, bs, { c with sent := c.sent ++ [(data, ok)] })
  else (false, [], { c with sent := c.sent ++ [(data, false)] })

/-- `m_session->RecvPacket()`; `none` while it waits. -/
def recvPacket (c : Client) (ch : Chan) : Option (Option Bytes × Client × Chan) :=
  if c.sessionOpen then
    match CliChat.recvPacket ch with
    | .blocks => none
    | .done pkt ch' => some (pkt, { c with taken := c.taken ++ pkt.toList }, ch')
  else some (none, c, ch)

/-- `m_ui.PushMessage(msg)`. -/
def pushMessage (c : Client) (msg : Bytes) : Client :=
  if !c.uiRunning then c else { c with msgQueue := c.msgQueue ++ [msg] }

variable (na : Sodium)

/-- `Client::SendEncrypted`. -/
def sendEncrypted (c : Client) (plaintext nonce : Bytes) (sched : Answers) :
    Bool × Bytes × Client :=
  match na.secretboxEasy plaintext nonce c.groupKey with
  | none => (false, [], { c with said := c.said ++ [(plaintext, false)] })
  | some cipher =>
    let (ok, bs, c₁) := c.sendPacket (nonce ++ cipher) sched
    (ok, bs, { c₁ with said := c₁.said ++ [(plaintext, ok)] })

/-- `Client::RecvDecrypted`; `none` while it waits. -/
def recvDecrypted (c : Client) (ch : Chan) : Option (Option Bytes × Client × Chan) :=
  match c.recvPacket ch with
  | none => none
  | some (none, c₁, ch₁) => some (none, c₁, ch₁)
  | some (some enc, c₁, ch₁) =>
    let pt := openPacket na c₁.groupKey enc
    some (pt, { c₁ with inbox := c₁.inbox ++ [(enc, pt)] }, ch₁)

/-! ### Start -/

/-- The handler of the exceptions that leave `Start`'s try block. What `Cleanup` does to the windows
    and to the keys that are waiting is left out. -/
def fail (c : Client) (what : Bytes) : Client :=
  { c with stage := .exited, exitReason := what, uiRunning := false, sessionOpen := false }

/-- The key pair is drawn and the public key sent; the result of `SendPacket` is not looked at. -/
def sendKey (c : Client) (pk sk : Bytes) (sched : Answers) : Client × Bytes :=
  let (_, bs, c₁) := { c with clientPk := pk, clientSk := sk }.sendPacket pk sched
  ({ c₁ with stage := .awaitsServerPk }, bs)

/-- The server's key is received. `memcpy` takes the size of a key from the packet; one that is
    shorter is taken as it is here, and what `memcpy` does then is in `readKeys`. -/
def recvServerPk (c : Client) (ch : Chan) : Option (Client × Chan) :=
  match c.recvPacket ch with
  | none => none
  | some (none, c₁, ch₁) => some (c₁.fail (ascii "bad optional access"), ch₁)
  | some (some srvpkPkt, c₁, ch₁) =>
    some ({ c₁ with serverPk := srvpkPkt.take boxPublicKeyBytes, stage := .awaitsGroupKey }, ch₁)

/-- The group key is received and opened. It is taken at any length here; what a packet of another
    size does to `m_group_key` is in `readKeys`. -/
def recvGroupKey (c : Client) (ch : Chan) : Option (Client × Chan) :=
  match c.recvPacket ch with
  | none => none
  | some (none, c₁, ch₁) => some (c₁.fail (ascii "bad optional access"), ch₁)
  | some (some grpPkt, c₁, ch₁) =>
    match na.boxOpenEasy (grpPkt.drop boxNonceBytes) (grpPkt.take boxNonceBytes) c₁.serverPk
      c₁.clientSk with
    | none => some (c₁.fail (ascii "Failed to decrypt group key"), ch₁)
    | some key => some ({ c₁ with groupKey := key, stage := .promptsUsername }, ch₁)

/-- The user is asked for a name, and the name is sent. -/
def sendUsername (c : Client) (usernameOpt : Option Bytes) (nonce : Bytes) (sched : Answers) :
    Client × Bytes :=
  match usernameOpt with
  | none => (c.fail (ascii "Invalid username"), [])
  | some username =>
    if username = [] ∨ maxUsernameLen < username.length then
      (c.fail (ascii "Invalid username"), [])
    else
      let (ok, bs, c₁) := c.sendEncrypted na username nonce sched
      if !ok then (c₁.fail (ascii "Failed to send username"), bs)
      else ({ c₁ with username := username, running := true, stage := .started }, bs)

/-! ### The threads -/

/-- What `HandleBroadcast` does with the result of `RecvDecrypted`. -/
def onMessage (c : Client) : Option Bytes → Client
  | none =>
    stop (if !c.stopping then { c with exitReason := ascii "Server closed connection." } else c)
  | some msg =>
    if msg = usernameTaken then
      stop { c with
        exitReason := ascii "Username " ++ c.username ++ ascii " is already taken" }
    else c.pushMessage msg

/-- One pass of the loop of `Client::HandleBroadcast`, and the final `Stop` when it is the last;
    `none` while it waits. -/
def handleBroadcast (c : Client) (ch : Chan) : Option (Client × Chan) :=
  (c.recvDecrypted na ch).map fun (msgOpt, c₁, ch₁) => (c₁.onMessage msgOpt, ch₁)

/-- One pass of the loop of `Client::ClientLoop`, and the final `Stop` when it is the last. -/
def clientLoop (c : Client) (inputOpt : Option Bytes) (nonce : Bytes) (sched : Answers) :
    Client × Bytes :=
  match inputOpt with
  | none => (c.stop, [])
  | some input =>
    if input = [] then (c, [])
    else if input = ascii "/exit" then (c.stop, [])
    else
      let (_, bs, c₁) := c.sendEncrypted na (c.username ++ ascii ": " ++ input) nonce sched
      (c₁, bs)

/-- One pass of the loop of `Client::UIUpdateLoop`: the queue is printed up to the first string
    that is not UTF-8, whose exception ends in `Stop`. -/
def uiUpdateLoop (utf8 : Bytes → Bool) (c : Client) : Client :=
  if !c.uiRunning then c
  else
    match c.msgQueue.dropWhile utf8 with
    | [] => { c with msgQueue := [] }
    | _ :: rest => { c with msgQueue := rest }.stop

end Client

/-- What a client does next, with what it meets there. -/
inductive ClientAct where
  | sendKey (pk sk : Bytes) (sched : Answers)
  | recvServerPk
  | recvGroupKey
  | sendUsername (usernameOpt : Option Bytes) (nonce : Bytes) (sched : Answers)
  | handleBroadcast
  | clientLoop (inputOpt : Option Bytes) (nonce : Bytes) (sched : Answers)
  | uiUpdateLoop

/-- The order of `Start`, then any order of the threads while `m_running` is set. Keys and nonces
    have their sizes. The result is the client, the bytes it wrote and the stream it left. -/
def Client.act (na : Sodium) (utf8 : Bytes → Bool) (c : Client) (ch : Chan) :
    ClientAct → Option (Client × Bytes × Chan)
  | .sendKey pk sk sched =>
    if c.stage = .connected ∧ pk.length = boxPublicKeyBytes then
      some ((c.sendKey pk sk sched).1, (c.sendKey pk sk sched).2, ch)
    else none
  | .recvServerPk =>
    if c.stage = .awaitsServerPk then (c.recvServerPk ch).map fun x => (x.1, [], x.2) else none
  | .recvGroupKey =>
    if c.stage = .awaitsGroupKey then (c.recvGroupKey na ch).map fun x => (x.1, [], x.2) else none
  | .sendUsername usernameOpt nonce sched =>
    if c.stage = .promptsUsername ∧ nonce.length = secretboxNonceBytes then
      some ((c.sendUsername na usernameOpt nonce sched).1,
        (c.sendUsername na usernameOpt nonce sched).2, ch)
    else none
  | .handleBroadcast =>
    if c.running then (c.handleBroadcast na ch).map fun x => (x.1, [], x.2) else none
  | .clientLoop inputOpt nonce sched =>
    if c.running ∧ nonce.length = secretboxNonceBytes then
      some ((c.clientLoop na inputOpt nonce sched).1, (c.clientLoop na inputOpt nonce sched).2, ch)
    else none
  | .uiUpdateLoop => if c.running then some (c.uiUpdateLoop utf8, [], ch) else none

end CliChat
