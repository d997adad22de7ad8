import CliChat.Client.Relay

/-! @src client/src/client.cpp | name:HandleBroadcast, ClientLoop, UIUpdateLoop | scheme:simulation

    The threads of a client that has not been stopped, against the actions of `Client.act`, each of
    them a whole pass of a loop. In any order of the threads a pass takes effect at one of its
    steps. Ahead of the passes are then at most a packet that `HandleBroadcast` has read and not
    finished with (`Listening`), and strings that `PrintBufferedMessages` took off the queue before
    it threw (`Showing`).

        HandleBroadcast  test ─▶ recv ─▶ push ─▶ ● enqueue      │  ─▶ lost ─▶ blame ─▶ ● Stop
        ClientLoop       test ─▶ PromptInput ─▶ ● SendEncrypted │  ─▶ nullopt ─▶ ● Stop
        UIUpdateLoop     test ─▶ print ─▶ ● drain               │  ─▶ throw ─▶ ● Stop         -/

namespace CliChat

open Transition

/-! ### The passes -/

/-- The client as the passes leave it, its streams and its window. -/
structure Passes where
  client : Client := {}
  ch : Chan
  written : Bytes := []
  window : List WString := []
  peerEnded : Bool := false

inductive PassAct where
  | act (a : ClientAct)
  | arrive (bs : Bytes)
  | ends (ending : Ending)

namespace Passes

variable (na : Sodium) (u : Utf8)

/-- The lines that a pass writes to the window. -/
def lines (c : Client) : ClientAct → List WString
  | .uiUpdateLoop => (c.printPass u).1
  | _ => []

def step : PassAct → Passes → Option Passes
  | .act a, p =>
    (p.client.act na (fun m => (u.utf8to32 m).isSome) p.ch a).map fun (c, bs, ch) =>
      { p with
        client := c
        ch := ch
        written := p.written ++ bs
        window := p.window ++ lines u p.client a }
  | .arrive bs, p =>
    if p.ch.ending = .alive then some { p with ch := { p.ch with bytes := p.ch.bytes ++ bs } }
    else none
  | .ends ending, p =>
    if p.peerEnded = false ∧ ending ≠ .alive then
      some { p with ch := { p.ch with ending := ending }, peerEnded := true }
    else none

/-- `CreateSession` has just connected. -/
def Initial (p : Passes) : Prop := ∃ cuts, p = { ch := ⟨[], .alive, cuts⟩ }

variable {na u} {p : Passes} {a : ClientAct} {c : Client} {bs : Bytes} {ch : Chan}

/-- The state after an action. -/
def after (u : Utf8) (p : Passes) (a : ClientAct) (c : Client) (bs : Bytes) (ch : Chan) : Passes :=
  { p with
    client := c, ch := ch, written := p.written ++ bs, window := p.window ++ lines u p.client a }

theorem step_act (h : p.client.act na (fun m => (u.utf8to32 m).isSome) p.ch a = some (c, bs, ch)) :
    step na u (.act a) p = some (p.after u a c bs ch) := by
  rw [step, h]
  rfl

theorem run_act (h : p.client.act na (fun m => (u.utf8to32 m).isSome) p.ch a = some (c, bs, ch)) :
    run (step na u) [.act a] p = some (p.after u a c bs ch) := by
  rw [run_cons, step_act h]
  rfl

end Passes

namespace Process

/-! ### Ahead of the passes -/

/-- The clients differ in the exit reason and the queue only. -/
def Agrees (c d : Client) : Prop :=
  ∃ reason queue, d = { c with exitReason := reason, msgQueue := queue }

/-- `HandleBroadcast` stands there with the result of `RecvDecrypted`. -/
inductive Holds : Option Bytes → Pc Hearing → Prop where
  | lost : Holds none (.loop .lost)
  | blame : Holds none (.loop .blame)
  | closed (p : HaltPc) : Holds none (.halt p false)
  | taken : Holds (some usernameTaken) (.loop .taken)
  | refused (p : HaltPc) : Holds (some usernameTaken) (.halt p true)
  | push {msg : Bytes} : msg ≠ usernameTaken → Holds (some msg) (.loop (.push msg))
  | enqueue {msg : Bytes} : msg ≠ usernameTaken → Holds (some msg) (.loop (.enqueue msg))

theorem holds_heard (msgOpt : Option Bytes) : Holds msgOpt (.loop (heard msgOpt)) := by
  cases msgOpt with
  | none => exact .lost
  | some msg =>
    simp only [heard]
    split_ifs with hmsg
    · rw [hmsg]
      exact .taken
    · exact .push hmsg

/-- `HandleBroadcast` is between two passes, or has read a packet that the passes have not. -/
inductive Listening (na : Sodium) (s : Process) (p : Passes) : Prop where
  | between : s.broadcast = .loop .test ∨ s.broadcast = .loop .recv → Agrees p.client s.client →
      p.ch.Same s.ch → Listening na s p
  | within {pkt : Option Bytes} {ch : Chan} : CliChat.recvPacket p.ch = .done pkt ch →
      ch.Same s.ch → Agrees (p.client.decrypting na pkt) s.client →
      Holds (pkt.bind (openPacket na p.client.groupKey)) s.broadcast → Listening na s p

/-- `UIUpdateLoop` is between two passes, or has thrown and not yet called `Stop`. -/
inductive Showing (u : Utf8) (s : Process) (p : Passes) : Prop where
  | between {b : Printing} : s.ui = .loop b → s.client.msgQueue = p.client.msgQueue →
      s.window = p.window → Showing u s p
  | within {cut : List Bytes} {lines : List WString} : s.ui = .halt .test false →
      p.client.msgQueue = cut ++ s.client.msgQueue → drain u cut = (lines, [], true) →
      s.window = p.window ++ lines → Showing u s p

/-- The threads, in the midst of their passes. -/
structure Amid (na : Sodium) (u : Utf8) (s : Process) (p : Passes) : Prop where
  listening : Listening na s p
  showing : Showing u s p
  reason : ∀ b, s.broadcast = .loop b → s.client.exitReason = p.client.exitReason
  written : s.written = p.written
  peerEnded : s.peerEnded = p.peerEnded

section agrees

variable {c d : Client}

theorem Agrees.trans {e : Client} (h : Agrees c d) (k : Agrees d e) : Agrees c e := by
  obtain ⟨reason, queue, rfl⟩ := h
  obtain ⟨reason', queue', rfl⟩ := k
  exact ⟨reason', queue', rfl⟩

theorem Agrees.decrypting (h : Agrees c d) (na : Sodium) (pkt : Option Bytes) :
    Agrees (c.decrypting na pkt) (d.decrypting na pkt) := by
  obtain ⟨reason, queue, rfl⟩ := h
  exact ⟨reason, queue, rfl⟩

theorem Agrees.queue (h : Agrees c d) (q r : List Bytes) :
    Agrees { c with msgQueue := q } { d with msgQueue := r } := by
  obtain ⟨reason, queue, rfl⟩ := h
  exact ⟨reason, r, rfl⟩

theorem Agrees.utters (h : Agrees c d) (sent said : List (Bytes × Bool)) :
    Agrees { c with sent := c.sent ++ sent, said := c.said ++ said }
      { d with sent := d.sent ++ sent, said := d.said ++ said } := by
  obtain ⟨reason, queue, rfl⟩ := h
  exact ⟨reason, queue, rfl⟩

/-- `SendEncrypted` is the same for both, whatever one of them has read besides. -/
theorem Agrees.sendEncrypted {na : Sodium} {pkt : Option Bytes}
    (h : Agrees c d ∨ Agrees (c.decrypting na pkt) d) (msg nonce : Bytes) (sched : Answers) :
    ∃ ok bs sent said,
      c.sendEncrypted na msg nonce sched =
        (ok, bs, { c with sent := c.sent ++ sent, said := c.said ++ said }) ∧
      d.sendEncrypted na msg nonce sched =
        (ok, bs, { d with sent := d.sent ++ sent, said := d.said ++ said }) := by
  unfold Client.sendEncrypted Client.sendPacket
  rcases h with ⟨reason, queue, rfl⟩ | ⟨reason, queue, rfl⟩ <;>
    simp only [Client.decrypting, Client.reading] <;>
    cases na.secretboxEasy msg nonce c.groupKey with
    | none => exact ⟨false, [], [], [(msg, false)], by simp, by simp⟩
    | some cipher =>
      by_cases hopen : c.sessionOpen = true
      · simp only [hopen, if_true]
        exact ⟨_, _, [(nonce ++ cipher, _)], [(msg, _)], rfl, rfl⟩
      · simp only [hopen]
        exact ⟨false, [], [(nonce ++ cipher, false)], [(msg, false)], rfl, rfl⟩

/-- `RecvDecrypted` on an open session. -/
theorem recvDecrypted_open (na : Sodium) (hopen : c.sessionOpen = true) {ch ch' : Chan}
    {pkt : Option Bytes} (h : CliChat.recvPacket ch = .done pkt ch') :
    c.recvDecrypted na ch =
      some (pkt.bind (openPacket na c.groupKey), c.decrypting na pkt, ch') := by
  cases pkt <;> simp [Client.recvDecrypted, Client.recvPacket, hopen, h, Client.decrypting,
    Client.reading]

end agrees

section drained

variable {u : Utf8} {lines : List WString}

/-- What a pass takes off the queue before it throws. -/
theorem drain_threw {queue left : List Bytes} (h : drain u queue = (lines, left, true)) :
    ∃ cut, queue = cut ++ left ∧ drain u cut = (lines, [], true) := by
  induction queue generalizing lines with
  | nil => cases h
  | cons m queue ih =>
    cases hm : u.utf8to32 m with
    | none =>
      simp only [drain, hm, Prod.mk.injEq, and_true] at h
      obtain ⟨rfl, rfl⟩ := h
      exact ⟨[m], rfl, by simp [drain, hm]⟩
    | some wmsg =>
      simp only [drain, hm, Prod.mk.injEq] at h
      obtain ⟨rfl, hleft, hthrew⟩ := h
      obtain ⟨cut, rfl, hcut⟩ := ih (Prod.ext rfl (Prod.ext hleft hthrew))
      exact ⟨m :: cut, rfl, by simp [drain, hm, hcut]⟩

/-- The queue behind a string that is not UTF-8 is left. -/
theorem drain_cut {cut : List Bytes} (h : drain u cut = (lines, [], true)) (queue : List Bytes) :
    drain u (cut ++ queue) = (lines, queue, true) := by
  induction cut generalizing lines with
  | nil => cases h
  | cons m cut ih =>
    cases hm : u.utf8to32 m with
    | none =>
      simp only [drain, hm, Prod.mk.injEq, and_true] at h
      obtain ⟨rfl, rfl⟩ := h
      simp [drain, hm]
    | some wmsg =>
      simp only [drain, hm, Prod.mk.injEq] at h
      obtain ⟨rfl, hleft, hthrew⟩ := h
      simp [drain, hm, ih (Prod.ext rfl (Prod.ext hleft hthrew))]

/-- A pass that does not throw empties the queue. -/
theorem drain_all {queue left : List Bytes} (h : drain u queue = (lines, left, false)) :
    left = [] := by
  have hleft := drain_left u queue
  rw [h] at hleft
  cases hdrop : queue.dropWhile fun m => (u.utf8to32 m).isSome with
  | nil =>
    rw [hdrop] at hleft
    exact congrArg Prod.fst hleft
  | cons m rest =>
    rw [hdrop] at hleft
    cases congrArg Prod.snd hleft

end drained

/-! ### No thread has entered Stop -/

/-- INVARIANT: the flags are set, and whoever calls `Stop` stands at its test. -/
structure Unstopped (s : Process) : Prop where
  stopping : s.client.stopping = false
  running : s.client.running = true
  uiRunning : s.client.uiRunning = true
  sessionOpen : s.client.sessionOpen = true
  halts : ∀ t p, s.halts t = some p → p = .test

section moves

variable {na : Sodium} {iswprint : WChar → Bool} {u : Utf8} {s s' : Process} {p : Passes}

theorem Reach.entered_pos (h : Reach na iswprint u s) (hstage : s.client.stage = .started) :
    s.client.stopping = true → 0 < s.entered := by
  refine h.invariant (I := fun s => s.client.stopping = true → 0 < s.entered) ?_ ?_ hstage
  · intro s hs hstop
    rw [hs.stopping] at hstop
    cases hstop
  · intro a s s' hreach hstage hpos hstep hstop
    cases step_moved hstep with
    | starts hne => exact absurd hstage hne
    | calm _ _ hcalm =>
      have hflag : s'.client.stopping = s.client.stopping :=
        congrArg Control.stopping hcalm.control
      have hentered : s'.entered = s.entered := congrArg Control.entered hcalm.control
      rw [hentered]
      exact hpos (hflag ▸ hstop)
    | @halts _ t p again _ _ hp heq =>
      subst heq
      have hcontrol := halting_control s p again t
      have hentered : (s.halting p again t).entered = _ := congrArg Control.entered hcontrol
      have hflag : s.client.stopping = true ∨ p = .stopping :=
        Control.halt_stopping.mp ((congrArg Control.stopping hcontrol).symm.trans hstop)
      rw [hentered]
      refine Nat.add_pos_left ?_ _
      rcases hflag with hflag | rfl
      · exact hpos hflag
      · exact (hreach.orderly hstage).order.inside t .stopping hp
    | finishes _ _ _ _ heq =>
      subst heq
      exact hpos hstop
    | flushes _ heq =>
      subst heq
      exact hpos hstop
    | arrives heq =>
      subst heq
      exact hpos hstop
    | ended _ heq =>
      subst heq
      exact hpos hstop

theorem Reach.unstopped (h : Reach na iswprint u s) (hstage : s.client.stage = .started)
    (hclear : s.entered = 0) : Unstopped s := by
  have horder := (h.orderly hstage).order
  have hstop : s.client.stopping = false := by
    by_contra hset
    have hpos := h.entered_pos hstage (by simpa using hset)
    omega
  have hrun : s.client.running = true := by
    by_contra hset
    have hset : s.client.stopping = true := horder.stopping (by simpa [control] using hset)
    exact absurd hset (by simp [hstop])
  have hui : s.client.uiRunning = true := by
    by_contra hset
    have hset : s.client.running = false := horder.running (by simpa [control] using hset)
    exact absurd hset (by simp [hrun])
  have hclosed : s.client.sessionOpen = true := by
    by_contra hset
    have hset : s.client.uiRunning = false :=
      (horder.closed (by simpa [control] using hset)).1
    exact absurd hset (by simp [hui])
  refine ⟨hstop, hrun, hui, hclosed, fun t p hp => ?_⟩
  have hinside : s.control.Inside p := horder.inside t p hp
  cases p <;> simp_all [Control.Inside, control]

/-- The calls of `Stop` that go on are counted. -/
theorem Moved.entered_le {a : ProcessAct} (hm : Moved na s s' a) : s.entered ≤ s'.entered := by
  cases hm with
  | starts _ _ heq => exact heq ▸ le_rfl
  | calm _ _ hcalm => exact (congrArg Control.entered hcalm.control).ge
  | @halts _ t p again _ _ _ heq =>
    have hentered := congrArg Control.entered (halting_control s p again t)
    rw [heq]
    exact (Nat.le_add_right _ _).trans hentered.ge
  | finishes _ _ _ _ heq => exact heq ▸ le_rfl
  | flushes _ heq => exact heq ▸ le_rfl
  | arrives heq => exact heq ▸ le_rfl
  | ended _ heq => exact heq ▸ le_rfl

/-- A call of `Stop` that finds `m_stopping` clear goes on. -/
theorem Unstopped.halting (h : Unstopped s) {t : Tid} {pc : HaltPc} (hp : s.halts t = some pc)
    (again : Bool) : (s.halting pc again t).entered = s.entered + 1 := by
  have hentered : (s.halting pc again t).entered = _ :=
    congrArg Control.entered (halting_control s pc again t)
  rw [hentered, h.halts t pc hp]
  simp [Control.halt, control, h.stopping]

/-! ### One step -/

theorem Listening.flags (h : Listening na s p) :
    p.client.running = s.client.running ∧ p.client.uiRunning = s.client.uiRunning ∧
      p.client.sessionOpen = s.client.sessionOpen ∧ p.client.username = s.client.username ∧
      p.client.stopping = s.client.stopping := by
  cases h with
  | between _ hagree =>
    obtain ⟨reason, queue, heq⟩ := hagree
    rw [heq]
    exact ⟨rfl, rfl, rfl, rfl, rfl⟩
  | within _ _ hagree =>
    obtain ⟨reason, queue, heq⟩ := hagree
    rw [heq]
    exact ⟨rfl, rfl, rfl, rfl, rfl⟩

theorem Listening.read (h : Listening na s p)
    (hpc : s.broadcast = .loop .test ∨ s.broadcast = .loop .recv) :
    Agrees p.client s.client ∧ p.ch.Same s.ch := by
  cases h with
  | between _ hagree hsame => exact ⟨hagree, hsame⟩
  | @within pkt _ _ _ _ hholds =>
    generalize pkt.bind (openPacket na p.client.groupKey) = msgOpt at hholds
    rcases hpc with hpc | hpc <;>
      · rw [hpc] at hholds
        cases hholds

/-- The thread of `HandleBroadcast` is about to put its text in the queue. -/
theorem Listening.enqueues (h : Listening na s p) {msg : Bytes}
    (hpc : s.broadcast = .loop (.enqueue msg)) : ∃ pkt ch,
    CliChat.recvPacket p.ch = .done pkt ch ∧ ch.Same s.ch ∧
      Agrees (p.client.decrypting na pkt) s.client ∧
      pkt.bind (openPacket na p.client.groupKey) = some msg ∧ msg ≠ usernameTaken := by
  cases h with
  | between hpc' =>
    rw [hpc] at hpc'
    rcases hpc' with hpc' | hpc' <;> cases hpc'
  | @within pkt ch hrecv hsame hagree hholds =>
    generalize hopens : pkt.bind (openPacket na p.client.groupKey) = msgOpt at hholds
    rw [hpc] at hholds
    cases hholds with
    | enqueue hne => exact ⟨pkt, ch, hrecv, hsame, hagree, hopens, hne⟩

/-- Another thread has moved. -/
theorem Listening.map (h : Listening na s p) {p' : Passes} (hb : s'.broadcast = s.broadcast)
    (hch : s'.ch = s.ch) (hch' : p'.ch = p.ch) (hkey : p'.client.groupKey = p.client.groupKey)
    (hagree : Agrees p.client s.client → Agrees p'.client s'.client)
    (hagree' : ∀ pkt, Agrees (p.client.decrypting na pkt) s.client →
      Agrees (p'.client.decrypting na pkt) s'.client) : Listening na s' p' := by
  cases h with
  | between hpc hc hsame => exact .between (hb ▸ hpc) (hagree hc) (hch' ▸ hch ▸ hsame)
  | within hrecv hsame hc hholds =>
    refine .within (hch' ▸ hrecv) (hch ▸ hsame) (hagree' _ hc) ?_
    rw [hkey, hb]
    exact hholds

/-- The thread of `HandleBroadcast` stands elsewhere with its packet. -/
theorem Listening.hold (h : Listening na s p)
    (hpc : s.broadcast ≠ .loop .test ∧ s.broadcast ≠ .loop .recv)
    (hch : s'.ch = s.ch) (hagree : ∀ c, Agrees c s.client → Agrees c s'.client)
    (hholds : ∀ msgOpt, Holds msgOpt s.broadcast → Holds msgOpt s'.broadcast) :
    Listening na s' p := by
  cases h with
  | between hpc' => exact absurd hpc' (by simp [hpc])
  | within hrecv hsame hc hh =>
    exact .within hrecv (hch ▸ hsame) (hagree _ hc) (hholds _ hh)

/-- A step of another thread than that of `UIUpdateLoop`, by which the queue grows by `new`. -/
theorem Showing.other (h : Showing u s p) {p' : Passes} {new : List Bytes} (hui : s'.ui = s.ui)
    (hqueue : s'.client.msgQueue = s.client.msgQueue ++ new) (hwindow : s'.window = s.window)
    (hqueue' : p'.client.msgQueue = p.client.msgQueue ++ new) (hwindow' : p'.window = p.window) :
    Showing u s' p' := by
  cases h with
  | between hpc hq hw =>
    exact .between (hui.trans hpc) (by rw [hqueue, hq, hqueue']) (by rw [hwindow, hw, hwindow'])
  | within hpc hq hcut hw =>
    exact .within (hui.trans hpc) (by rw [hqueue', hq, hqueue, List.append_assoc]) hcut
      (by rw [hwindow, hw, hwindow'])

theorem Showing.congr (h : Showing u s p) (hui : s'.ui = s.ui)
    (hqueue : s'.client.msgQueue = s.client.msgQueue) (hwindow : s'.window = s.window) :
    Showing u s' p :=
  h.other hui (hqueue.trans (List.append_nil _).symm) hwindow (List.append_nil _).symm rfl

/-- The passes can follow to `s'`. -/
def Follows (na : Sodium) (u : Utf8) (s' : Process) (p : Passes) : Prop :=
  ∃ acts p', run (Passes.step na u) acts p = some p' ∧ Amid na u s' p'

theorem Amid.follows (h : Amid na u s' p) : Follows na u s' p := ⟨[], p, rfl, h⟩

/-- STEP: a pass of `HandleBroadcast` takes effect where the text joins the queue. -/
theorem broadcastStep_follows (h : Amid na u s p) (hun : Unstopped s)
    (hs : s.broadcastStep na = some s') (hclear : s'.entered = 0) : Follows na u s' p := by
  cases broadcastStep_some hs with
  | test hpc =>
    obtain ⟨hagree, hsame⟩ := h.listening.read (.inl hpc)
    exact Amid.follows ⟨.between (.inr (if_pos hun.running)) hagree hsame,
      h.showing.congr rfl rfl rfl, fun _ _ => h.reason _ hpc, h.written, h.peerEnded⟩
  | @recv pkt ch hpc hreads =>
    obtain ⟨hagree, hsame⟩ := h.listening.read (.inr hpc)
    obtain ⟨-, hpkt⟩ | ⟨hclosed, -⟩ := hreads
    · obtain ⟨ch₁, hpkt₁, hsame₁⟩ := recvPacket_same hpkt ⟨hsame.bytes.symm, hsame.ending.symm⟩
      have hkey : s.client.groupKey = p.client.groupKey := by
        obtain ⟨reason, queue, heq⟩ := hagree
        rw [heq]
      refine Amid.follows ⟨.within hpkt₁ ⟨hsame₁.bytes.symm, hsame₁.ending.symm⟩
        (hagree.decrypting na pkt) ?_, h.showing.congr rfl rfl rfl, fun _ _ => h.reason _ hpc,
        h.written, h.peerEnded⟩
      rw [hkey]
      exact holds_heard _
    · rw [hun.sessionOpen] at hclosed
      cases hclosed
  | lost hpc =>
    refine Amid.follows ⟨h.listening.hold (by simp [hpc]) rfl (fun _ hc => hc) ?_,
      h.showing.congr rfl rfl rfl, fun _ _ => h.reason _ hpc, h.written, h.peerEnded⟩
    rw [hpc]
    rintro msgOpt ⟨⟩
    simp only [hun.stopping]
    exact .blame
  | blame hpc =>
    refine Amid.follows ⟨h.listening.hold (by simp [hpc]) rfl ?_ ?_,
      h.showing.congr rfl rfl rfl, nofun, h.written, h.peerEnded⟩
    · rintro c ⟨reason, queue, heq⟩
      exact ⟨closedReason, queue, by rw [heq]⟩
    · rw [hpc]
      rintro msgOpt ⟨⟩
      exact .closed .test
  | taken hpc =>
    refine Amid.follows ⟨h.listening.hold (by simp [hpc]) rfl ?_ ?_,
      h.showing.congr rfl rfl rfl, nofun, h.written, h.peerEnded⟩
    · rintro c ⟨reason, queue, heq⟩
      exact ⟨takenReason s.client.username, queue, by rw [heq]⟩
    · rw [hpc]
      rintro msgOpt ⟨⟩
      exact .refused .test
  | push hpc =>
    refine Amid.follows ⟨h.listening.hold (by simp [hpc]) rfl (fun _ hc => hc) ?_,
      h.showing.congr rfl rfl rfl, fun _ _ => h.reason _ hpc, h.written, h.peerEnded⟩
    rw [hpc]
    rintro msgOpt (_ | _ | _ | _ | _ | hne)
    simp only [hun.uiRunning, if_true]
    exact .enqueue hne
  | @enqueue msg hpc =>
    obtain ⟨pkt, ch, hrecv, hsame, hagree, hopens, hne⟩ := h.listening.enqueues hpc
    obtain ⟨hrun, hui, hopen, -⟩ := h.listening.flags
    have hact : p.client.act na (fun m => (u.utf8to32 m).isSome) p.ch .handleBroadcast =
        some ({ p.client.decrypting na pkt with msgQueue := p.client.msgQueue ++ [msg] }, [],
          ch) := by
      simp [Client.act, Client.handleBroadcast, recvDecrypted_open na (hopen.trans hun.sessionOpen)
        hrecv, hopens, hrun, hun.running, Client.onMessage, hne, Client.pushMessage,
        Client.decrypting, Client.reading, hui, hun.uiRunning]
    refine ⟨_, _, Passes.run_act hact, .between (.inl rfl) (hagree.queue _ _) hsame, ?_,
      fun _ _ => h.reason _ hpc, ?_, h.peerEnded⟩
    · exact h.showing.other rfl rfl rfl rfl (List.append_nil _)
    · exact h.written.trans (List.append_nil _).symm
  | @halt pc again hpc =>
    have hentered := hun.halting (t := .broadcast) (by rw [halts, hpc]; rfl) again
    omega

/-- A step that the passes do not see. -/
theorem Amid.congr (h : Amid na u s p) (hclient : s'.client = s.client) (hch : s'.ch = s.ch)
    (hb : s'.broadcast = s.broadcast) (hui : s'.ui = s.ui) (hwindow : s'.window = s.window)
    (hwritten : s'.written = s.written) (hpeer : s'.peerEnded = s.peerEnded) :
    Amid na u s' p := by
  refine ⟨?_, h.showing.congr hui (by rw [hclient]) hwindow, ?_, hwritten.trans h.written,
    hpeer.trans h.peerEnded⟩
  · exact h.listening.map hb hch rfl rfl (fun k => hclient ▸ k) fun _ k => hclient ▸ k
  · intro b hpc
    rw [hclient]
    exact h.reason b (hb ▸ hpc)

theorem Listening.speaks (h : Listening na s p) :
    ∃ pkt, Agrees p.client s.client ∨ Agrees (p.client.decrypting na pkt) s.client := by
  cases h with
  | between _ hagree => exact ⟨none, .inl hagree⟩
  | within _ _ hagree => exact ⟨_, .inr hagree⟩

/-- STEP: a pass of `ClientLoop` takes effect where the line is sent. -/
theorem inputStep_follows (h : Amid na u s p) (hun : Unstopped s) {nonce : Bytes}
    {sched : Answers} (hs : s.inputStep na u nonce sched = some s') (hclear : s'.entered = 0) :
    Follows na u s' p := by
  cases inputStep_some hs with
  | test | prompt | tested | threw =>
    exact Amid.follows (h.congr rfl rfl rfl rfl rfl rfl rfl)
  | returned _ hnonce heq hentered =>
    cases hentered with
    | none | empty | exit => exact Amid.follows (h.congr rfl rfl rfl rfl rfl rfl rfl)
    | @line text _ _ _ hempty hexit =>
      rw [heq]
      simp only [onInput, if_neg hempty, if_neg hexit]
      obtain ⟨pkt, hagree⟩ := h.listening.speaks
      obtain ⟨hrun, -, -, hname, -⟩ := h.listening.flags
      obtain ⟨ok, bs, sent, said, hsend, hsend'⟩ := Agrees.sendEncrypted hagree
        (s.client.username ++ ascii ": " ++ text) nonce sched
      have hact : p.client.act na (fun m => (u.utf8to32 m).isSome) p.ch
          (.clientLoop (some text) nonce sched) =
            some ({ p.client with
              sent := p.client.sent ++ sent, said := p.client.said ++ said }, bs, p.ch) := by
        simp only [Client.act, Client.clientLoop, hrun, hun.running, hnonce, hempty, hexit, hname,
          hsend, and_self, if_true, if_false]
      rw [hsend']
      refine ⟨_, _, Passes.run_act hact, ?_, ?_, h.reason, congrArg (· ++ bs) h.written,
        h.peerEnded⟩
      · refine h.listening.map ?_ ?_ ?_ ?_ (·.utters sent said) (fun _ k => k.utters sent said) <;>
          rfl
      · exact h.showing.other rfl (List.append_nil _).symm rfl (List.append_nil _).symm
          (List.append_nil _)
  | @halt pc again hpc =>
    have hentered := hun.halting (t := .input) (by rw [halts, hpc]; rfl) again
    omega

theorem keyStep_amid (h : Amid na u s p) {w : Wch} (hs : s.keyStep iswprint u w = some s') :
    Amid na u s' p := by
  obtain ⟨l, -, rfl⟩ := keyStep_some hs
  exact h.congr rfl rfl rfl rfl rfl rfl rfl

theorem Listening.prints (h : Listening na s p) (hb : s'.broadcast = s.broadcast)
    (hch : s'.ch = s.ch) (hclient : Agrees s.client s'.client) : Listening na s' p :=
  h.map hb hch rfl rfl (·.trans hclient) fun _ k => k.trans hclient

theorem Showing.shown (h : Showing u s p) {b : Printing} (hpc : s.ui = .loop b) :
    s.client.msgQueue = p.client.msgQueue ∧ s.window = p.window := by
  cases h with
  | between _ hq hw => exact ⟨hq, hw⟩
  | within hpc' =>
    rw [hpc] at hpc'
    cases hpc'

theorem Showing.moves (h : Showing u s p) {b b' : Printing} (hpc : s.ui = .loop b)
    (hpc' : s'.ui = .loop b') (hqueue : s'.client.msgQueue = s.client.msgQueue)
    (hwindow : s'.window = s.window) : Showing u s' p := by
  obtain ⟨hq, hw⟩ := h.shown hpc
  exact .between hpc' (hqueue.trans hq) (hwindow.trans hw)

/-- STEP: a pass of `UIUpdateLoop` takes effect where the queue is emptied. -/
theorem uiStep_follows (h : Amid na u s p) (hun : Unstopped s) (hs : s.uiStep u = some s')
    (hclear : s'.entered = 0) : Follows na u s' p := by
  cases uiStep_some hs with
  | test hpc =>
    exact Amid.follows ⟨h.listening.prints rfl rfl ⟨_, _, rfl⟩,
      h.showing.moves hpc (if_pos hun.running) rfl rfl, h.reason, h.written, h.peerEnded⟩
  | print hpc =>
    exact Amid.follows ⟨h.listening.prints rfl rfl ⟨_, _, rfl⟩,
      h.showing.moves hpc (if_pos hun.uiRunning) rfl rfl, h.reason, h.written, h.peerEnded⟩
  | @drain lines left threw hpc hdrain =>
    obtain ⟨hqueue, hwindow⟩ := h.showing.shown hpc
    cases threw with
    | true =>
      obtain ⟨cut, hcut, hlines⟩ := drain_threw hdrain
      refine Amid.follows ⟨h.listening.prints rfl rfl ⟨_, left, rfl⟩, ?_, h.reason, h.written,
        h.peerEnded⟩
      exact .within rfl (hqueue.symm.trans hcut) hlines (congrArg (· ++ lines) hwindow)
    | false =>
      obtain rfl := drain_all hdrain
      obtain ⟨hrun, hui, -, -⟩ := h.listening.flags
      have hpass : p.client.printPass u = (lines, { p.client with msgQueue := [] }, false) := by
        simp [Client.printPass, Client.printBufferedMessages, hui, hun.uiRunning, ← hqueue, hdrain]
      have hact : p.client.act na (fun m => (u.utf8to32 m).isSome) p.ch .uiUpdateLoop =
          some ({ p.client with msgQueue := [] }, [], p.ch) := by
        rw [Client.act, if_pos (hrun.trans hun.running), ← Client.printPass_uiUpdateLoop, hpass]
      refine ⟨_, _, Passes.run_act hact, ?_, ?_, h.reason, ?_, h.peerEnded⟩
      · refine h.listening.map ?_ ?_ ?_ ?_ (·.queue [] []) (fun _ k => k.queue [] []) <;> rfl
      · refine .between rfl rfl ?_
        rw [Passes.after, Passes.lines, hpass]
        exact congrArg (· ++ lines) hwindow
      · exact h.written.trans (List.append_nil _).symm
  | @halt pc again hpc =>
    have hentered := hun.halting (t := .ui) (by rw [halts, hpc]; rfl) again
    omega

/-- STEP: more comes on the stream, or its end. -/
theorem Listening.stream (h : Listening na s p) (halive : s.ch.ending = .alive) (bs : Bytes)
    (ending : Ending) (hb : s'.broadcast = s.broadcast) (hclient : s'.client = s.client)
    (hch : s'.ch.bytes = s.ch.bytes ++ bs ∧ s'.ch.ending = ending) {p' : Passes}
    (hclient' : p'.client = p.client)
    (hch' : p'.ch.bytes = p.ch.bytes ++ bs ∧ p'.ch.ending = ending) : Listening na s' p' := by
  cases h with
  | between hpc hagree hsame =>
    refine .between (hb ▸ hpc) (by rw [hclient, hclient']; exact hagree) ⟨?_, ?_⟩
    · rw [hch.1, hch'.1, hsame.bytes]
    · rw [hch.2, hch'.2]
  | within hrecv hsame hagree hholds =>
    have hend : p.ch.ending = .alive := by
      rw [← (recvPacket_suffix hrecv).2, ← hsame.ending, halive]
    obtain ⟨ch'', hrecv'', hbytes, hending⟩ := recvPacket_more hrecv hend bs ending p'.ch.cuts
    rw [← hch'.1, ← hch'.2] at hrecv''
    refine .within hrecv'' ⟨?_, ?_⟩ ?_ ?_
    · rw [hch.1, hbytes, hsame.bytes]
    · rw [hch.2, hending]
    · rw [hclient, hclient']
      exact hagree
    · rw [hb, hclient']
      exact hholds

theorem Listening.ending (h : Listening na s p) : p.ch.ending = s.ch.ending := by
  cases h with
  | between _ _ hsame => exact hsame.ending.symm
  | within hrecv hsame => rw [← (recvPacket_suffix hrecv).2, hsame.ending]

/-- STEP: whatever a step does, short of entering `Stop`, the passes can follow. -/
theorem Amid.step (h : Amid na u s p) (hreach : Reach na iswprint u s)
    (hstage : s.client.stage = .started) {a : ProcessAct}
    (hs : s.step na iswprint u a = some s') (hclear : s'.entered = 0) : Follows na u s' p := by
  have hclear₀ : s.entered = 0 := by
    have hle := (step_moved hs).entered_le
    omega
  have hun := hreach.unstopped hstage hclear₀
  have horderly := hreach.orderly hstage
  cases a with
  | start a =>
    rw [Process.step, if_neg (not_not.mpr hstage)] at hs
    cases hs
  | broadcast => exact broadcastStep_follows h hun (Option.ite_none_right_eq_some.mp hs).2 hclear
  | input nonce sched =>
    exact inputStep_follows h hun (Option.ite_none_right_eq_some.mp hs).2 hclear
  | key w => exact (keyStep_amid h (Option.ite_none_right_eq_some.mp hs).2).follows
  | ui => exact uiStep_follows h hun (Option.ite_none_right_eq_some.mp hs).2 hclear
  | finish =>
    obtain ⟨⟨hb, -⟩, -⟩ := Option.ite_none_right_eq_some.mp hs
    have hstop := horderly.ended .broadcast (by rw [finished, hb]; rfl)
    rw [hun.stopping] at hstop
    cases hstop
  | flush w =>
    obtain ⟨hmain, -⟩ := Option.ite_none_right_eq_some.mp hs
    have hstop := horderly.ended .broadcast (horderly.joined (by simp [hmain]) .broadcast)
    rw [hun.stopping] at hstop
    cases hstop
  | arrive bs =>
    obtain ⟨halive, hs⟩ := Option.ite_none_right_eq_some.mp hs
    cases hs
    have hend := h.listening.ending.trans halive
    refine ⟨[.arrive bs], { p with ch := { p.ch with bytes := p.ch.bytes ++ bs } }, ?_, ?_, ?_,
      h.reason, h.written, h.peerEnded⟩
    · rw [run_cons, Passes.step, if_pos hend]
      rfl
    · refine h.listening.stream halive bs .alive ?_ ?_ ⟨?_, ?_⟩ ?_ ⟨?_, ?_⟩
      exacts [rfl, rfl, rfl, halive, rfl, rfl, hend]
    · exact h.showing.other rfl (List.append_nil _).symm rfl (List.append_nil _).symm rfl
  | ends ending =>
    obtain ⟨⟨hpeer, hne⟩, hs⟩ := Option.ite_none_right_eq_some.mp hs
    cases hs
    have halive : s.ch.ending = .alive := by
      by_contra hended
      rcases horderly.order.ending hended with hended | hended
      · rw [show s.peerEnded = true from hended] at hpeer
        cases hpeer
      · have hui : s.client.uiRunning = false := hended
        rw [hun.uiRunning] at hui
        cases hui
    refine ⟨[.ends ending], { p with ch := { p.ch with ending := ending }, peerEnded := true }, ?_,
      ?_, ?_, h.reason, h.written, rfl⟩
    · rw [run_cons, Passes.step, if_pos ⟨h.peerEnded.symm.trans hpeer, hne⟩]
      rfl
    · refine h.listening.stream halive [] ending ?_ ?_ ⟨?_, ?_⟩ ?_ ⟨?_, ?_⟩
      exacts [rfl, rfl, (List.append_nil _).symm, rfl, rfl, (List.append_nil _).symm, rfl]
    · exact h.showing.other rfl (List.append_nil _).symm rfl (List.append_nil _).symm rfl

/-! ### Before the threads -/

/-- The passes before the threads start. -/
def early (s : Process) : Passes := ⟨s.client, s.ch, s.written, s.window, s.peerEnded⟩

theorem act_idle {c : Client} {ch : Chan} (hrun : c.running ≠ true) (utf8 utf8' : Bytes → Bool)
    (a : ClientAct) : c.act na utf8 ch a = c.act na utf8' ch a := by
  cases a with
  | uiUpdateLoop => rw [Client.act, Client.act, if_neg hrun, if_neg hrun]
  | _ => rfl

theorem lines_idle {c : Client} {ch : Chan} (hrun : c.running ≠ true) {utf8 : Bytes → Bool}
    {a : ClientAct} {r : Client × Bytes × Chan} (h : c.act na utf8 ch a = some r) :
    Passes.lines u c a = [] := by
  cases a with
  | uiUpdateLoop =>
    rw [Client.act, if_neg hrun] at h
    cases h
  | _ => rfl

theorem Idle.follows (h : Idle na s) (hstage : s.client.stage ≠ .started) {a : ProcessAct}
    (hs : s.step na iswprint u a = some s') :
    ∃ acts, run (Passes.step na u) acts s.early = some s'.early := by
  have hthreads : ∀ {o : Option Process},
      (if s.client.stage = .started then o else none) ≠ some s' := by
    intro o
    rw [if_neg hstage]
    nofun
  cases a with
  | start a =>
    simp only [Process.step, Option.ite_none_right_eq_some, Option.map_eq_some_iff] at hs
    obtain ⟨-, ⟨c, bs, ch⟩, hact, rfl⟩ := hs
    have hrun : s.client.running ≠ true := fun hrun => hstage (h.sane.flags.running hrun).1
    have hlines : Passes.lines u s.early.client a = [] := lines_idle hrun hact
    rw [act_idle hrun _ fun m => (u.utf8to32 m).isSome] at hact
    refine ⟨[.act a], (Passes.run_act hact).trans ?_⟩
    rw [Passes.after, hlines, List.append_nil]
    rfl
  | broadcast => exact absurd hs hthreads
  | input nonce sched => exact absurd hs hthreads
  | key w => exact absurd hs hthreads
  | ui => exact absurd hs hthreads
  | finish =>
    obtain ⟨⟨hb, -⟩, -⟩ := Option.ite_none_right_eq_some.mp hs
    rw [h.pcs.1] at hb
    cases hb
  | flush w =>
    obtain ⟨hmain, -⟩ := Option.ite_none_right_eq_some.mp hs
    rw [h.log.1] at hmain
    cases hmain
  | arrive bs =>
    obtain ⟨halive, hs⟩ := Option.ite_none_right_eq_some.mp hs
    cases hs
    refine ⟨[.arrive bs], ?_⟩
    rw [run_cons, Passes.step, if_pos (show s.early.ch.ending = .alive from halive)]
    rfl
  | ends ending =>
    obtain ⟨hpeer, hs⟩ := Option.ite_none_right_eq_some.mp hs
    cases hs
    refine ⟨[.ends ending], ?_⟩
    rw [run_cons, Passes.step, if_pos (show s.early.peerEnded = false ∧ ending ≠ .alive from hpeer)]
    rfl

theorem Fresh.amid (h : Fresh na s) : Amid na u s s.early :=
  ⟨.between (.inl h.pcs.1) ⟨_, _, rfl⟩ ⟨rfl, rfl⟩, .between h.pcs.2.2 rfl rfl, fun _ _ => rfl, rfl,
    rfl⟩

/-! ### The first call of Stop -/

theorem Listening.stops (h : Listening na s p) (hp : s.halts .broadcast = some .test) :
    ∃ pkt ch, CliChat.recvPacket p.ch = .done pkt ch ∧
      (pkt.bind (openPacket na p.client.groupKey) = none ∨
        pkt.bind (openPacket na p.client.groupKey) = some usernameTaken) := by
  cases h with
  | between hpc =>
    rw [halts] at hp
    rcases hpc with hpc | hpc <;>
      · rw [hpc] at hp
        cases hp
  | @within pkt ch hrecv _ _ hholds =>
    refine ⟨pkt, ch, hrecv, ?_⟩
    generalize pkt.bind (openPacket na p.client.groupKey) = msgOpt at hholds
    rw [halts] at hp
    generalize s.broadcast = pc at hp hholds
    cases hholds with
    | closed => exact .inl rfl
    | refused => exact .inr rfl
    | _ => cases hp

theorem Showing.stops (h : Showing u s p) (hp : s.halts .ui = some .test) :
    ∃ cut lines, p.client.msgQueue = cut ++ s.client.msgQueue ∧
      drain u cut = (lines, [], true) := by
  cases h with
  | between hpc =>
    rw [halts, hpc] at hp
    cases hp
  | within _ hq hcut => exact ⟨_, _, hq, hcut⟩

/-- Where a thread enters `Stop`, the pass that it is in can do so. -/
theorem Amid.stops (h : Amid na u s p) (hun : Unstopped s) {a : ProcessAct}
    (hm : Moved na s s' a) (hstage : s.client.stage = .started)
    (hentered : s'.entered ≠ s.entered) :
    ∃ b p', Passes.step na u b p = some p' ∧ p'.client.running = false ∧
      p'.written = s'.written := by
  cases hm with
  | starts hne => exact absurd hstage hne
  | calm _ _ hcalm => exact absurd (congrArg Control.entered hcalm.control) hentered
  | @halts _ t pc again _ _ hp heq =>
    subst heq
    obtain rfl := hun.halts t pc hp
    obtain ⟨hrun, hui, hopen, -, hstop⟩ := h.listening.flags
    have hwritten : p.written = (s.halting .test again t).written :=
      h.written.symm.trans (halting_data s .test again t).written.symm
    cases t with
    | broadcast =>
      obtain ⟨pkt, ch, hrecv, hmsg⟩ := h.listening.stops hp
      have hact : p.client.act na (fun m => (u.utf8to32 m).isSome) p.ch .handleBroadcast =
          some ((p.client.decrypting na pkt).onMessage
            (pkt.bind (openPacket na p.client.groupKey)), [], ch) := by
        rw [Client.act, if_pos (hrun.trans hun.running), Client.handleBroadcast,
          recvDecrypted_open na (hopen.trans hun.sessionOpen) hrecv]
        rfl
      refine ⟨.act _, _, Passes.step_act hact, ?_, (List.append_nil _).trans hwritten⟩
      obtain ⟨-, hstops⟩ | ⟨msg, hopens, hne, -⟩ := Client.onMessage_cases
        (c := p.client.decrypting na pkt) (hstop.trans hun.stopping) (hui.trans hun.uiRunning)
        (pkt.bind (openPacket na p.client.groupKey))
      · exact hstops
      · rw [hopens] at hmsg
        rcases hmsg with hmsg | hmsg
        · cases hmsg
        · exact absurd (Option.some.inj hmsg) hne
    | input =>
      have hact : p.client.act na (fun m => (u.utf8to32 m).isSome) p.ch
          (.clientLoop none (List.replicate secretboxNonceBytes 0) []) =
            some (p.client.stop, [], p.ch) :=
        if_pos ⟨hrun.trans hun.running, List.length_replicate⟩
      refine ⟨.act _, _, Passes.step_act hact, ?_, (List.append_nil _).trans hwritten⟩
      simp [Passes.after, Client.stop, hstop, hun.stopping]
    | ui =>
      obtain ⟨cut, lines, hq, hcut⟩ := h.showing.stops hp
      have hact : p.client.act na (fun m => (u.utf8to32 m).isSome) p.ch .uiUpdateLoop =
          some ({ p.client with msgQueue := s.client.msgQueue }.stop, [], p.ch) := by
        rw [Client.act, if_pos (hrun.trans hun.running), ← Client.printPass_uiUpdateLoop]
        simp [Client.printPass, Client.printBufferedMessages, hui, hun.uiRunning, hq,
          drain_cut hcut]
      refine ⟨.act _, _, Passes.step_act hact, ?_, (List.append_nil _).trans hwritten⟩
      simp [Passes.after, Client.stop, hstop, hun.stopping]
  | finishes _ _ _ _ heq => exact absurd (congrArg Process.entered heq) hentered
  | flushes _ heq => exact absurd (congrArg Process.entered heq) hentered
  | arrives heq => exact absurd (congrArg Process.entered heq) hentered
  | ended _ heq => exact absurd (congrArg Process.entered heq) hentered

/-! ### Results -/

/-- Between two passes of the threads that receive and print, the client is the one of the
    passes. -/
theorem Amid.eq (h : Amid na u s p)
    (hb : s.broadcast = .loop .test ∨ s.broadcast = .loop .recv) {b : Printing}
    (hui : s.ui = .loop b) : s.client = p.client ∧ s.window = p.window := by
  obtain ⟨⟨reason, queue, hclient⟩, -⟩ := h.listening.read hb
  obtain ⟨hqueue, hwindow⟩ := h.showing.shown hui
  have hreason : s.client.exitReason = p.client.exitReason := by
    rcases hb with hb | hb
    · exact h.reason _ hb
    · exact h.reason _ hb
  refine ⟨?_, hwindow⟩
  rw [hclient] at hqueue hreason ⊢
  dsimp only at hqueue hreason
  rw [hqueue, hreason]

/-- ATOMIC: as long as no thread has entered `Stop`, whatever the threads have done, in any order of
    their steps, is what whole passes of the loops do one after the other: the same bytes are
    written, and between two passes the client and its window are the same. And where a thread
    enters `Stop`, a pass can stop the client. -/
theorem passes_atomic (h : Reach na iswprint u s) (hstage : s.client.stage = .started)
    (hclear : s.entered = 0) :
    ∃ p, Reachable (Passes.step na u) Passes.Initial p ∧ Amid na u s p ∧
      (∀ b, s.broadcast = .loop .test ∨ s.broadcast = .loop .recv → s.ui = .loop b →
        s.client = p.client ∧ s.window = p.window) ∧
      ∀ a s', s.step na iswprint u a = some s' → s'.entered ≠ 0 →
        ∃ b p', Passes.step na u b p = some p' ∧ p'.client.running = false ∧
          p'.written = s'.written := by
  have hpasses : ∃ p, Reachable (Passes.step na u) Passes.Initial p ∧
      Reach na iswprint u s ∧ (s.client.stage ≠ .started → p = s.early) ∧
        (s.client.stage = .started → s.entered = 0 → Amid na u s p) := by
    refine Reachable.simulation (R := fun s p => Reach na iswprint u s ∧
      (s.client.stage ≠ .started → p = s.early) ∧
      (s.client.stage = .started → s.entered = 0 → Amid na u s p)) ?_ ?_ h
    · rintro s ⟨cuts, rfl⟩
      exact ⟨_, ⟨cuts, rfl⟩, .start ⟨cuts, rfl⟩, fun _ => rfl, nofun⟩
    · rintro a s s' p ⟨hreach, hearly, hamid⟩ hs
      have hreach' := hreach.next hs
      by_cases hstart : s.client.stage = .started
      · have hstart' := (step_moved hs).stage hstart
        by_cases hclear : s'.entered = 0
        · have hle := (step_moved hs).entered_le
          obtain ⟨acts, p', hacts, hp'⟩ := (hamid hstart (by omega)).step hreach hstart hs hclear
          exact ⟨acts, p', hacts, hreach', fun hne => absurd hstart' hne, fun _ _ => hp'⟩
        · exact ⟨[], p, rfl, hreach', fun hne => absurd hstart' hne,
            fun _ hzero => absurd hzero hclear⟩
      · have hidle := hreach.idle hstart
        obtain ⟨acts, hacts⟩ := hidle.follows (u := u) hstart hs
        refine ⟨acts, s'.early, (hearly hstart) ▸ hacts, hreach', fun _ => rfl, fun hstart' _ => ?_⟩
        exact ((hidle.step hstart (step_moved hs)).2 hstart').amid
  obtain ⟨p, hp, -, -, hamid⟩ := hpasses
  have hp' := hamid hstage hclear
  refine ⟨p, hp, hp', fun b hb hui => hp'.eq hb hui, fun a s' hs hne => ?_⟩
  exact hp'.stops (h.unstopped hstage hclear) (step_moved hs) hstage (by rwa [hclear])

end moves

/-- A line is sent while a text has been read and not yet queued. -/
theorem passes_atomic_hi : ∃ s p,
    sampleRun ((hears (ascii "bo: ho")).take 3 ++ types (ascii "hi")) = some s ∧
    s.broadcast = .loop (.push (ascii "bo: ho")) ∧
    Reachable (Passes.step .plain .core) Passes.Initial p ∧ p.written = s.written := by
  have hrun : ((sampleRun ((hears (ascii "bo: ho")).take 3 ++ types (ascii "hi"))).any fun s =>
      decide (s.client.stage = .started ∧ s.entered = 0 ∧
        s.broadcast = .loop (.push (ascii "bo: ho")))) = true := by decide +kernel
  obtain ⟨s, hs, heq⟩ := (Option.any_eq_true _ _).mp hrun
  obtain ⟨hstage, hclear, hpc⟩ := of_decide_eq_true heq
  obtain ⟨p, hp, hamid, -⟩ := passes_atomic (sampleRun_reach hs) hstage hclear
  exact ⟨s, p, hs, hpc, hp, hamid.written.symm⟩

end Process

end CliChat
