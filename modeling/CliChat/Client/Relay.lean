import CliChat.Client.Shutdown

/-! @src client/src/client.cpp, client/src/ncursesUI.cpp | name:ClientLoop, HandleBroadcast,
    PushMessage, PrintBufferedMessages | scheme:invariant

    What a running client hands on, in any order of its threads and whatever the server sends once
    `Start` has read its keys. The strings that `PromptInput` returned are sealed and sent in their
    order, each once; the texts that were received are shown in their order, each once, the last one
    excepted.

        PromptInput ─▶ returned ─▶ pending ─▶ said ─▶ sealed ─▶ sent ─▶ written
        RecvDecrypted ─▶ texts ─▶ in hand ─▶ m_msgQueue ─▶ popped ─▶ m_msgWin      -/

namespace CliChat

open Transition

namespace Process

/-! ### From the prompt to the stream -/

/-- The string that `PromptInput` has returned, and `ClientLoop` has not looked at. -/
def pending (s : Process) : List Bytes :=
  match s.input with
  | .loop (.inPrompt (.returned (some text) _)) => [text]
  | _ => []

/-- `ClientLoop` sends the string. -/
def IsText (text : Bytes) : Prop := text ≠ [] ∧ text ≠ ascii "/exit"

instance : DecidablePred IsText := fun text =>
  inferInstanceAs (Decidable (text ≠ [] ∧ text ≠ ascii "/exit"))

/-- The line that `ClientLoop` makes of a string. -/
def line (username text : Bytes) : Bytes := username ++ ascii ": " ++ text

section typing

variable {na : Sodium} {iswprint : WChar → Bool} {u : Utf8} {s s' : Process}

/-- What the input thread has returned and sent is the same. -/
structure SameTyping (s s' : Process) : Prop where
  clientPk : s'.client.clientPk = s.client.clientPk
  groupKey : s'.client.groupKey = s.client.groupKey
  username : s'.client.username = s.client.username
  sent : s'.client.sent = s.client.sent
  said : s'.client.said = s.client.said
  written : s'.written = s.written
  returned : s'.returned = s.returned
  pending : s'.pending = s.pending

theorem pending_congr (h : s'.input = s.input) : s'.pending = s.pending := by
  rw [pending, pending, h]

/-- What `Stop` does not touch. -/
structure SameData (s s' : Process) : Prop where
  history : Client.SameHistory s.client s'.client
  exitReason : s'.client.exitReason = s.client.exitReason
  msgQueue : s'.client.msgQueue = s.client.msgQueue
  window : s'.window = s.window
  written : s'.written = s.written
  returned : s'.returned = s.returned
  popped : s'.popped = s.popped
  quit : s'.quit = s.quit
  threw : s'.threw = s.threw

theorem haltStep_data (s : Process) (p : HaltPc) : SameData s (s.haltStep p).1 := by
  cases p <;> cases hstopping : s.client.stopping <;> cases hsocket : s.socket <;>
    simp only [haltStep, hstopping, hsocket, if_true, if_false, Bool.false_eq_true] <;>
    exact ⟨⟨rfl, rfl, rfl, rfl, rfl, rfl, rfl, rfl, rfl, rfl⟩, rfl, rfl, rfl, rfl, rfl, rfl, rfl,
      rfl⟩

theorem halting_data (s : Process) (p : HaltPc) (again : Bool) (t : Tid) :
    SameData s (s.halting p again t) := by
  obtain ⟨h₁, h₂, h₃, h₄, h₅, h₆, h₇, h₈, h₉⟩ := haltStep_data s p
  cases t <;> exact ⟨h₁, h₂, h₃, h₄, h₅, h₆, h₇, h₈, h₉⟩

theorem SameData.typing (h : SameData s s') (hpending : s'.pending = s.pending) :
    SameTyping s s' :=
  ⟨h.history.clientPk, h.history.groupKey, h.history.username, h.history.sent, h.history.said,
    h.written, h.returned, hpending⟩

theorem broadcastStep_typing (h : s.broadcastStep na = some s') : SameTyping s s' := by
  cases broadcastStep_some h with
  | test | recv | lost | blame | taken | push | enqueue =>
    exact ⟨rfl, rfl, rfl, rfl, rfl, rfl, rfl, rfl⟩
  | halt =>
    exact (halting_data s _ _ _).typing (pending_congr (haltStep_pcs s _).2.1)

theorem uiStep_typing (h : s.uiStep u = some s') : SameTyping s s' := by
  cases uiStep_some h with
  | test | print | drain => exact ⟨rfl, rfl, rfl, rfl, rfl, rfl, rfl, rfl⟩
  | halt =>
    exact (halting_data s _ _ _).typing (pending_congr (haltStep_pcs s _).2.1)

/-- The input thread: its prompt goes on, or what it returned is looked at, or neither. -/
theorem inputStep_typing {nonce : Bytes} {sched : Answers}
    (h : s.inputStep na u nonce sched = some s') : SameTyping s s' ∨
      (∃ p, s.pending = [] ∧ s' = s.promptAt p) ∨
      ∃ inputOpt enter, s.input = .loop (.inPrompt (.returned inputOpt enter)) ∧
        Entered na s inputOpt s' := by
  cases inputStep_some h with
  | test hpc =>
    refine .inl ⟨rfl, rfl, rfl, rfl, rfl, rfl, rfl, ?_⟩
    cases hrun : s.client.running <;> simp [pending, hpc]
  | prompt hpc =>
    exact .inr (.inl ⟨_, by rw [pending, hpc], rfl⟩)
  | tested hpc =>
    exact .inr (.inl ⟨_, by rw [pending, hpc], rfl⟩)
  | returned hpc _ _ hentered => exact .inr (.inr ⟨_, _, hpc, hentered⟩)
  | threw hpc =>
    exact .inl ⟨rfl, rfl, rfl, rfl, rfl, rfl, rfl, by rw [pending, pending, hpc]⟩
  | @halt p again hpc =>
    refine .inl ((halting_data s p again .input).typing ?_)
    rw [pending, pending, hpc, halting, resume]
    dsimp only
    cases (s.haltStep p).2 with
    | none => cases again <;> rfl
    | some q => rfl

/-- COMPLETE: what a step does to the strings of the user. -/
theorem step_typing (hstage : s.client.stage = .started) {a : ProcessAct}
    (h : s.step na iswprint u a = some s') : SameTyping s s' ∨
      (∃ p, s.pending = [] ∧ s' = s.promptAt p) ∨
      ∃ inputOpt enter, s.input = .loop (.inPrompt (.returned inputOpt enter)) ∧
        Entered na s inputOpt s' := by
  cases a with
  | start a => exact absurd hstage (Option.ite_none_right_eq_some.mp h).1
  | broadcast => exact .inl (broadcastStep_typing (Option.ite_none_right_eq_some.mp h).2)
  | input nonce sched => exact inputStep_typing (Option.ite_none_right_eq_some.mp h).2
  | key w =>
    obtain ⟨-, h⟩ := Option.ite_none_right_eq_some.mp h
    obtain ⟨l, hpc, rfl⟩ := keyStep_some h
    exact .inr (.inl ⟨_, by rw [pending, hpc], rfl⟩)
  | ui => exact .inl (uiStep_typing (Option.ite_none_right_eq_some.mp h).2)
  | finish | flush | arrive | ends =>
    obtain ⟨-, h⟩ := Option.ite_none_right_eq_some.mp h
    cases h
    exact .inl ⟨rfl, rfl, rfl, rfl, rfl, rfl, rfl, rfl⟩

/-- INVARIANT: what was sent is the key, then the name and the user's lines, sealed. -/
structure Relayed (na : Sodium) (s : Process) : Prop where
  key : s.client.clientPk.length = boxPublicKeyBytes ∧
    ∃ ok rest, s.client.sent = (s.client.clientPk, ok) :: rest
  name : s.client.username ≠ [] ∧ s.client.username.length ≤ maxUsernameLen
  sealed : Seals na s.client.groupKey → List.Forall₂
    (fun x y => SealedBox na s.client.groupKey x.1 (some y.1) ∧ x.2 = y.2) s.client.said
    s.client.sent.tail
  said : ∃ texts, s.returned = texts ++ s.pending ∧ s.client.said.map Prod.fst =
    s.client.username :: (texts.filter fun text => IsText text).map (line s.client.username)
  written : Written s.client.sent s.written

theorem Fresh.relayed (h : Fresh na s) : Relayed na s := by
  have hstage := (h.sane.flags.running h.running).1
  have hpending : s.pending = [] := by rw [pending, h.pcs.2.1]
  refine ⟨h.sane.voice.opening (by rw [hstage]; simp), ⟨h.username, h.sane.voice.sized hstage⟩,
    h.sane.voice.sealed, ⟨[], ?_, ?_⟩, h.written⟩
  · rw [hpending, h.log.2.2.1]
    rfl
  · rw [h.said]
    rfl

theorem Relayed.congr (h : Relayed na s) (hs : SameTyping s s') : Relayed na s' := by
  obtain ⟨hkey, hname, hsealed, hsaid, hwritten⟩ := h
  rw [← hs.clientPk, ← hs.sent] at hkey
  rw [← hs.username] at hname
  rw [← hs.groupKey, ← hs.said, ← hs.sent] at hsealed
  rw [← hs.returned, ← hs.pending, ← hs.said, ← hs.username] at hsaid
  rw [← hs.sent, ← hs.written] at hwritten
  exact ⟨hkey, hname, hsealed, hsaid, hwritten⟩

/-- `PromptInput` goes on. -/
theorem Relayed.prompt (h : Relayed na s) (hpending : s.pending = []) (p : Prompt) :
    Relayed na (s.promptAt p) := by
  obtain ⟨hkey, hname, hsealed, ⟨texts, hreturned, hsaid⟩, hwritten⟩ := h
  rw [hpending, List.append_nil] at hreturned
  refine ⟨hkey, hname, hsealed, ⟨texts, ?_, hsaid⟩, hwritten⟩
  have hresult : (s.promptAt p).pending = (p.result.bind Prod.fst).toList := by
    cases p with
    | testing l => rfl
    | reading l => rfl
    | returned inputOpt enter => cases inputOpt <;> rfl
    | threw => rfl
  rw [hresult, ← hreturned]
  rfl

/-- What `PromptInput` returned is looked at. -/
theorem Relayed.entered (h : Relayed na s) {inputOpt : Option Bytes} {enter : Bool}
    (hpc : s.input = .loop (.inPrompt (.returned inputOpt enter))) (he : Entered na s inputOpt s') :
    Relayed na s' := by
  obtain ⟨hkey, hname, hsealed, ⟨texts, hreturned, hsaid⟩, hwritten⟩ := h
  cases he with
  | none =>
    rw [pending, hpc] at hreturned
    exact ⟨hkey, hname, hsealed, ⟨texts, hreturned, hsaid⟩, hwritten⟩
  | empty =>
    rw [pending, hpc] at hreturned
    refine ⟨hkey, hname, hsealed, ⟨texts ++ [[]], by simpa [pending] using hreturned, ?_⟩, hwritten⟩
    simpa [IsText] using hsaid
  | exit =>
    rw [pending, hpc] at hreturned
    refine ⟨hkey, hname, hsealed,
      ⟨texts ++ [ascii "/exit"], by simpa [pending] using hreturned, ?_⟩, hwritten⟩
    simpa [IsText] using hsaid
  | @line text bs ok c hne hexit hutter =>
    rw [pending, hpc] at hreturned
    obtain ⟨hsize, ok₀, rest, hsent⟩ := hkey
    have htexts : ((texts ++ [text]).filter fun text => IsText text).map
        (line s.client.username) =
          (texts.filter fun text => IsText text).map (line s.client.username) ++
            [line s.client.username text] := by
      simp [List.filter_append, IsText, hne, hexit]
    cases hutter with
    | @dropped nonce hseal =>
      refine ⟨⟨hsize, ok₀, rest, hsent⟩, hname, fun hseals => ?_,
        ⟨texts ++ [text], by simpa [pending] using hreturned, ?_⟩, by simpa using hwritten⟩
      · have hsome := hseals (s.client.username ++ ascii ": " ++ text) nonce
        rw [show na.secretboxEasy _ _ _ = none from hseal] at hsome
        cases hsome
      · rw [htexts, List.map_append, hsaid]
        rfl
    | @packet p _ _ hbox hbs =>
      refine ⟨⟨hsize, ok₀, rest ++ [(p, ok)], by rw [hsent]; rfl⟩, hname, fun hseals => ?_,
        ⟨texts ++ [text], by simpa [pending] using hreturned, ?_⟩, hwritten.append (.single hbs)⟩
      · have hbefore := hsealed hseals
        rw [hsent] at hbefore ⊢
        exact List.rel_append hbefore (.cons ⟨hbox, rfl⟩ .nil)
      · rw [htexts, List.map_append, hsaid]
        rfl

theorem Reach.relayed (h : Reach na iswprint u s) (hstage : s.client.stage = .started) :
    Relayed na s := by
  refine h.invariant (fun _ hs => hs.relayed) (fun a s s' _ hstage hs hstep => ?_) hstage
  rcases step_typing hstage hstep with hsame | ⟨p, hpending, rfl⟩ | ⟨inputOpt, enter, hpc, he⟩
  · exact hs.congr hsame
  · exact hs.prompt hpending p
  · exact hs.entered hpc he

/-- CONFORMS: whatever the server sends after two packets on which `readKeys` goes on, and in every
    order of the threads, the client has sent its key, and then, sealed and in their order, its name
    and each string that `PromptInput` returned and that is neither empty nor "/exit", behind the
    name; nothing else. -/
theorem lines_sent (h : Reach na iswprint u s) (hstage : s.client.stage = .started)
    (hseals : Seals na s.client.groupKey) :
    ∃ texts key sealed, s.returned = texts ++ s.pending ∧ s.client.sent = key :: sealed ∧
      key.1 = s.client.clientPk ∧ s.client.clientPk.length = boxPublicKeyBytes ∧
      s.client.username ≠ [] ∧ s.client.username.length ≤ maxUsernameLen ∧
      List.Forall₂ (fun msg pkt => SealedBox na s.client.groupKey msg (some pkt))
        (s.client.username :: (texts.filter fun text => IsText text).map (line s.client.username))
        (sealed.map Prod.fst) ∧
      Written s.client.sent s.written := by
  obtain ⟨⟨hsize, ok, rest, hsent⟩, ⟨hname, hle⟩, hsealed, ⟨texts, hreturned, hsaid⟩, hwritten⟩ :=
    h.relayed hstage
  refine ⟨texts, (s.client.clientPk, ok), rest, hreturned, hsent, rfl, hsize, hname, hle, ?_,
    hwritten⟩
  rw [← hsaid]
  have hrest := hsealed hseals
  rw [hsent] at hrest
  rw [List.forall₂_map_left_iff, List.forall₂_map_right_iff]
  exact hrest.imp fun _ _ hxy => hxy.1

end typing

/-- The user enters a line, and then "/exit". -/
theorem lines_sent_hi : ∃ s sealed,
    sampleRun (types (ascii "hi") ++ types (ascii "/exit")) = some s ∧
    List.Forall₂ (fun msg pkt => SealedBox .plain s.client.groupKey msg (some pkt))
      [ascii "al", ascii "al: hi"] sealed ∧ s.client.sent.tail.map Prod.fst = sealed := by
  have hrun : ((sampleRun (types (ascii "hi") ++ types (ascii "/exit"))).any fun s =>
      decide (s.client.stage = .started ∧ s.client.username = ascii "al" ∧
        s.returned = [ascii "hi", ascii "/exit"] ∧ s.pending = [])) = true := by decide +kernel
  obtain ⟨s, hs, heq⟩ := (Option.any_eq_true _ _).mp hrun
  obtain ⟨hstage, hname, hreturned, hpending⟩ := of_decide_eq_true heq
  obtain ⟨texts, key, sealed, htexts, hsent, -, -, -, -, hsealed, -⟩ :=
    lines_sent (sampleRun_reach hs) hstage (fun _ _ => rfl)
  rw [hpending, List.append_nil, hreturned] at htexts
  refine ⟨s, sealed.map Prod.fst, hs, ?_, by rw [hsent]; rfl⟩
  rw [← htexts, hname] at hsealed
  exact hsealed

/-! ### From the stream to the window -/

/-- The texts that `RecvDecrypted` returned. -/
def texts (s : Process) : List Bytes := s.client.inbox.filterMap Prod.snd

/-- The text that `HandleBroadcast` is about to push. -/
def inHand (s : Process) : List Bytes :=
  match s.broadcast with
  | .loop (.push msg) => [msg]
  | .loop (.enqueue msg) => [msg]
  | _ => []

/-- The line that `PrintBufferedMessages` writes for a text. -/
def Prints (u : Utf8) (line : WString) (msg : Bytes) : Prop :=
  ∃ wmsg, u.utf8to32 msg = some wmsg ∧ line = WString.cStr (wmsg ++ [newline])

/-- `HandleBroadcast` does not receive again. -/
def Leaving (s : Process) : Prop :=
  s.broadcast = .loop .taken ∨ s.broadcast = .loop .test ∧ s.client.running = false ∨
    ∀ b, s.broadcast ≠ .loop b

section showing

variable {na : Sodium} {iswprint : WChar → Bool} {u : Utf8} {s s' : Process}

/-- The loop of `PrintBufferedMessages` writes the texts in their order, up to one that is not
    UTF-8, which it takes off the queue. -/
theorem drain_prints (queue : List Bytes) : ∃ shown bad,
    queue = shown ++ bad ++ (drain u queue).2.1 ∧ List.Forall₂ (Prints u) (drain u queue).1 shown ∧
      ((drain u queue).2.2 = false ∧ bad = [] ∨
        (drain u queue).2.2 = true ∧ ∃ m, bad = [m] ∧ u.utf8to32 m = none) := by
  induction queue with
  | nil => exact ⟨[], [], rfl, .nil, .inl ⟨rfl, rfl⟩⟩
  | cons m queue ih =>
    cases hm : u.utf8to32 m with
    | none =>
      exact ⟨[], [m], by simp [drain, hm], by simp [drain, hm],
        .inr ⟨by simp [drain, hm], m, rfl, hm⟩⟩
    | some wmsg =>
      obtain ⟨shown, bad, hqueue, hprints, hends⟩ := ih
      refine ⟨m :: shown, bad, ?_, ?_, ?_⟩
      · simpa [drain, hm] using hqueue
      · simpa [drain, hm] using ⟨⟨wmsg, hm, rfl⟩, hprints⟩
      · simpa [drain, hm] using hends

/-- What was taken off the front of a queue. -/
theorem taken_off {queue front left : List Bytes} (h : queue = front ++ left) :
    queue.take (queue.length - left.length) = front := by
  rw [h, List.length_append, Nat.add_sub_cancel, List.take_left]

/-- INVARIANT: the texts that were received are those shown, one that is not UTF-8, those in the
    queue and in hand, and one that was not pushed. -/
structure Displayed (u : Utf8) (s : Process) (shown bad rest : List Bytes) : Prop where
  texts : s.texts = shown ++ bad ++ s.client.msgQueue ++ s.inHand ++ rest
  popped : s.popped = shown ++ bad
  window : List.Forall₂ (Prints u) s.window shown
  bad : bad = [] ∨ (∃ m, bad = [m] ∧ u.utf8to32 m = none) ∧ ∀ b, s.ui ≠ .loop b
  rest : rest = [] ∨ (rest = [usernameTaken] ∨ s.client.uiRunning = false ∧ ∃ m, rest = [m]) ∧
    Leaving s

variable {shown bad rest : List Bytes}

theorem Leaving.congr (h : Leaving s) (hb : s'.broadcast = s.broadcast)
    (hrun : s.client.running = false → s'.client.running = false) : Leaving s' := by
  unfold Leaving
  rw [hb]
  exact h.imp_right (.imp_left (.imp_right hrun))

/-- A step of another thread than that of `HandleBroadcast`, which prints nothing. -/
theorem Displayed.congr (h : Displayed u s shown bad rest)
    (hinbox : s'.client.inbox = s.client.inbox)
    (hqueue : s'.client.msgQueue = s.client.msgQueue) (hpopped : s'.popped = s.popped)
    (hwindow : s'.window = s.window) (hb : s'.broadcast = s.broadcast)
    (hui : (∀ b, s.ui ≠ .loop b) → ∀ b, s'.ui ≠ .loop b)
    (hrun : s.client.running = false → s'.client.running = false)
    (huiRun : s.client.uiRunning = false → s'.client.uiRunning = false) :
    Displayed u s' shown bad rest := by
  refine ⟨?_, hpopped.trans h.popped, hwindow ▸ h.window, h.bad.imp_right (.imp_right hui),
    h.rest.imp_right fun hrest => ⟨hrest.1.imp_right (.imp_left huiRun), hrest.2.congr hb hrun⟩⟩
  have hhand : s'.inHand = s.inHand := by rw [inHand, inHand, hb]
  rw [Process.texts, hinbox, hqueue, hhand]
  exact h.texts

/-- A step in `HandleBroadcast` that reads nothing and pushes nothing. -/
theorem Displayed.hearing (h : Displayed u s shown bad rest)
    (hinbox : s'.client.inbox = s.client.inbox)
    (hqueue : s'.client.msgQueue = s.client.msgQueue) (hpopped : s'.popped = s.popped)
    (hwindow : s'.window = s.window) (hui : s'.ui = s.ui)
    (huiRun : s.client.uiRunning = false → s'.client.uiRunning = false)
    (hhand : s'.inHand = s.inHand) (hleaves : Leaving s → Leaving s') :
    Displayed u s' shown bad rest := by
  refine ⟨?_, hpopped.trans h.popped, hwindow ▸ h.window, by rw [hui]; exact h.bad,
    h.rest.imp_right fun hrest => ⟨hrest.1.imp_right (.imp_left huiRun), hleaves hrest.2⟩⟩
  rw [Process.texts, hinbox, hqueue, hhand]
  exact h.texts

theorem resume_ne_loop {β : Type} {b : β} {again : Bool} {p? : Option HaltPc} :
    Pc.resume again p? ≠ .loop b := by
  cases p? <;> cases again <;> nofun

theorem not_leaving {b : Hearing} (hpc : s.broadcast = .loop b) (htest : b ≠ .test)
    (htaken : b ≠ .taken) : ¬ Leaving s := by
  rintro (h | ⟨h, -⟩ | h)
  · rw [hpc] at h
    exact htaken (Pc.loop.inj h)
  · rw [hpc] at h
    exact htest (Pc.loop.inj h)
  · exact h b hpc

theorem Displayed.rest_nil (h : Displayed u s shown bad rest) (hno : ¬ Leaving s) : rest = [] :=
  h.rest.resolve_right fun hrest => hno hrest.2

/-- A packet adds the text to which it opens. -/
theorem texts_decrypting (s : Process) (pkt : Option Bytes) :
    (s.client.decrypting na pkt).inbox.filterMap Prod.snd =
      s.texts ++ (pkt.bind (openPacket na s.client.groupKey)).toList := by
  rw [Client.decrypting, List.filterMap_append]
  cases pkt with
  | none => rfl
  | some enc => cases hopt : openPacket na s.client.groupKey enc <;> simp [hopt, Process.texts]

/-- `RecvDecrypted` returns: its text is in hand, or is the control text. -/
theorem Displayed.recv (hd : Displayed u s shown bad rest) (hpc : s.broadcast = .loop .recv)
    (pkt : Option Bytes) (ch : Chan) : ∃ rest', Displayed u { s with
      client := s.client.decrypting na pkt
      ch := ch
      broadcast := .loop (heard (pkt.bind (openPacket na s.client.groupKey))) } shown bad rest' := by
  have htexts := hd.texts
  rw [hd.rest_nil (not_leaving hpc (by simp) (by simp)), inHand, hpc, List.append_nil,
    List.append_nil] at htexts
  have hkeep : ∀ {hand rest' : List Bytes},
      hand ++ rest' = (pkt.bind (openPacket na s.client.groupKey)).toList →
      (s.client.decrypting na pkt).inbox.filterMap Prod.snd =
        shown ++ bad ++ s.client.msgQueue ++ hand ++ rest' := by
    intro hand rest' heq
    rw [texts_decrypting, htexts, ← heq]
    simp
  generalize pkt.bind (openPacket na s.client.groupKey) = msgOpt at hkeep ⊢
  cases msgOpt with
  | none => exact ⟨[], hkeep rfl, hd.popped, hd.window, hd.bad, .inl rfl⟩
  | some msg =>
    by_cases htaken : msg = usernameTaken
    · have hb : heard (some msg) = .taken := if_pos htaken
      refine ⟨[usernameTaken], ?_, hd.popped, hd.window, hd.bad,
        .inr ⟨.inl rfl, .inl (congrArg Pc.loop hb)⟩⟩
      simp only [inHand, hb]
      exact hkeep (by rw [htaken]; rfl)
    · have hb : heard (some msg) = .push msg := if_neg htaken
      refine ⟨[], ?_, hd.popped, hd.window, hd.bad, .inl rfl⟩
      simp only [inHand, hb]
      exact hkeep rfl

theorem broadcastStep_displayed (hd : Displayed u s shown bad rest)
    (horder : s.client.uiRunning = false → s.client.running = false)
    (h : s.broadcastStep na = some s') : ∃ rest', Displayed u s' shown bad rest' := by
  cases broadcastStep_some h with
  | test hpc =>
    refine ⟨rest, hd.hearing rfl rfl rfl rfl rfl id ?_ fun hleaves => ?_⟩
    · cases hrun : s.client.running <;> simp [inHand, hpc]
    · rcases hleaves with hl | ⟨-, hrun⟩ | hl
      · rw [hpc] at hl
        cases hl
      · exact .inr (.inr fun b => by simp [hrun])
      · exact absurd hpc (hl _)
  | recv hpc => exact hd.recv hpc _ _
  | lost hpc =>
    refine ⟨rest, hd.hearing rfl rfl rfl rfl rfl id ?_ fun hleaves => ?_⟩
    · cases hstop : s.client.stopping <;> simp [inHand, hpc]
    · exact absurd hleaves (not_leaving hpc (by simp) (by simp))
  | blame hpc =>
    refine ⟨rest, hd.hearing rfl rfl rfl rfl rfl id ?_ fun _ => ?_⟩
    · simp [inHand, hpc]
    · exact .inr (.inr (by simp))
  | taken hpc =>
    refine ⟨rest, hd.hearing rfl rfl rfl rfl rfl id ?_ fun _ => ?_⟩
    · simp [inHand, hpc]
    · exact .inr (.inr (by simp))
  | @push msg hpc =>
    have hno := not_leaving hpc (by simp) (by simp)
    cases hui : s.client.uiRunning with
    | true =>
      refine ⟨rest, hd.hearing rfl rfl rfl rfl rfl id ?_ fun hleaves => absurd hleaves hno⟩
      simp [inHand, hpc]
    | false =>
      have htexts := hd.texts
      rw [hd.rest_nil hno, inHand, hpc] at htexts
      refine ⟨[msg], ?_, hd.popped, hd.window, hd.bad,
        .inr ⟨.inr ⟨hui, msg, rfl⟩, .inr (.inl ⟨rfl, horder hui⟩)⟩⟩
      simpa [Process.texts, inHand] using htexts
  | @enqueue msg hpc =>
    have hrest := hd.rest_nil (not_leaving hpc (by simp) (by simp))
    have htexts := hd.texts
    rw [hrest, inHand, hpc] at htexts
    refine ⟨[], ?_, hd.popped, hd.window, hd.bad, .inl rfl⟩
    simpa [Process.texts, inHand] using htexts
  | @halt p again hpc =>
    have hdata := halting_data s p again .broadcast
    have hcontrol := halting_control s p again .broadcast
    have hleft : ∀ b, (s.halting p again .broadcast).broadcast ≠ .loop b :=
      fun b => resume_ne_loop
    refine ⟨rest, hd.hearing hdata.history.inbox hdata.msgQueue hdata.popped hdata.window
      (haltStep_pcs s p).2.2.1 (fun hui => ?_) ?_ fun _ => .inr (.inr hleft)⟩
    · exact (congrArg Control.uiRunning hcontrol).trans (Control.halt_uiRunning.mpr (.inl hui))
    · rw [inHand, inHand, hpc]
      split
      · rename_i hb
        exact absurd hb (hleft _)
      · rename_i hb
        exact absurd hb (hleft _)
      · rfl

theorem uiStep_displayed (hd : Displayed u s shown bad rest)
    (hrun : s.client.running = false → s'.client.running = false)
    (hui : s.client.uiRunning = false → s'.client.uiRunning = false)
    (h : s.uiStep u = some s') : ∃ shown' bad', Displayed u s' shown' bad' rest := by
  cases uiStep_some h with
  | test hpc =>
    refine ⟨shown, bad, hd.congr rfl rfl rfl rfl rfl (fun hno => absurd hpc (hno _)) hrun hui⟩
  | print hpc =>
    refine ⟨shown, bad, hd.congr rfl rfl rfl rfl rfl (fun hno => absurd hpc (hno _)) hrun hui⟩
  | drain hpc hdrain =>
    obtain ⟨more, bad', hqueue, hprints, hends⟩ := drain_prints (u := u) s.client.msgQueue
    simp only [hdrain] at hqueue hprints hends
    obtain rfl := hd.bad.resolve_right fun hbad => hbad.2 _ hpc
    have htexts := hd.texts
    have hpopped := hd.popped
    rw [List.append_nil] at htexts hpopped
    have htake := taken_off hqueue
    refine ⟨shown ++ more, bad', ?_, ?_, List.rel_append hd.window hprints, ?_, ?_⟩
    · rw [hqueue] at htexts
      simpa [Process.texts, inHand] using htexts
    · dsimp only
      rw [htake, hpopped, List.append_assoc]
    · rcases hends with ⟨-, hnil⟩ | ⟨hthrew, hbad⟩
      · exact .inl hnil
      · exact .inr ⟨hbad, fun b => by simp [hthrew]⟩
    · exact hd.rest.imp_right fun hrest => ⟨hrest.1, hrest.2.congr rfl id⟩
  | @halt p again hpc =>
    have hdata := halting_data s p again .ui
    exact ⟨shown, bad, hd.congr hdata.history.inbox hdata.msgQueue hdata.popped hdata.window
      (haltStep_pcs s p).1 (fun _ b => resume_ne_loop) hrun hui⟩

/-- What the other two threads have done is the same. -/
structure SameTexts (s s' : Process) : Prop where
  inbox : s'.client.inbox = s.client.inbox
  msgQueue : s'.client.msgQueue = s.client.msgQueue
  exitReason : s'.client.exitReason = s.client.exitReason
  username : s'.client.username = s.client.username
  popped : s'.popped = s.popped
  window : s'.window = s.window
  main : s'.main = s.main
  broadcast : s'.broadcast = s.broadcast
  ui : s'.ui = s.ui

/-- The input thread does not touch the texts. -/
theorem inputStep_frame {nonce : Bytes} {sched : Answers}
    (h : s.inputStep na u nonce sched = some s') : SameTexts s s' := by
  cases inputStep_some h with
  | test | prompt | tested | threw => exact ⟨rfl, rfl, rfl, rfl, rfl, rfl, rfl, rfl, rfl⟩
  | returned _ _ _ hentered =>
    cases hentered with
    | none | empty | exit => exact ⟨rfl, rfl, rfl, rfl, rfl, rfl, rfl, rfl, rfl⟩
    | line _ _ hutter => cases hutter <;> exact ⟨rfl, rfl, rfl, rfl, rfl, rfl, rfl, rfl, rfl⟩
  | @halt p again =>
    have hdata := halting_data s p again .input
    exact ⟨hdata.history.inbox, hdata.msgQueue, hdata.exitReason, hdata.history.username,
      hdata.popped, hdata.window, (haltStep_pcs s p).2.2.2, (haltStep_pcs s p).1,
      (haltStep_pcs s p).2.2.1⟩

theorem Reach.displayed (h : Reach na iswprint u s) (hstage : s.client.stage = .started) :
    ∃ shown bad rest, Displayed u s shown bad rest := by
  refine h.invariant (I := fun s => ∃ shown bad rest, Displayed u s shown bad rest)
    (fun s hs => ?_) (fun a s s' hreach hstage hs hstep => ?_) hstage
  · obtain ⟨-, hwindow, -, hpopped, -, -, -, -⟩ := hs.log
    refine ⟨[], [], [], ?_, hpopped, hwindow ▸ .nil, .inl rfl, .inl rfl⟩
    rw [Process.texts, hs.inbox, hs.msgQueue, inHand, hs.pcs.1]
    rfl
  · obtain ⟨shown, bad, rest, hd⟩ := hs
    obtain ⟨-, hrun, hui⟩ := (step_moved hstep).later hstage
    cases a with
    | start a => exact absurd hstage (Option.ite_none_right_eq_some.mp hstep).1
    | broadcast =>
      obtain ⟨rest', hd'⟩ := broadcastStep_displayed hd (hreach.orderly hstage).order.running
        (Option.ite_none_right_eq_some.mp hstep).2
      exact ⟨shown, bad, rest', hd'⟩
    | input nonce sched =>
      have hsame := inputStep_frame (Option.ite_none_right_eq_some.mp hstep).2
      exact ⟨shown, bad, rest, hd.congr hsame.inbox hsame.msgQueue hsame.popped hsame.window
        hsame.broadcast (by rw [hsame.ui]; exact id) hrun hui⟩
    | key w =>
      obtain ⟨-, hstep⟩ := Option.ite_none_right_eq_some.mp hstep
      obtain ⟨l, -, rfl⟩ := keyStep_some hstep
      exact ⟨shown, bad, rest, hd.congr rfl rfl rfl rfl rfl id hrun hui⟩
    | ui =>
      obtain ⟨shown', bad', hd'⟩ := uiStep_displayed hd hrun hui
        (Option.ite_none_right_eq_some.mp hstep).2
      exact ⟨shown', bad', rest, hd'⟩
    | finish | flush | arrive | ends =>
      obtain ⟨-, hstep⟩ := Option.ite_none_right_eq_some.mp hstep
      cases hstep
      exact ⟨shown, bad, rest, hd.congr rfl rfl rfl rfl rfl id hrun hui⟩

/-- SHOWN: in every order of the threads, the texts received are, in their order, those on the
    window, at most one that is not UTF-8, those in the queue, the one in hand, and at most one that
    was not pushed: the control text, or one that came when `m_ui.running` was cleared. The one that
    is not UTF-8 has ended the loop of the window, and the one that was not pushed that of
    `HandleBroadcast`. -/
theorem texts_shown (h : Reach na iswprint u s) (hstage : s.client.stage = .started) :
    ∃ shown bad rest, s.texts = shown ++ bad ++ s.client.msgQueue ++ s.inHand ++ rest ∧
      List.Forall₂ (Prints u) s.window shown ∧
      (bad = [] ∨ (∃ m, bad = [m] ∧ u.utf8to32 m = none) ∧ ∀ b, s.ui ≠ .loop b) ∧
      (rest = [] ∨ (rest = [usernameTaken] ∨ s.client.uiRunning = false ∧ ∃ m, rest = [m]) ∧
        Leaving s) := by
  obtain ⟨shown, bad, rest, hd⟩ := h.displayed hstage
  exact ⟨shown, bad, rest, hd.texts, hd.window, hd.bad, hd.rest⟩

end showing

/-- A text that is not UTF-8 comes between two that are: the first is shown, the loop of the window
    has ended, and the last stays in the queue. -/
theorem texts_shown_bad : ∃ s, sampleRun (hears (ascii "bo: hi") ++ hears [255] ++
      [.ui, .ui, .ui] ++ hears (ascii "bo: ho")) = some s ∧
    List.Forall₂ (Prints .core) s.window [ascii "bo: hi"] ∧
    s.client.msgQueue = [ascii "bo: ho"] ∧ ∀ b, s.ui ≠ .loop b := by
  have hrun : ((sampleRun (hears (ascii "bo: hi") ++ hears [255] ++ [.ui, .ui, .ui] ++
      hears (ascii "bo: ho"))).any fun s => decide (s.client.stage = .started ∧
        s.client.uiRunning = true ∧ s.inHand = [] ∧ s.window.length = 1 ∧
        s.texts = [ascii "bo: hi", [255], ascii "bo: ho"] ∧
        s.client.msgQueue = [ascii "bo: ho"])) = true := by decide +kernel
  obtain ⟨s, hs, heq⟩ := (Option.any_eq_true _ _).mp hrun
  obtain ⟨hstage, hui, hhand, hwindow, htexts, hqueue⟩ := of_decide_eq_true heq
  obtain ⟨shown, bad, rest, hall, hprints, hbad, hrest⟩ := texts_shown (sampleRun_reach hs) hstage
  rw [htexts, hqueue, hhand, List.append_nil] at hall
  -- one line is on the window, so the text after it is the one that was not printed
  obtain ⟨first, rfl⟩ := List.length_eq_one_iff.mp (hprints.length_eq.symm.trans hwindow)
  have hne : bad ≠ [] := by
    rintro rfl
    simp only [List.append_nil, List.cons_append, List.nil_append, List.cons.injEq] at hall
    exact absurd hall.2.1 (by decide)
  obtain ⟨⟨m, rfl, -⟩, hended⟩ := hbad.resolve_left hne
  obtain ⟨rfl, -⟩ := List.cons.inj hall
  exact ⟨s, hs, hprints, hqueue, hended⟩

end Process

end CliChat
