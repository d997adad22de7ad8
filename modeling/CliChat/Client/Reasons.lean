import CliChat.Client.Relay

/-! @src client/src/client.cpp | name:HandleBroadcast, Start | scheme:invariant

    Why the client exited, as `Start` prints it. `m_exitReason` is written by the thread of
    `HandleBroadcast` alone, and only where it finds `m_stopping` clear; so it is never blamed on
    the server that the client has shut its own socket down. Where nothing is printed, the user has
    left or an exception has stopped the client.

        "Server closed connection."       nullopt, and m_stopping clear
        "Username … is already taken"     the control text
        "None"                            "/exit" │ a text that is not UTF-8       -/

namespace CliChat

open Transition

namespace Process

/-- The stream has ended at the server's side, or a packet could not be opened. -/
def Lost (s : Process) : Prop :=
  s.peerEnded = true ∨ ∃ enc, (enc, none) ∈ s.client.inbox

/-- The client stops for a reason that it knows. -/
def Cause (s : Process) : Prop :=
  s.client.exitReason ≠ ascii "None" ∨ s.quit = true ∨ s.threw = true

/-- INVARIANT: the prompt does not throw; it returns nullopt when the client stops; and who quits
    has entered "/exit". -/
structure Prompted (iswprint : WChar → Bool) (s : Process) : Prop where
  printable : ∀ p, s.input = .loop (.inPrompt p) → p.Printable iswprint ∧ p ≠ .threw
  closed : ∀ enter, s.input = .loop (.inPrompt (.returned none enter)) → s.client.stopping = true
  quit : s.quit = true → ascii "/exit" ∈ s.returned

/-- INVARIANT: what the thread of `HandleBroadcast` says about the end is so. -/
structure Told (s : Process) : Prop where
  reason : s.client.exitReason = ascii "None" ∨ s.client.exitReason = closedReason ∧ Lost s ∨
    s.client.exitReason = takenReason s.client.username ∧ usernameTaken ∈ s.texts
  lost : s.broadcast = .loop .lost → s.client.stopping = false → Lost s
  blame : s.broadcast = .loop .blame → Lost s
  taken : s.broadcast = .loop .taken → usernameTaken ∈ s.texts
  report : ∀ out, s.main = .returned out → out = exited s.client.exitReason

section reasons

variable {na : Sodium} {iswprint : WChar → Bool} {u : Utf8} {s s' : Process}

/-! ### The prompt -/

/-- A string is returned, if anything is. -/
theorem return_ne_none (l : Line) (enter : Bool) {enter' : Bool} :
    l.return u enter ≠ .returned none enter' := by
  intro h
  have hresult : (none, enter') ∈ (l.return u enter).result := by
    rw [h]
    rfl
  cases (Line.return_result _ hresult).1

theorem test_ne_none (l : Line) (running : Bool) {enter : Bool} :
    (Prompt.testing l).test u running ≠ .returned none enter := by
  cases running
  · exact return_ne_none l false
  · simp [Prompt.test]

theorem read_ne_none (l : Line) (w : Wch) {enter : Bool} :
    (Prompt.reading l).read iswprint u w ≠ .returned none enter := by
  unfold Prompt.read
  cases w.code with
  | none => simp
  | some ch =>
    dsimp only
    split
    · exact return_ne_none l true
    · cases l.switch iswprint ch <;> simp

section prompt

variable (hprint : ∀ ch, iswprint ch = true → ch.isValidChar) (hu : u.Lawful)
include hprint hu

theorem test_ne_threw {l : Line} (h : (Prompt.testing l).Printable iswprint) (running : Bool) :
    (Prompt.testing l).test u running ≠ .threw := by
  obtain ⟨z, rfl, hz⟩ := h l (.inl rfl)
  cases running
  · obtain ⟨cs, -, hreturn⟩ := return_lineOf hprint hu hz false
    rw [Prompt.test, if_neg Bool.false_ne_true, hreturn]
    simp
  · simp [Prompt.test]

theorem read_ne_threw {l : Line} (h : (Prompt.reading l).Printable iswprint) (w : Wch) :
    (Prompt.reading l).read iswprint u w ≠ .threw := by
  obtain ⟨z, rfl, hz⟩ := h l (.inr rfl)
  unfold Prompt.read
  cases w.code with
  | none => simp
  | some ch =>
    dsimp only
    split
    · obtain ⟨cs, -, hreturn⟩ := return_lineOf hprint hu hz true
      rw [hreturn]
      simp
    · rw [switch_lineOf]
      simp

theorem inputStep_prompted (hs : Prompted iswprint s) (hrel : Relayed na s)
    (horder : s.client.uiRunning = false → s.client.stopping = true)
    {nonce : Bytes} {sched : Answers} (h : s.inputStep na u nonce sched = some s') :
    Prompted iswprint s' := by
  cases inputStep_some h with
  | test =>
    refine ⟨fun p hp => ?_, fun enter hp => ?_, hs.quit⟩
    · dsimp only at hp
      split at hp <;> cases hp
    · dsimp only at hp
      split at hp <;> cases hp
  | prompt =>
    refine ⟨fun p hp => ?_, fun enter hp => ?_, fun hq => List.mem_append_left _ (hs.quit hq)⟩
    · cases hp
      refine ⟨Prompt.enter_printable _, ?_⟩
      cases s.client.uiRunning <;> simp [Prompt.enter]
    · cases hui : s.client.uiRunning with
      | true => simp [promptAt, hui, Prompt.enter] at hp
      | false => exact horder hui
  | @tested l hpc =>
    obtain ⟨hl, -⟩ := hs.printable _ hpc
    refine ⟨fun p hp => ?_, fun enter hp => ?_, fun hq => List.mem_append_left _ (hs.quit hq)⟩
    · cases hp
      exact ⟨Prompt.test_printable hl _, test_ne_threw hprint hu hl _⟩
    · exact absurd (Typing.inPrompt.inj (Pc.loop.inj hp)) (test_ne_none l _)
  | returned hpc _ _ hentered =>
    cases hentered with
    | none | empty | line =>
      exact ⟨fun p hp => (by cases hp), fun enter hp => (by cases hp), hs.quit⟩
    | exit =>
      refine ⟨fun p hp => (by cases hp), fun enter hp => (by cases hp), fun _ => ?_⟩
      obtain ⟨texts, hreturned, -⟩ := hrel.said
      dsimp only
      rw [hreturned, pending, hpc]
      simp
  | threw hpc => exact absurd rfl (hs.printable _ hpc).2
  | @halt p again hpc =>
    have hdata := halting_data s p again .input
    exact ⟨fun q hq => absurd hq resume_ne_loop, fun enter hq => absurd hq resume_ne_loop,
      fun hq => hdata.returned ▸ hs.quit (hdata.quit ▸ hq)⟩

theorem keyStep_prompted (hs : Prompted iswprint s) {w : Wch}
    (h : s.keyStep iswprint u w = some s') : Prompted iswprint s' := by
  obtain ⟨l, hpc, rfl⟩ := keyStep_some h
  obtain ⟨hl, -⟩ := hs.printable _ hpc
  refine ⟨fun p hp => ?_, fun enter hp => ?_, fun hq => List.mem_append_left _ (hs.quit hq)⟩
  · cases hp
    exact ⟨Prompt.read_printable hl w, read_ne_threw hprint hu hl w⟩
  · exact absurd (Typing.inPrompt.inj (Pc.loop.inj hp)) (read_ne_none l w)

end prompt

/-- A step of another thread. -/
theorem Prompted.congr (hs : Prompted iswprint s) (hinput : s'.input = s.input)
    (hquit : s'.quit = s.quit) (hreturned : s'.returned = s.returned)
    (hstop : s.client.stopping = true → s'.client.stopping = true) : Prompted iswprint s' := by
  refine ⟨?_, ?_, ?_⟩
  · rw [hinput]
    exact hs.printable
  · rw [hinput]
    exact fun enter hp => hstop (hs.closed enter hp)
  · rw [hquit, hreturned]
    exact hs.quit

theorem broadcastStep_frame (h : s.broadcastStep na = some s') : s'.input = s.input ∧
    s'.ui = s.ui ∧ s'.quit = s.quit ∧ s'.returned = s.returned ∧ s'.threw = s.threw ∧
    s'.popped = s.popped := by
  cases broadcastStep_some h with
  | test | recv | lost | blame | taken | push | enqueue =>
    exact ⟨rfl, rfl, rfl, rfl, rfl, rfl⟩
  | @halt p again =>
    have hdata := halting_data s p again .broadcast
    exact ⟨(haltStep_pcs s p).2.1, (haltStep_pcs s p).2.2.1, hdata.quit, hdata.returned,
      hdata.threw, hdata.popped⟩

theorem uiStep_frame (h : s.uiStep u = some s') : s'.broadcast = s.broadcast ∧ s'.input = s.input ∧
    s'.quit = s.quit ∧ s'.returned = s.returned ∧ s'.client.exitReason = s.client.exitReason ∧
    s'.client.inbox = s.client.inbox ∧ s'.client.username = s.client.username ∧
    s'.main = s.main := by
  cases uiStep_some h with
  | test | print | drain => exact ⟨rfl, rfl, rfl, rfl, rfl, rfl, rfl, rfl⟩
  | @halt p again =>
    have hdata := halting_data s p again .ui
    exact ⟨(haltStep_pcs s p).1, (haltStep_pcs s p).2.1, hdata.quit, hdata.returned,
      hdata.exitReason, hdata.history.inbox, hdata.history.username, (haltStep_pcs s p).2.2.2⟩

theorem Reach.prompted (hprint : ∀ ch, iswprint ch = true → ch.isValidChar) (hu : u.Lawful)
    (h : Reach na iswprint u s) (hstage : s.client.stage = .started) : Prompted iswprint s := by
  refine h.invariant (I := Prompted iswprint) (fun s hs => ?_)
    (fun a s s' hreach hstage hs hstep => ?_) hstage
  · obtain ⟨-, -, -, -, hquit, -⟩ := hs.log
    have hinput := hs.pcs.2.1
    refine ⟨fun p hp => ?_, fun enter hp => ?_, fun hq => ?_⟩
    · rw [hinput] at hp
      cases hp
    · rw [hinput] at hp
      cases hp
    · rw [hquit] at hq
      cases hq
  · obtain ⟨hstop, -, -⟩ := (step_moved hstep).later hstage
    have horder := (hreach.orderly hstage).order
    cases a with
    | start a => exact absurd hstage (Option.ite_none_right_eq_some.mp hstep).1
    | broadcast =>
      obtain ⟨h₁, -, h₃, h₄, -, -⟩ := broadcastStep_frame (Option.ite_none_right_eq_some.mp hstep).2
      exact hs.congr h₁ h₃ h₄ hstop
    | input nonce sched =>
      exact inputStep_prompted hprint hu hs (hreach.relayed hstage)
        (fun hui => horder.stopping (horder.running hui))
        (Option.ite_none_right_eq_some.mp hstep).2
    | key w => exact keyStep_prompted hprint hu hs (Option.ite_none_right_eq_some.mp hstep).2
    | ui =>
      obtain ⟨-, h₂, h₃, h₄, -⟩ := uiStep_frame (Option.ite_none_right_eq_some.mp hstep).2
      exact hs.congr h₂ h₃ h₄ hstop
    | finish | flush | arrive | ends =>
      obtain ⟨-, hstep⟩ := Option.ite_none_right_eq_some.mp hstep
      cases hstep
      exact hs.congr rfl rfl rfl hstop

/-! ### What is said about the end -/

theorem Lost.mono (h : Lost s) (hpeer : s.peerEnded = true → s'.peerEnded = true)
    (hinbox : s.client.inbox ⊆ s'.client.inbox) : Lost s' :=
  h.imp hpeer fun ⟨enc, henc⟩ => ⟨enc, hinbox henc⟩

/-- A step that leaves `HandleBroadcast` where it is. -/
theorem Told.congr (ht : Told s) (hb : s'.broadcast = s.broadcast)
    (hreason : s'.client.exitReason = s.client.exitReason)
    (hinbox : s'.client.inbox = s.client.inbox) (hname : s'.client.username = s.client.username)
    (hpeer : s.peerEnded = true → s'.peerEnded = true)
    (hstop : s.client.stopping = true → s'.client.stopping = true)
    (hmain : s'.main = s.main ∨ s'.main = .flush ∨
      s'.main = .returned (exited s.client.exitReason)) : Told s' := by
  have hlost : Lost s → Lost s' := fun h => h.mono hpeer (hinbox ▸ List.Subset.refl _)
  have htexts : s'.texts = s.texts := by rw [texts, texts, hinbox]
  refine ⟨?_, fun hpc hclear => hlost (ht.lost (hb ▸ hpc) ?_),
    fun hpc => hlost (ht.blame (hb ▸ hpc)), fun hpc => htexts ▸ ht.taken (hb ▸ hpc),
    fun out hout => ?_⟩
  · rw [hreason, hname, htexts]
    exact ht.reason.imp_right (.imp_left (.imp_right hlost))
  · by_contra hset
    rw [hstop (by simpa using hset)] at hclear
    cases hclear
  · rw [hreason]
    rcases hmain with hm | hm | hm <;> rw [hm] at hout
    · exact ht.report out hout
    · cases hout
    · exact (StartPc.returned.inj hout).symm

/-- `RecvDecrypted` returns nullopt while `m_stopping` is clear. -/
theorem recv_lost (horder : Order s.control s.halts) (hclear : s.client.stopping = false)
    {pkt : Option Bytes} {ch : Chan} (hreads : Client.Reads s.client s.ch pkt ch)
    (hnone : pkt.bind (openPacket na s.client.groupKey) = none) :
    s.peerEnded = true ∨ ∃ enc, (enc, none) ∈ (s.client.decrypting na pkt).inbox := by
  have hui : s.client.uiRunning ≠ false := fun hui => by
    have hstop : s.client.stopping = true := horder.stopping (horder.running hui)
    rw [hclear] at hstop
    cases hstop
  rcases hreads with ⟨-, hrecv⟩ | ⟨hclosed, -, -⟩
  · cases pkt with
    | none =>
      -- the stream has ended, and not by `shutdown`
      obtain ⟨-, hended⟩ := recvPacket_none hrecv
      rw [(recvPacket_suffix hrecv).2] at hended
      exact .inl ((horder.ending hended).resolve_right hui)
    | some enc =>
      refine .inr ⟨enc, List.mem_append_right _ ?_⟩
      simpa using hnone.symm
  · exact absurd (horder.closed hclosed).1 hui

/-- Where `HandleBroadcast` goes tells what `RecvDecrypted` returned. -/
theorem heard_cases (msgOpt : Option Bytes) : msgOpt = none ∧ heard msgOpt = .lost ∨
    msgOpt = some usernameTaken ∧ heard msgOpt = .taken ∨ ∃ msg, heard msgOpt = .push msg := by
  cases msgOpt with
  | none => exact .inl ⟨rfl, rfl⟩
  | some msg =>
    by_cases htaken : msg = usernameTaken
    · exact .inr (.inl ⟨by rw [htaken], if_pos htaken⟩)
    · exact .inr (.inr ⟨msg, if_neg htaken⟩)

theorem broadcastStep_told (ht : Told s) (ho : Orderly s) (h : s.broadcastStep na = some s') :
    Told s' := by
  have hnot : ∀ {b}, s.broadcast = .loop b → s.main = .join := by
    intro b hpc
    by_contra hmain
    have hdone := ho.joined hmain .broadcast
    rw [finished, hpc] at hdone
    cases hdone
  cases broadcastStep_some h with
  | test hpc =>
    refine ⟨ht.reason, fun hp _ => ?_, fun hp => ?_, fun hp => ?_, ht.report⟩ <;>
      dsimp only at hp <;> split at hp <;> cases hp
  | @recv pkt ch hpc hreads =>
    have hsub : s.client.inbox ⊆ (s.client.decrypting na pkt).inbox := List.subset_append_left _ _
    have hlost : Lost s → s.peerEnded = true ∨
        ∃ enc, (enc, none) ∈ (s.client.decrypting na pkt).inbox :=
      .imp_right (Exists.imp fun _ henc => hsub henc)
    have htexts : ∀ m ∈ s.texts, m ∈ (s.client.decrypting na pkt).inbox.filterMap Prod.snd := by
      intro m hm
      rw [texts_decrypting]
      exact List.mem_append_left _ hm
    have hreason := ht.reason.imp_right
      (Or.imp (And.imp_right hlost) (And.imp_right (htexts usernameTaken)))
    rcases heard_cases (pkt.bind (openPacket na s.client.groupKey)) with
      ⟨hnone, hb⟩ | ⟨hsome, hb⟩ | ⟨msg, hb⟩
    · refine ⟨hreason, fun _ hclear => recv_lost ho.order hclear hreads hnone, fun hp => ?_,
        fun hp => ?_, ht.report⟩
      · cases hb.symm.trans (Pc.loop.inj hp)
      · cases hb.symm.trans (Pc.loop.inj hp)
    · refine ⟨hreason, fun hp => ?_, fun hp => ?_, fun _ => ?_, ht.report⟩
      · cases hb.symm.trans (Pc.loop.inj hp)
      · cases hb.symm.trans (Pc.loop.inj hp)
      · dsimp only [texts]
        rw [texts_decrypting, hsome]
        exact List.mem_append_right _ (List.mem_singleton_self _)
    · refine ⟨hreason, fun hp => ?_, fun hp => ?_, fun hp => ?_, ht.report⟩ <;>
        cases hb.symm.trans (Pc.loop.inj hp)
  | lost hpc =>
    refine ⟨ht.reason, fun hp _ => ?_, fun hp => ?_, fun hp => ?_, ht.report⟩
    · dsimp only at hp
      split at hp <;> cases hp
    · cases hclear : s.client.stopping with
      | true => simp [hclear] at hp
      | false => exact ht.lost hpc hclear
    · dsimp only at hp
      split at hp <;> cases hp
  | blame hpc =>
    refine ⟨.inr (.inl ⟨rfl, ht.blame hpc⟩), by simp, by simp, by simp, fun out hout => ?_⟩
    rw [show s.main = .returned out from hout] at hnot
    cases hnot hpc
  | taken hpc =>
    refine ⟨.inr (.inr ⟨rfl, ht.taken hpc⟩), by simp, by simp, by simp, fun out hout => ?_⟩
    rw [show s.main = .returned out from hout] at hnot
    cases hnot hpc
  | push hpc =>
    refine ⟨ht.reason, fun hp _ => ?_, fun hp => ?_, fun hp => ?_, ht.report⟩ <;>
      dsimp only at hp <;> split at hp <;> cases hp
  | enqueue hpc =>
    exact ⟨ht.reason, by simp, by simp, by simp, ht.report⟩
  | @halt p again hpc =>
    have hdata := halting_data s p again .broadcast
    have hpeer : (s.halting p again .broadcast).peerEnded = s.peerEnded :=
      congrArg Control.peerEnded (halting_control s p again .broadcast)
    refine ⟨?_, fun hp => absurd hp resume_ne_loop, fun hp => absurd hp resume_ne_loop,
      fun hp => absurd hp resume_ne_loop, ?_⟩
    · rw [hdata.exitReason, hdata.history.username, texts, hdata.history.inbox]
      refine ht.reason.imp_right (.imp_left (.imp_right fun hlost => ?_))
      exact hlost.mono (hpeer ▸ id) (hdata.history.inbox ▸ List.Subset.refl _)
    · rw [hdata.exitReason]
      exact fun out hout => ht.report out ((haltStep_pcs s p).2.2.2 ▸ hout)

/-- The end of the stream is remembered. -/
theorem Moved.peerEnded {a : ProcessAct} (hm : Moved na s s' a) (h : s.peerEnded = true) :
    s'.peerEnded = true := by
  cases hm with
  | starts _ _ heq =>
    rw [heq]
    exact h
  | calm _ _ hcalm => exact (congrArg Control.peerEnded hcalm.control).trans h
  | @halts _ t p again _ _ _ heq =>
    have hcontrol := congrArg Control.peerEnded
      (halting_control s p again t)
    rw [heq]
    exact hcontrol.trans h
  | finishes _ _ _ _ heq =>
    rw [heq]
    exact h
  | flushes _ heq =>
    rw [heq]
    exact h
  | arrives heq =>
    rw [heq]
    exact h
  | ended _ heq =>
    rw [heq]

theorem Reach.told (h : Reach na iswprint u s) (hstage : s.client.stage = .started) : Told s := by
  refine h.invariant (I := Told) (fun s hs => ?_) (fun a s s' hreach hstage hs hstep => ?_) hstage
  · have hb := hs.pcs.1
    have hmain := hs.log.1
    refine ⟨.inl hs.exitReason, fun hp => ?_, fun hp => ?_, fun hp => ?_, fun out hout => ?_⟩
    · rw [hb] at hp
      cases hp
    · rw [hb] at hp
      cases hp
    · rw [hb] at hp
      cases hp
    · rw [hmain] at hout
      cases hout
  · have hm := step_moved hstep
    have hstop := (hm.later hstage).1
    cases a with
    | start a => exact absurd hstage (Option.ite_none_right_eq_some.mp hstep).1
    | broadcast =>
      exact broadcastStep_told hs (hreach.orderly hstage) (Option.ite_none_right_eq_some.mp hstep).2
    | input nonce sched =>
      have hsame := inputStep_frame (Option.ite_none_right_eq_some.mp hstep).2
      exact hs.congr hsame.broadcast hsame.exitReason hsame.inbox hsame.username hm.peerEnded hstop
        (.inl hsame.main)
    | key w =>
      obtain ⟨-, hstep⟩ := Option.ite_none_right_eq_some.mp hstep
      obtain ⟨l, -, rfl⟩ := keyStep_some hstep
      exact hs.congr rfl rfl rfl rfl hm.peerEnded hstop (.inl rfl)
    | ui =>
      obtain ⟨h₁, -, -, -, hreason, hinbox, hname, hmain⟩ :=
        uiStep_frame (Option.ite_none_right_eq_some.mp hstep).2
      exact hs.congr h₁ hreason hinbox hname hm.peerEnded hstop (.inl hmain)
    | finish =>
      obtain ⟨-, hstep⟩ := Option.ite_none_right_eq_some.mp hstep
      cases hstep
      exact hs.congr rfl rfl rfl rfl hm.peerEnded hstop (.inr (.inl rfl))
    | flush w =>
      obtain ⟨hmain, hstep⟩ := Option.ite_none_right_eq_some.mp hstep
      cases hstep
      refine hs.congr rfl rfl rfl rfl hm.peerEnded hstop (.inr ?_)
      by_cases hw : w = .err
      · exact .inr (if_pos hw)
      · exact .inl (if_neg hw)
    | arrive | ends =>
      obtain ⟨-, hstep⟩ := Option.ite_none_right_eq_some.mp hstep
      cases hstep
      exact hs.congr rfl rfl rfl rfl hm.peerEnded hstop (.inl rfl)

/-! ### Why the client stops -/

/-- INVARIANT: who stops has a cause, and an exception comes from a text that is not UTF-8. -/
structure Caused (u : Utf8) (s : Process) : Prop where
  stopping : s.client.stopping = true → Cause s
  inside : ∀ t p, s.halts t = some p → Cause s
  threw : s.threw = true → ∃ m ∈ s.popped, u.utf8to32 m = none

theorem Cause.mono (h : Cause s)
    (hreason : s'.client.exitReason = s.client.exitReason ∨ s'.client.exitReason ≠ ascii "None")
    (hquit : s.quit = true → s'.quit = true) (hthrew : s.threw = true → s'.threw = true) :
    Cause s' := by
  refine h.imp (fun hne => ?_) (.imp hquit hthrew)
  rcases hreason with heq | hne'
  · rwa [heq]
  · exact hne'

theorem closedReason_ne : closedReason ≠ ascii "None" := by decide +kernel

theorem takenReason_ne (username : Bytes) : takenReason username ≠ ascii "None" := by
  intro h
  have hhead := congrArg List.head? h
  have hfirst : (ascii "Username ").head? = some 85 := by decide +kernel
  rw [takenReason, List.append_assoc, List.head?_append, hfirst, Option.some_or] at hhead
  exact absurd hhead (by decide +kernel)

/-- STEP: `HandleBroadcast` has a cause where it calls `Stop`. -/
theorem broadcastStep_cause (hc : Caused u s)
    (horder : s.client.running = false → s.client.stopping = true)
    (h : s.broadcastStep na = some s') :
    (Cause s → Cause s') ∧ (s.halts .broadcast = none → s'.halts .broadcast ≠ none → Cause s') := by
  obtain ⟨-, -, hquit, -, hthrew, -⟩ := broadcastStep_frame h
  have hmono : s'.client.exitReason = s.client.exitReason ∨ s'.client.exitReason ≠ ascii "None" →
      Cause s → Cause s' := fun hreason hcause => hcause.mono hreason (hquit ▸ id) (hthrew ▸ id)
  cases broadcastStep_some h with
  | test =>
    refine ⟨hmono (.inl rfl), fun _ hcalls => ?_⟩
    cases hrun : s.client.running with
    | true => simp [halts, hrun, Pc.stop?] at hcalls
    | false => exact hmono (.inl rfl) (hc.stopping (horder hrun))
  | recv =>
    exact ⟨hmono (.inl rfl), fun _ hcalls => absurd rfl hcalls⟩
  | lost =>
    refine ⟨hmono (.inl rfl), fun _ hcalls => ?_⟩
    cases hstop : s.client.stopping with
    | true => exact hmono (.inl rfl) (hc.stopping hstop)
    | false => simp [halts, hstop, Pc.stop?] at hcalls
  | blame =>
    exact ⟨hmono (.inr closedReason_ne), fun _ _ => .inl closedReason_ne⟩
  | taken =>
    exact ⟨hmono (.inr (takenReason_ne _)), fun _ _ => .inl (takenReason_ne _)⟩
  | push =>
    refine ⟨hmono (.inl rfl), fun _ hcalls => ?_⟩
    cases hui : s.client.uiRunning <;> simp [halts, hui, Pc.stop?] at hcalls
  | enqueue =>
    exact ⟨hmono (.inl rfl), fun _ hcalls => absurd rfl hcalls⟩
  | @halt p again hpc =>
    refine ⟨hmono (.inl (halting_data s p again .broadcast).exitReason), fun hnone => ?_⟩
    rw [halts, hpc] at hnone
    cases hnone

/-- STEP: so has `ClientLoop`. -/
theorem inputStep_cause (hc : Caused u s) (hp : Prompted iswprint s)
    (horder : s.client.running = false → s.client.stopping = true)
    {nonce : Bytes} {sched : Answers} (h : s.inputStep na u nonce sched = some s') :
    (Cause s → Cause s') ∧ (s.halts .input = none → s'.halts .input ≠ none → Cause s') ∧
      s'.threw = s.threw := by
  have hmono : s'.quit = s.quit ∨ s'.quit = true → s'.threw = s.threw → Cause s → Cause s' := by
    intro hquit hthrew hcause
    refine hcause.mono (.inl (inputStep_frame h).exitReason) (fun hq => ?_) (hthrew ▸ id)
    exact hquit.elim (fun heq => heq.trans hq) id
  cases inputStep_some h with
  | test =>
    refine ⟨hmono (.inl rfl) rfl, fun _ hcalls => ?_, rfl⟩
    cases hrun : s.client.running with
    | true => simp [halts, hrun, Pc.stop?] at hcalls
    | false => exact hmono (.inl rfl) rfl (hc.stopping (horder hrun))
  | prompt | tested =>
    exact ⟨hmono (.inl rfl) rfl, fun _ hcalls => absurd rfl hcalls, rfl⟩
  | returned hpc _ _ hentered =>
    obtain ⟨hquit, hthrew, hcalls⟩ : (s'.quit = s.quit ∨ s'.quit = true) ∧ s'.threw = s.threw ∧
        (s'.halts .input ≠ none → s.client.stopping = true ∨ s'.quit = true) := by
      cases hentered with
      | none => exact ⟨.inl rfl, rfl, fun _ => .inl (hp.closed _ hpc)⟩
      | exit => exact ⟨.inr rfl, rfl, fun _ => .inr rfl⟩
      | empty => exact ⟨.inl rfl, rfl, fun hcalls => absurd rfl hcalls⟩
      | line => exact ⟨.inl rfl, rfl, fun hcalls => absurd rfl hcalls⟩
    refine ⟨hmono hquit hthrew, fun _ hcall => ?_, hthrew⟩
    exact (hcalls hcall).elim (fun hstop => hmono hquit hthrew (hc.stopping hstop))
      fun hq => .inr (.inl hq)
  | threw hpc => exact absurd rfl (hp.printable _ hpc).2
  | @halt p again hpc =>
    have hdata := halting_data s p again .input
    refine ⟨hmono (.inl hdata.quit) hdata.threw, fun hnone => ?_, hdata.threw⟩
    rw [halts, hpc] at hnone
    cases hnone

/-- STEP: and `UIUpdateLoop`, which throws at a text that is not UTF-8. -/
theorem uiStep_cause (hc : Caused u s)
    (horder : s.client.running = false → s.client.stopping = true) (h : s.uiStep u = some s') :
    (Cause s → Cause s') ∧ (s.halts .ui = none → s'.halts .ui ≠ none → Cause s') ∧
      (s'.threw = true → ∃ m ∈ s'.popped, u.utf8to32 m = none) := by
  obtain ⟨-, -, hquit, -, hreason, -⟩ := uiStep_frame h
  have hmono : (s.threw = true → s'.threw = true) → Cause s → Cause s' := fun hthrew hcause =>
    hcause.mono (.inl hreason) (hquit ▸ id) hthrew
  cases uiStep_some h with
  | test =>
    refine ⟨hmono id, fun _ hcalls => ?_, hc.threw⟩
    cases hrun : s.client.running with
    | true => simp [halts, hrun, Pc.stop?] at hcalls
    | false => exact hmono id (hc.stopping (horder hrun))
  | print =>
    refine ⟨hmono id, fun _ hcalls => ?_, hc.threw⟩
    cases hui : s.client.uiRunning <;> simp [halts, hui, Pc.stop?] at hcalls
  | drain _ hdrain =>
    obtain ⟨shown, bad, hqueue, -, hends⟩ := drain_prints (u := u) s.client.msgQueue
    simp only [hdrain] at hqueue hends
    refine ⟨hmono fun ht => by simp [ht], fun _ hcalls => ?_, fun ht => ?_⟩
    · rcases hends with ⟨hok, -⟩ | ⟨hbad, -⟩
      · simp [halts, hok, Pc.stop?] at hcalls
      · exact .inr (.inr (by simp [hbad]))
    · rcases Bool.or_eq_true_iff.mp ht with ht | ht
      · obtain ⟨m, hm, hbad⟩ := hc.threw ht
        exact ⟨m, List.mem_append_left _ hm, hbad⟩
      · obtain ⟨-, m, rfl, hbad⟩ := hends.resolve_left fun hok => by rw [hok.1] at ht; cases ht
        refine ⟨m, List.mem_append_right _ ?_, hbad⟩
        rw [taken_off hqueue]
        simp
  | @halt p again hpc =>
    have hdata := halting_data s p again .ui
    refine ⟨hmono (hdata.threw ▸ id), fun hnone => ?_, ?_⟩
    · rw [halts, hpc] at hnone
      cases hnone
    · rw [hdata.threw, hdata.popped]
      exact hc.threw

/-- A thread moves, and has a cause where it calls `Stop`. -/
theorem Caused.calm {t : Tid} (hc : Caused u s) (hcalm : Calm t s s') (hmono : Cause s → Cause s')
    (hcalls : s'.halts t ≠ none → Cause s')
    (hthrew : s'.threw = true → ∃ m ∈ s'.popped, u.utf8to32 m = none) : Caused u s' := by
  refine ⟨fun hstop => ?_, fun t' p hp => ?_, hthrew⟩
  · rw [show s'.client.stopping = s.client.stopping from
      congrArg Control.stopping hcalm.control] at hstop
    exact hmono (hc.stopping hstop)
  · by_cases heq : t' = t
    · subst heq
      exact hcalls (by rw [hp]; nofun)
    · rw [(hcalm.others t' heq).1] at hp
      exact hmono (hc.inside t' p hp)

/-- A thread goes on in `Stop`. -/
theorem Caused.halting {t : Tid} {p : HaltPc} (hc : Caused u s) (hp : s.halts t = some p)
    (again : Bool) : Caused u (s.halting p again t) := by
  have hdata := halting_data s p again t
  have hcause : Cause (s.halting p again t) :=
    (hc.inside t p hp).mono (.inl hdata.exitReason) (hdata.quit ▸ id) (hdata.threw ▸ id)
  refine ⟨fun _ => hcause, fun _ _ _ => hcause, ?_⟩
  rw [hdata.threw, hdata.popped]
  exact hc.threw

theorem Caused.step (hc : Caused u s) (ho : Orderly s) (hp : Prompted iswprint s)
    (hstage : s.client.stage = .started) {a : ProcessAct}
    (h : s.step na iswprint u a = some s') : Caused u s' := by
  have hsame : s'.client.exitReason = s.client.exitReason → s'.client.stopping = s.client.stopping →
      s'.halts = s.halts → s'.quit = s.quit → s'.threw = s.threw → s'.popped = s.popped →
      Caused u s' := by
    intro hreason hstop hhalts hquit hthrew hpopped
    have hmono : Cause s → Cause s' := fun hcause =>
      hcause.mono (.inl hreason) (hquit ▸ id) (hthrew ▸ id)
    refine ⟨fun hs => hmono (hc.stopping (hstop ▸ hs)), fun t p hp => ?_, ?_⟩
    · rw [hhalts] at hp
      exact hmono (hc.inside t p hp)
    · rw [hthrew, hpopped]
      exact hc.threw
  cases a with
  | start a => exact absurd hstage (Option.ite_none_right_eq_some.mp h).1
  | broadcast =>
    have hstep := (Option.ite_none_right_eq_some.mp h).2
    rcases broadcastStep_cases hstep with hcalm | ⟨p, again, hpc, rfl⟩
    · obtain ⟨hmono, hcalls⟩ := broadcastStep_cause hc ho.order.stopping hstep
      obtain ⟨-, -, -, -, hthrew, hpopped⟩ := broadcastStep_frame hstep
      refine hc.calm hcalm hmono (hcalls hcalm.before) ?_
      rw [hthrew, hpopped]
      exact hc.threw
    · exact hc.halting (t := .broadcast) (by rw [halts, hpc]; rfl) again
  | input nonce sched =>
    have hstep := (Option.ite_none_right_eq_some.mp h).2
    rcases inputStep_cases hstep with hcalm | ⟨p, again, hpc, rfl⟩
    · obtain ⟨hmono, hcalls, hthrew⟩ := inputStep_cause hc hp ho.order.stopping hstep
      refine hc.calm hcalm hmono (hcalls hcalm.before) ?_
      rw [hthrew, (inputStep_frame hstep).popped]
      exact hc.threw
    · exact hc.halting (t := .input) (by rw [halts, hpc]; rfl) again
  | key w =>
    have hstep := (Option.ite_none_right_eq_some.mp h).2
    have hcalm := keyStep_calm hstep
    obtain ⟨l, -, rfl⟩ := keyStep_some hstep
    exact hc.calm hcalm id (fun hcalls => absurd rfl hcalls) hc.threw
  | ui =>
    have hstep := (Option.ite_none_right_eq_some.mp h).2
    rcases uiStep_cases hstep with hcalm | ⟨p, again, hpc, rfl⟩
    · obtain ⟨hmono, hcalls, hthrew⟩ := uiStep_cause hc ho.order.stopping hstep
      exact hc.calm hcalm hmono (hcalls hcalm.before) hthrew
    · exact hc.halting (t := .ui) (by rw [halts, hpc]; rfl) again
  | finish | flush | arrive | ends =>
    obtain ⟨-, h⟩ := Option.ite_none_right_eq_some.mp h
    cases h
    exact hsame rfl rfl (funext fun t => by cases t <;> rfl) rfl rfl rfl

theorem Reach.caused (hprint : ∀ ch, iswprint ch = true → ch.isValidChar) (hu : u.Lawful)
    (h : Reach na iswprint u s) (hstage : s.client.stage = .started) : Caused u s := by
  refine h.invariant (I := Caused u) (fun s hs => ?_) (fun a s s' hreach hstage hs hstep => ?_)
    hstage
  · obtain ⟨-, -, -, -, -, hthrew, -, -⟩ := hs.log
    obtain ⟨hb, hi, hui⟩ := hs.pcs
    refine ⟨fun hstop => ?_, fun t p hp => ?_, fun ht => ?_⟩
    · rw [hs.stopping] at hstop
      cases hstop
    · cases t <;> simp [halts, hb, hi, hui, Pc.stop?] at hp
    · rw [hthrew] at ht
      cases ht
  · exact hs.step (hreach.orderly hstage) (hreach.prompted hprint hu hstage) hstage hstep

/-- REASON: what `Start` prints when it returns is so. The server is only blamed when the stream has
    ended at its side or a packet could not be opened; the name is only taken when the control text
    was received; and when nothing is printed the user has entered "/exit", or a text that was
    received is not UTF-8. -/
theorem exit_reason (hprint : ∀ ch, iswprint ch = true → ch.isValidChar) (hu : u.Lawful)
    (h : Reach na iswprint u s) {out : Bytes} (hreport : s.report = some out) :
    out = exited closedReason ∧ (s.peerEnded = true ∨ ∃ enc, (enc, none) ∈ s.client.inbox) ∨
      out = exited (takenReason s.client.username) ∧ usernameTaken ∈ s.texts ∨
      out = [] ∧ (ascii "/exit" ∈ s.returned ∨ ∃ m ∈ s.texts, u.utf8to32 m = none) := by
  rw [report_eq_some] at hreport
  have hstage : s.client.stage = .started := by
    by_contra hne
    rw [(h.idle hne).log.1] at hreport
    cases hreport
  have hprompted := h.prompted hprint hu hstage
  have htold := h.told hstage
  have hcaused := h.caused hprint hu hstage
  have horderly := h.orderly hstage
  have hout := htold.report out hreport
  rcases htold.reason with hnone | ⟨hclosed, hlost⟩ | ⟨htaken, hin⟩
  · have hstop := (horderly.cleared (horderly.joined (by simp [hreport]))).1
    refine .inr (.inr ⟨by rw [hout, hnone]; rfl, ?_⟩)
    rcases hcaused.stopping hstop with hne | hquit | hthrew
    · exact absurd hnone hne
    · exact .inl (hprompted.quit hquit)
    · obtain ⟨m, hm, hbad⟩ := hcaused.threw hthrew
      obtain ⟨shown, bad, rest, hd⟩ := h.displayed hstage
      refine .inr ⟨m, ?_, hbad⟩
      rw [hd.texts, ← hd.popped]
      simp [hm]
  · exact .inl ⟨hout.trans (congrArg exited hclosed), hlost⟩
  · exact .inr (.inl ⟨hout.trans (congrArg exited htaken), hin⟩)

end reasons

/-- The server ends the stream. -/
theorem exit_reason_left : ∃ s, sampleRun (serverLeaves 12 ++ othersLeave) = some s ∧
    s.report = some (exited closedReason) ∧ Lost s := by
  have hrun : ((sampleRun (serverLeaves 12 ++ othersLeave)).any fun s =>
      decide (s.report = some (exited closedReason) ∧ s.texts = [])) = true := by decide +kernel
  obtain ⟨s, hs, heq⟩ := (Option.any_eq_true _ _).mp hrun
  obtain ⟨hreport, htexts⟩ := of_decide_eq_true heq
  refine ⟨s, hs, hreport, ?_⟩
  rcases exit_reason asciiPrint_isValidChar Utf8.core_lawful (sampleRun_reach hs) hreport with
    ⟨-, hlost⟩ | ⟨-, hin⟩ | ⟨hout, -⟩
  · exact hlost
  · rw [htexts] at hin
    cases hin
  · exact absurd hout (by decide +kernel)

end Process

end CliChat
