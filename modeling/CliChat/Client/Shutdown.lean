import CliChat.Client.StopOrder

/-! @src client/src/client.cpp, common/src/network_session.cpp | name:Start, Stop, CloseSession |
    scheme:interleaving, termination

    How the client program ends. The three threads keep the order of `Stop`'s flags, so when
    `Start` has joined them everything is cleared and closed; and once the flags are cleared the
    program has a bounded number of steps left, but for the keys that `FlushInput` discards. A line
    that is sent between `shutdown` and `close`, or to a server that has gone, ends it earlier:
    `flags` is 0, and the client does not handle SIGPIPE either.

        call of Stop ─▶ flags cleared ─▶ socket closed ─▶ recv returns ─▶ threads end ─▶ report
                                └─▶ send on the open socket ─▶ SIGPIPE                          -/

namespace CliChat

open Transition

/-- The step takes the program on: `FlushInput` is not kept by one more key. -/
def ProcessAct.advances (a : ProcessAct) : Bool := a.own && !a.discards

namespace Process

/-! ### The program -/

section program

variable {na : Sodium} {iswprint : WChar → Bool} {u : Utf8} {s s' : Process} {t : Tid} {p : HaltPc}
  {again : Bool}

/-- REFINES: a step inside `Stop` is one of the flags. -/
theorem halting_control (s : Process) (p : HaltPc) (again : Bool) (t : Tid) :
    (s.halting p again t).control = s.control.halt p := by
  cases t <;> cases p <;> cases hstopping : s.client.stopping <;> cases hsocket : s.socket <;>
    simp [halting, haltStep, resume, control, Control.halt, shut, hstopping, hsocket]

theorem halting_next : (s.haltStep p).2 = s.control.next p := by
  cases p <;> cases hstopping : s.client.stopping <;> cases hsocket : s.socket <;>
    simp [haltStep, Control.next, control, hstopping, hsocket]

theorem resume_stop? {β : Type} (p? : Option HaltPc) :
    (Pc.resume (β := β) again p?).stop? = (p? <|> callAgain again) := by
  cases p? <;> cases again <;> rfl

theorem haltStep_halts : (s.haltStep p).1.halts = s.halts := by
  funext t
  cases p <;> cases t <;> simp [haltStep, halts, apply_ite Prod.fst] <;> split <;> rfl

theorem halting_halts : (s.halting p again t).halts = moved s.control s.halts t p again := by
  rw [moved, ← halting_next, ← haltStep_halts (s := s) (p := p)]
  funext t'
  cases t <;> cases t' <;> simp [halting, resume, halts, resume_stop?]

theorem haltStep_pcs (s : Process) (p : HaltPc) : (s.haltStep p).1.broadcast = s.broadcast ∧
    (s.haltStep p).1.input = s.input ∧ (s.haltStep p).1.ui = s.ui ∧
    (s.haltStep p).1.main = s.main := by
  cases p <;> cases hstopping : s.client.stopping <;> cases hsocket : s.socket <;>
    simp [haltStep, hstopping, hsocket]

theorem halting_finished (h : (s.halting p again t).finished t = true) :
    s.control.next p = none := by
  rw [← halting_next]
  cases hnext : (s.haltStep p).2 with
  | none => rfl
  | some q =>
    cases t <;> simp [halting, resume, finished, hnext, Pc.resume, Pc.isDone] at h

theorem halting_others {t' : Tid} (ht : t' ≠ t) :
    (s.halting p again t).finished t' = s.finished t' := by
  have hsame : ∀ t', (s.haltStep p).1.finished t' = s.finished t' := by
    intro t'
    cases p <;> cases t' <;> simp [haltStep, finished, apply_ite Prod.fst] <;> split <;> rfl
  rw [← hsame]
  cases t <;> cases t' <;> first | exact absurd rfl ht | rfl

theorem halts_of_finished (h : s.finished t = true) : s.halts t = none := by
  have hpc : ∀ {β : Type} {pc : Pc β}, pc.isDone = true → pc.stop? = none := by
    intro β pc hdone
    cases pc with
    | loop b => rfl
    | halt p again => cases hdone
    | done => rfl
  cases t <;> exact hpc h

theorem finished_of_done (hb : s.broadcast = .done) (hi : s.input = .done) (hu : s.ui = .done) :
    ∀ t, s.finished t = true := by
  intro t
  cases t
  · rw [finished, hb]; rfl
  · rw [finished, hi]; rfl
  · rw [finished, hu]; rfl

/-- INVARIANT: the flags are in order, a thread ends when `m_stopping` is set, and `Start` goes on
    when all threads have ended. -/
structure Orderly (s : Process) : Prop where
  order : Order s.control s.halts
  ended : ∀ t, s.finished t = true → s.client.stopping = true
  joined : s.main ≠ .join → ∀ t, s.finished t = true

theorem Fresh.orderly (h : Fresh na s) : Orderly s := by
  obtain ⟨-, hstop, hrun, hopen, hui, -, -, -, -, -, -, hend, hsocket, ⟨hb, hi, hu⟩, hlog⟩ := h
  obtain ⟨hmain, -, -, -, -, -, hentered, hcloses⟩ := hlog
  have hhalts : s.halts = fun _ => none := by
    funext t
    cases t
    · rw [halts, hb]; rfl
    · rw [halts, hi]; rfl
    · rw [halts, hu]; rfl
  have hunfinished : ∀ t, s.finished t = false := by
    intro t
    cases t
    · rw [finished, hb]; rfl
    · rw [finished, hi]; rfl
    · rw [finished, hu]; rfl
  refine ⟨?_, fun t ht => absurd ht (by simp [hunfinished]), fun hne => absurd hmain hne⟩
  rw [hhalts]
  refine
    ⟨?_, ?_, ?_, fun h => .inl (hend h), ?_, fun t p hp => (by cases hp), ?_, ?_, ?_, ?_, ?_⟩ <;>
    simp [control, hstop, hrun, hopen, hui, hsocket, hentered, hcloses, closing]

/-- When `m_stopping` is set and no thread is inside `Stop`, everything is cleared and closed. -/
theorem Orderly.closed (h : Orderly s) (hstop : s.client.stopping = true)
    (hnone : ∀ t p, s.halts t ≠ some p) : s.client.running = false ∧ s.client.uiRunning = false ∧
      s.socket = false ∧ s.client.sessionOpen = false ∧ 0 < s.closes := by
  have hrun : s.client.running = false := by
    by_contra hset
    obtain ⟨t, ht⟩ := h.order.atRunning hstop (by simpa [control] using hset)
    exact hnone _ _ ht
  have hui : s.client.uiRunning = false := by
    by_contra hset
    obtain ⟨t, ht⟩ := h.order.atUiRunning hrun (by simpa [control] using hset)
    exact hnone _ _ ht
  have hsocket : s.socket = false := by
    by_contra hset
    obtain ⟨t, p, ht, -⟩ := h.order.atSocket hui (by simpa [control] using hset)
    exact hnone _ _ ht
  have hopen := h.order.socket hsocket
  exact ⟨hrun, hui, hsocket, hopen, (h.order.closed hopen).2.2⟩

/-- So it is when the threads have ended. -/
theorem Orderly.cleared (h : Orderly s) (hdone : ∀ t, s.finished t = true) :
    s.client.stopping = true ∧ s.client.running = false ∧ s.client.uiRunning = false ∧
      s.socket = false ∧ s.client.sessionOpen = false ∧ 0 < s.closes := by
  have hstop := h.ended .broadcast (hdone .broadcast)
  refine ⟨hstop, h.closed hstop fun t p => ?_⟩
  rw [halts_of_finished (hdone t)]
  nofun

/-- STEP: each step of the program keeps it. -/
theorem Orderly.step (h : Orderly s) (hstage : s.client.stage = .started) {a : ProcessAct}
    (hm : Moved na s s' a) : Orderly s' := by
  cases hm with
  | starts hne => exact absurd hstage hne
  | @calm _ t _ _ hcalm =>
    obtain ⟨hcontrol, hmain, hbefore, hactive, hafter, hunfinished, hothers⟩ := hcalm
    have hhalts : s'.halts = Function.update s.halts t (s'.halts t) := by
      funext t'
      by_cases heq : t' = t
      · rw [heq, Function.update_self]
      · rw [Function.update_of_ne heq, (hothers t' heq).1]
    have hstopping : s'.client.stopping = s.client.stopping := congrArg Control.stopping hcontrol
    refine ⟨?_, fun t' ht' => ?_, fun hne => ?_⟩
    · rw [hcontrol, hhalts]
      exact h.order.calm hbefore hafter
    · by_cases heq : t' = t
      · rw [heq, hunfinished] at ht'
        cases ht'
      · rw [(hothers t' heq).2] at ht'
        rw [hstopping]
        exact h.ended t' ht'
    · rw [hmain] at hne
      rw [h.joined hne t] at hactive
      cases hactive
  | @halts _ t p again _ _ hp heq =>
    subst heq
    have hstopping : s.client.stopping = true → (s.halting p again t).client.stopping = true := by
      intro hs
      have hcontrol := congrArg Control.stopping (halting_control s p again t)
      exact hcontrol.trans (Control.halt_stopping.mpr (.inl hs))
    refine ⟨?_, fun t' ht' => hstopping ?_, fun hne => ?_⟩
    · rw [halting_control, halting_halts]
      exact h.order.halt hp again
    · by_cases heq : t' = t
      · rw [heq] at ht'
        exact h.order.returns hp (halting_finished ht')
      · rw [halting_others heq] at ht'
        exact h.ended t' ht'
    · have hmain : (s.halting p again t).main = s.main := by
        cases t <;> exact (haltStep_pcs s p).2.2.2
      rw [hmain] at hne
      rw [halts_of_finished (h.joined hne t)] at hp
      cases hp
  | finishes hb hi hu _ heq =>
    have hdone := finished_of_done hb hi hu
    have hcontrol : s'.control = s.control := by
      rw [heq, control, control, (h.cleared hdone).2.2.1]
    have hhalts : s'.halts = s.halts := by
      rw [heq]
      funext t
      cases t <;> rfl
    rw [heq] at hcontrol hhalts ⊢
    refine ⟨by rw [hcontrol, hhalts]; exact h.order, fun t _ => h.ended t (hdone t), fun _ t => ?_⟩
    rw [← hdone t]
    cases t <;> rfl
  | flushes hmain heq =>
    subst heq
    exact ⟨h.order, h.ended, fun _ => h.joined (by simp [hmain])⟩
  | arrives heq =>
    subst heq
    exact ⟨h.order, h.ended, h.joined⟩
  | ended hne heq =>
    subst heq
    exact ⟨h.order.ends hne, h.ended, h.joined⟩

theorem Reach.orderly (h : Reach na iswprint u s) (hstage : s.client.stage = .started) :
    Orderly s :=
  h.invariant (fun _ hs => hs.orderly) (fun _ _ _ _ hstage hs hstep =>
    hs.step hstage (step_moved hstep)) hstage

/-! ### How long it takes -/

/-- How many steps are left, at most, of a call of `Stop`. -/
def haltRank : HaltPc → ℕ
  | .test => 8
  | .stopping => 7
  | .running => 6
  | .uiRunning => 5
  | .socket => 4
  | .shutdown => 3
  | .close => 2
  | .clear => 1

/-- How many steps are left, at most, of a thread once the flags are cleared. -/
def pcRank {β : Type} (rank : β → ℕ) : Pc β → ℕ
  | .loop b => 17 + rank b
  | .halt p again => haltRank p + if again then 8 else 0
  | .done => 0

def hearingRank : Hearing → ℕ
  | .recv => 3
  | .lost | .push _ | .enqueue _ => 2
  | .test | .blame | .taken => 1

def typingRank : Typing → ℕ
  | .inPrompt (.reading _) => 4
  | .inPrompt (.testing _) | .prompt => 3
  | .inPrompt (.returned _ _) | .inPrompt .threw => 2
  | .test => 1

def printingRank : Printing → ℕ
  | .print | .drain => 2
  | .test => 1

def startRank : StartPc → ℕ
  | .join => 2
  | .flush => 1
  | .returned _ => 0

/-- How many steps are left, at most, until `Start` returns, but for the keys it discards. -/
def rank (s : Process) : ℕ :=
  pcRank hearingRank s.broadcast + pcRank typingRank s.input + pcRank printingRank s.ui +
    startRank s.main

theorem rank_le (s : Process) : s.rank ≤ 62 := by
  have hhalt : ∀ p, haltRank p ≤ 8 := by
    intro p
    cases p <;> decide
  have hpc : ∀ {β : Type} {rank : β → ℕ} {n : ℕ}, (∀ b, rank b ≤ n) →
      ∀ pc, pcRank rank pc ≤ 17 + n := by
    intro β rank n hrank pc
    cases pc with
    | loop b => exact Nat.add_le_add_left (hrank b) 17
    | halt p again =>
      have := hhalt p
      cases again <;> simp [pcRank] <;> omega
    | done => exact Nat.zero_le _
  have h₁ : pcRank hearingRank s.broadcast ≤ 17 + 3 :=
    hpc (fun b => by cases b <;> simp [hearingRank]) _
  have h₂ : pcRank typingRank s.input ≤ 17 + 4 :=
    hpc (fun b => by unfold typingRank; split <;> omega) _
  have h₃ : pcRank printingRank s.ui ≤ 17 + 2 :=
    hpc (fun b => by cases b <;> simp [printingRank]) _
  have h₄ : startRank s.main ≤ 2 := by
    cases s.main <;> simp [startRank]
  unfold rank
  omega

theorem resume_rank {β : Type} {rank : β → ℕ} :
    pcRank rank (.resume again (s.haltStep p).2) < pcRank rank (.halt p again) := by
  rw [halting_next]
  cases again <;> cases p <;> cases hstopping : s.control.stopping <;>
    cases hsocket : s.control.socket <;>
    simp [Control.next, Pc.resume, pcRank, haltRank, hstopping, hsocket]

/-- The flags are cleared, and stay so. -/
def Cleared (s : Process) : Prop :=
  s.client.stage = .started ∧ s.client.stopping = true ∧ s.client.running = false ∧
    s.client.uiRunning = false

/-- A flag that is cleared stays so. -/
theorem Moved.later {a : ProcessAct} (hm : Moved na s s' a) (hstage : s.client.stage = .started) :
    (s.client.stopping = true → s'.client.stopping = true) ∧
      (s.client.running = false → s'.client.running = false) ∧
      (s.client.uiRunning = false → s'.client.uiRunning = false) := by
  cases hm with
  | starts hne => exact absurd hstage hne
  | calm _ _ hcalm =>
    exact ⟨(congrArg Control.stopping hcalm.control).trans,
      (congrArg Control.running hcalm.control).trans,
      (congrArg Control.uiRunning hcalm.control).trans⟩
  | @halts _ t p again _ _ _ heq =>
    have hcontrol : s'.control = s.control.halt p := heq ▸ halting_control s p _ _
    exact ⟨fun h => (congrArg Control.stopping hcontrol).trans (Control.halt_stopping.mpr (.inl h)),
      fun h => (congrArg Control.running hcontrol).trans (Control.halt_running.mpr (.inl h)),
      fun h => (congrArg Control.uiRunning hcontrol).trans (Control.halt_uiRunning.mpr (.inl h))⟩
  | finishes _ _ _ _ heq =>
    subst heq
    exact ⟨id, id, fun _ => rfl⟩
  | flushes _ heq =>
    subst heq
    exact ⟨id, id, id⟩
  | arrives heq =>
    subst heq
    exact ⟨id, id, id⟩
  | ended _ heq =>
    subst heq
    exact ⟨id, id, id⟩

/-- STEP: once the flags are cleared, a step of the program brings its end nearer. -/
theorem broadcastStep_rank (h : s.broadcastStep na = some s') (hs : Cleared s) :
    s'.rank < s.rank := by
  obtain ⟨-, hstop, hrun, hui⟩ := hs
  have hrank : s'.input = s.input → s'.ui = s.ui → s'.main = s.main →
      pcRank hearingRank s'.broadcast < pcRank hearingRank s.broadcast → s'.rank < s.rank := by
    intro hi hu hm hlt
    unfold rank
    rw [hi, hu, hm]
    omega
  cases broadcastStep_some h with
  | test hpc =>
    refine hrank rfl rfl rfl ?_
    simp [hpc, hrun, pcRank, haltRank, hearingRank]
  | recv hpc =>
    refine hrank rfl rfl rfl ?_
    have hheard : ∀ msgOpt, hearingRank (heard msgOpt) ≤ 2 := by
      intro msgOpt
      unfold heard
      split
      · exact le_rfl
      · split
        · exact one_le_two
        · exact le_rfl
    have hrecv : hearingRank .recv = 3 := rfl
    simp only [hpc, pcRank, hrecv]
    exact Nat.add_lt_add_left (Nat.lt_succ_of_le (hheard _)) _
  | lost hpc =>
    refine hrank rfl rfl rfl ?_
    simp [hpc, hstop, pcRank, haltRank, hearingRank]
  | blame hpc =>
    refine hrank rfl rfl rfl ?_
    simp [hpc, pcRank, haltRank, hearingRank]
  | taken hpc =>
    refine hrank rfl rfl rfl ?_
    simp [hpc, pcRank, haltRank, hearingRank]
  | push hpc =>
    refine hrank rfl rfl rfl ?_
    simp [hpc, hui, pcRank, hearingRank]
  | enqueue hpc =>
    refine hrank rfl rfl rfl ?_
    simp [hpc, pcRank, hearingRank]
  | @halt p again hpc =>
    obtain ⟨-, hi, hu, hm⟩ := haltStep_pcs s p
    refine hrank hi hu hm ?_
    rw [hpc]
    exact resume_rank

theorem return_rank (l : Line) (enter : Bool) :
    typingRank (.inPrompt (l.return u enter)) = 2 := by
  unfold Line.return
  cases u.utf32to8 l.input <;> rfl

theorem read_rank (l : Line) (w : Wch) :
    typingRank (.inPrompt ((Prompt.reading l).read iswprint u w)) ≤ 3 := by
  unfold Prompt.read
  cases w.code with
  | none => exact le_rfl
  | some ch =>
    dsimp only
    split
    · rw [return_rank]
      decide
    · cases l.switch iswprint ch <;> simp [typingRank]

theorem rank_input (hb : s'.broadcast = s.broadcast) (hu : s'.ui = s.ui)
    (hm : s'.main = s.main) (hlt : pcRank typingRank s'.input < pcRank typingRank s.input) :
    s'.rank < s.rank := by
  unfold rank
  rw [hb, hu, hm]
  omega

theorem inputStep_rank {nonce : Bytes} {sched : Answers}
    (h : s.inputStep na u nonce sched = some s') (hs : Cleared s) : s'.rank < s.rank := by
  obtain ⟨-, hstop, hrun, hui⟩ := hs
  cases inputStep_some h with
  | test hpc =>
    refine rank_input rfl rfl rfl ?_
    simp [hpc, hrun, pcRank, haltRank, typingRank]
  | prompt hpc =>
    refine rank_input rfl rfl rfl ?_
    simp [hpc, hui, promptAt, Prompt.enter, pcRank, typingRank]
  | @tested l hpc =>
    refine rank_input rfl rfl rfl ?_
    have htesting : typingRank (.inPrompt (.testing l)) = 3 := rfl
    simp [hpc, hui, promptAt, Prompt.test, pcRank, return_rank, htesting]
  | returned hpc _ _ hentered =>
    obtain ⟨hb, hu, hm, hle⟩ : s'.broadcast = s.broadcast ∧ s'.ui = s.ui ∧
        s'.main = s.main ∧ pcRank typingRank s'.input ≤ 18 := by
      cases hentered <;> exact ⟨rfl, rfl, rfl, by simp [pcRank, haltRank, typingRank]⟩
    refine rank_input hb hu hm (lt_of_le_of_lt hle ?_)
    simp [hpc, pcRank, typingRank]
  | threw hpc =>
    refine rank_input rfl rfl rfl ?_
    simp [hpc, pcRank, haltRank, typingRank]
  | @halt p again hpc =>
    obtain ⟨hb, -, hu, hm⟩ := haltStep_pcs s p
    refine rank_input hb hu hm ?_
    rw [hpc]
    exact resume_rank

theorem keyStep_rank {w : Wch} (h : s.keyStep iswprint u w = some s') : s'.rank < s.rank := by
  obtain ⟨l, hpc, rfl⟩ := keyStep_some h
  refine rank_input rfl rfl rfl ?_
  rw [hpc]
  exact Nat.add_lt_add_left (Nat.lt_succ_of_le (read_rank l w)) 17

theorem uiStep_rank (h : s.uiStep u = some s') (hs : Cleared s) : s'.rank < s.rank := by
  obtain ⟨-, hstop, hrun, hui⟩ := hs
  have hrank : s'.broadcast = s.broadcast → s'.input = s.input → s'.main = s.main →
      pcRank printingRank s'.ui < pcRank printingRank s.ui → s'.rank < s.rank := by
    intro hb hi hm hlt
    unfold rank
    rw [hb, hi, hm]
    omega
  cases uiStep_some h with
  | test hpc =>
    refine hrank rfl rfl rfl ?_
    simp [hpc, hrun, pcRank, haltRank, printingRank]
  | print hpc =>
    refine hrank rfl rfl rfl ?_
    simp [hpc, hui, pcRank, printingRank]
  | drain hpc =>
    refine hrank rfl rfl rfl ?_
    rw [hpc]
    dsimp only
    split <;> simp [pcRank, haltRank, printingRank]
  | @halt p again hpc =>
    obtain ⟨hb, hi, -, hm⟩ := haltStep_pcs s p
    refine hrank hb hi hm ?_
    rw [hpc]
    exact resume_rank

/-- STEP: from then on each step that takes the program on lowers the rank. -/
theorem step_rank {a : ProcessAct} (h : s.step na iswprint u a = some s') (hs : Cleared s) :
    Cleared s' ∧ s'.rank + (if a.advances then 1 else 0) ≤ s.rank := by
  have hm := step_moved h
  obtain ⟨hstop, hrun, hui⟩ := hm.later hs.1
  refine ⟨⟨hm.stage hs.1, hstop hs.2.1, hrun hs.2.2.1, hui hs.2.2.2⟩, ?_⟩
  cases a with
  | start a => exact absurd hs.1 (Option.ite_none_right_eq_some.mp h).1
  | broadcast => exact broadcastStep_rank (Option.ite_none_right_eq_some.mp h).2 hs
  | input nonce sched => exact inputStep_rank (Option.ite_none_right_eq_some.mp h).2 hs
  | key w => exact keyStep_rank (Option.ite_none_right_eq_some.mp h).2
  | ui => exact uiStep_rank (Option.ite_none_right_eq_some.mp h).2 hs
  | finish =>
    obtain ⟨⟨-, -, -, hmain⟩, h⟩ := Option.ite_none_right_eq_some.mp h
    cases h
    simp [rank, hmain, startRank, ProcessAct.advances, ProcessAct.own, ProcessAct.discards]
  | flush w =>
    obtain ⟨hmain, h⟩ := Option.ite_none_right_eq_some.mp h
    cases h
    -- a key is discarded, or `Start` returns
    by_cases hw : w = .err <;>
      simp [rank, hmain, hw, startRank, ProcessAct.advances, ProcessAct.own, ProcessAct.discards]
  | arrive bs =>
    obtain ⟨-, h⟩ := Option.ite_none_right_eq_some.mp h
    cases h
    exact le_rfl
  | ends ending =>
    obtain ⟨-, h⟩ := Option.ite_none_right_eq_some.mp h
    cases h
    exact le_rfl

/-! ### SIGPIPE -/

/-- The string that the input thread is about to send. -/
def utters (s : Process) : Bool :=
  match s.input with
  | .loop (.inPrompt (.returned (some text) _)) => text ≠ [] ∧ text ≠ ascii "/exit"
  | _ => false

/-- The step calls `send` on the open socket. -/
def sends (s : Process) : ProcessAct → Bool
  | .start (.sendKey _ _ _) => s.client.sessionOpen
  | .start (.sendUsername (some username) _ _) =>
    s.client.sessionOpen && username ≠ [] && username.length ≤ maxUsernameLen
  | .input _ _ => s.client.sessionOpen && s.utters
  | _ => false

/-- A thread that has not ended can take a step, if it need not wait in `recv`. -/
theorem broadcastStep_ready (hne : s.broadcast ≠ .done)
    (hrecv : s.broadcast = .loop .recv → s.client.sessionOpen = false) :
    ∃ s', s.broadcastStep na = some s' := by
  cases hpc : s.broadcast with
  | loop b =>
    cases b with
    | recv =>
      simp [broadcastStep, hpc, Client.recvDecrypted, Client.recvPacket, hrecv hpc]
    | test | lost | blame | taken | push | enqueue => simp [broadcastStep, hpc]
  | halt p again => simp [broadcastStep, hpc]
  | done => exact absurd hpc hne

theorem uiStep_ready (hne : s.ui ≠ .done) : ∃ s', s.uiStep u = some s' := by
  cases hpc : s.ui with
  | loop b => cases b <;> simp [uiStep, hpc]
  | halt p again => simp [uiStep, hpc]
  | done => exact absurd hpc hne

/-- So can the input thread, but for a line that it is about to send. -/
theorem inputStep_ready (hstage : s.client.stage = .started) (hne : s.input ≠ .done) :
    ∃ a s', a.advances = true ∧ s.step na iswprint u a = some s' ∧
      (s.sends a = true → s.client.sessionOpen = true ∧ s.input.stop? = none) := by
  cases hpc : s.input with
  | loop b =>
    have hopen : ∀ nonce sched, s.sends (.input nonce sched) = true →
        s.client.sessionOpen = true ∧ (Pc.loop b).stop? = none := by
      intro nonce sched hsends
      exact ⟨(Bool.and_eq_true_iff.mp hsends).1, rfl⟩
    cases b with
    | test => exact ⟨.input [] [], _, rfl, by rw [step, if_pos hstage, inputStep, hpc], hopen _ _⟩
    | prompt => exact ⟨.input [] [], _, rfl, by rw [step, if_pos hstage, inputStep, hpc], hopen _ _⟩
    | inPrompt p =>
      cases p with
      | testing l =>
        exact ⟨.input [] [], _, rfl, by rw [step, if_pos hstage, inputStep, hpc], hopen _ _⟩
      | reading l =>
        -- `wget_wch` does not wait: it returns ERR
        exact ⟨.key .err, _, rfl, by rw [step, if_pos hstage, keyStep, hpc], fun h => by cases h⟩
      | returned inputOpt enter =>
        have hnonce : (List.replicate secretboxNonceBytes 0 : Bytes).length = secretboxNonceBytes :=
          List.length_replicate
        exact ⟨.input (List.replicate secretboxNonceBytes 0) [], _, rfl,
          by rw [step, if_pos hstage, inputStep, hpc]; exact if_pos hnonce, hopen _ _⟩
      | threw =>
        exact ⟨.input [] [], _, rfl, by rw [step, if_pos hstage, inputStep, hpc], hopen _ _⟩
  | halt p again =>
    exact ⟨.input [] [], s.halting p again .input, rfl, by simp [step, hstage, inputStep, hpc],
      by simp [sends, utters, hpc]⟩
  | done => exact absurd hpc hne

theorem sends_advances {a : ProcessAct} (h : s.sends a = true) : a.advances = true := by
  cases a <;> first | rfl | cases h

/-- Until `Start` has returned, the program can take a step that takes it on and waits neither in
    `recv` nor in `send`, whatever the server and the user do. -/
theorem Reach.enabled (h : Reach na iswprint u s) (hstage : s.client.stage = .started)
    (hreport : s.report = none) : ∃ a s',
      a.advances = true ∧ s.sends a = false ∧ s.step na iswprint u a = some s' := by
  have horderly := h.orderly hstage
  by_cases hui : s.ui = .done
  case neg =>
    obtain ⟨s', hs'⟩ : ∃ s', s.uiStep u = some s' := uiStep_ready hui
    exact ⟨.ui, s', rfl, rfl, by rw [step, if_pos hstage, hs']⟩
  have hstop := horderly.ended .ui (by rw [finished, hui]; rfl)
  -- while the socket is open, some thread stands in `Stop`; it is not the one that prints
  have hinside : s.client.sessionOpen = true →
      s.broadcast.stop? ≠ none ∨ s.input.stop? ≠ none := by
    intro hopen
    by_contra hnone
    obtain ⟨hb, hi⟩ := not_or.mp hnone
    refine absurd (horderly.closed hstop fun t => ?_).2.2.2.1 (by simp [hopen])
    cases t with
    | broadcast => simp [halts, not_not.mp hb]
    | input => simp [halts, not_not.mp hi]
    | ui => simp [halts, hui, Pc.stop?]
  by_cases hbroadcast : s.broadcast ≠ .done ∧
      (s.broadcast = .loop .recv → s.client.sessionOpen = false)
  · obtain ⟨s', hs'⟩ : ∃ s', s.broadcastStep na = some s' :=
      broadcastStep_ready hbroadcast.1 hbroadcast.2
    exact ⟨.broadcast, s', rfl, rfl, by rw [step, if_pos hstage, hs']⟩
  have houtside : s.broadcast.stop? = none := by
    cases hpc : s.broadcast with
    | halt p again => exact absurd ⟨by simp [hpc], by simp [hpc]⟩ hbroadcast
    | loop b => rfl
    | done => rfl
  by_cases hinput : s.input = .done
  case neg =>
    obtain ⟨a, s', hadvances, hs', hsends⟩ : ∃ a s', a.advances = true ∧
        s.step na iswprint u a = some s' ∧ (s.sends a = true → _ ∧ _) :=
      inputStep_ready hstage hinput
    refine ⟨a, s', hadvances, ?_, hs'⟩
    by_contra hsend
    obtain ⟨hopen, hloop⟩ := hsends (by simpa using hsend)
    rcases hinside hopen with hin | hin
    · exact hin houtside
    · exact hin hloop
  have hclosed : s.client.sessionOpen = false := by
    by_contra hopen
    rcases hinside (by simpa using hopen) with hin | hin
    · exact hin houtside
    · exact hin (by rw [hinput]; rfl)
  have hdone : s.broadcast = .done := by
    by_contra hne
    exact hbroadcast ⟨hne, fun _ => hclosed⟩
  cases hmain : s.main with
  | join => exact ⟨.finish, _, rfl, rfl, by rw [step, if_pos ⟨hdone, hinput, hui, hmain⟩]⟩
  | flush => exact ⟨.flush .err, _, rfl, rfl, by rw [step, if_pos hmain]⟩
  | returned out => simp [report, hmain] at hreport

end program

/-- The client program, until SIGPIPE ends it. -/
inductive Program where
  | alive (s : Process)
  | killed
  deriving DecidableEq

inductive ProgramAct where
  | step (a : ProcessAct)
  /-- The step calls `send` on a socket that is shut down, or whose peer has gone. -/
  | sigpipe (a : ProcessAct)

def ProgramAct.advances : ProgramAct → Bool
  | .step a => a.advances
  | .sigpipe _ => true

def Program.step (na : Sodium) (iswprint : WChar → Bool) (u : Utf8) :
    ProgramAct → Program → Option Program
  | .step a, .alive s => (s.step na iswprint u a).map .alive
  | .sigpipe a, .alive s =>
    if s.sends a ∧ s.ch.ending ≠ .alive ∧ (s.step na iswprint u a).isSome then some .killed
    else none
  | _, .killed => none

/-- What `Start` has printed when it has returned. -/
def Program.report : Program → Option Bytes
  | .alive s => s.report
  | .killed => none

/-- How many steps are left, at most, of the program. -/
def Program.rank : Program → ℕ
  | .alive s => s.rank
  | .killed => 0

section program

variable {na : Sodium} {iswprint : WChar → Bool} {u : Utf8} {s s' : Process}

/-- INVARIANT: the flags are cleared while the program is alive. -/
def Program.Late (na : Sodium) (iswprint : WChar → Bool) (u : Utf8) : Program → Prop
  | .alive s => Reach na iswprint u s ∧ Cleared s
  | .killed => True

/-- STEP: the signal brings the end nearer too. -/
theorem Program.step_rank {e : ProgramAct} {p p' : Program} (hp : p.Late na iswprint u)
    (h : p.step na iswprint u e = some p') :
    p'.Late na iswprint u ∧ p'.rank + (if e.advances then 1 else 0) ≤ p.rank := by
  cases p with
  | killed => cases e <;> cases h
  | alive s =>
    obtain ⟨hreach, hcleared⟩ := hp
    cases e with
    | step a =>
      obtain ⟨s', hs', rfl⟩ := Option.map_eq_some_iff.mp h
      obtain ⟨hcleared', hrank⟩ := Process.step_rank hs' hcleared
      exact ⟨⟨hreach.next hs', hcleared'⟩, hrank⟩
    | sigpipe a =>
      obtain ⟨⟨hsends, -, hsome⟩, h⟩ := Option.ite_none_right_eq_some.mp h
      cases h
      obtain ⟨s', hs'⟩ := Option.isSome_iff_exists.mp hsome
      obtain ⟨-, hrank⟩ := Process.step_rank hs' hcleared
      rw [if_pos (sends_advances hsends)] at hrank
      exact ⟨trivial, le_trans (Nat.succ_le_succ (Nat.zero_le _)) hrank⟩

/-- BOUND: once the flags are cleared, the program takes at most 62 more steps, in any order, but
    for the keys that `FlushInput` discards; and while `Start` has not returned and SIGPIPE has not
    ended the program, a step can be taken that waits neither in `recv` nor in `send`, whatever the
    server and the user do. -/
theorem start_returns (h : Reach na iswprint u s) (hstage : s.client.stage = .started)
    (hui : s.client.uiRunning = false) {es : List ProgramAct} {p : Program}
    (hrun : run (Program.step na iswprint u) es (.alive s) = some p) :
    es.countP ProgramAct.advances ≤ 62 ∧
      ∀ s', p = .alive s' → s'.report = none → ∃ a s'',
        a.advances = true ∧ s'.sends a = false ∧ s'.step na iswprint u a = some s'' := by
  have horder := (h.orderly hstage).order
  have hcleared : Cleared s :=
    ⟨hstage, horder.stopping (horder.running hui), horder.running hui, hui⟩
  have hfirst : (Program.alive s).Late na iswprint u := ⟨h, hcleared⟩
  obtain ⟨hlate, hrank⟩ := run_rank (Program.step na iswprint u)
    (I := Program.Late na iswprint u) Program.rank ProgramAct.advances
    (fun _ _ _ hp hstep => Program.step_rank hp hstep) hfirst hrun
  have hle : (Program.alive s).rank ≤ 62 := rank_le s
  refine ⟨by omega, ?_⟩
  rintro s' rfl hreport
  obtain ⟨hreach, hcleared'⟩ : Reach na iswprint u s' ∧ Cleared s' := hlate
  exact hreach.enabled hcleared'.1 hreport

/-! ### Closed once -/

/-- No call of `Stop` finds `m_stopping` clear while another stands between its test and its
    assignment. -/
def Apart (a : ProcessAct) (s : Process) : Prop :=
  ∀ t, a.tid = some t → s.halts t = some .test → s.client.stopping = false →
    ∀ t', s.halts t' ≠ some .stopping

/-- STEP: a second call of `Stop` goes on exactly where it is not apart. -/
theorem entered_step (h : Reach na iswprint u s) {a : ProcessAct}
    (hstep : s.step na iswprint u a = some s') :
    s'.entered ≤ 1 ↔ s.entered ≤ 1 ∧ Apart a s := by
  have hkeep : s'.entered = s.entered → Apart a s → (s'.entered ≤ 1 ↔ s.entered ≤ 1 ∧ Apart a s) :=
    fun heq hapart => by rw [heq, and_iff_left hapart]
  cases step_moved hstep with
  | starts _ _ heq => exact hkeep (by rw [heq]) (by rintro t ⟨⟩)
  | @calm _ t _ htid hcalm =>
    refine hkeep (congrArg Control.entered hcalm.control) fun t' ht' hp => ?_
    obtain rfl : t = t' := Option.some.inj (htid.symm.trans ht')
    rw [hcalm.before] at hp
    cases hp
  | @halts _ t p again hstage htid hp heq =>
    have horder := (h.orderly hstage).order
    have hentered :
        s'.entered = s.entered + if p = .test ∧ s.client.stopping = false then 1 else 0 :=
      congrArg Control.entered (heq ▸ halting_control s p again t)
    by_cases hpass : p = .test ∧ s.client.stopping = false
    · obtain ⟨rfl, hclear⟩ := hpass
      rw [hentered, if_pos ⟨rfl, hclear⟩]
      have hapart : Apart a s ↔ ∀ t', s.halts t' ≠ some .stopping := by
        refine ⟨fun hapart => hapart t htid hp hclear, fun hnone _ _ _ _ => hnone⟩
      rw [hapart]
      constructor
      · intro hle
        refine ⟨by omega, fun t' ht' => ?_⟩
        have hpos : 0 < s.entered := horder.inside t' .stopping ht'
        omega
      · rintro ⟨-, hnone⟩
        by_contra hgt
        obtain ⟨t', ht'⟩ := horder.atStopping (by show 0 < s.entered; omega) hclear
        exact hnone t' ht'
    · rw [if_neg hpass] at hentered
      refine hkeep hentered fun t' ht' htest hclear => ?_
      obtain rfl : t = t' := Option.some.inj (htid.symm.trans ht')
      exact absurd ⟨Option.some.inj (hp.symm.trans htest), hclear⟩ hpass
  | finishes _ _ _ _ heq => exact hkeep (by rw [heq]) (by rintro t ⟨⟩)
  | flushes _ heq => exact hkeep (by rw [heq]) (by rintro t ⟨⟩)
  | arrives heq => exact hkeep (by rw [heq]) (by rintro t ⟨⟩)
  | ended _ heq => exact hkeep (by rw [heq]) (by rintro t ⟨⟩)

/-- RUNS: only one call of `Stop` goes on if and only if all are apart. -/
theorem entered_le_one_iff {s₀ : Process} (h₀ : Initial s₀) {es : List ProcessAct}
    (hrun : run (step na iswprint u) es s₀ = some s) :
    s.entered ≤ 1 ↔ Along (step na iswprint u) Apart es s₀ := by
  have hiff := along_iff (step na iswprint u) (I := Reach na iswprint u)
    (F := fun s => s.entered ≤ 1) (fun _ _ _ hs hstep => ⟨hs.next hstep, entered_step hs hstep⟩)
    (Reachable.start h₀) hrun
  rw [hiff, and_iff_right]
  obtain ⟨cuts, rfl⟩ := h₀
  exact Nat.zero_le 1

/-- JOINED: when `Start` returns, every flag is cleared, the session is closed, and `close` has been
    called; not more often than calls of `Stop` found `m_stopping` clear, so once if all were
    apart. -/
theorem closed_once {s₀ : Process} (h₀ : Initial s₀) {es : List ProcessAct}
    (hrun : run (step na iswprint u) es s₀ = some s) (hreport : s.report ≠ none) :
    s.client.running = false ∧ s.client.uiRunning = false ∧ s.client.sessionOpen = false ∧
      s.socket = false ∧ 1 ≤ s.closes ∧ s.closes ≤ s.entered ∧
      (Along (step na iswprint u) Apart es s₀ → s.closes = 1) := by
  have h : Reach na iswprint u s := ⟨s₀, es, h₀, hrun⟩
  have hmain : s.main ≠ .join := by
    intro hjoin
    simp [report, hjoin] at hreport
  have hstage : s.client.stage = .started := by
    by_contra hne
    exact hmain (h.idle hne).log.1
  have horderly := h.orderly hstage
  obtain ⟨-, hrunning, hui, hsocket, hopen, hcloses⟩ := horderly.cleared (horderly.joined hmain)
  have hcounted : s.closes ≤ s.entered := le_trans (Nat.le_add_right _ _) horderly.order.counted
  refine ⟨hrunning, hui, hopen, hsocket, hcloses, hcounted, fun hapart => ?_⟩
  have hone := (entered_le_one_iff h₀ hrun).mpr hapart
  omega

end program

/-! ### Concrete runs -/

/-- The rest of a run in which the server has left and a key is waiting. -/
def sampleEnd : List ProgramAct :=
  ((List.replicate 4 .broadcast ++ [.ui, .ui, .input [] [], .input [] [], .finish,
    .flush (.char newline), .flush .err] : List ProcessAct)).map .step

theorem start_returns_left : ∃ s p, sampleRun (serverLeaves 8) = some s ∧
    run (Program.step .plain asciiPrint .core) sampleEnd (.alive s) = some p ∧
    p.report = some (ascii "Exited: Server closed connection.\n") ∧
    sampleEnd.countP ProgramAct.advances ≤ 62 := by
  have hboth : ((sampleRun (serverLeaves 8)).any fun s =>
      decide (s.client.stage = .started ∧ s.client.uiRunning = false) &&
        (run (Program.step .plain asciiPrint .core) sampleEnd (.alive s)).any fun p =>
          decide (p.report = some (ascii "Exited: Server closed connection.\n"))) = true := by
    decide +kernel
  obtain ⟨s, hs, hboth⟩ := (Option.any_eq_true _ _).mp hboth
  obtain ⟨hflags, hrest⟩ := Bool.and_eq_true_iff.mp hboth
  obtain ⟨hstage, hui⟩ := of_decide_eq_true hflags
  obtain ⟨p, hp, hreport⟩ := (Option.any_eq_true _ _).mp hrest
  exact ⟨s, p, hs, hp, of_decide_eq_true hreport,
    (start_returns (sampleRun_reach hs) hstage hui hp).1⟩

-- A line is sent while the other thread stands between `shutdown` and `close`.
example : ((sampleRun ((types (ascii "hi")).dropLast ++ serverLeaves 10)).any fun s =>
    decide (s.broadcast = .halt .close false ∧ Program.step .plain asciiPrint .core
      (.sigpipe (.input (List.replicate secretboxNonceBytes 1) [])) (.alive s) = some .killed)) =
    true := by
  decide +kernel

theorem closed_once_left : ∃ s, sampleRun (serverLeaves 12 ++ othersLeave) = some s ∧
    s.client.sessionOpen = false ∧ s.closes = 1 := by
  have hrun : ((sampleRun (serverLeaves 12 ++ othersLeave)).any fun s =>
      decide (s.report ≠ none ∧ s.entered = 1)) = true := by decide +kernel
  obtain ⟨s, hs, heq⟩ := (Option.any_eq_true _ _).mp hrun
  obtain ⟨hreport, hentered⟩ := of_decide_eq_true heq
  obtain ⟨-, -, hopen, -, -, -, hone⟩ := closed_once ⟨[], rfl⟩ hs hreport
  exact ⟨s, hs, hopen, hone ((entered_le_one_iff ⟨[], rfl⟩ hs).mp hentered.le)⟩

-- A race: the user leaves as the server does. Both calls of `Stop` find `m_stopping` clear, and the
-- descriptor is closed twice.
example : ((sampleRun (types (ascii "/exit") ++ serverLeaves 5 ++ [.input [] []] ++
    List.replicate 5 .broadcast ++ List.replicate 5 (.input [] []) ++
    [.broadcast, .input [] []])).any fun s => decide (s.closes = 2)) = true := by
  decide +kernel

end Process

end CliChat
