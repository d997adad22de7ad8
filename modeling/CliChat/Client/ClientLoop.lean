import CliChat.Client.PromptInput
import CliChat.Client.Outcome
import CliChat.Lib.Transition

/-! @src client/src/client.cpp | name:ClientLoop, Stop | scheme:interleaving

    The thread of `ClientLoop` against calls of `Stop` by other threads. A step is one access to
    what they share: a flag, the session, a code from `wget_wch`. `PromptInput` tests
    `m_ui.running` at its start and before each code, and leaves at the second test as it does at a
    newline.

        Stop        m_stopping? ─▶ stopping ─▶ running ─▶ ui.running ─▶ session
        ClientLoop  m_running? ─▶ PromptInput (ui.running? ─▶ ui.running? ─▶ code ─▶ …) ─▶ send -/

namespace CliChat

open Transition

/-! ### Stop -/

/-- Where a call of `Stop` stands: what it does next. -/
inductive StopPc where
  | test
  | stopping
  | running
  | uiRunning
  | closeSession
  | done
  deriving DecidableEq

def Client.stopStep (c : Client) : StopPc → Client × StopPc
  | .test => (c, if c.stopping then .done else .stopping)
  | .stopping => ({ c with stopping := true }, .running)
  | .running => ({ c with running := false }, .uiRunning)
  | .uiRunning => ({ c with uiRunning := false }, .closeSession)
  | .closeSession => ({ c with sessionOpen := false }, .done)
  | .done => (c, .done)

/-- REFINES: the steps of a call that nothing comes between are `Client::Stop`. -/
theorem Client.stopStep_stop (c : Client) :
    (fun x : Client × StopPc => x.1.stopStep x.2)^[5] (c, .test) = (c.stop, .done) := by
  cases h : c.stopping <;> simp [Client.stopStep, Client.stop, h]

/-! ### The thread of ClientLoop -/

/-- Where `ClientLoop` stands; `again` in a call of `Stop` after which there is another. -/
inductive LoopPc where
  | test
  | prompt
  | inPrompt (p : Prompt)
  | stop (p : StopPc) (again : Bool)
  | done
  deriving DecidableEq

/-- The client, its input thread and the calls of `Stop` by other threads. The last two fields are a
    ghost log, with the newline that `PromptInput` read or did not read. -/
structure ClientThreads where
  client : Client
  pc : LoopPc := .test
  stops : List StopPc := []
  /-- What `PromptInput` returned. -/
  returned : List (Option Bytes × Bool) := []
  /-- The inputs that went to `SendEncrypted`. -/
  passed : List (Bytes × Bool) := []
  deriving DecidableEq

inductive ThreadStep where
  | loop (nonce : Bytes) (sched : Answers)
  | read (w : Wch)
  /-- Another thread calls `Stop`. -/
  | call
  | other (i : ℕ)

/-- What was returned, once it has. -/
def Prompt.result : Prompt → Option (Option Bytes × Bool)
  | .returned inputOpt enter => some (inputOpt, enter)
  | _ => none

/-- What is returned, if anything is, is a string exactly after a newline. -/
def Prompt.Sure (p : Prompt) : Prop := ∀ x ∈ p.result, x.1.isSome ↔ x.2 = true

/-- The line under edit is printable. -/
def Prompt.Printable (iswprint : WChar → Bool) (p : Prompt) : Prop :=
  ∀ l, p = .testing l ∨ p = .reading l → ∃ z, l = lineOf z ∧ ∀ c ∈ z.text, iswprint c = true

section prompt

variable {iswprint : WChar → Bool} {u : Utf8} {l : Line}

theorem Prompt.enter_sure (running : Bool) : (Prompt.enter running).Sure := by
  cases running <;> simp [Prompt.enter, Prompt.Sure, Prompt.result]

theorem Prompt.test_sure {running : Bool} (h : running = true) :
    ((Prompt.testing l).test u running).Sure := by
  simp [Prompt.test, Prompt.Sure, Prompt.result, h]

theorem Line.return_result {enter : Bool} : ∀ x ∈ (l.return u enter).result,
    x.1.isSome = true ∧ x.2 = enter := by
  unfold Line.return
  cases u.utf32to8 l.input <;> simp [Prompt.result]

theorem Prompt.read_sure (l : Line) (w : Wch) : ((Prompt.reading l).read iswprint u w).Sure := by
  intro x hx
  unfold Prompt.read at hx
  cases hcode : w.code with
  | none => simp [hcode, Prompt.result] at hx
  | some ch =>
    simp only [hcode] at hx
    split at hx
    · obtain ⟨hsome, henter⟩ := Line.return_result x hx
      exact iff_of_true hsome henter
    · cases hl : l.switch iswprint ch <;> simp [hl, Prompt.result] at hx

theorem Prompt.enter_printable (running : Bool) : (Prompt.enter running).Printable iswprint := by
  intro l hl
  cases running
  · simp [Prompt.enter] at hl
  · have hempty : ⟨[], 0⟩ = l := by simpa [Prompt.enter] using hl
    exact ⟨.empty, hempty.symm, by simp [Zipper.empty, Zipper.text]⟩

theorem Line.return_printable {enter : Bool} : (l.return u enter).Printable iswprint := by
  intro l' hl'
  unfold Line.return at hl'
  cases hbs : u.utf32to8 l.input <;> simp [hbs] at hl'

theorem Prompt.test_printable (h : (Prompt.testing l).Printable iswprint) (running : Bool) :
    ((Prompt.testing l).test u running).Printable iswprint := by
  cases running
  · exact Line.return_printable
  · intro l' hl'
    have hl : l = l' := by simpa [Prompt.test] using hl'
    exact h l' (.inl (by rw [hl]))

theorem Prompt.read_printable (h : (Prompt.reading l).Printable iswprint) (w : Wch) :
    ((Prompt.reading l).read iswprint u w).Printable iswprint := by
  obtain ⟨z, rfl, hz⟩ := h l (.inr rfl)
  unfold Prompt.read
  cases w.code with
  | none =>
    intro l' hl'
    have hl : lineOf z = l' := by simpa using hl'
    exact ⟨z, hl.symm, hz⟩
  | some ch =>
    dsimp only
    split
    · exact Line.return_printable
    · rw [switch_lineOf]
      intro l' hl'
      have hl : lineOf (referenceKey iswprint z ch) = l' := by simpa using hl'
      exact ⟨_, hl.symm, mem_referenceKey hz ch⟩

/-- A test that finds `running` cleared returns the line as it is. -/
theorem Prompt.test_broken (hprint : ∀ ch, iswprint ch = true → ch.isValidChar) (hu : u.Lawful)
    (h : (Prompt.testing l).Printable iswprint) :
    ∃ bs, (Prompt.testing l).test u false = .returned (some bs) false := by
  obtain ⟨z, rfl, hz⟩ := h l (.inl rfl)
  obtain ⟨cs, -, hreturn⟩ := return_lineOf hprint hu hz false
  exact ⟨_, hreturn⟩

end prompt

namespace ClientThreads

variable (na : Sodium) (iswprint : WChar → Bool) (u : Utf8)

/-- `PromptInput` has come to `p`. -/
def promptAt (s : ClientThreads) (p : Prompt) : ClientThreads :=
  { s with pc := .inPrompt p, returned := s.returned ++ p.result.toList }

/-- The body of `ClientLoop`, after `PromptInput`. -/
def onInput (s : ClientThreads) (nonce : Bytes) (sched : Answers) (enter : Bool) :
    Option Bytes → ClientThreads
  | none => { s with pc := .stop .test false }
  | some input =>
    if input = [] then { s with pc := .test }
    else if input = ascii "/exit" then { s with pc := .stop .test true }
    else
      { s with
        client := (s.client.sendEncrypted na (s.client.username ++ ascii ": " ++ input)
          nonce sched).2.2
        pc := .test
        passed := s.passed ++ [(input, enter)] }

/-- The next step of the input thread, when it does not wait for a code. -/
def loop (s : ClientThreads) (nonce : Bytes) (sched : Answers) : Option ClientThreads :=
  match s.pc with
  | .test => some { s with pc := if s.client.running then .prompt else .stop .test false }
  | .prompt => some (s.promptAt (.enter s.client.uiRunning))
  | .inPrompt (.testing l) => some (s.promptAt ((Prompt.testing l).test u s.client.uiRunning))
  | .inPrompt (.reading _) => none
  | .inPrompt (.returned inputOpt enter) =>
    if nonce.length = secretboxNonceBytes then some (s.onInput na nonce sched enter inputOpt)
    else none
  -- the handler of `Start` calls `Stop`
  | .inPrompt .threw => some { s with pc := .stop .test false }
  | .stop .done again => some { s with pc := if again then .stop .test false else .done }
  | .stop p again =>
    some { s with client := (s.client.stopStep p).1, pc := .stop (s.client.stopStep p).2 again }
  | .done => none

def step : ThreadStep → ClientThreads → Option ClientThreads
  | .loop nonce sched, s => s.loop na u nonce sched
  | .read w, s =>
    match s.pc with
    | .inPrompt (.reading l) => some (s.promptAt ((Prompt.reading l).read iswprint u w))
    | _ => none
  | .call, s => some { s with stops := s.stops ++ [.test] }
  | .other i, s => s.stops[i]?.map fun p =>
    { s with client := (s.client.stopStep p).1, stops := s.stops.set i (s.client.stopStep p).2 }

/-- `PromptInput` returned a string exactly where it read a newline, and what went to
    `SendEncrypted` was ended by one. -/
def Confirmed (s : ClientThreads) : Prop :=
  (∀ x ∈ s.returned, x.1.isSome ↔ x.2 = true) ∧ ∀ x ∈ s.passed, x.2 = true

/-- The test in the loop of `PromptInput` does not find `running` cleared. -/
def Unbroken : ThreadStep → ClientThreads → Prop
  | .loop _ _, s => ∀ l, s.pc = .inPrompt (.testing l) → s.client.uiRunning = true
  | _, _ => True

section steps

variable {na : Sodium} {iswprint : WChar → Bool} {u : Utf8} {s s' : ClientThreads} {e : ThreadStep}
  {p : Prompt}

/-- The steps that take `PromptInput` further. -/
inductive Advances (iswprint : WChar → Bool) (u : Utf8) (s : ClientThreads) :
    ThreadStep → Prompt → Prop
  | enter {nonce : Bytes} {sched : Answers} :
    s.pc = .prompt → Advances iswprint u s (.loop nonce sched) (.enter s.client.uiRunning)
  | test {nonce : Bytes} {sched : Answers} {l : Line} :
    s.pc = .inPrompt (.testing l) →
      Advances iswprint u s (.loop nonce sched) ((Prompt.testing l).test u s.client.uiRunning)
  | read {w : Wch} {l : Line} :
    s.pc = .inPrompt (.reading l) →
      Advances iswprint u s (.read w) ((Prompt.reading l).read iswprint u w)

/-- The other steps: nothing is returned, and only what had been returned is passed on. -/
structure Passes (s s' : ClientThreads) : Prop where
  returned : s'.returned = s.returned
  pc : ∀ p, s'.pc = .inPrompt p → s.pc = .inPrompt p
  passed : s'.passed = s.passed ∨ ∃ input enter,
    s.pc = .inPrompt (.returned (some input) enter) ∧ s'.passed = s.passed ++ [(input, enter)]

theorem onInput_passes {inputOpt : Option Bytes} {enter : Bool} {nonce : Bytes} {sched : Answers}
    (hpc : s.pc = .inPrompt (.returned inputOpt enter)) :
    Passes s (s.onInput na nonce sched enter inputOpt) := by
  cases inputOpt with
  | none => exact ⟨rfl, fun p h => (by cases h), .inl rfl⟩
  | some input =>
    unfold onInput
    dsimp only
    split_ifs
    · exact ⟨rfl, fun p h => (by cases h), .inl rfl⟩
    · exact ⟨rfl, fun p h => (by cases h), .inl rfl⟩
    · exact ⟨rfl, fun p h => (by cases h), .inr ⟨input, enter, hpc, rfl⟩⟩

/-- STEP: either `PromptInput` goes on, or it does not. -/
theorem step_cases (h : s.step na iswprint u e = some s') :
    (∃ p, Advances iswprint u s e p ∧ s' = s.promptAt p) ∨ Passes s s' := by
  cases e with
  | loop nonce sched =>
    simp only [step, loop] at h
    split at h
    · cases h
      refine .inr ⟨rfl, fun p hp => ?_, .inl rfl⟩
      dsimp only at hp
      split at hp <;> cases hp
    · rename_i hpc
      cases h
      exact .inl ⟨_, .enter hpc, rfl⟩
    · rename_i l hpc
      cases h
      exact .inl ⟨_, .test hpc, rfl⟩
    · cases h
    · rename_i inputOpt enter hpc
      split at h
      · cases h
        exact .inr (onInput_passes hpc)
      · cases h
    · cases h
      exact .inr ⟨rfl, fun p hp => (by cases hp), .inl rfl⟩
    · cases h
      refine .inr ⟨rfl, fun p hp => ?_, .inl rfl⟩
      dsimp only at hp
      split at hp <;> cases hp
    · cases h
      exact .inr ⟨rfl, fun p hp => (by cases hp), .inl rfl⟩
    · cases h
  | read w =>
    simp only [step] at h
    split at h
    · rename_i l hpc
      cases h
      exact .inl ⟨_, .read hpc, rfl⟩
    · cases h
  | call =>
    cases h
    exact .inr ⟨rfl, fun p hp => hp, .inl rfl⟩
  | other i =>
    obtain ⟨p, -, rfl⟩ := Option.map_eq_some_iff.mp h
    exact .inr ⟨rfl, fun p hp => hp, .inl rfl⟩

/-! ### Confirmed lines -/

/-- Everything returned so far, by the ghost log or on its way to it, is a string exactly after a
    newline. -/
structure Sure (s : ClientThreads) : Prop where
  confirmed : s.Confirmed
  pc : ∀ p, s.pc = .inPrompt p → p.Sure

theorem Advances.sure (h : Advances iswprint u s e p) (hun : Unbroken e s) : p.Sure := by
  cases h with
  | enter => exact Prompt.enter_sure _
  | test hpc => exact Prompt.test_sure (hun _ hpc)
  | read => exact Prompt.read_sure _ _

theorem Sure.next (hs : Sure s) (hun : Unbroken e s) (h : s.step na iswprint u e = some s') :
    Sure s' := by
  obtain ⟨⟨hret, hpass⟩, hpc⟩ := hs
  rcases step_cases h with ⟨p, hadv, rfl⟩ | hother
  · have hp := hadv.sure hun
    refine ⟨⟨fun x hx => ?_, hpass⟩, fun q hq => ?_⟩
    · rcases List.mem_append.mp hx with hx | hx
      · exact hret x hx
      · exact hp x (Option.mem_toList.mp hx)
    · cases hq
      exact hp
  · refine ⟨⟨hother.returned ▸ hret, ?_⟩, fun p hp => hpc p (hother.pc p hp)⟩
    rcases hother.passed with hsame | ⟨input, enter, hat, hsame⟩
    · exact hsame ▸ hpass
    · rw [hsame]
      intro x hx
      rcases List.mem_append.mp hx with hx | hx
      · exact hpass x hx
      · rw [List.mem_singleton.mp hx]
        exact (hpc _ hat _ rfl).mp rfl

/-- RUNS: if no test in the loop of `PromptInput` finds `running` cleared, every string it returned
    was ended by a newline. -/
theorem Sure.along {es : List ThreadStep} (hs : Sure s)
    (hun : Along (step na iswprint u) Unbroken es s)
    (h : Transition.run (step na iswprint u) es s = some s') : Sure s' :=
  along_invariant _ (fun _ _ _ hI hP hstep => hI.next hP hstep) hs hun h

/-! ### Broken lines -/

theorem step_returned (h : s.step na iswprint u e = some s') : s.returned ⊆ s'.returned := by
  rcases step_cases h with ⟨p, -, rfl⟩ | hother
  · exact List.subset_append_left _ _
  · rw [hother.returned]
    exact List.Subset.refl _

/-- The line under edit is printable. -/
def Printable (iswprint : WChar → Bool) (s : ClientThreads) : Prop :=
  ∀ p, s.pc = .inPrompt p → p.Printable iswprint

theorem Printable.next (hs : Printable iswprint s) (h : s.step na iswprint u e = some s') :
    Printable iswprint s' := by
  rcases step_cases h with ⟨p, hadv, rfl⟩ | hother
  · intro q hq
    cases hq
    cases hadv with
    | enter => exact Prompt.enter_printable _
    | test hpc => exact Prompt.test_printable (hs _ hpc) _
    | read hpc => exact Prompt.read_printable (hs _ hpc) _
  · exact fun p hp => hs p (hother.pc p hp)

/-- A test that finds `running` cleared returns a line that no newline ended. -/
theorem broken_returned (hprint : ∀ ch, iswprint ch = true → ch.isValidChar) (hu : u.Lawful)
    (hs : Printable iswprint s) (hun : ¬ Unbroken e s) (h : s.step na iswprint u e = some s') :
    ∃ bs, (some bs, false) ∈ s'.returned := by
  cases e with
  | read w => exact absurd trivial hun
  | call => exact absurd trivial hun
  | other i => exact absurd trivial hun
  | loop nonce sched =>
    simp only [Unbroken, not_forall, Bool.not_eq_true] at hun
    obtain ⟨l, hpc, hrunning⟩ := hun
    obtain ⟨bs, hbs⟩ := Prompt.test_broken hprint hu (hs _ hpc)
    simp only [step, loop, hpc, hrunning, hbs, Option.some.injEq] at h
    subst h
    exact ⟨bs, by simp [promptAt, Prompt.result]⟩

theorem unbroken_of_confirmed (hprint : ∀ ch, iswprint ch = true → ch.isValidChar)
    (hu : u.Lawful) : ∀ {es : List ThreadStep} {s s' : ClientThreads}, Printable iswprint s →
    Transition.run (step na iswprint u) es s = some s' → s'.Confirmed →
    Along (step na iswprint u) Unbroken es s
  | [], _, _, _, _, _ => trivial
  | e :: es, s, s', hs, h, hconf => by
    obtain ⟨m, hm, hrest⟩ := (run_cons_some _).mp h
    refine ⟨?_, fun m' hm' => ?_⟩
    · by_contra hun
      obtain ⟨bs, hbs⟩ := broken_returned hprint hu hs hun hm
      have hkept : m.returned ⊆ s'.returned :=
        run_relation (step na iswprint u) (I := fun _ => True)
          (R := fun a b => a.returned ⊆ b.returned) (fun _ _ _ _ _ => trivial)
          (fun _ _ => List.Subset.refl _) (fun _ _ _ hab hbc => List.Subset.trans hab hbc)
          (fun _ _ _ _ hstep => step_returned hstep) trivial hrest
      exact absurd ((hconf.1 _ (hkept hbs)).mp rfl) Bool.false_ne_true
    · rw [hm] at hm'
      cases hm'
      exact unbroken_of_confirmed hprint hu (hs.next hm) hrest hconf

/-- EXACT: whatever the user types and whenever other threads call `Stop`, `PromptInput` has
    returned strings exactly after a newline, and only such strings have gone to `SendEncrypted`, if
    and only if no test in its loop found `running` cleared. -/
theorem confirmed_iff (hprint : ∀ ch, iswprint ch = true → ch.isValidChar) (hu : u.Lawful)
    (c : Client) {es : List ThreadStep}
    (h : Transition.run (step na iswprint u) es { client := c } = some s) :
    s.Confirmed ↔ Along (step na iswprint u) Unbroken es { client := c } := by
  constructor
  · intro hconf
    exact unbroken_of_confirmed hprint hu (fun p hp => (by cases hp)) h hconf
  · intro hun
    have hstart : Sure { client := c } :=
      ⟨⟨fun x hx => (by cases hx), fun x hx => (by cases hx)⟩, fun p hp => (by cases hp)⟩
    exact (hstart.along hun h).confirmed

end steps

/-! ### A line that was not ended -/

/-- A client that has started. -/
def sample : ClientThreads :=
  { client :=
      { stage := .started
        groupKey := List.replicate secretboxKeyBytes 7
        username := ascii "al"
        running := true } }

/-- The user has typed "hi". -/
def typing (nonce : Bytes) : List ThreadStep :=
  [.loop nonce [], .loop nonce [], .loop nonce [], .read (.char 104), .loop nonce [],
    .read (.char 105)]

/-- And ends the line. -/
theorem typed_unbroken : Along (step .plain asciiPrint .core) Unbroken
    (typing (List.replicate 24 1) ++
      [.loop (List.replicate 24 1) [], .read (.char newline), .loop (List.replicate 24 1) []])
    sample := by
  have hrun : ((Transition.run (step .plain asciiPrint .core)
      (typing (List.replicate 24 1) ++
        [.loop (List.replicate 24 1) [], .read (.char newline), .loop (List.replicate 24 1) []])
      sample).any fun s => decide (s.returned = [(some (ascii "hi"), true)] ∧
        s.passed = [(ascii "hi", true)])) = true := by decide +kernel
  obtain ⟨s, hs, heq⟩ := (Option.any_eq_true _ _).mp hrun
  obtain ⟨hret, hpass⟩ := of_decide_eq_true heq
  refine (confirmed_iff asciiPrint_isValidChar Utf8.core_lawful _ hs).mp ⟨?_, ?_⟩
  · simp [hret]
  · simp [hpass]

/-- BUG: another thread's `Stop` clears the flags before the user has ended the line. The line is
    returned, and sent over the session that `Stop` has not closed yet. -/
theorem unfinished_sent : ∃ s, Transition.run (step .plain asciiPrint .core)
      (typing (List.replicate 24 1) ++ [.call, .other 0, .other 0, .other 0, .other 0,
        .loop (List.replicate 24 1) [], .loop (List.replicate 24 1) []]) sample = some s ∧
    s.returned = [(some (ascii "hi"), false)] ∧ s.passed = [(ascii "hi", false)] ∧
    s.client.said = [(ascii "al: hi", true)] ∧ ¬ s.Confirmed := by
  have hrun : ((Transition.run (step .plain asciiPrint .core)
      (typing (List.replicate 24 1) ++ [.call, .other 0, .other 0, .other 0, .other 0,
        .loop (List.replicate 24 1) [], .loop (List.replicate 24 1) []]) sample).any fun s =>
      decide (s.returned = [(some (ascii "hi"), false)] ∧ s.passed = [(ascii "hi", false)] ∧
        s.client.said = [(ascii "al: hi", true)])) = true := by decide +kernel
  obtain ⟨s, hs, heq⟩ := (Option.any_eq_true _ _).mp hrun
  obtain ⟨hret, hpass, hsaid⟩ := of_decide_eq_true heq
  refine ⟨s, hs, hret, hpass, hsaid, fun h => ?_⟩
  exact absurd (h.2 _ (by rw [hpass]; exact List.mem_singleton_self _)) Bool.false_ne_true

end ClientThreads

end CliChat
