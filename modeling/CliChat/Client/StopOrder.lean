import CliChat.Client.Process

/-! @src client/src/client.cpp, common/src/network_session.cpp | name:Stop, CloseSession |
    scheme:invariant

    `Stop`, called by any number of threads at any time, seen from what it reads and writes. The
    flags are cleared in one order, so each that is still set has a thread that is about to clear
    it (`Order`); a call that finds `m_stopping` set returns at once, and whoever found it clear
    goes to the end.

        entered  stopping  running  ui.running  shutdown  close  -1
           └────────┴─────────┴─────────┴──────────┴────────┴─────┘  in order, by some thread -/

namespace CliChat

namespace Process

/-! ### The flags -/

namespace Control

/-- What a step of `Stop` does. -/
def halt (k : Control) (p : HaltPc) : Control where
  stage := k.stage
  stopping := k.stopping || p = .stopping
  running := k.running && p ≠ .running
  uiRunning := k.uiRunning && p ≠ .uiRunning
  sessionOpen := k.sessionOpen && ¬(p = .close ∧ k.socket = true)
  ending := if p = .shutdown ∧ k.socket = true ∧ k.ending = .alive then .eof else k.ending
  socket := k.socket && p ≠ .clear
  peerEnded := k.peerEnded
  entered := k.entered + if p = .test ∧ k.stopping = false then 1 else 0
  closes := k.closes + if p = .close ∧ k.socket = true then 1 else 0

/-- Where a call of `Stop` then stands. -/
def next (k : Control) : HaltPc → Option HaltPc
  | .test => if k.stopping then none else some .stopping
  | .stopping => some .running
  | .running => some .uiRunning
  | .uiRunning => some .socket
  | .socket => if k.socket then some .shutdown else none
  | .shutdown => some .close
  | .close => some .clear
  | .clear => none

/-- What holds where a call of `Stop` stands. -/
def Inside (k : Control) : HaltPc → Prop
  | .test => True
  | .stopping => 0 < k.entered
  | .running => k.stopping = true
  | .uiRunning => k.running = false
  | .socket => k.uiRunning = false
  | .shutdown => k.uiRunning = false
  | .close => k.uiRunning = false ∧ k.ending ≠ .alive
  | .clear => k.sessionOpen = false

section fields

variable {k : Control} {p : HaltPc}

theorem halt_stopping : (k.halt p).stopping = true ↔ k.stopping = true ∨ p = .stopping := by
  simp [halt]

theorem halt_running : (k.halt p).running = false ↔ k.running = false ∨ p = .running := by
  cases h : k.running <;> simp [halt, h]

theorem halt_uiRunning : (k.halt p).uiRunning = false ↔ k.uiRunning = false ∨ p = .uiRunning := by
  cases h : k.uiRunning <;> simp [halt, h]

theorem halt_sessionOpen : (k.halt p).sessionOpen = false ↔
    k.sessionOpen = false ∨ p = .close ∧ k.socket = true := by
  cases h : k.sessionOpen <;> simp [halt, h]

theorem halt_ending : (k.halt p).ending ≠ .alive ↔
    k.ending ≠ .alive ∨ p = .shutdown ∧ k.socket = true := by
  by_cases h : k.ending = .alive <;> simp [halt, h]

theorem halt_socket : (k.halt p).socket = false ↔ k.socket = false ∨ p = .clear := by
  cases h : k.socket <;> simp [halt, h]

end fields

end Control

/-- `CloseSession`. -/
def HaltPc.InSession (p : HaltPc) : Prop := p = .socket ∨ p = .shutdown ∨ p = .close ∨ p = .clear

/-- Whether a call of `Stop` has yet to come to `close`. -/
def closing (p? : Option HaltPc) : ℕ :=
  if p? = none ∨ p? = some .test ∨ p? = some .clear then 0 else 1

variable {T : Type} [DecidableEq T] [Fintype T] {k : Control} {pcs : T → Option HaltPc}

/-- INVARIANT: which flags are cleared, and that some thread is about to clear the next. -/
structure Order (k : Control) (pcs : T → Option HaltPc) : Prop where
  stopping : k.running = false → k.stopping = true
  running : k.uiRunning = false → k.running = false
  closed : k.sessionOpen = false → k.uiRunning = false ∧ k.ending ≠ .alive ∧ 0 < k.closes
  ending : k.ending ≠ .alive → k.peerEnded = true ∨ k.uiRunning = false
  socket : k.socket = false → k.sessionOpen = false
  inside : ∀ t p, pcs t = some p → k.Inside p
  atStopping : 0 < k.entered → k.stopping = false → ∃ t, pcs t = some .stopping
  atRunning : k.stopping = true → k.running = true → ∃ t, pcs t = some .running
  atUiRunning : k.running = false → k.uiRunning = true → ∃ t, pcs t = some .uiRunning
  atSocket : k.uiRunning = false → k.socket = true → ∃ t p, pcs t = some p ∧ HaltPc.InSession p
  counted : k.closes + ∑ t, closing (pcs t) ≤ k.entered

namespace Order

omit [DecidableEq T] in
/-- The stream ends at the server's side. -/
theorem ends (h : Order k pcs) {ending : Ending} (hne : ending ≠ .alive) :
    Order { k with ending := ending, peerEnded := true } pcs where
  stopping := h.stopping
  running := h.running
  closed := by
    intro hopen
    obtain ⟨hui, -, hcloses⟩ := h.closed hopen
    exact ⟨hui, hne, hcloses⟩
  ending := fun _ => .inl rfl
  socket := h.socket
  inside := by
    intro t p hp
    have hin := h.inside t p hp
    cases p with
    | close => exact ⟨hin.1, hne⟩
    | test | stopping | running | uiRunning | socket | shutdown | clear => exact hin
  atStopping := h.atStopping
  atRunning := h.atRunning
  atUiRunning := h.atUiRunning
  atSocket := h.atSocket
  counted := h.counted

/-- A thread that is not inside moves, or calls `Stop`. -/
theorem calm (h : Order k pcs) {t : T} (ht : pcs t = none) {q : Option HaltPc}
    (hq : q = none ∨ q = some .test) : Order k (Function.update pcs t q) := by
  have hkeep : ∀ {p : HaltPc}, (∃ t, pcs t = some p) →
      ∃ t', Function.update pcs t q t' = some p := by
    rintro p ⟨t', ht'⟩
    refine ⟨t', ?_⟩
    rw [Function.update_of_ne (by rintro rfl; rw [ht] at ht'; cases ht'), ht']
  have hsum : ∑ t', closing (Function.update pcs t q t') = ∑ t', closing (pcs t') := by
    refine Finset.sum_congr rfl fun t' _ => ?_
    by_cases heq : t' = t
    · subst heq
      rw [Function.update_self, ht]
      rcases hq with rfl | rfl <;> rfl
    · rw [Function.update_of_ne heq]
  refine ⟨h.stopping, h.running, h.closed, h.ending, h.socket, fun t' p hp => ?_,
    fun h₁ h₂ => hkeep (h.atStopping h₁ h₂), fun h₁ h₂ => hkeep (h.atRunning h₁ h₂),
    fun h₁ h₂ => hkeep (h.atUiRunning h₁ h₂), fun h₁ h₂ => ?_, by rw [hsum]; exact h.counted⟩
  · by_cases heq : t' = t
    · subst heq
      rw [Function.update_self] at hp
      rcases hq with rfl | rfl <;> cases hp
      trivial
    · rw [Function.update_of_ne heq] at hp
      exact h.inside t' p hp
  · obtain ⟨t', p, hp, hin⟩ := h.atSocket h₁ h₂
    obtain ⟨t'', hp'⟩ := hkeep ⟨t', hp⟩
    exact ⟨t'', p, hp', hin⟩

end Order

/-- A step of `Stop` keeps what holds where the others stand. -/
theorem Control.Inside.halt {q : HaltPc} (h : k.Inside q) (p : HaltPc) : (k.halt p).Inside q := by
  cases q with
  | test => trivial
  | stopping => exact Nat.lt_of_lt_of_le h (Nat.le_add_right _ _)
  | running => exact Control.halt_stopping.mpr (.inl h)
  | uiRunning => exact Control.halt_running.mpr (.inl h)
  | socket | shutdown => exact Control.halt_uiRunning.mpr (.inl h)
  | close => exact ⟨Control.halt_uiRunning.mpr (.inl h.1), Control.halt_ending.mpr (.inl h.2)⟩
  | clear => exact Control.halt_sessionOpen.mpr (.inl h)

/-- What a thread does when its call of `Stop` has returned: nothing, or another. -/
def callAgain (again : Bool) : Option HaltPc := if again then some .test else none

omit [DecidableEq T] in
/-- What holds where a call of `Stop` stands after its step. -/
theorem Order.inside_next (h : Order k pcs) {p q : HaltPc} (hp : k.Inside p)
    (hq : k.next p = some q) : (k.halt p).Inside q := by
  cases p with
  | test =>
    simp only [Control.next, Option.ite_none_left_eq_some, Option.some.injEq] at hq
    obtain ⟨hstopping, rfl⟩ := hq
    simp [Control.Inside, Control.halt, hstopping]
  | stopping =>
    cases hq
    exact Control.halt_stopping.mpr (.inr rfl)
  | running =>
    cases hq
    exact Control.halt_running.mpr (.inr rfl)
  | uiRunning =>
    cases hq
    exact Control.halt_uiRunning.mpr (.inr rfl)
  | socket =>
    simp only [Control.next, Option.ite_none_right_eq_some, Option.some.injEq] at hq
    obtain ⟨-, rfl⟩ := hq
    exact Control.halt_uiRunning.mpr (.inl hp)
  | shutdown =>
    cases hq
    refine ⟨Control.halt_uiRunning.mpr (.inl hp), Control.halt_ending.mpr ?_⟩
    cases hs : k.socket with
    | true => exact .inr ⟨rfl, rfl⟩
    | false => exact .inl (h.closed (h.socket hs)).2.1
  | close =>
    cases hq
    refine Control.halt_sessionOpen.mpr ?_
    cases hs : k.socket with
    | true => exact .inr ⟨rfl, rfl⟩
    | false => exact .inl (h.socket hs)
  | clear => cases hq

section halt

variable {t : T} {p : HaltPc} {again : Bool}

/-- Where the threads stand after a step of the call of `Stop` by `t`. -/
def moved (k : Control) (pcs : T → Option HaltPc) (t : T) (p : HaltPc) (again : Bool) :
    T → Option HaltPc :=
  Function.update pcs t (k.next p <|> callAgain again)

omit [Fintype T] in
theorem moved_next {q : HaltPc} (hq : k.next p = some q) :
    ∃ t', moved k pcs t p again t' = some q :=
  ⟨t, by rw [moved, Function.update_self, hq]; rfl⟩

omit [Fintype T] in
theorem moved_other {q : HaltPc} (ht : pcs t = some p) (hne : q ≠ p)
    (hq : ∃ t', pcs t' = some q) : ∃ t', moved k pcs t p again t' = some q := by
  obtain ⟨t', ht'⟩ := hq
  refine ⟨t', ?_⟩
  rw [moved, Function.update_of_ne _, ht']
  rintro rfl
  exact hne (Option.some.inj (ht'.symm.trans ht))

theorem sum_moved (k : Control) (again : Bool) (ht : pcs t = some p) :
    ∑ t', closing (moved k pcs t p again t') + closing (some p) =
      ∑ t', closing (pcs t') + closing (k.next p <|> callAgain again) := by
  have hmoved := Finset.add_sum_erase Finset.univ (fun t' => closing (moved k pcs t p again t'))
    (Finset.mem_univ t)
  have hpcs := Finset.add_sum_erase Finset.univ (fun t' => closing (pcs t')) (Finset.mem_univ t)
  have hrest : ∑ t' ∈ Finset.univ.erase t, closing (moved k pcs t p again t') =
      ∑ t' ∈ Finset.univ.erase t, closing (pcs t') :=
    Finset.sum_congr rfl fun t' ht' => by
      rw [moved, Function.update_of_ne (Finset.ne_of_mem_erase ht')]
  have hself : moved k pcs t p again t = (k.next p <|> callAgain again) := Function.update_self ..
  rw [hself] at hmoved
  rw [ht] at hpcs
  omega

namespace Order

theorem halt_counted (h : Order k pcs) (ht : pcs t = some p) :
    (k.halt p).closes + ∑ t', closing (moved k pcs t p again t') ≤ (k.halt p).entered := by
  have hsum := sum_moved k again ht
  have hcounted := h.counted
  generalize ∑ t', closing (moved k pcs t p again t') = after at hsum ⊢
  generalize ∑ t', closing (pcs t') = before at hsum hcounted
  cases again <;> cases p <;> cases hstopping : k.stopping <;> cases hsocket : k.socket <;>
    simp [Control.next, Control.halt, callAgain, closing, hstopping, hsocket] at hsum ⊢ <;> omega

/-- STEP: a step of `Stop`, by a thread that stands in it. -/
theorem halt (h : Order k pcs) (ht : pcs t = some p) (again : Bool) :
    Order (k.halt p) (moved k pcs t p again) := by
  have hp := h.inside t p ht
  have hother : ∀ {q}, q ≠ p → (∃ t', pcs t' = some q) →
      ∃ t', moved k pcs t p again t' = some q := moved_other ht
  have hnext : ∀ {q}, k.next p = some q → ∃ t', moved k pcs t p again t' = some q := moved_next
  refine ⟨?_, ?_, ?_, ?_, ?_, fun t' q hq => ?_, fun hentered hstopping => ?_,
    fun hstopping hrunning => ?_, fun hrunning hui => ?_, fun hui hsocket => ?_,
    h.halt_counted ht⟩
  · intro hrunning
    refine Control.halt_stopping.mpr ?_
    rcases Control.halt_running.mp hrunning with hrunning | rfl
    · exact .inl (h.stopping hrunning)
    · exact .inl hp
  · intro hui
    refine Control.halt_running.mpr ?_
    rcases Control.halt_uiRunning.mp hui with hui | rfl
    · exact .inl (h.running hui)
    · exact .inl hp
  · intro hopen
    rw [Control.halt_uiRunning, Control.halt_ending]
    rcases Control.halt_sessionOpen.mp hopen with hopen | ⟨rfl, hsocket⟩
    · obtain ⟨hui, hend, hcloses⟩ := h.closed hopen
      exact ⟨.inl hui, .inl hend, Nat.lt_of_lt_of_le hcloses (Nat.le_add_right _ _)⟩
    · exact ⟨.inl hp.1, .inl hp.2, by simp [Control.halt, hsocket]⟩
  · intro hend
    rw [Control.halt_uiRunning]
    rcases Control.halt_ending.mp hend with hend | ⟨rfl, -⟩
    · exact (h.ending hend).imp_right .inl
    · exact .inr (.inl hp)
  · intro hsocket
    refine Control.halt_sessionOpen.mpr (.inl ?_)
    rcases Control.halt_socket.mp hsocket with hsocket | rfl
    · exact h.socket hsocket
    · exact hp
  · by_cases heq : t' = t
    · subst heq
      rw [moved, Function.update_self] at hq
      cases hnext : k.next p with
      | none =>
        rw [hnext] at hq
        cases again <;> cases hq
        trivial
      | some r =>
        rw [hnext] at hq
        cases hq
        exact h.inside_next hp hnext
    · rw [moved, Function.update_of_ne heq] at hq
      exact (h.inside t' q hq).halt p
  · obtain ⟨hunset, hne⟩ : k.stopping = false ∧ ¬p = .stopping := by
      simpa [Control.halt] using hstopping
    by_cases htest : p = .test
    · subst htest
      exact hnext (by simp [Control.next, hunset])
    · have hbefore : 0 < k.entered := by simpa [Control.halt, htest] using hentered
      exact hother (Ne.symm hne) (h.atStopping hbefore hunset)
  · obtain ⟨hset, hne⟩ : k.running = true ∧ ¬p = .running := by
      simpa [Control.halt] using hrunning
    rcases Control.halt_stopping.mp hstopping with hbefore | rfl
    · exact hother (Ne.symm hne) (h.atRunning hbefore hset)
    · exact hnext rfl
  · obtain ⟨hset, hne⟩ : k.uiRunning = true ∧ ¬p = .uiRunning := by
      simpa [Control.halt] using hui
    rcases Control.halt_running.mp hrunning with hbefore | rfl
    · exact hother (Ne.symm hne) (h.atUiRunning hbefore hset)
    · exact hnext rfl
  · obtain ⟨hset, hne⟩ : k.socket = true ∧ ¬p = .clear := by
      simpa [Control.halt] using hsocket
    have hgoes : ∀ {q}, k.next p = some q → HaltPc.InSession q →
        ∃ t' q, moved k pcs t p again t' = some q ∧ HaltPc.InSession q := fun hq hin =>
      (hnext hq).imp fun _ ht' => ⟨_, ht', hin⟩
    by_cases hsession : HaltPc.InSession p
    · rcases hsession with rfl | rfl | rfl | rfl
      · exact hgoes (by simp [Control.next, hset]) (.inr (.inl rfl))
      · exact hgoes rfl (.inr (.inr (.inl rfl)))
      · exact hgoes rfl (.inr (.inr (.inr rfl)))
      · exact absurd rfl hne
    · rcases Control.halt_uiRunning.mp hui with hbefore | rfl
      · obtain ⟨t', q, ht', hin⟩ := h.atSocket hbefore hset
        obtain ⟨t'', ht''⟩ := hother (fun heq => hsession (heq ▸ hin)) ⟨t', ht'⟩
        exact ⟨t'', q, ht'', hin⟩
      · exact hgoes rfl (.inl rfl)

end Order

end halt

omit [DecidableEq T] in
/-- A call of `Stop` that returns leaves `m_stopping` set. -/
theorem Order.returns (h : Order k pcs) {t : T} {p : HaltPc} (ht : pcs t = some p)
    (hnext : k.next p = none) : k.stopping = true := by
  have hp := h.inside t p ht
  cases p with
  | test => simpa [Control.next] using hnext
  | stopping | running | uiRunning | shutdown | close => cases hnext
  | socket => exact h.stopping (h.running hp)
  | clear => exact h.stopping (h.running (h.closed hp).1)

end Process

end CliChat
