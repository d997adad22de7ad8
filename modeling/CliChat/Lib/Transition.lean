import Mathlib

/-! Runs of a labelled partial step function, independent of any program.

    `step e s` is `some s'` when the system can take the step labelled `e` in state `s`. A run is a
    list of labels taken one after the other. The rules below say once what every safety argument
    needs: runs compose, an invariant kept by each step is kept by each run, and a reflexive and
    transitive relation that each step respects relates the two ends of a run. -/

namespace Transition

variable {σ ε : Type*} (step : ε → σ → Option σ)

/-- Take the steps of a list in order; `none` when one of them cannot be taken. -/
def run : List ε → σ → Option σ
  | [], s => some s
  | e :: es, s => (step e s).bind (run es)

@[simp] theorem run_nil (s : σ) : run step [] s = some s := rfl

theorem run_cons (e : ε) (es : List ε) (s : σ) :
    run step (e :: es) s = (step e s).bind (run step es) := rfl

/-- The first step of a run and what follows it. -/
theorem run_cons_some {e : ε} {es : List ε} {s s' : σ} :
    run step (e :: es) s = some s' ↔ ∃ m, step e s = some m ∧ run step es m = some s' := by
  rw [run_cons, Option.bind_eq_some_iff]

theorem run_append (es fs : List ε) (s : σ) :
    run step (es ++ fs) s = (run step es s).bind (run step fs) := by
  induction es generalizing s with
  | nil => rfl
  | cons e es ih =>
    rw [List.cons_append, run_cons, run_cons, Option.bind_assoc]
    congr 1
    funext m
    exact ih m

theorem run_append_some {es fs : List ε} {s s' : σ} :
    run step (es ++ fs) s = some s' ↔ ∃ m, run step es s = some m ∧ run step fs m = some s' := by
  rw [run_append, Option.bind_eq_some_iff]

/-- INVARIANT RULE: what each step keeps, each run keeps. -/
theorem run_invariant {I : σ → Prop} (hstep : ∀ e s s', I s → step e s = some s' → I s') :
    ∀ {es : List ε} {s s' : σ}, I s → run step es s = some s' → I s'
  | [], s, s', hs, h => by cases h; exact hs
  | e :: es, s, s', hs, h => by
    obtain ⟨m, hm, hrest⟩ := (run_cons_some step).mp h
    exact run_invariant hstep (hstep e s m hs hm) hrest

/-- RELATION RULE: under an invariant, a reflexive and transitive relation that each step respects
    relates the two ends of a run. -/
theorem run_relation {I : σ → Prop} {R : σ → σ → Prop}
    (hstep : ∀ e s s', I s → step e s = some s' → I s')
    (hrefl : ∀ s, I s → R s s) (htrans : ∀ a b c, R a b → R b c → R a c)
    (hrel : ∀ e s s', I s → step e s = some s' → R s s') :
    ∀ {es : List ε} {s s' : σ}, I s → run step es s = some s' → R s s'
  | [], s, s', hs, h => by cases h; exact hrefl s hs
  | e :: es, s, s', hs, h => by
    obtain ⟨m, hm, hrest⟩ := (run_cons_some step).mp h
    exact htrans s m s' (hrel e s m hs hm)
      (run_relation hstep hrefl htrans hrel (hstep e s m hs hm) hrest)

/-- SWITCH RULE: a run from a state with `P` to a state without it takes a step that does so. -/
theorem run_switch {P : σ → Prop} : ∀ {es : List ε} {s s' : σ}, run step es s = some s' →
    P s → ¬ P s' → ∃ es₁ e es₂ m m', es = es₁ ++ e :: es₂ ∧ run step es₁ s = some m ∧
      step e m = some m' ∧ run step es₂ m' = some s' ∧ P m ∧ ¬ P m'
  | [], s, s', h, hs, hs' => by cases h; exact absurd hs hs'
  | e :: es, s, s', h, hs, hs' => by
    obtain ⟨m, hm, hrest⟩ := (run_cons_some step).mp h
    by_cases hP : P m
    · obtain ⟨es₁, f, es₂, t, t', rfl, hes₁, ht, hes₂, ht₁, ht₂⟩ := run_switch hrest hP hs'
      exact ⟨e :: es₁, f, es₂, t, t', rfl, (run_cons_some step).mpr ⟨m, hm, hes₁⟩, ht, hes₂, ht₁,
        ht₂⟩
    · exact ⟨[], e, es, s, m, rfl, rfl, hm, hrest, hs, hP⟩

/-- Every step of a run meets `P` in the state in which it is taken. -/
def Along (P : ε → σ → Prop) : List ε → σ → Prop
  | [], _ => True
  | e :: es, s => P e s ∧ ∀ m, step e s = some m → Along P es m

theorem along_cons_of_some {P : ε → σ → Prop} {e : ε} {es : List ε} {s m : σ}
    (h : step e s = some m) : Along step P (e :: es) s ↔ P e s ∧ Along step P es m := by
  refine and_congr_right fun _ => ⟨fun hall => hall m h, fun halong m' hm' => ?_⟩
  obtain rfl := Option.some.inj (h.symm.trans hm')
  exact halong

theorem along_cons_of_none {P : ε → σ → Prop} {e : ε} {es : List ε} {s : σ}
    (h : step e s = none) : Along step P (e :: es) s ↔ P e s := by
  refine and_iff_left_of_imp fun _ m hm => ?_
  rw [h] at hm
  cases hm

instance Along.decidable {P : ε → σ → Prop} [∀ e s, Decidable (P e s)] :
    ∀ es s, Decidable (Along step P es s)
  | [], _ => isTrue trivial
  | e :: es, s =>
    match h : step e s with
    | none => decidable_of_iff _ (along_cons_of_none step h).symm
    | some m =>
      have : Decidable (Along step P es m) := Along.decidable es m
      decidable_of_iff _ (along_cons_of_some step h).symm

theorem Along.imp {P Q : ε → σ → Prop} (hPQ : ∀ e s, P e s → Q e s) :
    ∀ {es : List ε} {s : σ}, Along step P es s → Along step Q es s
  | [], _, h => h
  | e :: _, s, h => ⟨hPQ e s h.1, fun m hm => Along.imp hPQ (h.2 m hm)⟩

/-- INVARIANT RULE for the runs whose steps all meet a condition. -/
theorem along_invariant {I : σ → Prop} {P : ε → σ → Prop}
    (hstep : ∀ e s s', I s → P e s → step e s = some s' → I s') :
    ∀ {es : List ε} {s s' : σ}, I s → Along step P es s → run step es s = some s' → I s'
  | [], s, s', hs, _, h => by cases h; exact hs
  | e :: es, s, s', hs, hP, h => by
    obtain ⟨m, hm, hrest⟩ := (run_cons_some step).mp h
    exact along_invariant hstep (hstep e s m hs hP.1 hm) (hP.2 m hm) hrest

/-- EXCHANGE RULE: two conditions that agree under an invariant, kept by the steps that meet them,
    are met by the same runs. -/
theorem along_congr {I : σ → Prop} {P Q : ε → σ → Prop} (hiff : ∀ e s, I s → (P e s ↔ Q e s))
    (hstep : ∀ e s s', I s → P e s → step e s = some s' → I s') :
    ∀ {es : List ε} {s : σ}, I s → (Along step P es s ↔ Along step Q es s)
  | [], _, _ => Iff.rfl
  | e :: es, s, hs => by
    have hrest : P e s → ((∀ m, step e s = some m → Along step P es m) ↔
        ∀ m, step e s = some m → Along step Q es m) := fun hP =>
      forall_congr' fun m => imp_congr_right fun hm => along_congr hiff hstep (hstep e s m hs hP hm)
    constructor
    · intro h
      exact ⟨(hiff e s hs).mp h.1, (hrest h.1).mp h.2⟩
    · intro h
      have hP := (hiff e s hs).mpr h.1
      exact ⟨hP, (hrest hP).mpr h.2⟩

/-- LOG RULE: a property that a step keeps exactly when it meets a condition is kept by exactly the
    runs whose steps all meet it. -/
theorem along_iff {I F : σ → Prop} {P : ε → σ → Prop}
    (hstep : ∀ e s s', I s → step e s = some s' → I s' ∧ (F s' ↔ F s ∧ P e s)) :
    ∀ {es : List ε} {s s' : σ}, I s → run step es s = some s' →
      (F s' ↔ F s ∧ Along step P es s)
  | [], s, s', _, h => by
    cases h
    exact (iff_of_eq (and_true _)).symm
  | e :: es, s, s', hs, h => by
    obtain ⟨m, hm, hrest⟩ := (run_cons_some step).mp h
    obtain ⟨hI, hF⟩ := hstep e s m hs hm
    rw [along_iff hstep hI hrest, hF, along_cons_of_some step hm, and_assoc]

/-- RANK RULE: under an invariant, a number that no step raises and that each step of a kind lowers
    bounds how many of that kind a run takes. -/
theorem run_rank {I : σ → Prop} (rank : σ → ℕ) (kind : ε → Bool)
    (hstep : ∀ e s s', I s → step e s = some s' →
      I s' ∧ rank s' + (if kind e then 1 else 0) ≤ rank s) :
    ∀ {es : List ε} {s s' : σ}, I s → run step es s = some s' →
      I s' ∧ rank s' + es.countP kind ≤ rank s
  | [], s, s', hs, h => by
    cases h
    exact ⟨hs, le_rfl⟩
  | e :: es, s, s', hs, h => by
    obtain ⟨m, hm, hrest⟩ := (run_cons_some step).mp h
    obtain ⟨hI, hfirst⟩ := hstep e s m hs hm
    obtain ⟨hI', hlater⟩ := run_rank rank kind hstep hI hrest
    refine ⟨hI', ?_⟩
    rw [List.countP_cons]
    omega

/-- SIMULATION RULE: where each step of a system is a run of another one, from related states to
    related states, so is each run. -/
theorem run_simulation {τ φ : Type*} (step' : φ → τ → Option τ) {R : σ → τ → Prop}
    (hstep : ∀ e s s' t, R s t → step e s = some s' →
      ∃ fs t', run step' fs t = some t' ∧ R s' t') :
    ∀ {es : List ε} {s s' : σ} {t : τ}, R s t → run step es s = some s' →
      ∃ fs t', run step' fs t = some t' ∧ R s' t'
  | [], s, s', t, hs, h => by
    cases h
    exact ⟨[], t, rfl, hs⟩
  | e :: es, s, s', t, hs, h => by
    obtain ⟨m, hm, hrest⟩ := (run_cons_some step).mp h
    obtain ⟨fs, t₁, hfs, hm'⟩ := hstep e s m t hs hm
    obtain ⟨gs, t', hgs, hs'⟩ := run_simulation step' hstep hm' hrest
    exact ⟨fs ++ gs, t', (run_append_some step').mpr ⟨t₁, hfs, hgs⟩, hs'⟩

/-- The states that runs reach from an initial state. -/
def Reachable (init : σ → Prop) (s : σ) : Prop :=
  ∃ s₀ es, init s₀ ∧ run step es s₀ = some s

variable {step} {init : σ → Prop}

theorem Reachable.start {s : σ} (h : init s) : Reachable step init s := ⟨s, [], h, rfl⟩

theorem Reachable.trans {s s' : σ} {es : List ε} (h : Reachable step init s)
    (hrun : run step es s = some s') : Reachable step init s' := by
  obtain ⟨s₀, fs, h₀, hfs⟩ := h
  exact ⟨s₀, fs ++ es, h₀, (run_append_some step).mpr ⟨s, hfs, hrun⟩⟩

theorem Reachable.next {s s' : σ} {e : ε} (h : Reachable step init s)
    (hstep : step e s = some s') : Reachable step init s' := by
  have hrun : run step [e] s = some s' := (run_cons_some step).mpr ⟨s', hstep, rfl⟩
  exact h.trans hrun

/-- An invariant that holds initially and that each step keeps holds of every reachable state. -/
theorem Reachable.invariant {I : σ → Prop} (hinit : ∀ s, init s → I s)
    (hstep : ∀ e s s', I s → step e s = some s' → I s') {s : σ}
    (h : Reachable step init s) : I s := by
  obtain ⟨s₀, es, h₀, hes⟩ := h
  exact run_invariant step hstep (hinit s₀ h₀) hes

/-- SIMULATION RULE for reachable states. -/
theorem Reachable.simulation {τ φ : Type*} {step' : φ → τ → Option τ} {init' : τ → Prop}
    {R : σ → τ → Prop} (hinit : ∀ s, init s → ∃ t, init' t ∧ R s t)
    (hstep : ∀ e s s' t, R s t → step e s = some s' →
      ∃ fs t', run step' fs t = some t' ∧ R s' t') {s : σ} (h : Reachable step init s) :
    ∃ t, Reachable step' init' t ∧ R s t := by
  obtain ⟨s₀, es, h₀, hes⟩ := h
  obtain ⟨t₀, ht₀, hR⟩ := hinit s₀ h₀
  obtain ⟨fs, t, hfs, hs⟩ := run_simulation step step' hstep hR hes
  exact ⟨t, ⟨t₀, fs, ht₀, hfs⟩, hs⟩

end Transition
