import CliChat.Client.Client
import CliChat.Common.Utf8
import CliChat.Lib.Transition

/-! @src client/src/ncursesUI.cpp | name:PushMessage, PrintBufferedMessages | scheme:queue

    The queue of received messages and the window they are written to. `PrintBufferedMessages`
    takes a message off the queue before it converts it, and hands `mvwaddwstr` a C string. Both
    calls hold the queue's mutex, so each is one step; an exception of the second ends in `Stop`.

        PushMessage ─▶ m_msgQueue ─▶ from_utf8 ─▶ L'\n' ─▶ c_str ─▶ m_msgWin -/

namespace CliChat

open Transition

/-- `c_str()`, as the function that is given it reads it: up to the first NUL. -/
def WString.cStr (s : WString) : WString := s.takeWhile (· ≠ 0)

variable (u : Utf8)

/-- The loop of `PrintBufferedMessages`: the lines written, the queue left, whether `from_utf8`
    threw. -/
def drain : List Bytes → List WString × List Bytes × Bool
  | [] => ([], [], false)
  | msg :: queue =>
    match u.utf8to32 msg with
    | none => ([], queue, true)
    | some wmsg =>
      let (window, left, threw) := drain queue
      (WString.cStr (wmsg ++ [newline]) :: window, left, threw)

/-- `NcursesUI::PrintBufferedMessages`. -/
def Client.printBufferedMessages (c : Client) : List WString × Client × Bool :=
  if !c.uiRunning then ([], c, false)
  else
    let (window, left, threw) := drain u c.msgQueue
    (window, { c with msgQueue := left }, threw)

/-- One pass of `UIUpdateLoop`, in the thread that `Start` wraps in a handler. -/
def Client.printPass (c : Client) : List WString × Client × Bool :=
  let (window, c₁, threw) := c.printBufferedMessages u
  (window, if threw then c₁.stop else c₁, threw)

theorem drain_left (queue : List Bytes) :
    (drain u queue).2 = (match queue.dropWhile fun m => (u.utf8to32 m).isSome with
      | [] => ([], false)
      | _ :: rest => (rest, true)) := by
  induction queue with
  | nil => rfl
  | cons m queue ih =>
    cases h : u.utf8to32 m with
    | none => simp [drain, h]
    | some ws => simpa [drain, h] using ih

/-- REFINES: what a pass does to the client is `UIUpdateLoop`. -/
theorem Client.printPass_uiUpdateLoop (c : Client) :
    (c.printPass u).2.1 = c.uiUpdateLoop fun m => (u.utf8to32 m).isSome := by
  unfold printPass printBufferedMessages uiUpdateLoop
  cases hui : c.uiRunning with
  | false => rfl
  | true =>
    have hleft := drain_left u c.msgQueue
    cases hdrop : c.msgQueue.dropWhile fun m => (u.utf8to32 m).isSome with
    | nil =>
      rw [hdrop] at hleft
      simp [hleft]
    | cons m rest =>
      rw [hdrop] at hleft
      simp [hleft]

/-! ### The window -/

/-- The client with its message window, and the messages that were pushed. -/
structure Screen where
  client : Client
  window : List WString := []
  pushed : List Bytes := []

inductive UiCall where
  | pushMessage (msg : Bytes)
  | printBufferedMessages

/-- A call while the UI is running. -/
def Screen.step : UiCall → Screen → Option Screen
  | .pushMessage msg, s =>
    if s.client.uiRunning then
      some { s with client := s.client.pushMessage msg, pushed := s.pushed ++ [msg] }
    else none
  | .printBufferedMessages, s =>
    if s.client.uiRunning then
      some { s with
        client := (s.client.printPass u).2.1
        window := s.window ++ (s.client.printPass u).1 }
    else none

/-- The line `line` shows the message `msg`. -/
def Shows (line : WString) (msg : Bytes) : Prop :=
  ∃ cs, msg = encodeUtf8 cs ∧ line = widen cs ++ [newline]

/-- The lines of the window, followed by the queue, are the pushed messages in their order. -/
def Screen.Complete (s : Screen) : Prop :=
  ∃ shown, s.pushed = shown ++ s.client.msgQueue ∧ List.Forall₂ Shows s.window shown

/-- After the call the screen is complete; a call that prints does not throw, and empties the
    queue. -/
def Displays (e : UiCall) (s : Screen) : Prop :=
  ∀ s', s.step u e = some s' → s'.Complete ∧ (e = .printBufferedMessages →
    (s.client.printBufferedMessages u).2.2 = false ∧ s'.client.msgQueue = [] ∧
      s'.client.uiRunning = true)

/-- What is printed is UTF-8, with no NUL in it. -/
def Displayable (e : UiCall) (s : Screen) : Prop :=
  e = .printBufferedMessages → s.client.uiRunning = true →
    ∀ m ∈ s.client.msgQueue, ∃ cs, m = encodeUtf8 cs ∧ Char.ofNat 0 ∉ cs

section displays

variable {u : Utf8}

theorem cStr_of_not_mem {cs : List Char} (h : Char.ofNat 0 ∉ cs) :
    WString.cStr (widen cs ++ [newline]) = widen cs ++ [newline] := by
  refine List.takeWhile_eq_self_iff.mpr fun w hw => ?_
  rcases List.mem_append.mp hw with hw | hw
  · obtain ⟨c, hc, rfl⟩ := List.mem_map.mp hw
    have hne : c.toNat ≠ 0 := fun h0 => h (by rwa [← h0, Char.ofNat_toNat])
    simpa using hne
  · rw [List.mem_singleton.mp hw]
    rfl

theorem not_mem_of_cStr {ws : WString} {cs : List Char} (h : ws.cStr = widen cs ++ [newline]) :
    Char.ofNat 0 ∉ cs := by
  intro hmem
  have hzero : 0 ∈ ws.cStr := by
    rw [h]
    exact List.mem_append_left _ (List.mem_map.mpr ⟨_, hmem, rfl⟩)
  simpa using List.mem_takeWhile_imp hzero

/-- STEP: the loop shows every message and does not throw exactly when each of them is UTF-8 with no
    NUL in it. -/
theorem drain_shows_iff (hu : u.Lawful) (queue : List Bytes) :
    ((drain u queue).2.2 = false ∧ List.Forall₂ Shows (drain u queue).1 queue) ↔
      ∀ m ∈ queue, ∃ cs, m = encodeUtf8 cs ∧ Char.ofNat 0 ∉ cs := by
  induction queue with
  | nil => simp [drain]
  | cons m queue ih =>
    rw [List.forall_mem_cons, ← ih]
    cases hm : u.utf8to32 m with
    | none =>
      have hno : ¬∃ cs, m = encodeUtf8 cs ∧ Char.ofNat 0 ∉ cs := by
        rintro ⟨cs, hcs, -⟩
        have hsome := (hu.decodes m _).mpr ⟨cs, hcs, rfl⟩
        rw [hm] at hsome
        cases hsome
      simp [drain, hm, hno]
    | some ws =>
      obtain ⟨cs, rfl, rfl⟩ := (hu.decodes m ws).mp hm
      simp only [drain, hm, List.forall₂_cons]
      constructor
      · rintro ⟨hthrew, ⟨cs', hcs', hline⟩, hrest⟩
        exact ⟨⟨cs', hcs', not_mem_of_cStr hline⟩, hthrew, hrest⟩
      · rintro ⟨⟨cs', hcs', hnul⟩, hthrew, hrest⟩
        have hsame := (hu.decodes _ _).mpr ⟨cs', hcs', rfl⟩
        rw [hm] at hsame
        have hwiden : cs = cs' := widen_injective (Option.some.inj hsame)
        refine ⟨hthrew, ⟨cs, rfl, ?_⟩, hrest⟩
        exact cStr_of_not_mem (hwiden ▸ hnul)

theorem drain_empties {queue : List Bytes} (h : (drain u queue).2.2 = false) :
    (drain u queue).2.1 = [] := by
  rw [drain_left] at h ⊢
  split at h
  · rfl
  · cases h

/-- STEP: from a complete screen, a call displays what it should exactly when what it prints can be
    displayed. -/
theorem displays_iff (hu : u.Lawful) (e : UiCall) (s : Screen) (hs : s.Complete) :
    Displays u e s ↔ Displayable e s := by
  obtain ⟨shown, hpushed, hshown⟩ := hs
  cases e with
  | pushMessage msg =>
    refine iff_of_true (fun s' h => ?_) fun h => (by cases h)
    simp only [Screen.step, Option.ite_none_right_eq_some, Option.some.injEq] at h
    obtain ⟨hui, rfl⟩ := h
    refine ⟨⟨shown, ?_, hshown⟩, fun h => (by cases h)⟩
    simp [Client.pushMessage, hui, hpushed]
  | printBufferedMessages =>
    cases hui : s.client.uiRunning with
    | false =>
      refine iff_of_true (fun s' h => ?_) fun _ h => ?_
      · simp [Screen.step, hui] at h
      · rw [hui] at h
        cases h
    | true =>
      have hdrain := drain_shows_iff hu s.client.msgQueue
      have hpass : s.client.printPass u = ((drain u s.client.msgQueue).1,
          if (drain u s.client.msgQueue).2.2 then
            { s.client with msgQueue := (drain u s.client.msgQueue).2.1 }.stop
          else { s.client with msgQueue := (drain u s.client.msgQueue).2.1 },
          (drain u s.client.msgQueue).2.2) := by
        simp [Client.printPass, Client.printBufferedMessages, hui]
      have hthrows : (s.client.printBufferedMessages u).2.2 = (drain u s.client.msgQueue).2.2 := by
        simp [Client.printBufferedMessages, hui]
      constructor
      · intro h _ _
        obtain ⟨⟨shown', hpushed', hshown'⟩, hprint⟩ := h _ (by rw [Screen.step, if_pos hui])
        obtain ⟨hthrew, hempty, -⟩ := hprint rfl
        refine hdrain.mp ⟨hthrows ▸ hthrew, ?_⟩
        rw [hempty, List.append_nil] at hpushed'
        dsimp only at hpushed' hshown'
        rw [← hpushed', hpushed, hpass] at hshown'
        have hlines := List.forall₂_drop_append _ _ _ hshown'
        rwa [← hshown.length_eq, List.drop_left] at hlines
      · intro h s' hs'
        obtain ⟨hthrew, hlines⟩ := hdrain.mpr (h rfl hui)
        have hempty := drain_empties hthrew
        rw [Screen.step, if_pos hui, hpass, hthrew, hempty] at hs'
        cases hs'
        refine ⟨⟨shown ++ s.client.msgQueue, ?_, List.rel_append hshown hlines⟩,
          fun _ => ⟨hthrows.trans hthrew, rfl, hui⟩⟩
        simpa using hpushed

/-- RUNS: a run whose calls display what they should ends with a complete screen. -/
theorem displays_complete {es : List UiCall} {c : Client} {s : Screen} (hc : c.msgQueue = [])
    (h : Along (Screen.step u) (Displays u) es { client := c })
    (hrun : Transition.run (Screen.step u) es { client := c } = some s) : s.Complete := by
  refine along_invariant _ ?_ (⟨[], hc.symm, .nil⟩ : Screen.Complete { client := c }) h hrun
  intro e s s' _ hdisp hstep
  exact (hdisp s' hstep).1

/-- EXACT: for every order of the two calls, after each of them the window and the queue hold the
    pushed messages in their order, and each call that prints empties the queue and does not throw,
    if and only if whatever is printed is UTF-8 with no NUL in it. -/
theorem displayed_iff (hu : u.Lawful) (c : Client) (hc : c.msgQueue = []) (es : List UiCall) :
    Along (Screen.step u) (Displays u) es { client := c } ↔
      Along (Screen.step u) Displayable es { client := c } := by
  refine along_congr _ (displays_iff hu) ?_ ⟨[], hc.symm, .nil⟩
  intro e s s' _ hdisp hstep
  exact (hdisp s' hstep).1

end displays

/-- Two texts, and between them a call that prints. -/
theorem displayed_hi : Along (Screen.step .core) (Displays .core)
    [.pushMessage (ascii "al: hi"), .printBufferedMessages, .pushMessage (ascii "bo: hi")]
    { client := {} } := by
  refine (displayed_iff Utf8.core_lawful {} rfl _).mpr ⟨fun h => (by cases h), fun s hs => ?_⟩
  cases hs
  refine ⟨fun _ _ m hm => ⟨"al: hi".toList, ?_, by decide⟩, fun s _ => ?_⟩
  · rw [List.mem_singleton.mp hm]
    rfl
  · exact ⟨fun h => (by cases h), fun _ _ => trivial⟩

/-- BUG: a byte that is not UTF-8 is lost, the message behind it stays in the queue, and the
    exception stops the client. A NUL cuts its line short. -/
theorem bad_byte_stops :
    (∃ s, Transition.run (Screen.step .core) [.pushMessage [255], .pushMessage (ascii "al: hi"),
        .printBufferedMessages] { client := { running := true } } = some s ∧ s.window = [] ∧
      s.client.msgQueue = [ascii "al: hi"] ∧ s.client.running = false) ∧
    ¬ Along (Screen.step .core) (Displays .core) [.pushMessage [255],
      .pushMessage (ascii "al: hi"), .printBufferedMessages] { client := { running := true } } ∧
    ¬ Along (Screen.step .core) (Displays .core) [.pushMessage [97, 0, 98],
      .printBufferedMessages] { client := { running := true } } := by
  have hbyte : ((Transition.run (Screen.step .core) [.pushMessage [255],
      .pushMessage (ascii "al: hi"), .printBufferedMessages] { client := { running := true } }).any
      fun s : Screen => decide (s.pushed = [[255], ascii "al: hi"] ∧ s.window = [] ∧
        s.client.msgQueue = [ascii "al: hi"] ∧ s.client.running = false)) = true := by
    decide +kernel
  have hnul : ((Transition.run (Screen.step .core) [.pushMessage [97, 0, 98],
      .printBufferedMessages] { client := { running := true } }).any
      fun s : Screen => decide (s.window = [[97]])) = true := by
    decide +kernel
  obtain ⟨s, hs, heq⟩ := (Option.any_eq_true _ _).mp hbyte
  obtain ⟨s₂, hs₂, heq₂⟩ := (Option.any_eq_true _ _).mp hnul
  obtain ⟨hpushed, hwindow, hrest⟩ := of_decide_eq_true heq
  refine ⟨⟨s, hs, hwindow, hrest⟩, fun h => ?_, fun h => ?_⟩
  · obtain ⟨shown, hsplit, hshown⟩ := displays_complete rfl h hs
    rw [hwindow, List.forall₂_nil_left_iff] at hshown
    rw [hpushed, hshown, hrest.1] at hsplit
    exact absurd hsplit (by decide)
  · obtain ⟨shown, -, hshown⟩ := displays_complete rfl h hs₂
    rw [of_decide_eq_true heq₂] at hshown
    cases hshown with
    | cons hline _ =>
      obtain ⟨cs, -, hline⟩ := hline
      have hlast := congrArg List.getLast? hline
      rw [List.getLast?_concat] at hlast
      exact absurd hlast (by decide)

end CliChat
