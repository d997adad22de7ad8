import CliChat.System.Control

/-! @src client/src/client.cpp, server/src/server.cpp | name:ClientLoop, HandleClientEvent,
    DisconnectClient | scheme:concatenation

    The lines that users see. The server keeps names distinct and the client bounds their length;
    neither looks at their characters. A line tells its kind, name and text exactly when no name
    goes on another one in the way a line does.

        "<name>: <text>"   "<name> has connected"   "<name> has disconnected"        -/

namespace CliChat

/-- A line of one of the three kinds. -/
inductive Shown where
  | said (username text : Bytes)
  | connected (username : Bytes)
  | disconnected (username : Bytes)

def Shown.line : Shown → Bytes
  | .said username text => username ++ ascii ": " ++ text
  | .connected username => connectNotice username
  | .disconnected username => disconnectNotice username

/-- Its name is one of `names`, and its text is not empty. -/
def Shown.Of (names : Set Bytes) : Shown → Prop
  | .said username text => username ∈ names ∧ text ≠ []
  | .connected username => username ∈ names
  | .disconnected username => username ∈ names

/-- A line is of one kind, for one name, with one text. -/
def Unambiguous (names : Set Bytes) : Prop :=
  ∀ l l' : Shown, l.Of names → l'.Of names → l.line = l'.line → l = l'

/-- `v` goes on `u` as a line of `u` does. -/
def Continues (u v : Bytes) : Prop := v = u ++ ascii ":" ∨ u ++ ascii ": " <+: v

/-! ### Overlaps of two lines -/

theorem ascii_colon : ascii ": " = [58, 32] := by decide

/-- Where a string begins with a colon and a blank, a part of it before `w` holds none, the first or
    both of them. -/
theorem colon_split {text a w : Bytes} (h : ascii ": " ++ text = a ++ w) :
    (a = [] ∧ ascii ": " ++ text = w) ∨ (a = ascii ":" ∧ 32 :: text = w) ∨ ascii ": " <+: a := by
  rw [ascii_colon] at h ⊢
  match a, h with
  | [], h => exact .inl ⟨rfl, h⟩
  | [x], h =>
    simp only [List.cons_append, List.nil_append, List.cons.injEq] at h
    exact .inr (.inl ⟨by rw [← h.1]; decide, h.2⟩)
  | x :: y :: a, h =>
    simp only [List.cons_append, List.nil_append, List.cons.injEq] at h
    exact .inr (.inr ⟨a, by rw [← h.1, ← h.2.1]; rfl⟩)

/-- A line that begins with the name of another. -/
theorem said_longer {u a text w : Bytes} (hno : ¬Continues u (u ++ a))
    (h : ascii ": " ++ text = a ++ w) : a = [] ∧ ascii ": " ++ text = w := by
  rcases colon_split h with hnil | ⟨ha, -⟩ | hpre
  · exact hnil
  · exact absurd (.inl (by rw [ha])) hno
  · exact absurd (.inr ((List.prefix_append_right_inj u).mpr hpre)) hno

theorem said_said {u v text text' : Bytes} (huv : ¬Continues u v) (hvu : ¬Continues v u)
    (h : u ++ ascii ": " ++ text = v ++ ascii ": " ++ text') : u = v ∧ text = text' := by
  rw [List.append_assoc, List.append_assoc] at h
  rcases List.append_eq_append_iff.mp h with ⟨a, rfl, ha⟩ | ⟨a, rfl, ha⟩
  · obtain ⟨rfl, htext⟩ := said_longer huv ha
    exact ⟨(List.append_nil u).symm, List.append_cancel_left htext⟩
  · obtain ⟨rfl, htext⟩ := said_longer hvu ha
    exact ⟨List.append_nil v, (List.append_cancel_left htext).symm⟩

/-- A notice has no colon after its name. -/
theorem said_ne_notice {u v text suffix : Bytes} (huv : ¬Continues u v)
    (hsuffix : (58 : UInt8) ∉ suffix) : u ++ ascii ": " ++ text ≠ v ++ suffix := by
  intro h
  have hcolon : (58 : UInt8) ∈ ascii ": " := by decide
  rw [List.append_assoc] at h
  rcases List.append_eq_append_iff.mp h with ⟨a, rfl, ha⟩ | ⟨a, rfl, ha⟩
  · obtain ⟨-, htext⟩ := said_longer huv ha
    exact hsuffix (htext ▸ List.mem_append_left _ hcolon)
  · exact hsuffix (ha ▸ List.mem_append_right _ (List.mem_append_left _ hcolon))

/-! ### Names -/

/-- EXACT: the lines that users with these names see tell their kind, name and text if and only if no
    name goes on another as a line does. -/
theorem unambiguous_iff (names : Set Bytes) :
    Unambiguous names ↔ ∀ u ∈ names, ∀ v ∈ names, ¬Continues u v := by
  have hconnect : (58 : UInt8) ∉ ascii " has connected" := by decide
  have hdisconnect : (58 : UInt8) ∉ ascii " has disconnected" := by decide
  constructor
  · rintro h u hu v hv (rfl | ⟨rest, rfl⟩)
    · have hline := h (.said u (ascii "has connected")) (.connected _) ⟨hu, by decide⟩ hv (by
        simp only [Shown.line, connectNotice, List.append_assoc]
        rfl)
      cases hline
    · have hline := h (.said u (rest ++ ascii " has connected")) (.connected _)
        ⟨hu, List.append_ne_nil_of_right_ne_nil _ (by decide)⟩ hv (by
          simp only [Shown.line, connectNotice, List.append_assoc])
      cases hline
  · intro h l l' hl hl' hline
    cases l with
    | said u text =>
      cases l' with
      | said v text' =>
        obtain ⟨rfl, rfl⟩ := said_said (h u hl.1 v hl'.1) (h v hl'.1 u hl.1) hline
        rfl
      | connected v => exact absurd hline (said_ne_notice (h u hl.1 v hl') hconnect)
      | disconnected v => exact absurd hline (said_ne_notice (h u hl.1 v hl') hdisconnect)
    | connected u =>
      cases l' with
      | said v text => exact absurd hline.symm (said_ne_notice (h v hl'.1 u hl) hconnect)
      | connected v => rw [List.append_cancel_right hline]
      | disconnected v => exact absurd hline (connect_ne_disconnect u v)
    | disconnected u =>
      cases l' with
      | said v text => exact absurd hline.symm (said_ne_notice (h v hl'.1 u hl) hdisconnect)
      | connected v => exact absurd hline.symm (connect_ne_disconnect v u)
      | disconnected v => rw [List.append_cancel_right hline]

/-- The users "al" and "al: hi": the notice of the second, and each of its lines, reads as a line of
    the first. The client lets both names through. -/
theorem names_overlap :
    (∀ name ∈ [ascii "al", ascii "al: hi"],
      (({} : Client).sendUsername .plain (some name) (List.replicate 24 1) []).1.stage =
        .started) ∧
    (Shown.connected (ascii "al: hi")).line =
      (Shown.said (ascii "al") (ascii "hi has connected")).line ∧
    (∀ text, (Shown.said (ascii "al: hi") text).line =
      (Shown.said (ascii "al") (ascii "hi: " ++ text)).line) ∧
    ¬Unambiguous {name | name ≠ [] ∧ name.length ≤ maxUsernameLen} := by
  refine ⟨?_, by decide, fun text => rfl, fun h => ?_⟩
  · intro name hname
    rcases List.mem_pair.mp hname with rfl | rfl <;> decide +kernel
  · have hline := h (.connected (ascii "al: hi")) (.said (ascii "al") (ascii "hi has connected"))
      ⟨by decide, by decide⟩ ⟨⟨by decide, by decide⟩, by decide⟩ (by decide)
    cases hline

end CliChat
