import CliChat.Server.Serves
import CliChat.System.System

/-! @src server/src/server.cpp, client/src/client.cpp | name:Server, Client | scheme:case analysis

    What one step of the system is for the server (`Served`: it stays on a run of its own, up to a
    handler in which it is stuck) and for one connection (`View`). Results about a connection
    inspect a `View`; they look neither at the handlers nor at the other connections.

        served   arrived   ended   cutOff   acted
        └── server ─┴─ network ──────┘       └ client                 -/

namespace CliChat

open Framing Transition

section served

variable {na : Sodium} {env : ReturningEnv} {utf8 : Bytes → Bool} {honest : ConnId → Bool}
  {σ σ' : System}

/-- The server is in a state that its own runs reach, or stuck in one more handler. -/
structure Served (na : Sodium) (env : ReturningEnv) (σ : System) : Prop where
  reached : σ.halted = false → Reach na env σ.server
  stuck : σ.halted = true → ∃ s e, Reach na env s ∧ e.enabled s = true ∧
    σ.server = stateAfter na env e s ∧ ∃ f t, handle na env e s = .error f t ∧ f ≠ .blocked

/-- STEP: the server takes an event, or stays as it is. -/
theorem Stepped.server_cases (h : Stepped na env utf8 honest σ σ') :
    (σ'.server = σ.server ∧ σ'.halted = σ.halted) ∨
      ∃ e, σ.halted = false ∧ e.enabled σ.server = true ∧
        σ'.server = stateAfter na env e σ.server ∧
        (σ'.halted = false → step na env e σ.server = some σ'.server) ∧
        (σ'.halted = true → ∃ f t, handle na env e σ.server = .error f t ∧ f ≠ .blocked) := by
  have hserver : ∀ {e m}, σ.serverStep na env e = some m → σ'.server = m.server →
      σ'.halted = m.halted → ∃ e, σ.halted = false ∧ e.enabled σ.server = true ∧
        σ'.server = stateAfter na env e σ.server ∧
        (σ'.halted = false → step na env e σ.server = some σ'.server) ∧
        (σ'.halted = true → ∃ f t, handle na env e σ.server = .error f t ∧ f ≠ .blocked) := by
    intro e m hm hs hh
    obtain ⟨h₁, h₂, -, h₄, h₅, h₆⟩ := serverStep_some hm
    exact ⟨e, h₁, h₂, hs.trans h₄, fun h => hs ▸ h₅ (hh ▸ h), fun h => h₆ (hh ▸ h)⟩
  cases h with
  | server _ hm => exact Or.inr (hserver hm rfl rfl)
  | client _ _ heq =>
    rw [heq]
    exact Or.inl ⟨rfl, rfl⟩
  | arrives _ _ _ hm heq => exact Or.inr (hserver hm (by rw [heq]; rfl) (by rw [heq]; rfl))
  | ends _ _ _ _ hm => exact Or.inr (hserver hm rfl rfl)
  | cutsOff _ _ _ _ heq =>
    rw [heq]
    exact Or.inl ⟨rfl, rfl⟩

theorem Served.step (hσ : Served na env σ) (h : Stepped na env utf8 honest σ σ') :
    Served na env σ' := by
  rcases h.server_cases with ⟨hs, hh⟩ | ⟨e, hrun, hen, hs, hok, hstuck⟩
  · exact ⟨fun h' => hs ▸ hσ.reached (hh ▸ h'), fun h' => hs ▸ hσ.stuck (hh ▸ h')⟩
  · have hreach := hσ.reached hrun
    exact ⟨fun h' => hreach.next (hok h'),
      fun h' => ⟨σ.server, e, hreach, hen, hs, hstuck h'⟩⟩

/-- What holds in every state the server reaches, and where it gets stuck, holds of it. -/
theorem Served.elim (h : Served na env σ) {P : Server → Prop} (hreach : ∀ s, Reach na env s → P s)
    (hstuck : ∀ s e f t, Reach na env s → e.enabled s = true → handle na env e s = .error f t →
      f ≠ .blocked → P (stateAfter na env e s)) : P σ.server := by
  cases hrun : σ.halted with
  | false => exact hreach _ (h.reached hrun)
  | true =>
    obtain ⟨s, e, hs, hen, heq, f, t, hr, hf⟩ := h.stuck hrun
    rw [heq]
    exact hstuck s e f t hs hen hr hf

/-- A server that is stuck stays so. -/
theorem run_halted {as : List SystemAct} (h : σ.halted = true)
    (hrun : run (systemStep na env utf8 honest) as σ = some σ') : σ'.halted = true := by
  refine run_invariant (systemStep na env utf8 honest) (I := fun σ => σ.halted = true) ?_ h hrun
  intro a σ σ' hhalt ht
  rcases (systemStep_stepped ht).server_cases with ⟨-, heq⟩ | ⟨e, hrunning, -⟩
  · rw [heq, hhalt]
  · rw [hhalt] at hrunning
    cases hrunning

/-- RUNS: the server runs on its own, until it is stuck. -/
theorem run_server : ∀ {as : List SystemAct} {σ σ' : System},
    run (systemStep na env utf8 honest) as σ = some σ' → σ'.halted = false →
    ∃ es, run (CliChat.step na env) es σ.server = some σ'.server
  | [], σ, σ', h, _ => by
    cases h
    exact ⟨[], rfl⟩
  | a :: as, σ, σ', h, hgoes => by
    obtain ⟨m, hm, hrest⟩ := (run_cons_some _).mp h
    obtain ⟨es, hes⟩ := run_server hrest hgoes
    rcases (systemStep_stepped hm).server_cases with ⟨hsame, -⟩ | ⟨e, -, -, -, hok, -⟩
    · exact ⟨es, hsame ▸ hes⟩
    · have hgoes' : m.halted = false := by
        by_contra hhalt
        rw [run_halted (by simpa using hhalt) hrest] at hgoes
        cases hgoes
      exact ⟨e :: es, (run_cons_some _).mpr ⟨m.server, hok hgoes', hes⟩⟩

/-- What a step is for the connection of an honest client. -/
inductive View (na : Sodium) (utf8 : Bytes → Bool) (σ σ' : System) (id : ConnId) : Prop where
  /-- The server serves, or something happens elsewhere. -/
  | served {T : List Ev} : σ'.links id = σ.links id → σ'.server.trace = σ.server.trace ++ T →
      Serves σ.server σ'.server T id → σ.server.kernel.accepted ≤ σ'.server.kernel.accepted →
      View na utf8 σ σ' id
  | acted {c' : Client} {bs : Bytes} {ch' : Chan} :
      Client.Acted na utf8 (σ.links id).client (σ.incoming id) c' bs ch' →
      σ'.server = σ.server → σ'.links id = { σ.links id with
        client := c'
        uplink := (σ.links id).uplink ++ bs
        position := (σ.links id).position + ((σ.incoming id).bytes.length - ch'.bytes.length)
        cuts := ch'.cuts } → View na utf8 σ σ' id
  | arrived {n : ℕ} : id < σ.server.kernel.accepted → (σ.conn id).toServer.ending = .alive →
      σ'.server.trace = σ.server.trace → σ'.server.kernel.accepted = σ.server.kernel.accepted →
      (σ'.conn id).toClient = (σ.conn id).toClient →
      (σ'.conn id).toServer.ending = .alive →
      (σ'.conn id).toServer.bytes = (σ.conn id).toServer.bytes ++ (σ.links id).uplink.take n →
      σ'.links id = { σ.links id with uplink := (σ.links id).uplink.drop n } →
      View na utf8 σ σ' id
  | ended : id < σ.server.kernel.accepted → (σ.conn id).toServer.ending = .alive →
      σ'.server.trace = σ.server.trace →
      σ'.server.kernel.accepted = σ.server.kernel.accepted →
      (σ'.conn id).toClient = (σ.conn id).toClient →
      (σ'.conn id).toServer.bytes = (σ.conn id).toServer.bytes →
      ((σ'.conn id).toServer.ending = .eof → (σ.links id).uplink = []) →
      σ'.links id = σ.links id → View na utf8 σ σ' id
  | cutOff {n : ℕ} : (σ.links id).cut = none → (σ.links id).position ≤ n →
      n ≤ (σ.conn id).toClient.bytes.length → σ'.server = σ.server →
      σ'.links id = { σ.links id with cut := some n } → View na utf8 σ σ' id

/-- Nothing has happened to a connection. -/
theorem View.same {id : ConnId} (hs : σ'.server = σ.server) (hl : σ'.links id = σ.links id) :
    View na utf8 σ σ' id :=
  .served (T := []) hl (by rw [hs, List.append_nil])
    (.quiet (by simp) (by rw [hs]) (Or.inl (by rw [hs]))) (by rw [hs])

/-- COMPLETE: every step, seen from the connection of an honest client. -/
theorem Stepped.view (hσ : Served na env σ) (h : Stepped na env utf8 honest σ σ') {id : ConnId}
    (hid : honest id = true) : View na utf8 σ σ' id := by
  -- the server takes an event that is not the network's on this connection
  have hserved : ∀ {e : Event} {m : System}, σ.serverStep na env e = some m →
      (∀ a, e = .net a → a.conn ≠ id) → σ'.server = m.server → σ'.links id = σ.links id →
      View na utf8 σ σ' id := by
    intro e m hm ha hs hl
    obtain ⟨hrun, hen, -, hafter, -, -⟩ := serverStep_some hm
    obtain ⟨hst, hw, -⟩ := (hσ.reached hrun).conversing env
    obtain ⟨T, hT, hserves⟩ := event_serves na env hst hw hen ha
    rw [← hafter, ← hs] at hT hserves
    refine .served hl hT hserves ?_
    rw [hs, hafter]
    exact event_accepted na env hst hen
  cases h with
  | @server e hforeign hm =>
    obtain ⟨-, -, hlinks, -⟩ := serverStep_some hm
    refine hserved hm (fun a ha hconn => ?_) rfl (by rw [hlinks])
    subst ha
    cases a <;> simp [Event.foreign] at hforeign <;> simp only [NetAct.conn] at hconn <;>
      rw [hconn, hid] at hforeign <;> cases hforeign
  | @client id' a c' bs ch' _ hact heq =>
    by_cases h' : id = id'
    · subst h'
      exact .acted (Client.act_acted hact) (by rw [heq]; rfl) (by rw [heq, System.setLink_self])
    · exact .same (by rw [heq]; rfl) (by rw [heq, System.setLink_ne h'])
  | @arrives id' n m _ hacc halive hm heq =>
    obtain ⟨-, -, hlinks, hafter, -⟩ := serverStep_some hm
    by_cases h' : id = id'
    · subst h'
      have hkernel : σ'.server = { σ.server with
          kernel := σ.server.kernel.net (.arrive id ((σ.links id).uplink.take n)) } := by
        rw [heq]
        exact hafter
      have halive' : (σ.server.kernel.conns id).toServer.ending = .alive := halive
      have hconn : (σ'.conn id).toServer = ⟨(σ.conn id).toServer.bytes ++
          (σ.links id).uplink.take n, .alive, (σ.conn id).toServer.cuts⟩ := by
        rw [System.conn, hkernel]
        simp only [Kernel.net, halive', if_true, Kernel.consumed_conns, Function.update_self]
        rfl
      exact .arrived hacc halive (by rw [hkernel]) (by rw [hkernel]; exact (Kernel.net_frame _ _).2.1)
        (by rw [System.conn, hkernel]; exact Kernel.net_toClient _ _ _) (by rw [hconn])
        (by rw [hconn]) (by rw [heq, System.setLink_self])
    · exact hserved hm (fun a ha hconn => by cases ha; exact h' hconn.symm) (by rw [heq]; rfl)
        (by rw [heq, System.setLink_ne h', hlinks])
  | @ends id' ending _ hacc halive heof hm =>
    obtain ⟨-, -, hlinks, hafter, -⟩ := serverStep_some hm
    by_cases h' : id = id'
    · subst h'
      have hkernel : σ'.server = { σ.server with
          kernel := σ.server.kernel.net (.ends id ending) } := hafter
      have halive' : (σ.server.kernel.conns id).toServer.ending = .alive := halive
      have hconn : (σ'.conn id).toServer =
          ⟨(σ.conn id).toServer.bytes, ending, (σ.conn id).toServer.cuts⟩ := by
        rw [System.conn, hkernel]
        simp only [Kernel.net, halive', if_true, Kernel.consumed_conns, Function.update_self]
        rfl
      exact .ended hacc halive (by rw [hkernel]) (by rw [hkernel]; exact (Kernel.net_frame _ _).2.1)
        (by rw [System.conn, hkernel]; exact Kernel.net_toClient _ _ _) (by rw [hconn])
        (by rw [hconn]; exact heof) (by rw [hlinks])
    · exact hserved hm (fun a ha hconn => by cases ha; exact h' hconn.symm) rfl (by rw [hlinks])
  | @cutsOff id' n _ hnone hpos hn heq =>
    by_cases h' : id = id'
    · subst h'
      exact .cutOff hnone hpos hn (by rw [heq]; rfl) (by rw [heq, System.setLink_self])
    · exact .same (by rw [heq]; rfl) (by rw [heq, System.setLink_ne h'])

end served

end CliChat
