import CliChat.Client.Invariant
import CliChat.Server.Conversation

/-! @src server/src/server.cpp, client/src/client.cpp | name:Server, Client | scheme:system

    The server with a client program at the other end of each connection that is `honest`; the
    peers of the others send what they like. The two directions of a connection are the streams of
    the kernel: bytes that a client writes arrive in pieces of any size, and either direction may
    end at any time, also in the middle of a packet. One step is one handler of the server, one
    action of a client, or one act of the network. A handler that waits in `recv` or `send` is taken
    when it can return, and a run ends before a handler that a `send` kills; one that never returns
    for another reason stops the server where it stands.

        Client ── uplink ──▶ toServer ──▶ Server
        Client ◀── incoming: toClient from `position` ── Server        -/

namespace CliChat

open Transition

/-- A client, and the network between it and the server. -/
structure Link where
  client : Client
  /-- What the client has written, and the server's kernel has not got. -/
  uplink : Bytes
  /-- How many bytes of the server's stream the client has read. -/
  position : ℕ
  /-- The most that each coming `recv` of the client returns. -/
  cuts : List ℕ
  /-- After how many bytes the server's stream has failed. -/
  cut : Option ℕ

structure System where
  server : Server
  /-- The server is in a handler that never returns, or has died of it. -/
  halted : Bool
  links : ConnId → Link

namespace System

def setLink (σ : System) (id : ConnId) (l : Link) : System :=
  { σ with links := Function.update σ.links id l }

@[simp] theorem setLink_server (σ : System) (id : ConnId) (l : Link) :
    (σ.setLink id l).server = σ.server := rfl
@[simp] theorem setLink_halted (σ : System) (id : ConnId) (l : Link) :
    (σ.setLink id l).halted = σ.halted := rfl
@[simp] theorem setLink_self (σ : System) (id : ConnId) (l : Link) :
    (σ.setLink id l).links id = l := Function.update_self _ _ _
theorem setLink_ne {id id' : ConnId} (h : id' ≠ id) (σ : System) (l : Link) :
    (σ.setLink id l).links id' = σ.links id' := Function.update_of_ne h _ _

/-- The server's end of a connection. -/
def conn (σ : System) (id : ConnId) : Conn := σ.server.kernel.conns id

/-- The stream that the client of `id` reads. -/
def incoming (σ : System) (id : ConnId) : Chan :=
  match (σ.links id).cut with
  | none => ⟨(σ.conn id).toClient.bytes.drop (σ.links id).position, (σ.conn id).toClient.ending,
      (σ.links id).cuts⟩
  | some n => ⟨((σ.conn id).toClient.bytes.take n).drop (σ.links id).position, .error,
      (σ.links id).cuts⟩

end System

/-- What happens next. -/
inductive SystemAct where
  | server (e : Event)
  | client (id : ConnId) (a : ClientAct)
  /-- The next `n` bytes of a client reach the server. -/
  | arrives (id : ConnId) (n : ℕ)
  /-- The stream of a client ends at the server: orderly, after all that it has written, or not. -/
  | ends (id : ConnId) (ending : Ending)
  /-- The stream of the server fails at a client, after `n` bytes. -/
  | cutsOff (id : ConnId) (n : ℕ)

/-- The network acts for the peers that are not honest only. -/
def Event.foreign (honest : ConnId → Bool) : Event → Bool
  | .net (.arrive id _) => !honest id
  | .net (.ends id _) => !honest id
  | _ => true

section steps

variable (na : Sodium) (env : Env) (utf8 : Bytes → Bool) (honest : ConnId → Bool)

/-- The server takes an event. -/
def System.serverStep (e : Event) (σ : System) : Option System :=
  if σ.halted = false ∧ e.enabled σ.server = true then
    match handle na env e σ.server with
    | .ok _ s => some { σ with server := s }
    | .error .blocked _ => none
    | .error (.send _) _ => none
    | .error _ s => some { σ with server := s, halted := true }
  else none

def systemStep : SystemAct → System → Option System
  | .server e, σ => if e.foreign honest then σ.serverStep na env e else none
  | .client id a, σ =>
    if honest id then
      ((σ.links id).client.act na utf8 (σ.incoming id) a).map fun x =>
        σ.setLink id { σ.links id with
          client := x.1
          uplink := (σ.links id).uplink ++ x.2.1
          position := (σ.links id).position +
            ((σ.incoming id).bytes.length - x.2.2.bytes.length)
          cuts := x.2.2.cuts }
    else none
  | .arrives id n, σ =>
    if honest id ∧ id < σ.server.kernel.accepted ∧ (σ.conn id).toServer.ending = .alive then
      (σ.serverStep na env (.net (.arrive id ((σ.links id).uplink.take n)))).map fun σ' =>
        σ'.setLink id { σ.links id with uplink := (σ.links id).uplink.drop n }
    else none
  | .ends id ending, σ =>
    if honest id ∧ id < σ.server.kernel.accepted ∧ (σ.conn id).toServer.ending = .alive ∧
        (ending = .eof → (σ.links id).uplink = []) then
      σ.serverStep na env (.net (.ends id ending))
    else none
  | .cutsOff id n, σ =>
    if honest id ∧ (σ.links id).cut = none ∧ (σ.links id).position ≤ n ∧
        n ≤ (σ.conn id).toClient.bytes.length then
      some (σ.setLink id { σ.links id with cut := some n })
    else none

/-- Nobody has done anything yet. -/
def SystemInitial (σ : System) : Prop :=
  Initial σ.server ∧ σ.halted = false ∧ ∀ id, ∃ cuts, σ.links id = ⟨{}, [], 0, cuts, none⟩

/-- The states that runs of the system reach. -/
def SystemReach (σ : System) : Prop :=
  Reachable (systemStep na env utf8 honest) SystemInitial σ

/-! ### The steps, by the part they touch -/

variable {na env utf8 honest} {σ σ' : System}

/-- A step of the server ends where its handler ends, or is stuck. -/
theorem serverStep_some {e : Event} (h : σ.serverStep na env e = some σ') :
    σ.halted = false ∧ e.enabled σ.server = true ∧ σ'.links = σ.links ∧
      σ'.server = stateAfter na env e σ.server ∧
      (σ'.halted = false → step na env e σ.server = some σ'.server) ∧
      (σ'.halted = true → ∃ f s, handle na env e σ.server = .error f s ∧ f ≠ .blocked) := by
  unfold System.serverStep at h
  split at h
  · rename_i hcond
    obtain ⟨hhalt, hen⟩ := hcond
    rw [stateAfter_eq]
    split at h
    · rename_i s hr
      cases h
      refine ⟨hhalt, hen, rfl, by rw [hr]; rfl, fun _ => (step_some na env).mpr ⟨hen, hr⟩,
        fun htrue => ?_⟩
      rw [show σ.halted = _ from hhalt] at htrue
      cases htrue
    · cases h
    · cases h
    · rename_i f s hf _ hr
      cases h
      exact ⟨hhalt, hen, rfl, by rw [hr]; rfl, fun hfalse => (by cases hfalse),
        fun _ => ⟨f, s, hr, hf⟩⟩
  · cases h

/-- What a step can do: the server takes an event and one link changes at most, or only one link
    changes. -/
inductive Stepped (na : Sodium) (env : Env) (utf8 : Bytes → Bool) (honest : ConnId → Bool)
    (σ σ' : System) : Prop where
  | server {e : Event} : e.foreign honest = true → σ.serverStep na env e = some σ' →
      Stepped na env utf8 honest σ σ'
  | client {id : ConnId} {a : ClientAct} {c' : Client} {bs : Bytes} {ch' : Chan} :
      honest id = true → (σ.links id).client.act na utf8 (σ.incoming id) a = some (c', bs, ch') →
      σ' = σ.setLink id { σ.links id with
        client := c'
        uplink := (σ.links id).uplink ++ bs
        position := (σ.links id).position + ((σ.incoming id).bytes.length - ch'.bytes.length)
        cuts := ch'.cuts } → Stepped na env utf8 honest σ σ'
  | arrives {id : ConnId} {n : ℕ} {m : System} : honest id = true →
      id < σ.server.kernel.accepted → (σ.conn id).toServer.ending = .alive →
      σ.serverStep na env (.net (.arrive id ((σ.links id).uplink.take n))) = some m →
      σ' = m.setLink id { σ.links id with uplink := (σ.links id).uplink.drop n } →
      Stepped na env utf8 honest σ σ'
  | ends {id : ConnId} {ending : Ending} : honest id = true →
      id < σ.server.kernel.accepted → (σ.conn id).toServer.ending = .alive →
      (ending = .eof → (σ.links id).uplink = []) →
      σ.serverStep na env (.net (.ends id ending)) = some σ' → Stepped na env utf8 honest σ σ'
  | cutsOff {id : ConnId} {n : ℕ} : honest id = true → (σ.links id).cut = none →
      (σ.links id).position ≤ n → n ≤ (σ.conn id).toClient.bytes.length →
      σ' = σ.setLink id { σ.links id with cut := some n } → Stepped na env utf8 honest σ σ'

theorem systemStep_stepped {a : SystemAct}
    (h : systemStep na env utf8 honest a σ = some σ') : Stepped na env utf8 honest σ σ' := by
  cases a with
  | server e =>
    simp only [systemStep, Option.ite_none_right_eq_some] at h
    exact .server h.1 h.2
  | client id a =>
    simp only [systemStep, Option.ite_none_right_eq_some, Option.map_eq_some_iff] at h
    obtain ⟨hhon, ⟨c', bs, ch'⟩, hact, rfl⟩ := h
    exact .client hhon hact rfl
  | arrives id n =>
    simp only [systemStep, Option.ite_none_right_eq_some, Option.map_eq_some_iff] at h
    obtain ⟨⟨hhon, hacc, halive⟩, m, hm, rfl⟩ := h
    exact .arrives hhon hacc halive hm rfl
  | ends id ending =>
    simp only [systemStep, Option.ite_none_right_eq_some] at h
    obtain ⟨⟨hhon, hacc, halive, heof⟩, hm⟩ := h
    exact .ends hhon hacc halive heof hm
  | cutsOff id n =>
    simp only [systemStep, Option.ite_none_right_eq_some, Option.some.injEq] at h
    obtain ⟨⟨hhon, hnone, hpos, hn⟩, rfl⟩ := h
    exact .cutsOff hhon hnone hpos hn rfl

/-- The link that an action changes. -/
def SystemAct.link : SystemAct → Option ConnId
  | .server _ => none
  | .client id _ => some id
  | .arrives id _ => some id
  | .ends _ _ => none
  | .cutsOff id _ => some id

/-- FRAME: a step changes no other link. -/
theorem systemStep_links {a : SystemAct} (h : systemStep na env utf8 honest a σ = some σ')
    {id : ConnId} (hid : a.link ≠ some id) : σ'.links id = σ.links id := by
  have hne : ∀ {id'}, a.link = some id' → id ≠ id' := by
    rintro id' hlink rfl
    exact hid hlink
  cases a with
  | server e =>
    simp only [systemStep, Option.ite_none_right_eq_some] at h
    rw [(serverStep_some h.2).2.2.1]
  | client id' a =>
    simp only [systemStep, Option.ite_none_right_eq_some, Option.map_eq_some_iff] at h
    obtain ⟨-, x, -, rfl⟩ := h
    exact System.setLink_ne (hne rfl) _ _
  | arrives id' n =>
    simp only [systemStep, Option.ite_none_right_eq_some, Option.map_eq_some_iff] at h
    obtain ⟨-, m, hm, rfl⟩ := h
    rw [System.setLink_ne (hne rfl), (serverStep_some hm).2.2.1]
  | ends id' ending =>
    simp only [systemStep, Option.ite_none_right_eq_some] at h
    rw [(serverStep_some h.2).2.2.1]
  | cutsOff id' n =>
    simp only [systemStep, Option.ite_none_right_eq_some, Option.some.injEq] at h
    obtain ⟨-, rfl⟩ := h
    exact System.setLink_ne (hne rfl) _ _

/-- FRAME: nor does a run whose steps change other links. -/
theorem run_links {id : ConnId} : ∀ {as : List SystemAct} {σ σ' : System},
    run (systemStep na env utf8 honest) as σ = some σ' → (∀ a ∈ as, a.link ≠ some id) →
    σ'.links id = σ.links id
  | [], _, _, h, _ => by
    cases h
    rfl
  | a :: as, σ, σ', h, hid => by
    obtain ⟨m, hm, hrest⟩ := (run_cons_some _).mp h
    rw [run_links hrest fun b hb => hid b (List.mem_cons_of_mem _ hb),
      systemStep_links hm (hid a List.mem_cons_self)]

end steps

/-! ### Sends that return -/

section returning

variable {na : Sodium} {env : Env} {utf8 : Bytes → Bool} {honest : ConnId → Bool} {σ σ' : System}

theorem serverStep_returning {e : Event} (h : σ.serverStep na env e = some σ') :
    SendsReturn na env e σ.server ∧ σ.serverStep na env.returning e = some σ' := by
  have hret : SendsReturn na env e σ.server := by
    by_contra hstop
    obtain ⟨how, t, -, herr, -⟩ := handle_stops hstop
    unfold System.serverStep at h
    rw [herr] at h
    simp at h
  refine ⟨hret, ?_⟩
  unfold System.serverStep at h ⊢
  rwa [← hret.handle]

/-- SIMULATION: a step is a step of the system in which the server's sends return. -/
theorem systemStep_returning {a : SystemAct} (h : systemStep na env utf8 honest a σ = some σ') :
    systemStep na env.returning utf8 honest a σ = some σ' := by
  cases a with
  | server e =>
    simp only [systemStep, Option.ite_none_right_eq_some] at h ⊢
    exact ⟨h.1, (serverStep_returning h.2).2⟩
  | client id a => exact h
  | arrives id n =>
    simp only [systemStep, Option.ite_none_right_eq_some, Option.map_eq_some_iff] at h ⊢
    obtain ⟨hcond, m, hm, hσ'⟩ := h
    exact ⟨hcond, m, (serverStep_returning hm).2, hσ'⟩
  | ends id ending =>
    simp only [systemStep, Option.ite_none_right_eq_some] at h ⊢
    exact ⟨h.1, (serverStep_returning h.2).2⟩
  | cutsOff id n => exact h

theorem systemRun_returning : ∀ {as : List SystemAct} {σ σ' : System},
    run (systemStep na env utf8 honest) as σ = some σ' →
    run (systemStep na env.returning utf8 honest) as σ = some σ'
  | [], σ, σ', h => by rwa [run_nil] at h ⊢
  | a :: as, σ, σ', h => by
    rw [run_cons_some] at h ⊢
    obtain ⟨m, hm, hrest⟩ := h
    exact ⟨m, systemStep_returning hm, systemRun_returning hrest⟩

theorem SystemReach.returning (h : SystemReach na env utf8 honest σ) :
    SystemReach na env.returning utf8 honest σ := by
  obtain ⟨σ₀, as, h₀, hrun⟩ := h
  exact ⟨σ₀, as, h₀, systemRun_returning hrun⟩

end returning

/-! ### Concrete runs -/

/-- The system of the concrete runs: the server is `sampleServer`, and no `recv` is cut short. -/
def sampleSystem : System where
  server := sampleServer
  halted := false
  links _ := ⟨{}, [], 0, [], none⟩

theorem sampleSystem_initial : SystemInitial sampleSystem :=
  ⟨sampleServer_initial, rfl, fun _ => ⟨[], rfl⟩⟩

/-- A concrete run, in which no send fails and every string is UTF-8. -/
def sampleSystemRun (honest : ConnId → Bool) (acts : List SystemAct) : Option System :=
  run (systemStep Sodium.plain (Env.failing []) (fun _ => true) honest) acts sampleSystem

theorem sampleSystemRun_reach {honest : ConnId → Bool} {acts : List SystemAct} {σ : System}
    (h : sampleSystemRun honest acts = some σ) :
    SystemReach Sodium.plain (Env.failing []) (fun _ => true) honest σ :=
  ⟨sampleSystem, acts, sampleSystem_initial, h⟩

/-- What the client of `id` has written arrives, and its socket `fd` is reported. -/
def delivers (id : ConnId) (fd : Fd) : List SystemAct :=
  [.arrives id 1000, .server (.client fd)]

/-- The client of `id` is accepted as `fd`, and comes to its prompt. -/
def prompts (id : ConnId) (fd : Fd) : List SystemAct :=
  .server (.listener [.conn fd true .none [] []]) ::
    .client id (.sendKey (List.replicate boxPublicKeyBytes 5) (List.replicate boxPublicKeyBytes 5)
      []) ::
    delivers id fd ++ [.client id .recvServerPk, .client id .recvGroupKey]

/-- The client of `id` sends its name. -/
def naming (id : ConnId) (name : Bytes) : SystemAct :=
  .client id (.sendUsername (some name) (List.replicate secretboxNonceBytes 0) [])

/-- The client of `id` is accepted as `fd`, and registers under `name`. -/
def enters (id : ConnId) (fd : Fd) (name : Bytes) : List SystemAct :=
  prompts id fd ++ naming id name :: delivers id fd

/-- The user of the client of `id` enters `text`. -/
def enteringLine (id : ConnId) (text : Bytes) : SystemAct :=
  .client id (.clientLoop (some text) (List.replicate secretboxNonceBytes 0) [])

end CliChat
