import CliChat.System.Handshake

/-! @src client/src/client.cpp, server/src/server.cpp | name:SendEncrypted, RecvDecrypted | scheme:delivery

    From the prompt of one client to the window of another. Client `src` seals line after line; the
    server forwards each packet as it is; client `dst` opens what it reads. While both stay
    registered, `dst` decrypts from the packets of `src` the lines that `src` passed to
    `SendEncrypted`, each once and in order, whatever else is handled in between.

        src  said ─seal─▶ sent ══▶ packetsFrom src ─forward─▶ packetsTo dst ══▶ taken ─open─▶ inbox -/

namespace CliChat

open Framing Transition

/-! ### What was decrypted of one sender -/

/-- What the receiver made of the packets of `src`, out of the packets `xs` sent to it: `ys` is what
    it has read of them, with the results of `RecvDecrypted`. -/
def decrypted (src : ConnId) (xs : List (Site × Bytes × Bool)) (ys : List (Bytes × Option Bytes)) :
    List (Option Bytes) :=
  (xs.zip ys).filterMap fun z => if z.1.1 = .forward src then some z.2.2 else none

theorem decrypted_cons (src : ConnId) (x : Site × Bytes × Bool) (xs : List (Site × Bytes × Bool))
    (y : Bytes × Option Bytes) (ys : List (Bytes × Option Bytes)) :
    decrypted src (x :: xs) (y :: ys) =
      (if x.1 = .forward src then [y.2] else []) ++ decrypted src xs ys := by
  by_cases h : x.1 = .forward src <;> simp [decrypted, h]

theorem forwards_cons (src : ConnId) (x : Site × Bytes × Bool) (xs : List (Site × Bytes × Bool)) :
    forwards src (x :: xs) = (if x.1 = .forward src then [x.2.1] else []) ++ forwards src xs := by
  by_cases h : x.1 = .forward src <;> simp [forwards, h]

/-- A receiver that reads the packets in order opens those of `src` in order. -/
theorem decrypted_prefix (src : ConnId) {f : Bytes → Option Bytes}
    {zs : List (Site × Bytes × Bool)} :
    ∀ {xs : List (Site × Bytes × Bool)} {ys : List (Bytes × Option Bytes)},
      ys.map Prod.fst <+: (xs ++ zs).map (fun x => x.2.1) → (∀ y ∈ ys, y.2 = f y.1) →
      decrypted src xs ys <+: (forwards src xs).map f ∧
        (xs.length ≤ ys.length → decrypted src xs ys = (forwards src xs).map f)
  | [], ys, _, _ => ⟨by simp [decrypted], fun _ => rfl⟩
  | x :: xs, [], _, _ => ⟨by simp [decrypted], fun h => by simp at h⟩
  | x :: xs, y :: ys, hread, hopen => by
    rw [List.map_cons, List.cons_append, List.map_cons, List.cons_prefix_cons] at hread
    obtain ⟨hpre, heq⟩ := decrypted_prefix src hread.2 fun z hz =>
      hopen z (List.mem_cons_of_mem _ hz)
    have hhead : (if x.1 = .forward src then [y.2] else []) =
        (if x.1 = .forward src then [x.2.1] else []).map f := by
      rw [hopen y List.mem_cons_self, hread.1]
      split <;> rfl
    rw [decrypted_cons, forwards_cons, List.map_append, hhead]
    refine ⟨(List.prefix_append_right_inj _).mpr hpre, fun hlen => ?_⟩
    rw [heq (by simpa using hlen)]

/-! ### Sealed lines open to what was said -/

namespace Client

/-- A line is not empty. -/
theorem IsLine.ne_nil {username msg : Bytes} (h : IsLine username msg) : msg ≠ [] := by
  obtain ⟨text, hne, rfl⟩ := h
  exact List.append_ne_nil_of_right_ne_nil _ hne

theorem opens_said {na : Sodium} {key : Bytes} (hkey : na.SecretboxInverts key)
    {said sent : List (Bytes × Bool)} (h : List.Forall₂
      (fun x y => SealedBox na key x.1 (some y.1) ∧ x.2 = y.2) said sent)
    (hne : ∀ x ∈ said, x.1 ≠ []) :
    (sent.map Prod.fst).map (openPacket na key) = (said.map Prod.fst).map some := by
  induction h with
  | nil => rfl
  | cons hxy _ ih =>
    rw [List.map_cons, List.map_cons, List.map_cons, List.map_cons,
      ih fun z hz => hne z (List.mem_cons_of_mem _ hz),
      hxy.1.opens hkey (hne _ List.mem_cons_self)]

end Client

/-! ### Registered clients have started -/

/-- The sends of what was read, on both directions of a connection, succeeded and fit a frame. -/
structure BothWhole (σ : System) (id : ConnId) : Prop where
  up : UpWhole σ id
  down : DownWhole σ id

/-- A registered client has sent a key and a name, and was sent two keys. -/
theorem RegisteredConn.met {na : Sodium} {s : Server} (hc : Conversing na s) {id : ConnId}
    (h : RegisteredConn s id) :
    2 ≤ (packetsFrom id s.trace).length ∧ 2 ≤ (packetsTo id s.trace).length := by
  obtain ⟨fd, c, hreg, rfl⟩ := h
  have hphase := hc.phases fd c hreg.1
  refine ⟨(hphase.named hreg.2).trans (dialogue_length_le _ _), ?_⟩
  cases hphase with
  | new _ hr => rw [hreg.2] at hr; cases hr
  | keyed _ hr => rw [hreg.2] at hr; cases hr
  | registered _ _ _ _ _ _ hto => rw [hto]; simp

section clean

variable {na : Sodium} {env : ReturningEnv} {honest : ConnId → Bool} {σ : System} {id : ConnId}

/-- A client whose name was read has started. -/
theorem Sound.started (hσ : Sound na env honest σ) (hid : honest id = true) (hup : UpWhole σ id)
    (hheard : 2 ≤ (σ.heardFrom id).length) : (σ.client id).stage = .started := by
  have hvoice := (hσ.sane id hid).voice
  have hlen : 2 ≤ (σ.client id).sent.length := by
    have hread := (hσ.up id hid hup).read.length_le
    rw [List.length_map] at hread
    omega
  have htail : (σ.client id).sent.tail ≠ [] := by
    intro hnil
    have hzero := congrArg List.length hnil
    rw [List.length_tail, List.length_nil] at hzero
    omega
  by_contra hstage
  by_cases hexit : (σ.client id).stage = .exited
  · -- its name was not sent
    obtain ⟨y, rest, hsent⟩ := List.exists_cons_of_ne_nil htail
    have hfail := hvoice.quit hexit y (by rw [hsent]; simp)
    have hmem : y ∈ (σ.client id).sent.take (σ.heardFrom id).length := by
      have hsecond : (σ.client id).sent[1]? = some y := by
        rw [← List.getElem?_tail, hsent]
        rfl
      refine (List.take_prefix_take_left hheard).subset ?_
      rw [List.take_add_one, hsecond]
      simp
    rw [(hup y hmem).1] at hfail
    cases hfail
  · exact htail (hvoice.unsaid hstage hexit).2

/-- It agrees with the server. -/
theorem Sound.agrees_clean (hσ : Sound na env honest σ) (hid : honest id = true)
    (hseal : Seals na σ.server.groupKey) (hbox : na.BoxInverts σ.server.serverPk σ.server.serverSk
      (σ.client id).clientPk (σ.client id).clientSk) (hclean : BothWhole σ id)
    (hheard : 2 ≤ (σ.heardFrom id).length) : Agrees σ id := by
  have hstage := hσ.started hid hclean.up hheard
  obtain ⟨k, g, htaken, -⟩ := (hσ.sane id hid).ear.tuned (Or.inr hstage)
  refine (hσ.agrees hid hseal hbox (Or.inr hstage) (fun y hy => hclean.up y ?_) fun y hy =>
    hclean.down y ?_).1
  · exact (List.take_prefix_take_left (by omega)).subset hy
  · refine (List.take_prefix_take_left ?_).subset hy
    rw [htaken]
    simp

/-- The strings behind `ys`, where the server has read `xs` and then `ys` from the client. -/
def linesOf (σ : System) (id : ConnId) (xs ys : List Bytes) : List Bytes :=
  (((σ.client id).said.drop (xs.length - 1)).take ys.length).map Prod.fst

/-- SENDER: what the server reads after the name are lines, in the order in which they were said. -/
theorem Sound.lines (hσ : Sound na env honest σ) (hid : honest id = true) (hup : UpWhole σ id)
    (hseal : Seals na (σ.client id).groupKey)
    (hsecret : na.SecretboxInverts (σ.client id).groupKey) {xs ys zs : List Bytes}
    (hheard : σ.heardFrom id = xs ++ ys ++ zs) (hxs : 2 ≤ xs.length) :
    (linesOf σ id xs ys).length = ys.length ∧
      (∀ l ∈ linesOf σ id xs ys, Client.IsLine (σ.client id).username l) ∧
      ys.map (openPacket na (σ.client id).groupKey) = (linesOf σ id xs ys).map some := by
  have hvoice := (hσ.sane id hid).voice
  have hstage : (σ.client id).stage ≠ .connected := by
    rw [hσ.started hid hup (by rw [hheard]; simp; omega)]
    decide
  obtain ⟨-, ok, tail, hsent⟩ := hvoice.opening hstage
  have hsealed := hvoice.sealed hseal
  rw [hsent, List.tail_cons] at hsealed
  -- the packets after `xs`, without the key
  obtain ⟨more, hmore⟩ := (hσ.up id hid hup).read
  have hdrop : (tail.map Prod.fst).drop (xs.length - 1) = ys ++ (zs ++ more) := by
    have hall : (σ.client id).clientPk :: tail.map Prod.fst = xs ++ (ys ++ (zs ++ more)) := by
      rw [hsent, hheard, List.map_cons] at hmore
      rw [← hmore]
      simp
    have hone : xs.length = xs.length - 1 + 1 := by omega
    calc (tail.map Prod.fst).drop (xs.length - 1)
        = ((σ.client id).clientPk :: tail.map Prod.fst).drop xs.length := by
          rw [hone, List.drop_succ_cons]
          simp
      _ = ys ++ (zs ++ more) := by rw [hall, List.drop_left]
  have hys : ((tail.drop (xs.length - 1)).take ys.length).map Prod.fst = ys := by
    rw [List.map_take, List.map_drop, hdrop, List.take_left]
  have hpart := List.forall₂_take ys.length (List.forall₂_drop (xs.length - 1) hsealed)
  have hlines : ∀ x ∈ ((σ.client id).said.drop (xs.length - 1)).take ys.length,
      Client.IsLine (σ.client id).username x.1 := by
    intro x hx
    refine hvoice.lines x ?_
    rw [← List.drop_one]
    exact (List.drop_suffix_drop_left _ (by omega)).subset (List.mem_of_mem_take hx)
  refine ⟨?_, ?_, ?_⟩
  · rw [linesOf, List.length_map, hpart.length_eq, ← List.length_map Prod.fst, hys]
  · intro l hl
    obtain ⟨x, hx, rfl⟩ := List.mem_map.mp hl
    exact hlines x hx
  · rw [linesOf, ← Client.opens_said hsecret hpart fun x hx => (hlines x hx).ne_nil, hys]

/-- RECEIVER: what a client makes of the packets `ys`, which the server sent to it after `xs`. -/
theorem Sound.decrypts (hσ : Sound na env honest σ) (hid : honest id = true) (hdown : DownWhole σ id)
    (hstage : (σ.client id).stage = .started) {xs ys zs : List (Site × Bytes × Bool)}
    (hsent : packetsTo id σ.server.trace = xs ++ ys ++ zs) (hxs : 2 ≤ xs.length) (src : ConnId) :
    decrypted src ys ((σ.client id).inbox.drop (xs.length - 2)) <+:
        (forwards src ys).map (openPacket na (σ.client id).groupKey) ∧
      ((xs ++ ys).length ≤ (σ.client id).taken.length →
        decrypted src ys ((σ.client id).inbox.drop (xs.length - 2)) =
          (forwards src ys).map (openPacket na (σ.client id).groupKey)) := by
  have hear := (hσ.sane id hid).ear
  obtain ⟨k, g, htaken, -⟩ := hear.tuned (Or.inr hstage)
  have hread := (hσ.down id hid hdown).read
  rw [htaken, System.sentTo, hsent, List.map_map] at hread
  have hafter : ((σ.client id).inbox.drop (xs.length - 2)).map Prod.fst <+:
      (ys ++ zs).map fun x => x.2.1 := by
    have hdrop := hread.drop xs.length
    have htwo : xs.length = xs.length - 2 + 1 + 1 := by omega
    rw [htwo, List.drop_succ_cons, List.drop_succ_cons, ← htwo, ← List.map_drop, ← List.map_drop,
      List.append_assoc, List.drop_left] at hdrop
    exact hdrop
  obtain ⟨hpre, heq⟩ := decrypted_prefix src hafter fun y hy =>
    hear.opened y (List.mem_of_mem_drop hy)
  refine ⟨hpre, fun hlen => heq ?_⟩
  rw [htaken] at hlen
  simp only [List.length_append, List.length_cons, List.length_map] at hlen
  rw [List.length_drop]
  omega

end clean

/-! ### Delivery -/

section delivery

variable {na : Sodium} {env : ReturningEnv} {utf8 : Bytes → Bool} {honest : ConnId → Bool}
  {σ₁ σ₂ σ₃ : System}

/-- Only chat is forwarded, also where the server is stuck. -/
theorem Served.relays {σ : System} (h : Served na env σ) (hseal : Seals na σ.server.groupKey) :
    Relays σ.server := by
  refine h.elim (P := fun s => Seals na s.groupKey → Relays s) (fun s hs => hs.relays)
    (fun s e f t hs hen _ _ hseal => ?_) hseal
  rw [event_groupKey hs hen] at hseal
  obtain ⟨hst, -, hconv⟩ := hs.conversing env
  exact (hs.relays hseal).event hst (hconv hseal) hen

variable {env : Env}

/-- The keys of the server are the same at both ends of a run. -/
theorem run_sameKeys (h : SystemReach na env utf8 honest σ₁) {as : List SystemAct}
    (hrun : run (systemStep na env utf8 honest) as σ₁ = some σ₂) :
    SameKeys σ₁.server σ₂.server := by
  refine run_relation (systemStep na env.returning utf8 honest) (I := Served na env.returning)
    (R := fun σ σ' => SameKeys σ.server σ'.server)
    (fun _ _ _ hσ ht => hσ.step (systemStep_stepped ht)) (fun _ _ => ⟨rfl, rfl, rfl⟩)
    (fun _ _ _ h k => h.trans k) (fun a σ σ' hσ ht => ?_) h.sound.served (systemRun_returning hrun)
  rcases (systemStep_stepped ht).server_cases with ⟨hsame, -⟩ | ⟨e, hgoes, hen, hafter, -⟩
  · rw [hsame]
    exact ⟨rfl, rfl, rfl⟩
  · rw [hafter]
    exact event_sameKeys env.returning ((hσ.reached hgoes).store na env.returning) hen

/-- DELIVERY: `src` and `dst` are registered at both ends of the stretch `T` of a run, and later
    `dst` reads on. From the packets of `src` in `T` it decrypts the lines of `src` that the server
    has handled in `T`, each once and in order: some first ones, and all of them once it has read
    what was sent to it. Nothing that `src` sent before its first line is ever forwarded. -/
theorem exactly_once_delivery (h : SystemReach na env utf8 honest σ₁) {as bs : List SystemAct}
    (hrun : run (systemStep na env utf8 honest) as σ₁ = some σ₂) (hgoes : σ₂.halted = false)
    (hlater : run (systemStep na env utf8 honest) bs σ₂ = some σ₃) (src dst : ConnId)
    (hsrc : honest src = true) (hdst : honest dst = true)
    (hreg : ∀ id, id = src ∨ id = dst →
      RegisteredConn σ₁.server id ∧ RegisteredConn σ₂.server id)
    (hseal : Seals na σ₃.server.groupKey) (hsecret : na.SecretboxInverts σ₃.server.groupKey)
    (hbox : ∀ id, id = src ∨ id = dst → na.BoxInverts σ₃.server.serverPk σ₃.server.serverSk
      (σ₃.client id).clientPk (σ₃.client id).clientSk)
    (hclean : ∀ id, id = src ∨ id = dst → BothWhole σ₃ id) :
    ∃ T, σ₂.server.trace = σ₁.server.trace ++ T ∧
      (∀ l ∈ linesOf σ₃ src (σ₁.heardFrom src) (packetsFrom src T),
        Client.IsLine (σ₃.client src).username l) ∧
      (linesOf σ₃ src (σ₁.heardFrom src) (packetsFrom src T)).length =
        (packetsFrom src T).length ∧
      decrypted src (packetsTo dst T) ((σ₃.client dst).inbox.drop ((σ₁.sentTo dst).length - 2)) <+:
        (linesOf σ₃ src (σ₁.heardFrom src) (packetsFrom src T)).map some ∧
      ((σ₂.sentTo dst).length ≤ (σ₃.client dst).taken.length →
        decrypted src (packetsTo dst T)
            ((σ₃.client dst).inbox.drop ((σ₁.sentTo dst).length - 2)) =
          (linesOf σ₃ src (σ₁.heardFrom src) (packetsFrom src T)).map some) ∧
      ∀ id, (forwards src (packetsTo id σ₃.server.trace)).Sublist ((σ₃.heardFrom src).drop 2) := by
  have h₂ : SystemReach na env utf8 honest σ₂ := h.trans hrun
  have hσ₁ := h.sound
  have hσ₂ := h₂.sound
  have hσ₃ : Sound na env.returning honest σ₃ := SystemReach.sound (h₂.trans hlater)
  have hkey₂ := (run_sameKeys h₂ hlater).groupKey
  have hkey₁ := (run_sameKeys h hrun).groupKey
  -- the server has run on its own from `σ₁` to `σ₂`
  have hgoes₁ : σ₁.halted = false := by
    by_contra hhalt
    rw [run_halted (by simpa using hhalt) (systemRun_returning hrun)] at hgoes
    cases hgoes
  obtain ⟨es, hes⟩ := run_server (systemRun_returning hrun) hgoes
  have hreach₁ := hσ₁.served.reached hgoes₁
  have hconv₁ := (hreach₁.conversing env.returning).2.2 (by rw [← hkey₁, ← hkey₂]; exact hseal)
  obtain ⟨T, hT, -, hforwards⟩ := (hreach₁.stretch na env.returning hes).log
  obtain ⟨hs₁, hs₂⟩ := hreg src (Or.inl rfl)
  obtain ⟨hd₁, hd₂⟩ := hreg dst (Or.inr rfl)
  have hfor := hforwards src dst hs₁ hs₂ hd₁ hd₂
  -- both have started and agree with the server
  have htrace : σ₂.server.trace <+: σ₃.server.trace := (h₂.advances hlater hsrc).trace
  obtain ⟨T', hT'⟩ := htrace
  have hlog : σ₃.server.trace = σ₁.server.trace ++ T ++ T' := by rw [← hT', hT]
  have hheard : ∀ id, σ₃.heardFrom id =
      σ₁.heardFrom id ++ packetsFrom id T ++ packetsFrom id T' := by
    intro id
    rw [System.heardFrom, hlog, packetsFrom_append, packetsFrom_append]
    rfl
  have hmet : ∀ id, RegisteredConn σ₁.server id → 2 ≤ (σ₃.heardFrom id).length := by
    intro id hid
    have hmet₁ : 2 ≤ (σ₁.heardFrom id).length := (hid.met hconv₁).1
    rw [hheard, List.length_append, List.length_append]
    omega
  have hsagrees := hσ₃.agrees_clean hsrc hseal (hbox src (Or.inl rfl)) (hclean src (Or.inl rfl))
    (hmet src hs₁)
  have hdagrees := hσ₃.agrees_clean hdst hseal (hbox dst (Or.inr rfl)) (hclean dst (Or.inr rfl))
    (hmet dst hd₁)
  have hstage := hσ₃.started hdst (hclean dst (Or.inr rfl)).up (hmet dst hd₁)
  obtain ⟨hlength, hlines, hopen⟩ := hσ₃.lines hsrc (hclean src (Or.inl rfl)).up
    (hsagrees.groupKey ▸ hseal) (hsagrees.groupKey ▸ hsecret) (hheard src) (hs₁.met hconv₁).1
  have hsent : packetsTo dst σ₃.server.trace =
      packetsTo dst σ₁.server.trace ++ packetsTo dst T ++ packetsTo dst T' := by
    rw [hlog, packetsTo_append, packetsTo_append]
  obtain ⟨hpre, heq⟩ := hσ₃.decrypts hdst (hclean dst (Or.inr rfl)).down hstage hsent
    (hd₁.met hconv₁).2 src
  rw [hfor, hdagrees.groupKey, ← hsagrees.groupKey, hopen] at hpre heq
  have hsentTo : (σ₁.sentTo dst).length = (packetsTo dst σ₁.server.trace).length :=
    List.length_map _
  rw [hsentTo]
  refine ⟨T, hT, hlines, hlength, hpre, fun hlen => heq ?_, fun id => ?_⟩
  · rw [System.sentTo, hT, packetsTo_append, List.length_map] at hlen
    exact hlen
  · have hup := (hclean src (Or.inl rfl)).up
    have hfirst : ∀ y ∈ (σ₃.client src).sent.take 1, Whole y := fun y hy => hup y
      ((List.take_prefix_take_left ((by decide : 1 ≤ 2).trans (hmet src hs₁))).subset hy)
    have hchat : chat src σ₃.server.trace = (σ₃.heardFrom src).drop 2 := by
      rw [chat, (hσ₃.key_heard hsrc hfirst).1]
    rw [← hchat]
    exact hσ₃.served.relays hseal src id

end delivery

/-- Two clients have joined, and both say something: the second reads both lines, and of those of the
    first it decrypts the one. -/
theorem exactly_once_delivery_two : ∃ σ₁ σ₂ σ₃ T,
    sampleSystemRun (fun _ => true) (enters 0 5 (ascii "al") ++ enters 1 6 (ascii "bo")) =
      some σ₁ ∧
    run (systemStep Sodium.plain (Env.failing []) (fun _ => true) (fun _ => true))
      (enteringLine 0 (ascii "hi") :: enteringLine 1 (ascii "yo") ::
        (delivers 1 6 ++ delivers 0 5)) σ₁ = some σ₂ ∧
    run (systemStep Sodium.plain (Env.failing []) (fun _ => true) (fun _ => true))
      (List.replicate 3 (.client 1 .handleBroadcast)) σ₂ = some σ₃ ∧
    σ₂.server.trace = σ₁.server.trace ++ T ∧
    decrypted 0 (packetsTo 1 T) ((σ₃.client 1).inbox.drop ((σ₁.sentTo 1).length - 2)) =
      [some (ascii "al: hi")] := by
  have hrun : ((sampleSystemRun (fun _ => true) (enters 0 5 (ascii "al") ++
      enters 1 6 (ascii "bo"))).any fun σ₁ =>
      (run (systemStep Sodium.plain (Env.failing []) (fun _ => true) (fun _ => true))
        (enteringLine 0 (ascii "hi") :: enteringLine 1 (ascii "yo") ::
          (delivers 1 6 ++ delivers 0 5)) σ₁).any fun σ₂ =>
      (run (systemStep Sodium.plain (Env.failing []) (fun _ => true) (fun _ => true))
        (List.replicate 3 (.client 1 .handleBroadcast)) σ₂).any fun σ₃ =>
      decide ((∀ x ∈ ([(5, 0), (6, 1)] : List (Fd × ConnId)), ∀ σ ∈ [σ₁, σ₂],
          (σ.server.clients.lookup x.1).map (fun c => (c.registered, c.session.conn)) =
            some (true, x.2)) ∧
        (∀ id ∈ ([0, 1] : List ConnId), (σ₃.client id).clientSk = (σ₃.client id).clientPk ∧
          (∀ y ∈ (σ₃.client id).sent, Whole y) ∧ ∀ y ∈ σ₃.sentTo id, Whole y) ∧
        σ₃.server.serverSk = σ₃.server.serverPk ∧ σ₂.halted = false ∧
        (σ₂.sentTo 1).length ≤ (σ₃.client 1).taken.length ∧
        linesOf σ₃ 0 (σ₁.heardFrom 0)
          (packetsFrom 0 (σ₂.server.trace.drop σ₁.server.trace.length)) = [ascii "al: hi"])) =
      true := by decide +kernel
  obtain ⟨σ₁, h₁, hrest⟩ := (Option.any_eq_true _ _).mp hrun
  obtain ⟨σ₂, h₂, hrest⟩ := (Option.any_eq_true _ _).mp hrest
  obtain ⟨σ₃, h₃, heq⟩ := (Option.any_eq_true _ _).mp hrest
  obtain ⟨hentries, hclients, hserver, hgoes, hread, hlines⟩ := of_decide_eq_true heq
  have hid : ∀ {id : ConnId}, id = 0 ∨ id = 1 → id ∈ ([0, 1] : List ConnId) := by
    rintro id (rfl | rfl) <;> decide
  have hreg : ∀ id, id = 0 ∨ id = 1 →
      RegisteredConn σ₁.server id ∧ RegisteredConn σ₂.server id := by
    rintro id (rfl | rfl)
    · exact ⟨.of_lookup (hentries (5, 0) (by simp) σ₁ (by simp)),
        .of_lookup (hentries (5, 0) (by simp) σ₂ (by simp))⟩
    · exact ⟨.of_lookup (hentries (6, 1) (by simp) σ₁ (by simp)),
        .of_lookup (hentries (6, 1) (by simp) σ₂ (by simp))⟩
  obtain ⟨T, hT, -, -, -, hall, -⟩ := exactly_once_delivery (sampleSystemRun_reach h₁) h₂
    hgoes h₃ 0 1 rfl rfl hreg (fun _ _ => rfl)
    (Sodium.plain_secretboxInverts _)
    (fun id h => by
      rw [hserver, (hclients id (hid h)).1]
      exact Sodium.plain_boxInverts _ _)
    (fun id h => ⟨fun y hy => (hclients id (hid h)).2.1 y (List.mem_of_mem_take hy),
      fun y hy => (hclients id (hid h)).2.2 y (List.mem_of_mem_take hy)⟩)
  rw [hT, List.drop_left] at hlines
  exact ⟨σ₁, σ₂, σ₃, T, h₁, h₂, h₃, hT, by rw [hall hread, hlines]; rfl⟩

end CliChat
