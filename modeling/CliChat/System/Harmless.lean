import CliChat.Client.Stops
import CliChat.System.Control

/-! @src client/src/client.cpp, server/src/server.cpp | name:HandleBroadcast | scheme:isolation

    Who can stop a client. The server forwards any bytes, and a client that cannot read a packet
    takes its server for gone: one frame of a registered peer ends every other client. When all that
    is forwarded to a client is readable, a client stops by what its own user does, by what
    happens to its own connection, or because the server refuses its name.

        peer ─frame─▶ server ─forward─▶ HandleBroadcast ─┬ readable ─▶ queue ─▶ UIUpdateLoop
                                                         └ else ─▶ "Server closed connection."  -/

namespace CliChat

open Framing Transition

/-- Nothing in the packet stops who reads it: a forwarded payload holds a UTF-8 text other than the
    control text, and a notice is UTF-8 and fits the header. -/
def Harmless (na : Sodium) (utf8 : Bytes → Bool) (key : Bytes) (x : Site × Bytes × Bool) : Prop :=
  match x.1 with
  | .forward _ => ∃ m, Holds na key x.2.1 m ∧ m ≠ usernameTaken ∧ utf8 m = true
  | .secretbox m => utf8 m = true ∧ x.2.1.length < 2 ^ 32
  | _ => True

instance (na : Sodium) (utf8 : Bytes → Bool) (key : Bytes) :
    DecidablePred (Harmless na utf8 key)
  | (.forward _, p, _) =>
    decidable_of_iff (∃ m ∈ openPacket na key p, m ≠ usernameTaken ∧ utf8 m = true) <|
      exists_congr fun m => by rw [Option.mem_def, openPacket_eq_some]
  | (.secretbox m, p, _) => inferInstanceAs (Decidable (utf8 m = true ∧ p.length < 2 ^ 32))
  | (.serverPk, _) => .isTrue trivial
  | (.groupKey, _) => .isTrue trivial

/-- A send on the connection of `id` failed: that of the client's key, or one of a packet that the
    client has read or reads next. -/
def Failed (σ : System) (id : ConnId) : Prop :=
  ∃ y ∈ (σ.client id).sent.take 1 ++ (σ.sentTo id).take ((σ.client id).taken.length + 1),
    y.2 = false

/-- What stops the client of `id` in the step `a`, without the doing of its peers. -/
inductive OwnEnd (na : Sodium) (σ : System) (id : ConnId) (a : SystemAct) : Prop where
  /-- The user leaves. -/
  | left {inputOpt : Option Bytes} {nonce : Bytes} {sched : Answers} :
      inputOpt = none ∨ inputOpt = some (ascii "/exit") →
      a = .client id (.clientLoop inputOpt nonce sched) → OwnEnd na σ id a
  /-- The stream from the server has ended or failed. -/
  | closed {ch : Chan} : recvPacket (σ.incoming id) = .done none ch →
      a = .client id .handleBroadcast → OwnEnd na σ id a
  | failed : Failed σ id → OwnEnd na σ id a
  | refused : Refused na σ.server id (packetsTo id σ.server.trace) → OwnEnd na σ id a

section step

variable {na : Sodium} {env : ReturningEnv} {utf8 : Bytes → Bool} {honest : ConnId → Bool}
  {σ σ' : System}
  {id : ConnId}

/-- An action of a client, as a step of the system. -/
theorem systemStep_act {b : ClientAct}
    (h : systemStep na env utf8 honest (.client id b) σ = some σ') :
    ∃ bs ch', (σ.client id).act na utf8 (σ.incoming id) b = some (σ'.client id, bs, ch') := by
  simp only [systemStep, Option.ite_none_right_eq_some, Option.map_eq_some_iff] at h
  obtain ⟨-, ⟨c', bs, ch'⟩, hact, rfl⟩ := h
  refine ⟨bs, ch', ?_⟩
  rw [System.client, System.client, System.setLink_self]
  exact hact

/-- A step leaves a client as it is, or is its own action. -/
theorem systemStep_client (id : ConnId) {a : SystemAct}
    (h : systemStep na env utf8 honest a σ = some σ') :
    σ'.client id = σ.client id ∨ ∃ b bs ch', a = .client id b ∧
      (σ.client id).act na utf8 (σ.incoming id) b = some (σ'.client id, bs, ch') := by
  by_cases hid : a.link = some id
  · cases a with
    | server e => cases hid
    | ends id' ending => cases hid
    | client id' b =>
      cases hid
      obtain ⟨bs, ch', hact⟩ := systemStep_act h
      exact Or.inr ⟨b, bs, ch', rfl, hact⟩
    | arrives id' n =>
      cases hid
      simp only [systemStep, Option.ite_none_right_eq_some, Option.map_eq_some_iff] at h
      obtain ⟨-, m, -, rfl⟩ := h
      left
      rw [System.client, System.setLink_self]
      rfl
    | cutsOff id' n =>
      cases hid
      simp only [systemStep, Option.ite_none_right_eq_some, Option.some.injEq] at h
      obtain ⟨-, rfl⟩ := h
      left
      rw [System.client, System.setLink_self]
      rfl
  · left
    rw [System.client, systemStep_links h hid]
    rfl

/-- NEXT: the packet that a client reads is the next that the server sent to it. -/
theorem Sound.next_packet (hσ : Sound na env honest σ) (hid : honest id = true)
    (hopen : (σ.client id).sessionOpen = true)
    (hwhole : ∀ y ∈ (σ.sentTo id).take ((σ.client id).taken.length + 1), Whole y) {p : Bytes}
    {ch : Chan} (hrecv : recvPacket (σ.incoming id) = .done (some p) ch) :
    ((packetsTo id σ.server.trace)[(σ.client id).taken.length]?).map (fun x => x.2.1) = some p := by
  have hdown := hσ.down id hid fun y hy => hwhole y
    ((List.take_prefix_take_left (Nat.le_succ _)).subset hy)
  have hread := ((hdown.pipe hopen).packet hrecv hwhole).read
  have hlast : ((σ.client id).taken ++ [p])[(σ.client id).taken.length]? = some p := by simp
  have hnext := getElem?_of_prefix hread hlast
  rw [System.sentTo, List.map_map, List.getElem?_map] at hnext
  exact hnext

/-- A client that has started keeps its keys. -/
theorem Client.Acted.settled {c c' : Client} {bs : Bytes} {ch ch' : Chan}
    (h : Acted na utf8 c ch c' bs ch') (hstage : c.stage = .started) :
    c'.stage = .started ∧ c'.clientPk = c.clientPk ∧ c'.clientSk = c.clientSk := by
  have hsame : ∀ {d e : Client}, SameHistory d e → d.stage = c.stage → d.clientPk = c.clientPk →
      d.clientSk = c.clientSk → e.stage = .started ∧ e.clientPk = c.clientPk ∧
        e.clientSk = c.clientSk := fun hs h₁ h₂ h₃ =>
    ⟨(hs.stage.trans h₁).trans hstage, hs.clientPk.trans h₂, hs.clientSk.trans h₃⟩
  cases h with
  | keySent h' => rw [hstage] at h'; cases h'
  | keyRefused h' => rw [hstage] at h'; rcases h' with h' | h' <;> cases h'
  | serverPkRead h' => rw [hstage] at h'; cases h'
  | groupKeyRead h' => rw [hstage] at h'; cases h'
  | nameRefused h' => rw [hstage] at h'; cases h'
  | nameSent h' => rw [hstage] at h'; cases h'
  | messageRead => exact hsame (onMessage_history _ _) rfl rfl rfl
  | idle => exact ⟨hstage, rfl, rfl⟩
  | left => exact hsame (stop_history c) rfl rfl rfl
  | lineSent _ _ hutter => cases hutter <;> exact ⟨hstage, rfl, rfl⟩
  | printed => exact ⟨hstage, rfl, rfl⟩
  | choked => exact hsame (stop_history _) rfl rfl rfl

/-! ### What a client is sent -/

/-- Every packet after the keys holds a text, when none of them does harm. -/
theorem Conforms.holds {s : Server} {xs : List (Site × Bytes × Bool)} (h : Conforms na s id xs)
    (hsecret : na.SecretboxInverts s.groupKey)
    (hharm : ∀ x ∈ xs, Harmless na utf8 s.groupKey x) {x : Site × Bytes × Bool}
    (hx : x ∈ xs.drop 2) :
    ∃ m, Holds na s.groupKey x.2.1 m ∧ m ≠ usernameTaken ∧ utf8 m = true := by
  have hall := hharm x (List.mem_of_mem_drop hx)
  have hnotice : ∀ {m}, x.1 = .secretbox m → (32 : UInt8) ∈ m →
      SealedBox na s.groupKey m (some x.2.1) →
      ∃ m, Holds na s.groupKey x.2.1 m ∧ m ≠ usernameTaken ∧ utf8 m = true := by
    intro m hsite hblank hsealed
    rw [Harmless, hsite] at hall
    refine ⟨m, openPacket_eq_some.mp (hsealed.opens hsecret (List.ne_nil_of_mem hblank)), ?_, hall.1⟩
    rintro rfl
    exact usernameTaken_no_blank hblank
  cases h with
  | silent => cases hx
  | greeted => cases hx
  | keyed => cases hx
  | joined _ _ hq hitems =>
    rcases List.mem_cons.mp hx with rfl | hx
    · exact hnotice rfl (connectNotice_blank _) hq
    · rcases hitems x hx with ⟨name, m, hm, hsite, hsealed⟩ | ⟨src, hsite, -⟩
      · refine hnotice hsite ?_ hsealed
        rcases hm with rfl | rfl
        · exact connectNotice_blank name
        · exact disconnectNotice_blank name
      · rw [Harmless, hsite] at hall
        exact hall

/-- Every packet after the keys fits the header, when none of them does harm. -/
theorem Conforms.fits {s : Server} {xs : List (Site × Bytes × Bool)} (h : Conforms na s id xs)
    (hheard : HeardFits s) (hharm : ∀ x ∈ xs, Harmless na utf8 s.groupKey x)
    {x : Site × Bytes × Bool} (hx : x ∈ xs.drop 2) : x.2.1.length < 2 ^ 32 := by
  have hall := hharm x (List.mem_of_mem_drop hx)
  have hnotice : ∀ {m}, x.1 = .secretbox m → x.2.1.length < 2 ^ 32 := by
    intro m hsite
    rw [Harmless, hsite] at hall
    exact hall.2
  cases h with
  | silent => cases hx
  | greeted => cases hx
  | keyed => cases hx
  | joined _ _ _ hitems =>
    rcases List.mem_cons.mp hx with rfl | hx
    · exact hnotice rfl
    · rcases hitems x hx with ⟨_, _, -, hsite, -⟩ | ⟨src, -, hchat⟩
      · exact hnotice hsite
      · exact hheard src _ ((List.dropWhile_suffix _).subset (List.mem_of_mem_drop hchat))

/-- What the server has heard fits the header, also where it is stuck. -/
theorem Served.heardFits (h : Served na env σ) : HeardFits σ.server := by
  refine h.elim (fun s hs => hs.heardFits) fun s e f t hs hen _ _ => ?_
  obtain ⟨hst, hw, -⟩ := hs.conversing env
  exact hs.heardFits.event env hst hw hen

/-! ### Who stops a client -/

/-- Unless a send on its connection failed, what a running client reads was sent whole, and it agrees
    with the server. -/
theorem Sound.intact (hσ : Sound na env honest σ) (hid : honest id = true)
    (hrun : (σ.client id).running = true) (hseal : Seals na σ.server.groupKey)
    (hbox : na.BoxInverts σ.server.serverPk σ.server.serverSk (σ.client id).clientPk
      (σ.client id).clientSk)
    (hkey : σ.server.groupKey.length = secretboxKeyBytes)
    (hconf : Conforms na σ.server id (packetsTo id σ.server.trace))
    (hharm : ∀ x ∈ packetsTo id σ.server.trace, Harmless na utf8 σ.server.groupKey x)
    (hok : ¬ Failed σ id) :
    2 ≤ (σ.client id).taken.length ∧ Agrees σ id ∧
      ∀ y ∈ (σ.sentTo id).take ((σ.client id).taken.length + 1), Whole y := by
  have hsane := hσ.sane id hid
  have hstage := (hsane.flags.running hrun).1
  obtain ⟨k, g, htaken, -⟩ := hsane.ear.tuned (Or.inr hstage)
  have htwo : 2 ≤ (σ.client id).taken.length := by
    rw [htaken]
    simp
  -- no send failed
  have htrue : ∀ y ∈ (σ.client id).sent.take 1 ++
      (σ.sentTo id).take ((σ.client id).taken.length + 1), y.2 = true := by
    intro y hy
    by_contra hfail
    exact hok ⟨y, hy, by simpa using hfail⟩
  have hfirst := hσ.key_whole hid fun y hy => htrue y (List.mem_append_left _ hy)
  have hgreeting := hσ.greeting_whole hid hseal hbox hkey hfirst fun y hy =>
    htrue y (List.mem_append_right _ ((List.take_prefix_take_left (by omega)).subset hy))
  refine ⟨htwo, (hσ.agrees hid hseal hbox (Or.inr hstage) hfirst hgreeting).1, fun y hy => ?_⟩
  have hmem : y ∈ (σ.sentTo id).take 2 ++ (σ.sentTo id).drop 2 := by
    rw [List.take_append_drop]
    exact List.mem_of_mem_take hy
  rcases List.mem_append.mp hmem with hearly | hlate
  · exact hgreeting y hearly
  · refine ⟨htrue y (List.mem_append_right _ hy), ?_⟩
    rw [System.sentTo, ← List.map_drop] at hlate
    obtain ⟨x, hx, rfl⟩ := List.mem_map.mp hlate
    exact hconf.fits hσ.served.heardFits hharm hx

/-- STEP: a running client is stopped by nothing else, if nothing that it is sent does harm. -/
theorem Sound.stop_own (hσ : Sound na env honest σ) (hid : honest id = true)
    (hrun : (σ.client id).running = true) (hseal : Seals na σ.server.groupKey)
    (hsecret : na.SecretboxInverts σ.server.groupKey)
    (hbox : na.BoxInverts σ.server.serverPk σ.server.serverSk (σ.client id).clientPk
      (σ.client id).clientSk)
    (hkey : σ.server.groupKey.length = secretboxKeyBytes)
    (hharm : ∀ x ∈ packetsTo id σ.server.trace, Harmless na utf8 σ.server.groupKey x)
    {a : SystemAct} (h : systemStep na env utf8 honest a σ = some σ')
    (hstop : (σ'.client id).running = false) : OwnEnd na σ id a := by
  have hsane := hσ.sane id hid
  obtain ⟨hstage, -, hopen, -⟩ := hsane.flags.running hrun
  rcases systemStep_client id h with hsame | ⟨b, bs, ch', rfl, hact⟩
  · rw [hsame, hrun] at hstop
    cases hstop
  · by_cases hfailed : Failed σ id
    · exact .failed hfailed
    · rcases hσ.served.conforms hseal id with hconf | hrefused
      · obtain ⟨htwo, hagrees, hwhole⟩ := hσ.intact hid hrun hseal hbox hkey hconf hharm hfailed
        cases Client.act_stops hsane.flags hrun hact hstop with
        | left hinput => exact .left hinput rfl
        | closed hrecv => exact .closed hrecv rfl
        | unreadable hrecv hnot =>
          -- the packet is one that does no harm
          obtain ⟨x, hx, rfl⟩ := Option.map_eq_some_iff.mp
            (hσ.next_packet hid hopen hwhole hrecv)
          have hlate : x ∈ (packetsTo id σ.server.trace).drop 2 := by
            obtain ⟨hlt, rfl⟩ := List.getElem?_eq_some_iff.mp hx
            exact List.mem_drop_iff_getElem.mpr
              ⟨(σ.client id).taken.length - 2, by omega, by congr 1; omega⟩
          obtain ⟨m, hm, hne, -⟩ := hconf.holds hsecret hharm hlate
          rw [← hagrees.groupKey] at hm
          exact absurd ⟨m, hm, hne⟩ hnot
        | @choked m hqueue hbad =>
          -- the text was in such a packet
          obtain ⟨enc, hin⟩ := hsane.shown m hqueue
          have hopened := hsane.ear.opened _ hin
          obtain ⟨k, g, htaken, -⟩ := hsane.ear.tuned (Or.inr hstage)
          have hread := (hσ.down id hid fun y hy => hwhole y
            ((List.take_prefix_take_left (Nat.le_succ _)).subset hy)).read.drop 2
          rw [htaken, System.sentTo, List.map_map, ← List.map_drop] at hread
          obtain ⟨x, hx, rfl⟩ := List.mem_map.mp
            (hread.subset (List.mem_map_of_mem (f := Prod.fst) hin))
          obtain ⟨m', hm', -, hgood⟩ := hconf.holds hsecret hharm hx
          have hopened' : some m = openPacket na σ.server.groupKey x.2.1 := hagrees.groupKey ▸ hopened
          rw [openPacket_eq_some.mpr hm'] at hopened'
          cases hopened'
          rw [hbad] at hgood
          cases hgood
      · exact .refused hrefused

end step

section isolation

variable {na : Sodium} {env : Env} {utf8 : Bytes → Bool} {honest : ConnId → Bool} {σ : System}
  {id : ConnId}

/-- RUNS: a client that has started keeps its keys. -/
theorem run_settled (hstage : (σ.client id).stage = .started) {as : List SystemAct} {σ' : System}
    (hrun : run (systemStep na env utf8 honest) as σ = some σ') :
    (σ'.client id).clientPk = (σ.client id).clientPk ∧
      (σ'.client id).clientSk = (σ.client id).clientSk := by
  have hinv : (σ'.client id).stage = .started ∧
      (σ'.client id).clientPk = (σ.client id).clientPk ∧
      (σ'.client id).clientSk = (σ.client id).clientSk := by
    refine run_invariant (systemStep na env utf8 honest) (I := fun τ =>
      (τ.client id).stage = .started ∧ (τ.client id).clientPk = (σ.client id).clientPk ∧
        (τ.client id).clientSk = (σ.client id).clientSk) ?_ ⟨hstage, rfl, rfl⟩ hrun
    rintro a τ τ' ⟨hst, hpk, hsk⟩ hstep
    rcases systemStep_client id (systemStep_returning hstep) with hsame | ⟨b, bs, ch', -, hact⟩
    · rw [hsame]
      exact ⟨hst, hpk, hsk⟩
    · obtain ⟨hst', hpk', hsk'⟩ := (Client.act_acted hact).settled hst
      exact ⟨hst', hpk'.trans hpk, hsk'.trans hsk⟩
  exact hinv.2

/-- ISOLATION: a running client reads the payload that was forwarded to it, and runs on if and only
    if the payload holds a text other than the control text. In a run in which all that is sent to
    the client is harmless, it stops by its own end only. -/
theorem isolation (h : SystemReach na env utf8 honest σ) (hid : honest id = true)
    (hrun : (σ.client id).running = true) (hseal : Seals na σ.server.groupKey)
    (hsecret : na.SecretboxInverts σ.server.groupKey)
    (hbox : na.BoxInverts σ.server.serverPk σ.server.serverSk (σ.client id).clientPk
      (σ.client id).clientSk)
    (hkey : σ.server.groupKey.length = secretboxKeyBytes) :
    (∀ src p ok q ch σ', (packetsTo id σ.server.trace)[(σ.client id).taken.length]? =
        some (.forward src, p, ok) →
      (∀ y ∈ (σ.client id).sent.take 1 ++ (σ.sentTo id).take ((σ.client id).taken.length + 1),
        Whole y) →
      recvPacket (σ.incoming id) = .done (some q) ch →
      systemStep na env utf8 honest (.client id .handleBroadcast) σ = some σ' →
      ((σ'.client id).running = true ↔ Readable na σ.server.groupKey p)) ∧
    ∀ as σ', run (systemStep na env utf8 honest) as σ = some σ' →
      (∀ x ∈ packetsTo id σ'.server.trace, Harmless na utf8 σ.server.groupKey x) →
      (σ'.client id).running = false →
      ∃ as₁ a as₂ τ τ', as = as₁ ++ a :: as₂ ∧
        run (systemStep na env utf8 honest) as₁ σ = some τ ∧
        systemStep na env utf8 honest a τ = some τ' ∧ (τ.client id).running = true ∧
        (τ'.client id).running = false ∧ OwnEnd na τ id a := by
  constructor
  · intro src p ok q ch σ' hnext hwhole hrecv hstep
    have hσ := h.sound
    have hsane := hσ.sane id hid
    obtain ⟨hstage, -, hopen, -⟩ := hsane.flags.running hrun
    have hdown : ∀ y ∈ (σ.sentTo id).take ((σ.client id).taken.length + 1), Whole y :=
      fun y hy => hwhole y (List.mem_append_right _ hy)
    have hq := hσ.next_packet hid hopen hdown hrecv
    rw [hnext] at hq
    obtain rfl : p = q := Option.some.inj hq
    obtain ⟨k, g, htaken, -⟩ := hsane.ear.tuned (Or.inr hstage)
    have htwo : 2 ≤ (σ.client id).taken.length + 1 := by
      rw [htaken]
      simp
    have hagrees := (hσ.agrees hid hseal hbox (Or.inr hstage)
      (fun y hy => hwhole y (List.mem_append_left _ hy))
      fun y hy => hdown y ((List.take_prefix_take_left htwo).subset hy)).1
    obtain ⟨bs, ch', hact⟩ := systemStep_act (systemStep_returning hstep)
    simp only [Client.act, hrun, if_true, Option.map_eq_some_iff, Prod.mk.injEq] at hact
    obtain ⟨⟨c₁, ch₁⟩, hact, hc, -, -⟩ := hact
    rw [← hc, ← hagrees.groupKey]
    exact Client.handleBroadcast_running hsane.flags hrun hrecv hact
  · intro as σ' has hharm hstop
    obtain ⟨as₁, a, as₂, τ, τ', rfl, has₁, hstep, has₂, hτ, hτ'⟩ :=
      run_switch (systemStep na env utf8 honest) (P := fun τ => (τ.client id).running = true) has
        hrun (by rw [hstop]; decide)
    have hτreach : SystemReach na env utf8 honest τ := h.trans has₁
    have hstage := ((h.sound.sane id hid).flags.running hrun).1
    have hkeys := run_sameKeys h has₁
    obtain ⟨hpk, hsk⟩ := run_settled hstage has₁
    have hrest : run (systemStep na env utf8 honest) (a :: as₂) τ = some σ' :=
      (run_cons_some _).mpr ⟨τ', hstep, has₂⟩
    have htrace := (hτreach.advances hrest hid).trace
    have hstop' : (τ'.client id).running = false := by simpa using hτ'
    refine ⟨as₁, a, as₂, τ, τ', rfl, has₁, hstep, hτ, hstop', ?_⟩
    refine hτreach.sound.stop_own hid hτ ?_ ?_ ?_ ?_ (fun x hx => ?_)
      (systemStep_returning hstep) hstop'
    · rw [hkeys.groupKey]
      exact hseal
    · rw [hkeys.groupKey]
      exact hsecret
    · rw [hkeys.serverPk, hkeys.serverSk, hpk, hsk]
      exact hbox
    · rw [hkeys.groupKey]
      exact hkey
    · rw [hkeys.groupKey]
      exact hharm x ((packetsTo_mono htrace id).subset hx)

end isolation

/-- The run of the two theorems below: a peer joins, an honest client enters and reads the notice
    of its arrival, and the peer sends the frame `pkt`. -/
def peerSends (pkt : Bytes) : List SystemAct :=
  (joins 0 5 (ascii "al")).map .server ++ enters 1 6 (ascii "bo") ++
    .client 1 .handleBroadcast :: (packetFrom 0 5 pkt).map .server

/-- A line is forwarded to a client, who reads it and runs on until its user leaves. -/
theorem isolation_line : ∃ σ σ' σ'' τ a,
    sampleSystemRun (· == 1) (peerSends (sampleSealed (ascii "al: hi"))) = some σ ∧
    systemStep Sodium.plain (Env.failing []) (fun _ => true) (· == 1) (.client 1 .handleBroadcast) σ =
      some σ' ∧ (σ'.client 1).running = true ∧
    run (systemStep Sodium.plain (Env.failing []) (fun _ => true) (· == 1))
      [.client 1 .handleBroadcast, enteringLine 1 (ascii "/exit")] σ = some σ'' ∧
    (σ''.client 1).running = false ∧ OwnEnd Sodium.plain τ 1 a := by
  have hrun : ((sampleSystemRun (· == 1) (peerSends (sampleSealed (ascii "al: hi")))).any fun σ =>
      (systemStep Sodium.plain (Env.failing []) (fun _ => true) (· == 1)
        (.client 1 .handleBroadcast) σ).any fun σ' =>
      (run (systemStep Sodium.plain (Env.failing []) (fun _ => true) (· == 1))
        [.client 1 .handleBroadcast, enteringLine 1 (ascii "/exit")] σ).any fun σ'' : System =>
      decide (((σ.client 1).running = true ∧ (σ''.client 1).running = false ∧
          (σ.client 1).clientSk = (σ.client 1).clientPk ∧ σ.server.serverSk = σ.server.serverPk ∧
          σ.server.groupKey.length = secretboxKeyBytes ∧
          Readable Sodium.plain σ.server.groupKey (sampleSealed (ascii "al: hi"))) ∧
        ((packetsTo 1 σ.server.trace)[(σ.client 1).taken.length]? =
            some (.forward 0, sampleSealed (ascii "al: hi"), true) ∧
          (∀ y ∈ (σ.client 1).sent.take 1 ++ (σ.sentTo 1).take ((σ.client 1).taken.length + 1),
            Whole y) ∧
          (recvPacket (σ.incoming 1)).packet.isSome = true) ∧
        ∀ x ∈ packetsTo 1 σ''.server.trace,
          Harmless Sodium.plain (fun _ => true) σ.server.groupKey x)) = true := by
    decide +kernel
  obtain ⟨σ, hσ, hrest⟩ := (Option.any_eq_true _ _).mp hrun
  obtain ⟨σ', hσ', hrest⟩ := (Option.any_eq_true _ _).mp hrest
  obtain ⟨σ'', hσ'', heq⟩ := (Option.any_eq_true _ _).mp hrest
  obtain ⟨⟨hgoes, hstop, hsk, hserverSk, hkey, hreadable⟩, ⟨hnext, hwhole, hread⟩, hharm⟩ :=
    of_decide_eq_true heq
  obtain ⟨hexact, hruns⟩ := @isolation _ _ _ _ _ 1 (sampleSystemRun_reach hσ) rfl hgoes
    (fun _ _ => rfl) (Sodium.plain_secretboxInverts _)
    (by rw [hserverSk, hsk]; exact Sodium.plain_boxInverts _ _) hkey
  obtain ⟨-, a, -, τ, -, -, -, -, -, -, hown⟩ := hruns _ σ'' hσ'' hharm hstop
  obtain ⟨p, hp⟩ := Option.isSome_iff_exists.mp hread
  obtain ⟨ch, hrecv⟩ := Recvd.packet_eq_some.mp hp
  have hgoes' := (hexact 0 _ true p ch σ' hnext hwhole hrecv hσ').mpr hreadable
  exact ⟨σ, σ', σ'', τ, a, hσ, hσ', hgoes', hσ'', hstop, hown⟩

/-- BUG: a registered peer sends an empty frame. It is forwarded in full on a live stream, and the
    client who reads it takes its server for gone. -/
theorem empty_frame_stops : ∃ σ σ', sampleSystemRun (· == 1) (peerSends []) = some σ ∧
    systemStep Sodium.plain (Env.failing []) (fun _ => true) (· == 1) (.client 1 .handleBroadcast) σ =
      some σ' ∧
    RegisteredConn σ.server 0 ∧ RegisteredConn σ.server 1 ∧ σ.halted = false ∧
    (packetsTo 1 σ.server.trace)[(σ.client 1).taken.length]? = some (.forward 0, [], true) ∧
    (σ.incoming 1).ending = .alive ∧ (σ.client 1).running = true ∧
    (σ'.client 1).running = false ∧
    (σ'.client 1).exitReason = ascii "Server closed connection." := by
  have hrun : ((sampleSystemRun (· == 1) (peerSends [])).any fun σ =>
      (systemStep Sodium.plain (Env.failing []) (fun _ => true) (· == 1)
        (.client 1 .handleBroadcast) σ).any fun σ' =>
      decide ((∀ x ∈ ([(5, 0), (6, 1)] : List (Fd × ConnId)),
          (σ.server.clients.lookup x.1).map (fun c => (c.registered, c.session.conn)) =
            some (true, x.2)) ∧ σ.halted = false ∧
        (packetsTo 1 σ.server.trace)[(σ.client 1).taken.length]? = some (.forward 0, [], true) ∧
        (σ.incoming 1).ending = .alive ∧ (σ.client 1).running = true ∧
        (σ'.client 1).running = false ∧
        (σ'.client 1).exitReason = ascii "Server closed connection.")) = true := by
    decide +kernel
  obtain ⟨σ, hσ, hrest⟩ := (Option.any_eq_true _ _).mp hrun
  obtain ⟨σ', hσ', heq⟩ := (Option.any_eq_true _ _).mp hrest
  obtain ⟨hentries, hrest⟩ := of_decide_eq_true heq
  exact ⟨σ, σ', hσ, hσ', .of_lookup (hentries (5, 0) (by simp)),
    .of_lookup (hentries (6, 1) (by simp)), hrest⟩

end CliChat
