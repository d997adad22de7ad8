import CliChat.System.Delivery

/-! @src client/src/client.cpp, server/src/server.cpp | name:HandleBroadcast | scheme:in-band control

    The text "SERVER::USERNAME_TAKEN" shares the plaintext space with chat. It has no blank, and
    every notice and every line has one, whatever the names and texts are; names themselves are
    never forwarded. So among honest clients it reaches only the client whose own name is refused.

        "<name> has connected"   "<name> has disconnected"   "<name>: <text>"        -/

namespace CliChat

open Framing Transition

/-! ### The three formats -/

theorem usernameTaken_no_blank : (32 : UInt8) ∉ usernameTaken := by decide

theorem connectNotice_blank (name : Bytes) : (32 : UInt8) ∈ connectNotice name :=
  List.mem_append_right _ (by decide)

theorem disconnectNotice_blank (name : Bytes) : (32 : UInt8) ∈ disconnectNotice name :=
  List.mem_append_right _ (by decide)

theorem Client.IsLine.blank {username msg : Bytes} (h : IsLine username msg) :
    (32 : UInt8) ∈ msg := by
  obtain ⟨text, -, rfl⟩ := h
  exact List.mem_append_left _ (List.mem_append_right _ (by decide))

/-- A sealed string with a blank opens to another string than the control text. -/
theorem SealedBox.opens_blank {na : Sodium} {key msg p : Bytes} (hkey : na.SecretboxInverts key)
    (h : SealedBox na key msg (some p)) (hblank : (32 : UInt8) ∈ msg) :
    openPacket na key p ≠ some usernameTaken := by
  intro hopen
  rw [h.opens hkey (List.ne_nil_of_mem hblank)] at hopen
  cases hopen
  exact usernameTaken_no_blank hblank

/-! ### What reaches an honest client -/

/-- What the client has read of the server's two keys was sent whole. -/
def KeysWhole (σ : System) (id : ConnId) : Prop :=
  ∀ y ∈ (σ.sentTo id).take (min 2 (σ.client id).taken.length), Whole y

theorem DownWhole.keys {σ : System} {id : ConnId} (h : DownWhole σ id) : KeysWhole σ id :=
  fun y hy => h y ((List.take_prefix_take_left (min_le_right _ _)).subset hy)

section control

variable {na : Sodium} {env : ReturningEnv} {honest : ConnId → Bool} {σ : System} {id : ConnId}

/-- A client whose name was read agrees with the server. -/
theorem Sound.agrees_keys (hσ : Sound na env honest σ) (hid : honest id = true)
    (hseal : Seals na σ.server.groupKey) (hbox : (σ.client id).stage = .started →
      na.BoxInverts σ.server.serverPk σ.server.serverSk (σ.client id).clientPk
        (σ.client id).clientSk) (hup : UpWhole σ id) (hkeys : KeysWhole σ id)
    (hheard : 2 ≤ (σ.heardFrom id).length) :
    (σ.client id).stage = .started ∧ Agrees σ id := by
  have hstage := hσ.started hid hup hheard
  obtain ⟨k, g, htaken, -⟩ := (hσ.sane id hid).ear.tuned (Or.inr hstage)
  have htwo : min 2 (σ.client id).taken.length = 2 := by
    rw [htaken]
    simp
  rw [KeysWhole, htwo] at hkeys
  refine ⟨hstage, (hσ.agrees hid hseal (hbox hstage) (Or.inr hstage) (fun y hy => ?_) hkeys).1⟩
  exact hup y ((List.take_prefix_take_left (by omega)).subset hy)

/-- CHAT: what an honest client sends after its name opens to its lines. -/
theorem Sound.chat_lines (hσ : Sound na env honest σ) (hid : honest id = true)
    (hseal : Seals na σ.server.groupKey) (hsecret : na.SecretboxInverts σ.server.groupKey)
    (hbox : (σ.client id).stage = .started → na.BoxInverts σ.server.serverPk σ.server.serverSk
      (σ.client id).clientPk (σ.client id).clientSk) (hup : UpWhole σ id) (hkeys : KeysWhole σ id)
    {p : Bytes} (hp : p ∈ chat id σ.server.trace) :
    ∃ l, Client.IsLine (σ.client id).username l ∧
      openPacket na σ.server.groupKey p = some l := by
  have hlong : 2 ≤ (σ.heardFrom id).length := by
    have hpos := List.length_pos_of_mem hp
    have hle : (dialogue id σ.server.trace).length ≤ (σ.heardFrom id).length :=
      dialogue_length_le _ _
    rw [chat, List.length_drop] at hpos
    omega
  obtain ⟨-, hagrees⟩ := hσ.agrees_keys hid hseal hbox hup hkeys hlong
  have hfirst : ∀ y ∈ (σ.client id).sent.take 1, Whole y := fun y hy =>
    hup y ((List.take_prefix_take_left (by omega)).subset hy)
  rw [chat, (hσ.key_heard hid hfirst).1] at hp
  have hsplit : σ.heardFrom id = (σ.heardFrom id).take 2 ++ (σ.heardFrom id).drop 2 ++ [] := by
    rw [List.append_nil, List.take_append_drop]
  obtain ⟨-, hlines, hopen⟩ := hσ.lines hid hup (hagrees.groupKey ▸ hseal)
    (hagrees.groupKey ▸ hsecret) hsplit (by rw [List.length_take]; omega)
  have hmem := List.mem_map_of_mem (f := openPacket na (σ.client id).groupKey) hp
  rw [hopen, hagrees.groupKey] at hmem
  obtain ⟨l, hl, heq⟩ := List.mem_map.mp hmem
  exact ⟨l, hlines l hl, heq.symm⟩

/-- The name that an honest client has asked for is its own. -/
theorem Sound.asked_name (hσ : Sound na env honest σ) (hid : honest id = true)
    (hseal : Seals na σ.server.groupKey) (hsecret : na.SecretboxInverts σ.server.groupKey)
    (hbox : (σ.client id).stage = .started → na.BoxInverts σ.server.serverPk σ.server.serverSk
      (σ.client id).clientPk (σ.client id).clientSk) (hup : UpWhole σ id) (hkeys : KeysWhole σ id)
    {uname : Bytes} (h : AskedName na σ.server id uname) : uname = (σ.client id).username := by
  obtain ⟨p, hp, hname⟩ := h
  have hlong : 2 ≤ (σ.heardFrom id).length := by
    have hlt := (List.getElem?_eq_some_iff.mp hp).1
    have hle : (dialogue id σ.server.trace).length ≤ (σ.heardFrom id).length :=
      dialogue_length_le _ _
    omega
  obtain ⟨hstage, hagrees⟩ := hσ.agrees_keys hid hseal hbox hup hkeys hlong
  have hfirst : ∀ y ∈ (σ.client id).sent.take 1, Whole y := fun y hy =>
    hup y ((List.take_prefix_take_left (by omega)).subset hy)
  obtain ⟨ok, q, ok', rest, hsent, hsealed⟩ := hσ.name_sent hid (hagrees.groupKey ▸ hseal) hstage
  rw [(hσ.key_heard hid hfirst).1] at hp
  have hsecond := getElem?_of_prefix (hσ.up id hid hup).read hp
  rw [hsent] at hsecond
  simp only [List.map_cons, List.getElem?_cons_succ, List.getElem?_cons_zero,
    Option.some.injEq] at hsecond
  subst hsecond
  rw [hagrees.groupKey] at hsealed
  have hsized := ((hσ.sane id hid).voice.sized hstage).trans (by decide : _ ≤ vectorMaxSize)
  have hopens := (hsealed.sealedName hsecret hsized).opens
  rw [hname.opens] at hopens
  exact Option.some.inj hopens

end control

/-! ### The control text -/

section message

variable {na : Sodium} {env : Env} {utf8 : Bytes → Bool} {σ : System}

/-- CONTROL: when all clients are honest, the text reaches `HandleBroadcast` of a client only as the
    server's refusal of the name that this client has asked for, because it is in use: no line,
    notice or name of another client opens to it, whatever the names and texts are. -/
theorem control_message (h : SystemReach na env utf8 (fun _ => true) σ)
    (hseal : Seals na σ.server.groupKey) (hsecret : na.SecretboxInverts σ.server.groupKey)
    (hbox : ∀ id, (σ.client id).stage = .started →
      na.BoxInverts σ.server.serverPk σ.server.serverSk (σ.client id).clientPk
        (σ.client id).clientSk)
    (hup : ∀ id, UpWhole σ id) (hkeys : ∀ id, KeysWhole σ id) (id : ConnId)
    (hdown : DownWhole σ id) {enc : Bytes}
    (hin : (enc, some usernameTaken) ∈ (σ.client id).inbox) :
    (∃ ok, (packetsTo id σ.server.trace).drop 2 = [(.secretbox usernameTaken, enc, ok)]) ∧
      Refused na σ.server id (packetsTo id σ.server.trace) ∧
      AskedName na σ.server id (σ.client id).username ∧
      (σ.client id).username ∈ σ.server.usernames := by
  have hσ := h.sound
  have hear := (hσ.sane id rfl).ear
  have hstage : (σ.client id).stage = .started := by
    by_contra hstage
    rw [hear.unopened hstage] at hin
    cases hin
  obtain ⟨k, g, htaken, -⟩ := hear.tuned (Or.inr hstage)
  have hfirst : ∀ y ∈ (σ.sentTo id).take 2, Whole y := fun y hy => hdown y
    ((List.take_prefix_take_left (by rw [htaken]; simp)).subset hy)
  obtain ⟨gk, ok, ok', rest, hgk, hsent, htaken', -, -⟩ := hσ.opened rfl hseal (Or.inr hstage) hfirst
  have hagrees := (hσ.agrees rfl hseal (hbox id hstage) (Or.inr hstage) (fun y hy => hup id y
    ((List.take_prefix_take_left hgk.heard).subset hy)) hfirst).1
  -- the packet was sent to this client after the keys
  have hread := (hσ.down id rfl hdown).read
  rw [htaken', System.sentTo, hsent] at hread
  simp only [List.map_cons, List.cons_prefix_cons, true_and] at hread
  obtain ⟨y, hy, henc⟩ := List.mem_map.mp (hread.subset (List.mem_map_of_mem (f := Prod.fst) hin))
  obtain ⟨x, hx, rfl⟩ := List.mem_map.mp hy
  have hopen : openPacket na σ.server.groupKey x.2.1 = some usernameTaken := by
    rw [← hagrees.groupKey, henc]
    exact (hear.opened _ hin).symm
  have hnotice : Notice na σ.server.groupKey x → False := by
    rintro ⟨name, m, hm, -, hsealed⟩
    refine hsealed.opens_blank hsecret ?_ hopen
    rcases hm with rfl | rfl
    · exact connectNotice_blank name
    · exact disconnectNotice_blank name
  rcases hσ.served.conforms hseal id with hc | hr
  · exfalso
    rw [hsent] at hc
    cases hc with
    | keyed => cases hx
    | joined _ _ hq hitems =>
      rcases List.mem_cons.mp hx with rfl | hx
      · exact hq.opens_blank hsecret (connectNotice_blank _) hopen
      · rcases hitems x hx with hn | ⟨src, -, hchat⟩
        · exact hnotice hn
        · obtain ⟨l, hline, hl⟩ := hσ.chat_lines rfl hseal hsecret (hbox src) (hup src) (hkeys src)
            hchat
          rw [hopen] at hl
          cases hl
          exact usernameTaken_no_blank hline.blank
  · have hasked : ∀ {uname}, AskedName na σ.server id uname → uname = (σ.client id).username :=
      fun ha => hσ.asked_name rfl hseal hsecret (hbox id) (hup id) (hkeys id) ha
    have hrefused := hr
    rw [hsent] at hr
    cases hr with
    | @intro _ uname q _ _ ok'' _ hname hu _ =>
      obtain rfl := hasked hname
      rw [List.mem_singleton] at hx
      subst hx
      obtain rfl : q = enc := henc
      refine ⟨⟨ok'', ?_⟩, hrefused, hname, hu⟩
      rw [hsent]
      rfl

end message

/-- Two clients ask for one name: the second reads the text, because its name is in use. -/
theorem control_message_second : ∃ σ,
    sampleSystemRun (fun _ => true) (enters 0 5 (ascii "al") ++ prompts 1 6 ++
      naming 1 (ascii "al") :: delivers 1 6 ++ [.client 1 .handleBroadcast]) = some σ ∧
    (σ.client 1).running = false ∧ AskedName Sodium.plain σ.server 1 (ascii "al") ∧
    ascii "al" ∈ σ.server.usernames := by
  have hrun : ((sampleSystemRun (fun _ => true) (enters 0 5 (ascii "al") ++ prompts 1 6 ++
      naming 1 (ascii "al") :: delivers 1 6 ++ [.client 1 .handleBroadcast])).any fun σ =>
      decide ((∀ id ∈ ([0, 1] : List ConnId), (σ.client id).clientSk = (σ.client id).clientPk ∧
          (∀ y ∈ (σ.client id).sent, Whole y) ∧ ∀ y ∈ σ.sentTo id, Whole y) ∧
        σ.server.serverSk = σ.server.serverPk ∧ (σ.client 1).username = ascii "al" ∧
        (σ.client 1).running = false ∧
        (σ.client 1).inbox = [(sampleSealed usernameTaken, some usernameTaken)])) = true := by
    decide +kernel
  obtain ⟨σ, hσ, heq⟩ := (Option.any_eq_true _ _).mp hrun
  obtain ⟨hclients, hserver, hname, hstopped, hinbox⟩ := of_decide_eq_true heq
  have hids : ∀ id, id ∈ ([0, 1] : List ConnId) ∨ σ.client id = {} := by
    intro id
    by_cases hid : id ∈ ([0, 1] : List ConnId)
    · exact Or.inl hid
    · refine Or.inr (congrArg Link.client (run_links hσ fun a ha hlink => hid ?_))
      have hall : ∀ a ∈ (enters 0 5 (ascii "al") ++ prompts 1 6 ++
          naming 1 (ascii "al") :: delivers 1 6 ++ [SystemAct.client 1 .handleBroadcast]),
          ∀ id' ∈ a.link, id' ∈ ([0, 1] : List ConnId) := by decide
      exact hall a ha id hlink
  obtain ⟨-, -, hasked, hused⟩ := control_message (sampleSystemRun_reach hσ) (fun _ _ => rfl)
    (Sodium.plain_secretboxInverts _)
    (fun id hstage => by
      rcases hids id with hid | hnone
      · rw [hserver, (hclients id hid).1]
        exact Sodium.plain_boxInverts _ _
      · rw [hnone] at hstage
        cases hstage)
    (fun id y hy => by
      rcases hids id with hid | hnone
      · exact (hclients id hid).2.1 y (List.mem_of_mem_take hy)
      · rw [hnone, List.take_nil] at hy
        cases hy)
    (fun id y hy => by
      rcases hids id with hid | hnone
      · exact (hclients id hid).2.2 y (List.mem_of_mem_take hy)
      · rw [hnone] at hy
        cases hy)
    1 (fun y hy => (hclients 1 (by decide)).2.2 y (List.mem_of_mem_take hy))
    (by rw [hinbox]; exact List.mem_singleton_self _)
  rw [hname] at hasked hused
  exact ⟨σ, hσ, hstopped, hasked, hused⟩

end CliChat
