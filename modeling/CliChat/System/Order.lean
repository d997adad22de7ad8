import CliChat.Server.History
import CliChat.System.Control

/-! @src server/src/server.cpp, client/src/client.cpp | name:BroadcastEncrypted, HandleClientEvent,
    SendEncrypted, RecvDecrypted | scheme:total order

    All users are in one conversation. Clients run on their own, and read when they come to it; but
    what each has decrypted is the beginning of a piece of one history, from its own arrival on, and
    in this history each client says its lines in the order in which they were entered.

        history   +al  +bo  "al: hi"  "bo: yo"  +cy  -bo
        al        +al  +bo  "al: hi"  "bo: yo"  …
        cy                                      +cy  -bo      -/

namespace CliChat

open Transition

/-- The text of an offer, or what `RecvDecrypted` makes of it. -/
def Offer.text (na : Sodium) (key : Bytes) : Offer → Option Bytes
  | .notice msg => some msg
  | .packet _ p => openPacket na key p

/-- The client of `id` runs this program, what was read on its connection was sent whole, and what
    was boxed for it opens. -/
structure Intact (na : Sodium) (honest : ConnId → Bool) (σ : System) (id : ConnId) : Prop where
  honest : honest id = true
  whole : BothWhole σ id
  box : na.BoxInverts σ.server.serverPk σ.server.serverSk (σ.client id).clientPk
    (σ.client id).clientSk

/-- `told` is the part of the `history` that the client of `id` decrypts. -/
structure Follows (na : Sodium) (σ : System) (id : ConnId)
    (history told : List (Room.Item ConnId Bytes Bytes)) : Prop where
  piece : told <:+: history
  /-- It starts with the arrival of the client, and holds all that the client says. -/
  first : told = [] ∨ told.head? = some (.joined (σ.client id).username)
  own : Room.spoken id told = Room.spoken id history
  current : RegisteredConn σ.server id → told ≠ [] ∧ told <:+ history
  started : told ≠ [] → (σ.client id).stage = .started
  heard : (σ.client id).inbox.map Prod.snd <+:
    told.map fun a => (render a).text na σ.server.groupKey
  all : (σ.client id).stage = .started → (σ.sentTo id).length ≤ (σ.client id).taken.length →
    (σ.client id).inbox.map Prod.snd = told.map fun a => (render a).text na σ.server.groupKey

section packets

variable {na : Sodium} {s : Server} {id : ConnId} {xs : List (Site × Bytes × Bool)}

theorem Notice.opens {key : Bytes} (hkey : na.SecretboxInverts key) {x : Site × Bytes × Bool}
    (h : Notice na key x) : ∃ o, offerOf x = some o ∧ o.text na key = openPacket na key x.2.1 := by
  obtain ⟨name, m, hm, hsite, hsealed⟩ := h
  have hne : m ≠ [] := by
    rcases hm with rfl | rfl
    · exact List.ne_nil_of_mem (connectNotice_blank name)
    · exact List.ne_nil_of_mem (disconnectNotice_blank name)
  obtain ⟨site, p, ok⟩ := x
  obtain rfl : site = .secretbox m := hsite
  exact ⟨.notice m, rfl, (hsealed.opens hkey hne).symm⟩

theorem ChatItem.opens (hkey : na.SecretboxInverts s.groupKey) {x : Site × Bytes × Bool}
    (h : ChatItem na s x) :
    ∃ o, offerOf x = some o ∧ o.text na s.groupKey = openPacket na s.groupKey x.2.1 := by
  rcases h with hnotice | ⟨src, hsite, -⟩
  · exact hnotice.opens hkey
  · obtain ⟨site, p, ok⟩ := x
    obtain rfl : site = .forward src := hsite
    exact ⟨.packet src p, rfl, rfl⟩

/-- Packets that all carry an offer open to the texts of their offers. -/
theorem opens_offers {key : Bytes} (h : ∀ x ∈ xs, ∃ o, offerOf x = some o ∧
    o.text na key = openPacket na key x.2.1) :
    xs.map (fun x => openPacket na key x.2.1) = (xs.filterMap offerOf).map (Offer.text na key) := by
  induction xs with
  | nil => rfl
  | cons x xs ih =>
    obtain ⟨o, ho, htext⟩ := h x List.mem_cons_self
    rw [List.filterMap_cons_some ho, List.map_cons, List.map_cons, htext,
      ih fun y hy => h y (List.mem_cons_of_mem _ hy)]

/-- What a connection is sent after its keys opens to the texts of what it was offered. -/
theorem Conforms.opens (hkey : na.SecretboxInverts s.groupKey) (h : Conforms na s id xs) :
    (xs.drop 2).map (fun x => openPacket na s.groupKey x.2.1) =
      (xs.filterMap offerOf).map (Offer.text na s.groupKey) := by
  cases h with
  | silent => rfl
  | greeted => rfl
  | keyed => rfl
  | @joined gk uname q rest ok ok' ok'' _ _ hq hrest =>
    have hall : ∀ x ∈ ((.secretbox (connectNotice uname), q, ok'') :: rest :
        List (Site × Bytes × Bool)),
        ∃ o, offerOf x = some o ∧ o.text na s.groupKey = openPacket na s.groupKey x.2.1 := by
      intro x hx
      rcases List.mem_cons.mp hx with rfl | hx
      · exact Notice.opens hkey ⟨uname, _, .inl rfl, rfl, hq⟩
      · exact (hrest x hx).opens hkey
    exact opens_offers hall

end packets

section order

variable {na : Sodium} {env : ReturningEnv} {utf8 : Bytes → Bool} {honest : ConnId → Bool}
  {σ : System}
  {id : ConnId} {history told : List (Room.Item ConnId Bytes Bytes)}

/-- There is one order at the server, also where it is stuck. -/
theorem Served.ordered (h : Served na env σ) (hseal : Seals na σ.server.groupKey) :
    ∃ history, Ordered na σ.server history := by
  refine h.elim (P := fun s => Seals na s.groupKey → ∃ history, Ordered na s history)
    (fun s hs hseal => ?_) (fun s e f t hs hen hr hf hseal => ?_) hseal
  · obtain ⟨history, htold, hsaid⟩ := hs.ordered hseal
    exact ⟨history, fun id => .inl (htold id), hsaid⟩
  · rw [event_groupKey hs hen] at hseal
    obtain ⟨history, htold, hsaid⟩ := hs.ordered hseal
    exact ⟨history, .stuck hs hseal htold hsaid hen hr hf⟩

/-- What a client that has started has read after its keys, and what it has made of it. -/
theorem Sound.inbox (hσ : Sound na env honest σ) (hintact : Intact na honest σ id)
    (hseal : Seals na σ.server.groupKey) (hstage : (σ.client id).stage = .started) :
    (σ.client id).inbox.map Prod.fst <+:
        ((packetsTo id σ.server.trace).drop 2).map (fun x => x.2.1) ∧
      (σ.client id).inbox.map Prod.snd =
        ((σ.client id).inbox.map Prod.fst).map (openPacket na σ.server.groupKey) ∧
      (σ.client id).taken.length = (σ.client id).inbox.length + 2 := by
  obtain ⟨hid, hwhole, hbox⟩ := hintact
  have hear := (hσ.sane id hid).ear
  obtain ⟨k, g, htaken, -⟩ := hear.tuned (Or.inr hstage)
  have hfirst : ∀ y ∈ (σ.sentTo id).take 2, Whole y := fun y hy => hwhole.down y
    ((List.take_prefix_take_left (by rw [htaken]; simp)).subset hy)
  obtain ⟨gk, ok, ok', rest, hgk, hsent, htaken', -, -⟩ :=
    hσ.opened hid hseal (Or.inr hstage) hfirst
  have hagrees := (hσ.agrees hid hseal hbox (Or.inr hstage) (fun y hy => hwhole.up y
    ((List.take_prefix_take_left hgk.heard).subset hy)) hfirst).1
  have hdown := (hσ.down id hid hwhole.down).read
  rw [htaken', System.sentTo, hsent] at hdown
  simp only [List.map_cons, List.cons_prefix_cons, true_and, List.map_map] at hdown
  refine ⟨?_, ?_, by rw [htaken']; simp⟩
  · rw [hsent]
    exact hdown
  · rw [List.map_map]
    refine List.map_congr_left fun x hx => ?_
    rw [hear.opened x hx, hagrees.groupKey]
    rfl

/-- RECEIVER: what a client has decrypted is the beginning of what the server has told it. -/
theorem Sound.follows (hσ : Sound na env honest σ) (hintact : Intact na honest σ id)
    (hseal : Seals na σ.server.groupKey) (hsecret : na.SecretboxInverts σ.server.groupKey)
    (h : Tells na σ.server id history told) : Follows na σ id history told := by
  have htexts : told.map (fun a => (render a).text na σ.server.groupKey) =
      (((packetsTo id σ.server.trace).drop 2).map fun x => x.2.1).map
        (openPacket na σ.server.groupKey) := by
    have hopens := h.conforms.opens hsecret
    rw [h.packets, List.map_map] at hopens
    rw [List.map_map]
    exact hopens.symm
  have hread := hσ.inbox hintact hseal
  obtain ⟨hid, hwhole, hbox⟩ := hintact
  have hheard : (σ.client id).inbox.map Prod.snd <+:
      told.map fun a => (render a).text na σ.server.groupKey := by
    by_cases hstage : (σ.client id).stage = .started
    · rw [(hread hstage).2.1, htexts]
      exact (hread hstage).1.map _
    · rw [(hσ.sane id hid).ear.unopened hstage]
      exact List.nil_prefix
  refine ⟨h.piece, ?_, h.own, h.current, fun hne => ?_, hheard,
    fun hstage hlen => hheard.eq_of_length_le ?_⟩
  · rcases h.conforms.first h.packets with hnil | ⟨uname, hname, hhead⟩
    · exact .inl hnil
    · rw [hσ.asked_name hid hseal hsecret (fun _ => hbox) hwhole.up hwhole.down.keys hname] at hhead
      exact .inr hhead
  · obtain ⟨uname, ⟨p, hp, -⟩, -⟩ := (h.conforms.first h.packets).resolve_left hne
    have hlt := (List.getElem?_eq_some_iff.mp hp).1
    have hle : (dialogue id σ.server.trace).length ≤ (σ.heardFrom id).length :=
      dialogue_length_le _ _
    exact hσ.started hid hwhole.up (by omega)
  · rw [htexts, List.length_map, List.length_map, List.length_map, List.length_drop]
    rw [(hread hstage).2.2, System.sentTo, List.length_map] at hlen
    omega

/-- SENDER: what a client says in the history opens to the first lines that were entered. -/
theorem Sound.spoken (hσ : Sound na env honest σ) (hintact : Intact na honest σ id)
    (hseal : Seals na σ.server.groupKey) (hsecret : na.SecretboxInverts σ.server.groupKey)
    (h : Ordered na σ.server history) :
    (Room.spoken id history).map (openPacket na σ.server.groupKey) =
      (((σ.client id).said.drop 1).take ((σ.heardFrom id).length - 2)).map fun x => some x.1 := by
  obtain ⟨hid, hwhole, hbox⟩ := hintact
  rw [h.said, chat]
  by_cases hheard : 2 ≤ (σ.heardFrom id).length
  · have hagrees := hσ.agrees_clean hid hseal hbox hwhole hheard
    have hfirst : ∀ y ∈ (σ.client id).sent.take 1, Whole y := fun y hy =>
      hwhole.up y ((List.take_prefix_take_left (by omega)).subset hy)
    have hsplit : σ.heardFrom id = (σ.heardFrom id).take 2 ++ (σ.heardFrom id).drop 2 ++ [] := by
      rw [List.append_nil, List.take_append_drop]
    have htwo : ((σ.heardFrom id).take 2).length = 2 := by
      rw [List.length_take]
      omega
    obtain ⟨-, -, hopen⟩ := hσ.lines hid hwhole.up (hagrees.groupKey ▸ hseal)
      (hagrees.groupKey ▸ hsecret) hsplit htwo.ge
    rw [(hσ.key_heard hid hfirst).1, ← hagrees.groupKey, hopen, linesOf, htwo, List.length_drop,
      List.map_map]
    rfl
  · have hle : (dialogue id σ.server.trace).length ≤ (σ.heardFrom id).length :=
      dialogue_length_le _ _
    rw [List.drop_eq_nil_of_le (by omega), Nat.sub_eq_zero_of_le (by omega)]
    rfl

variable {env : Env}

/-- TOTAL ORDER: in every reachable state of the system, also where the server is stuck, there is
    one history for all clients. What each has decrypted is the beginning of a piece of it, unless
    its name was refused, and what each says there are its first lines, each once and in order. -/
theorem total_order (h : SystemReach na env utf8 honest σ) (hseal : Seals na σ.server.groupKey)
    (hsecret : na.SecretboxInverts σ.server.groupKey) :
    ∃ history, ∀ id, Intact na honest σ id →
      (Room.spoken id history).map (openPacket na σ.server.groupKey) =
        (((σ.client id).said.drop 1).take ((σ.heardFrom id).length - 2)).map (fun x => some x.1) ∧
      ((∃ told, Follows na σ id history told) ∨
        Refused na σ.server id (packetsTo id σ.server.trace)) := by
  have hσ := h.sound
  obtain ⟨history, hordered⟩ := hσ.served.ordered hseal
  refine ⟨history, fun id hintact => ⟨hσ.spoken hintact hseal hsecret hordered, ?_⟩⟩
  rcases hordered.told id with ⟨told, htells⟩ | ⟨hrefused, -⟩
  · exact .inl ⟨told, hσ.follows hintact hseal hsecret htells⟩
  · exact .inr hrefused

/-- SAME WINDOW: of two registered clients that have read all that was sent to them, one has
    decrypted the last part of what the other has. -/
theorem same_window (h : SystemReach na env utf8 honest σ) (hseal : Seals na σ.server.groupKey)
    (hsecret : na.SecretboxInverts σ.server.groupKey) {a b : ConnId} (ha : Intact na honest σ a)
    (hb : Intact na honest σ b) (hrega : RegisteredConn σ.server a)
    (hregb : RegisteredConn σ.server b) (hreada : (σ.sentTo a).length ≤ (σ.client a).taken.length)
    (hreadb : (σ.sentTo b).length ≤ (σ.client b).taken.length) :
    (σ.client a).inbox.map Prod.snd <:+ (σ.client b).inbox.map Prod.snd ∨
      (σ.client b).inbox.map Prod.snd <:+ (σ.client a).inbox.map Prod.snd := by
  have hσ := h.sound
  obtain ⟨history, hordered⟩ := hσ.served.ordered hseal
  have hend : ∀ {id}, Intact na honest σ id → RegisteredConn σ.server id →
      (σ.sentTo id).length ≤ (σ.client id).taken.length → ∃ told, told <:+ history ∧
        (σ.client id).inbox.map Prod.snd =
          told.map fun x => (render x).text na σ.server.groupKey := by
    intro id hintact hreg hread
    obtain ⟨told, htells⟩ := (hordered.told id).resolve_right fun hr => hr.2 hreg
    have hfollows := hσ.follows hintact hseal hsecret htells
    obtain ⟨hne, hsuffix⟩ := hfollows.current hreg
    exact ⟨told, hsuffix, hfollows.all (hfollows.started hne) hread⟩
  obtain ⟨tolda, hsuffixa, heqa⟩ := hend ha hrega hreada
  obtain ⟨toldb, hsuffixb, heqb⟩ := hend hb hregb hreadb
  rw [heqa, heqb]
  exact (List.suffix_or_suffix_of_suffix hsuffixa hsuffixb).imp (fun hab => hab.map _)
    fun hba => hba.map _

end order

/-- Three clients have joined, the third after the lines of the other two; all have read on. -/
def sampleOrder : List SystemAct :=
  enters 0 5 (ascii "al") ++ enters 1 6 (ascii "bo") ++ enteringLine 0 (ascii "hi") ::
    enteringLine 1 (ascii "yo") :: (delivers 1 6 ++ delivers 0 5) ++ enters 2 7 (ascii "cy") ++
    List.replicate 4 (.client 1 .handleBroadcast) ++
    List.replicate 2 (.client 0 .handleBroadcast) ++ [.client 2 .handleBroadcast]

/-- The connection of a client of the concrete run is intact. -/
theorem sampleOrder_intact {σ : System} {id : ConnId}
    (h : (σ.client id).clientSk = (σ.client id).clientPk ∧
      σ.server.serverSk = σ.server.serverPk ∧ (∀ y ∈ (σ.client id).sent, Whole y) ∧
      ∀ y ∈ σ.sentTo id, Whole y) : Intact Sodium.plain (fun _ => true) σ id := by
  obtain ⟨hclient, hserver, hup, hdown⟩ := h
  refine ⟨rfl, ⟨fun y hy => hup y (List.mem_of_mem_take hy),
    fun y hy => hdown y (List.mem_of_mem_take hy)⟩, ?_⟩
  rw [hclient, hserver]
  exact Sodium.plain_boxInverts _ _

/-- "al" has said one line, and "bo" has decrypted all that it was told. -/
theorem total_order_three : ∃ σ, ∃ history told told' : List (Room.Item ConnId Bytes Bytes),
    sampleSystemRun (fun _ => true) sampleOrder = some σ ∧
    Follows Sodium.plain σ 0 history told ∧ Follows Sodium.plain σ 1 history told' ∧
    (Room.spoken 0 history).map (openPacket Sodium.plain σ.server.groupKey) =
      [some (ascii "al: hi")] ∧
    told'.map (fun a => (render a).text Sodium.plain σ.server.groupKey) =
      [some (connectNotice (ascii "bo")), some (ascii "bo: yo"), some (ascii "al: hi"),
        some (connectNotice (ascii "cy"))] := by
  have hrun : (sampleSystemRun (fun _ => true) sampleOrder).any (fun σ => decide (
      (∀ id ∈ ([0, 1] : List ConnId), ((σ.client id).clientSk = (σ.client id).clientPk ∧
        σ.server.serverSk = σ.server.serverPk ∧ (∀ y ∈ (σ.client id).sent, Whole y) ∧
        ∀ y ∈ σ.sentTo id, Whole y) ∧ (packetsTo id σ.server.trace).length ≠ 3) ∧
      (((σ.client 0).said.drop 1).take ((σ.heardFrom 0).length - 2)).map (fun x => some x.1) =
        [some (ascii "al: hi")] ∧
      (σ.client 1).stage = .started ∧ (σ.sentTo 1).length ≤ (σ.client 1).taken.length ∧
      (σ.client 1).inbox.map Prod.snd = [some (connectNotice (ascii "bo")), some (ascii "bo: yo"),
        some (ascii "al: hi"), some (connectNotice (ascii "cy"))])) = true := by decide +kernel
  obtain ⟨σ, hσ, heq⟩ := (Option.any_eq_true _ _).mp hrun
  obtain ⟨hintact, hsaid, hstage, hread, hinbox⟩ := of_decide_eq_true heq
  obtain ⟨history, hall⟩ := total_order (sampleSystemRun_reach hσ) (fun _ _ => rfl)
    (Sodium.plain_secretboxInverts _)
  have hnot : ∀ id ∈ ([0, 1] : List ConnId),
      ¬Refused Sodium.plain σ.server id (packetsTo id σ.server.trace) := by
    intro id hid hrefused
    refine (hintact id hid).2 ?_
    generalize packetsTo id σ.server.trace = xs at hrefused
    cases hrefused
    rfl
  have hal := hall 0 (sampleOrder_intact (hintact 0 (by decide)).1)
  have hbo := hall 1 (sampleOrder_intact (hintact 1 (by decide)).1)
  obtain ⟨told, htold⟩ := hal.2.resolve_right (hnot 0 (by decide))
  obtain ⟨told', htold'⟩ := hbo.2.resolve_right (hnot 1 (by decide))
  exact ⟨σ, history, told, told', hσ, htold, htold', hal.1.trans hsaid,
    (htold'.all hstage hread).symm.trans hinbox⟩

/-- What "cy" has decrypted is the last part of what "bo" has, and not the other way round. -/
theorem same_window_later : ∃ σ, sampleSystemRun (fun _ => true) sampleOrder = some σ ∧
    (σ.client 2).inbox.map Prod.snd <:+ (σ.client 1).inbox.map Prod.snd ∧
    (σ.client 2).inbox.length < (σ.client 1).inbox.length := by
  have hrun : (sampleSystemRun (fun _ => true) sampleOrder).any (fun σ => decide (
      (∀ x ∈ ([(6, 1), (7, 2)] : List (Fd × ConnId)),
        ((σ.client x.2).clientSk = (σ.client x.2).clientPk ∧
          σ.server.serverSk = σ.server.serverPk ∧ (∀ y ∈ (σ.client x.2).sent, Whole y) ∧
          ∀ y ∈ σ.sentTo x.2, Whole y) ∧
        (σ.server.clients.lookup x.1).map (fun c => (c.registered, c.session.conn)) =
          some (true, x.2) ∧ (σ.sentTo x.2).length ≤ (σ.client x.2).taken.length) ∧
      (σ.client 2).inbox.length < (σ.client 1).inbox.length)) = true := by decide +kernel
  obtain ⟨σ, hσ, heq⟩ := (Option.any_eq_true _ _).mp hrun
  obtain ⟨hall, hlt⟩ := of_decide_eq_true heq
  obtain ⟨hbo, hregbo, hreadbo⟩ := hall (6, 1) (by simp)
  obtain ⟨hcy, hregcy, hreadcy⟩ := hall (7, 2) (by simp)
  have hsame := same_window (sampleSystemRun_reach hσ) (fun _ _ => rfl)
    (Sodium.plain_secretboxInverts _) (sampleOrder_intact hcy) (sampleOrder_intact hbo)
    (.of_lookup hregcy) (.of_lookup hregbo) hreadcy hreadbo
  refine ⟨σ, hσ, hsame.resolve_right fun hba => ?_, hlt⟩
  have hle := hba.length_le
  rw [List.length_map, List.length_map] at hle
  exact not_le.mpr hlt hle

end CliChat
