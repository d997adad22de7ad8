import CliChat.Client.Client

/-! @src client/src/client.cpp | name:Client | scheme:case analysis

    Everything one action of a client can do, said once. `Acted` has a constructor for each way
    through the functions of `Client.act`, with the client that is left as named updates;
    `act_acted` says that an action always ends in one of them. Later results inspect an `Acted`
    and never unfold a member function. -/

namespace CliChat

/-! ### Opening a sealed packet -/

/-- `RecvDecrypted` inverts `SendEncrypted` and `SendSecretbox`, except on the empty string. -/
theorem SealedBox.opens {na : Sodium} {key msg p : Bytes} (hkey : na.SecretboxInverts key)
    (h : SealedBox na key msg (some p)) (hne : msg ≠ []) : openPacket na key p = some msg := by
  obtain ⟨nonce, hnonce, hp⟩ := h
  obtain ⟨c, hc, rfl⟩ := Option.map_eq_some_iff.mp hp.symm
  have hlen := hkey.length msg nonce c hc
  have hpos : 0 < msg.length := List.length_pos_iff.mpr hne
  have htake : (nonce ++ c).take secretboxNonceBytes = nonce := List.take_left' hnonce
  have hdrop : (nonce ++ c).drop secretboxNonceBytes = c := List.drop_left' hnonce
  rw [openPacket, if_neg (by rw [List.length_append]; omega)]
  simp only [htake, hdrop]
  rw [if_neg (by omega)]
  exact hkey.opens msg nonce c hc

namespace Client

variable {c : Client}

/-! ### The primitives -/

/-- `SendEncrypted` of `msg`: its result, the bytes written and the client left. A string that
    cannot be sealed is dropped. -/
inductive Utters (na : Sodium) (c : Client) (msg : Bytes) : Bool → Bytes → Client → Prop where
  | dropped {nonce : Bytes} : na.secretboxEasy msg nonce c.groupKey = none →
      Utters na c msg false [] { c with said := c.said ++ [(msg, false)] }
  | packet {p : Bytes} {ok : Bool} {bs : Bytes} : SealedBox na c.groupKey msg (some p) →
      (ok = true → bs = wire p) →
      Utters na c msg ok bs { c with sent := c.sent ++ [(p, ok)], said := c.said ++ [(msg, ok)] }

/-- `RecvPacket`: on a closed session it returns nullopt and reads nothing. -/
def Reads (c : Client) (ch : Chan) (pkt : Option Bytes) (ch' : Chan) : Prop :=
  (c.sessionOpen = true ∧ CliChat.recvPacket ch = .done pkt ch') ∨
    (c.sessionOpen = false ∧ pkt = none ∧ ch' = ch)

/-- The packet that `RecvPacket` returned is logged. -/
def reading (c : Client) (pkt : Option Bytes) : Client :=
  { c with taken := c.taken ++ pkt.toList }

/-- `RecvDecrypted` read the packet `pkt`. -/
def decrypting (na : Sodium) (c : Client) (pkt : Option Bytes) : Client :=
  { c.reading pkt with
    inbox := c.inbox ++ (pkt.map fun enc => (enc, openPacket na c.groupKey enc)).toList }

theorem sendPacket_spec (c : Client) (data : Bytes) (sched : Answers) :
    ∃ ok bs, c.sendPacket data sched = (ok, bs, { c with sent := c.sent ++ [(data, ok)] }) ∧
      (ok = true → bs = wire data) := by
  unfold sendPacket
  split
  · exact ⟨_, _, rfl, Answers.sendPacket_true⟩
  · exact ⟨false, [], rfl, fun h => by cases h⟩

theorem sendEncrypted_utters (na : Sodium) (c : Client) (msg : Bytes) {nonce : Bytes}
    (hnonce : nonce.length = secretboxNonceBytes) (sched : Answers) :
    Utters na c msg (c.sendEncrypted na msg nonce sched).1 (c.sendEncrypted na msg nonce sched).2.1
      (c.sendEncrypted na msg nonce sched).2.2 := by
  unfold sendEncrypted
  rcases hseal : na.secretboxEasy msg nonce c.groupKey with _ | cipher
  · exact .dropped hseal
  · obtain ⟨ok, bs, heq, hbs⟩ := c.sendPacket_spec (nonce ++ cipher) sched
    dsimp only
    rw [heq]
    exact .packet ⟨nonce, hnonce, by rw [hseal]; rfl⟩ hbs

theorem recvPacket_reads {ch ch' : Chan} {pkt : Option Bytes} {c' : Client}
    (h : c.recvPacket ch = some (pkt, c', ch')) : c' = c.reading pkt ∧ Reads c ch pkt ch' := by
  unfold recvPacket at h
  split at h
  · rename_i hopen
    split at h
    · cases h
    · rename_i hd
      cases h
      exact ⟨rfl, Or.inl ⟨hopen, hd⟩⟩
  · rename_i hclosed
    cases h
    exact ⟨by simp [reading], Or.inr ⟨by simpa using hclosed, rfl, rfl⟩⟩

/-- `RecvDecrypted` returns what it makes of the packet that it reads, and nullopt without one. -/
theorem recvDecrypted_reads {na : Sodium} {ch ch' : Chan} {msgOpt : Option Bytes} {c' : Client}
    (h : c.recvDecrypted na ch = some (msgOpt, c', ch')) :
    ∃ pkt, c' = c.decrypting na pkt ∧ msgOpt = pkt.bind (openPacket na c.groupKey) ∧
      Reads c ch pkt ch' := by
  unfold recvDecrypted at h
  split at h
  · cases h
  · rename_i c₁ ch₁ hr
    obtain ⟨rfl, hreads⟩ := recvPacket_reads hr
    cases h
    exact ⟨none, by simp [decrypting, reading], rfl, hreads⟩
  · rename_i enc c₁ ch₁ hr
    obtain ⟨rfl, hreads⟩ := recvPacket_reads hr
    cases h
    exact ⟨some enc, rfl, rfl, hreads⟩

/-! ### One action -/

/-- Everything one action can do: the client it leaves, what it wrote and the stream it left. -/
inductive Acted (na : Sodium) (utf8 : Bytes → Bool) (c : Client) (ch : Chan) :
    Client → Bytes → Chan → Prop where
  | keySent {pk sk : Bytes} {ok : Bool} {bs : Bytes} : c.stage = .connected →
      pk.length = boxPublicKeyBytes → (ok = true → bs = wire pk) →
      Acted na utf8 c ch { c with
        clientPk := pk
        clientSk := sk
        sent := c.sent ++ [(pk, ok)]
        stage := .awaitsServerPk } bs ch
  /-- The handshake ends in an exception. -/
  | keyRefused {pkt : Option Bytes} {ch' : Chan} {what : Bytes} :
      c.stage = .awaitsServerPk ∨ c.stage = .awaitsGroupKey → Reads c ch pkt ch' →
      Acted na utf8 c ch ((c.reading pkt).fail what) [] ch'
  | serverPkRead {pkt : Bytes} {ch' : Chan} : c.stage = .awaitsServerPk →
      Reads c ch (some pkt) ch' →
      Acted na utf8 c ch { c.reading (some pkt) with
        serverPk := pkt.take boxPublicKeyBytes
        stage := .awaitsGroupKey } [] ch'
  | groupKeyRead {pkt key : Bytes} {ch' : Chan} : c.stage = .awaitsGroupKey →
      Reads c ch (some pkt) ch' →
      na.boxOpenEasy (pkt.drop boxNonceBytes) (pkt.take boxNonceBytes) c.serverPk c.clientSk =
        some key →
      Acted na utf8 c ch { c.reading (some pkt) with
        groupKey := key
        stage := .promptsUsername } [] ch'
  /-- The name is not valid, or not sent. -/
  | nameRefused {c₁ : Client} {bs what : Bytes} : c.stage = .promptsUsername →
      (c₁ = c ∧ bs = [] ∨ ∃ username, Utters na c username false bs c₁) →
      Acted na utf8 c ch (c₁.fail what) bs ch
  | nameSent {c₁ : Client} {bs username : Bytes} : c.stage = .promptsUsername → username ≠ [] →
      username.length ≤ maxUsernameLen → Utters na c username true bs c₁ →
      Acted na utf8 c ch { c₁ with username := username, running := true, stage := .started } bs ch
  | messageRead {pkt : Option Bytes} {ch' : Chan} : c.running = true → Reads c ch pkt ch' →
      Acted na utf8 c ch ((c.decrypting na pkt).onMessage (pkt.bind (openPacket na c.groupKey))) []
        ch'
  | idle : c.running = true → Acted na utf8 c ch c [] ch
  /-- The user leaves, or the prompt is closed. -/
  | left : c.running = true → Acted na utf8 c ch c.stop [] ch
  | lineSent {c₁ : Client} {ok : Bool} {bs text : Bytes} : c.running = true → text ≠ [] →
      Utters na c (c.username ++ ascii ": " ++ text) ok bs c₁ → Acted na utf8 c ch c₁ bs ch
  | printed {queue : List Bytes} : c.running = true → queue ⊆ c.msgQueue →
      Acted na utf8 c ch { c with msgQueue := queue } [] ch
  /-- A string of the queue is not UTF-8. -/
  | choked {bad : Bytes} {rest : List Bytes} : c.running = true → bad ∈ c.msgQueue →
      utf8 bad = false → rest ⊆ c.msgQueue → Acted na utf8 c ch { c with msgQueue := rest }.stop [] ch

theorem sendUsername_acted {na : Sodium} {utf8 : Bytes → Bool} (ch : Chan)
    (hstage : c.stage = .promptsUsername) (usernameOpt : Option Bytes) {nonce : Bytes}
    (hnonce : nonce.length = secretboxNonceBytes) (sched : Answers) :
    Acted na utf8 c ch (c.sendUsername na usernameOpt nonce sched).1
      (c.sendUsername na usernameOpt nonce sched).2 ch := by
  unfold sendUsername
  split
  · exact .nameRefused hstage (Or.inl ⟨rfl, rfl⟩)
  · rename_i username
    split
    · exact .nameRefused hstage (Or.inl ⟨rfl, rfl⟩)
    · rename_i hname
      have hutter := c.sendEncrypted_utters na username hnonce sched
      dsimp only
      cases hok : (c.sendEncrypted na username nonce sched).1 with
      | false =>
        rw [hok] at hutter
        exact .nameRefused hstage (Or.inr ⟨username, hutter⟩)
      | true =>
        rw [hok] at hutter
        exact .nameSent hstage (fun h => hname (Or.inl h))
          (not_lt.mp fun h => hname (Or.inr h)) hutter

theorem clientLoop_acted {na : Sodium} {utf8 : Bytes → Bool} (ch : Chan) (hrun : c.running = true)
    (inputOpt : Option Bytes) {nonce : Bytes} (hnonce : nonce.length = secretboxNonceBytes)
    (sched : Answers) :
    Acted na utf8 c ch (c.clientLoop na inputOpt nonce sched).1
      (c.clientLoop na inputOpt nonce sched).2 ch := by
  unfold clientLoop
  split
  · exact .left hrun
  · rename_i input
    split
    · exact .idle hrun
    · rename_i hne
      split
      · exact .left hrun
      · exact .lineSent hrun hne (c.sendEncrypted_utters na _ hnonce sched)

theorem uiUpdateLoop_acted {na : Sodium} {utf8 : Bytes → Bool} (ch : Chan)
    (hrun : c.running = true) : Acted na utf8 c ch (c.uiUpdateLoop utf8) [] ch := by
  unfold uiUpdateLoop
  split
  · exact .idle hrun
  · split
    · exact .printed hrun (List.nil_subset _)
    · rename_i bad rest hqueue
      have hsub : bad :: rest ⊆ c.msgQueue := hqueue ▸ (List.dropWhile_sublist utf8).subset
      have hhead := List.head?_dropWhile_not utf8 c.msgQueue
      rw [hqueue] at hhead
      exact .choked hrun (hsub List.mem_cons_self) (by simpa using hhead)
        fun m hm => hsub (List.mem_cons_of_mem _ hm)

/-- COMPLETE: an action does one of these. -/
theorem act_acted {na : Sodium} {utf8 : Bytes → Bool} {ch ch' : Chan} {a : ClientAct} {c' : Client}
    {bs : Bytes} (h : c.act na utf8 ch a = some (c', bs, ch')) : Acted na utf8 c ch c' bs ch' := by
  cases a with
  | sendKey pk sk sched =>
    obtain ⟨ok, bs', heq, hbs⟩ := sendPacket_spec { c with clientPk := pk, clientSk := sk } pk sched
    simp only [act, sendKey, heq, Option.ite_none_right_eq_some, Option.some.injEq,
      Prod.mk.injEq] at h
    obtain ⟨⟨hstage, hpk⟩, rfl, rfl, rfl⟩ := h
    exact .keySent hstage hpk hbs
  | recvServerPk =>
    simp only [act, Option.ite_none_right_eq_some, Option.map_eq_some_iff, Prod.mk.injEq] at h
    obtain ⟨hstage, ⟨c₁, ch₁⟩, h, rfl, rfl, rfl⟩ := h
    unfold recvServerPk at h
    split at h
    · cases h
    · rename_i hr
      obtain ⟨rfl, hreads⟩ := recvPacket_reads hr
      cases h
      exact .keyRefused (Or.inl hstage) hreads
    · rename_i hr
      obtain ⟨rfl, hreads⟩ := recvPacket_reads hr
      cases h
      exact .serverPkRead hstage hreads
  | recvGroupKey =>
    simp only [act, Option.ite_none_right_eq_some, Option.map_eq_some_iff, Prod.mk.injEq] at h
    obtain ⟨hstage, ⟨c₁, ch₁⟩, h, rfl, rfl, rfl⟩ := h
    unfold recvGroupKey at h
    split at h
    · cases h
    · rename_i hr
      obtain ⟨rfl, hreads⟩ := recvPacket_reads hr
      cases h
      exact .keyRefused (Or.inr hstage) hreads
    · rename_i hr
      obtain ⟨rfl, hreads⟩ := recvPacket_reads hr
      split at h
      · cases h
        exact .keyRefused (Or.inr hstage) hreads
      · rename_i hopen
        cases h
        exact .groupKeyRead hstage hreads hopen
  | sendUsername usernameOpt nonce sched =>
    simp only [act, Option.ite_none_right_eq_some, Option.some.injEq, Prod.mk.injEq] at h
    obtain ⟨⟨hstage, hnonce⟩, rfl, rfl, rfl⟩ := h
    exact sendUsername_acted ch hstage usernameOpt hnonce sched
  | handleBroadcast =>
    simp only [act, Option.ite_none_right_eq_some, Option.map_eq_some_iff, Prod.mk.injEq] at h
    obtain ⟨hrun, ⟨c₁, ch₁⟩, h, rfl, rfl, rfl⟩ := h
    obtain ⟨⟨msgOpt, c₂, ch₂⟩, hr, heq⟩ := Option.map_eq_some_iff.mp h
    obtain ⟨pkt, rfl, rfl, hreads⟩ := recvDecrypted_reads hr
    cases heq
    exact .messageRead hrun hreads
  | clientLoop inputOpt nonce sched =>
    simp only [act, Option.ite_none_right_eq_some, Option.some.injEq, Prod.mk.injEq] at h
    obtain ⟨⟨hrun, hnonce⟩, rfl, rfl, rfl⟩ := h
    exact clientLoop_acted ch hrun inputOpt hnonce sched
  | uiUpdateLoop =>
    simp only [act, Option.ite_none_right_eq_some, Option.some.injEq, Prod.mk.injEq] at h
    obtain ⟨hrun, rfl, rfl, rfl⟩ := h
    exact uiUpdateLoop_acted ch hrun

end Client

end CliChat
