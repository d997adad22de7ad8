import CliChat.Client.Outcome

/-! @src client/src/client.cpp | name:Client | scheme:invariant

    What a client does to its two streams in one action (`Linked`: at most one packet is sent and
    at most one is read), and what its own history says in every state it reaches (`Sane`).

        sent    key │ sealed name │ sealed line │ ...      said    name │ line │ ...
        taken   server key │ group key │ packet │ ...      inbox          packet, text │ ...  -/

namespace CliChat

namespace Client

variable {c c' : Client} {bs : Bytes} {ch ch' : Chan}

/-! ### The streams -/

/-- An action sends at most one packet, and reads at most one. -/
structure Linked (c c' : Client) (bs : Bytes) (ch ch' : Chan) : Prop where
  sends : (c'.sent = c.sent ∧ bs = []) ∨
    ∃ data ok, c'.sent = c.sent ++ [(data, ok)] ∧ (ok = true → bs = wire data)
  reads : (ch' = ch ∧ c'.taken = c.taken) ∨
    ∃ pkt, CliChat.recvPacket ch = .done pkt ch' ∧ c'.taken = c.taken ++ pkt.toList

theorem Reads.linked {pkt : Option Bytes} (h : Reads c ch pkt ch') (hsent : c'.sent = c.sent)
    (htaken : c'.taken = c.taken ++ pkt.toList) : Linked c c' [] ch ch' := by
  refine ⟨Or.inl ⟨hsent, rfl⟩, ?_⟩
  rcases h with ⟨-, hd⟩ | ⟨-, rfl, rfl⟩
  · exact Or.inr ⟨pkt, hd, htaken⟩
  · exact Or.inl ⟨rfl, by simpa using htaken⟩

theorem Utters.linked {na : Sodium} {msg : Bytes} {ok : Bool} {c₁ : Client}
    (h : Utters na c msg ok bs c₁) (hsent : c'.sent = c₁.sent) (htaken : c'.taken = c₁.taken) :
    Linked c c' bs ch ch := by
  cases h with
  | dropped => exact ⟨Or.inl ⟨hsent, rfl⟩, Or.inl ⟨rfl, htaken⟩⟩
  | @packet p ok bs hbox hbs => exact ⟨Or.inr ⟨p, ok, hsent, hbs⟩, Or.inl ⟨rfl, htaken⟩⟩

/-- `onMessage` reaches the flags, the queue and the exit reason only. -/
structure SameHistory (c c' : Client) : Prop where
  stage : c'.stage = c.stage
  clientPk : c'.clientPk = c.clientPk
  clientSk : c'.clientSk = c.clientSk
  serverPk : c'.serverPk = c.serverPk
  groupKey : c'.groupKey = c.groupKey
  username : c'.username = c.username
  sent : c'.sent = c.sent
  said : c'.said = c.said
  taken : c'.taken = c.taken
  inbox : c'.inbox = c.inbox

theorem SameHistory.refl (c : Client) : SameHistory c c :=
  ⟨rfl, rfl, rfl, rfl, rfl, rfl, rfl, rfl, rfl, rfl⟩

theorem stop_history (c : Client) : SameHistory c c.stop := by
  unfold stop
  split <;> exact ⟨rfl, rfl, rfl, rfl, rfl, rfl, rfl, rfl, rfl, rfl⟩

theorem onMessage_history (c : Client) (msgOpt : Option Bytes) :
    SameHistory c (c.onMessage msgOpt) := by
  unfold onMessage
  split
  · split
    · obtain ⟨h₁, h₂, h₃, h₄, h₅, h₆, h₇, h₈, h₉, h₁₀⟩ :=
        stop_history { c with exitReason := ascii "Server closed connection." }
      exact ⟨h₁, h₂, h₃, h₄, h₅, h₆, h₇, h₈, h₉, h₁₀⟩
    · exact stop_history c
  · split
    · obtain ⟨h₁, h₂, h₃, h₄, h₅, h₆, h₇, h₈, h₉, h₁₀⟩ := stop_history { c with
        exitReason := ascii "Username " ++ c.username ++ ascii " is already taken" }
      exact ⟨h₁, h₂, h₃, h₄, h₅, h₆, h₇, h₈, h₉, h₁₀⟩
    · unfold pushMessage
      split
      · exact .refl c
      · exact ⟨rfl, rfl, rfl, rfl, rfl, rfl, rfl, rfl, rfl, rfl⟩

/-- STEP: every action is linked to the two streams. -/
theorem Acted.linked {na : Sodium} {utf8 : Bytes → Bool} (h : Acted na utf8 c ch c' bs ch') :
    Linked c c' bs ch ch' := by
  cases h with
  | @keySent pk sk ok bs _ _ hbs => exact ⟨Or.inr ⟨pk, ok, rfl, hbs⟩, Or.inl ⟨rfl, rfl⟩⟩
  | keyRefused _ hreads => exact hreads.linked rfl rfl
  | serverPkRead _ hreads => exact hreads.linked rfl rfl
  | groupKeyRead _ hreads _ => exact hreads.linked rfl rfl
  | nameRefused _ hutter =>
    rcases hutter with ⟨rfl, rfl⟩ | ⟨username, hutter⟩
    · exact ⟨Or.inl ⟨rfl, rfl⟩, Or.inl ⟨rfl, rfl⟩⟩
    · exact hutter.linked rfl rfl
  | nameSent _ _ _ hutter => exact hutter.linked rfl rfl
  | @messageRead pkt _ _ hreads =>
    have hsame := onMessage_history (c.decrypting na pkt) (pkt.bind (openPacket na c.groupKey))
    exact hreads.linked hsame.sent hsame.taken
  | idle => exact ⟨Or.inl ⟨rfl, rfl⟩, Or.inl ⟨rfl, rfl⟩⟩
  | left => exact ⟨Or.inl ⟨(stop_history c).sent, rfl⟩, Or.inl ⟨rfl, (stop_history c).taken⟩⟩
  | lineSent _ _ hutter => exact hutter.linked rfl rfl
  | printed => exact ⟨Or.inl ⟨rfl, rfl⟩, Or.inl ⟨rfl, rfl⟩⟩
  | choked =>
    exact ⟨Or.inl ⟨(stop_history _).sent, rfl⟩, Or.inl ⟨rfl, (stop_history _).taken⟩⟩

/-! ### What a client has sent -/

/-- The lines that `ClientLoop` makes of its user's input. -/
def IsLine (username msg : Bytes) : Prop := ∃ text, text ≠ [] ∧ msg = username ++ ascii ": " ++ text

/-- What the client has sent: its key, then the strings of `SendEncrypted`, sealed. -/
structure Voice (na : Sodium) (c : Client) : Prop where
  mute : c.stage = .connected → c.sent = []
  opening : c.stage ≠ .connected →
    c.clientPk.length = boxPublicKeyBytes ∧ ∃ ok rest, c.sent = (c.clientPk, ok) :: rest
  unsaid : c.stage ≠ .started → c.stage ≠ .exited → c.said = [] ∧ c.sent.tail = []
  sealed : Seals na c.groupKey → List.Forall₂
    (fun x y => SealedBox na c.groupKey x.1 (some y.1) ∧ x.2 = y.2) c.said c.sent.tail
  named : c.stage = .started → ∃ ok rest, c.said = (c.username, ok) :: rest
  sized : c.stage = .started → c.username.length ≤ maxUsernameLen
  quit : c.stage = .exited → ∀ y ∈ c.sent.tail, y.2 = false
  lines : ∀ x ∈ c.said.tail, IsLine c.username x.1

theorem Voice.start (na : Sodium) : Voice na {} where
  mute _ := rfl
  opening h := absurd rfl h
  unsaid _ _ := ⟨rfl, rfl⟩
  sealed _ := .nil
  named h := by cases h
  sized h := by cases h
  quit h := by cases h
  lines x hx := by cases hx

namespace Voice

variable {na : Sodium}

/-- The invariant reads the stage, the keys of the client, its name and what it has sent. -/
theorem congr (h : Voice na c) (hstage : c'.stage = c.stage) (hpk : c'.clientPk = c.clientPk)
    (hkey : c'.groupKey = c.groupKey) (hname : c'.username = c.username) (hsent : c'.sent = c.sent)
    (hsaid : c'.said = c.said) : Voice na c' where
  mute := by rw [hstage, hsent]; exact h.mute
  opening := by rw [hstage, hsent, hpk]; exact h.opening
  unsaid := by rw [hstage, hsent, hsaid]; exact h.unsaid
  sealed := by rw [hkey, hsent, hsaid]; exact h.sealed
  named := by rw [hstage, hname, hsaid]; exact h.named
  sized := by rw [hstage, hname]; exact h.sized
  quit := by rw [hstage, hsent]; exact h.quit
  lines := by rw [hname, hsaid]; exact h.lines

theorem same (h : Voice na c) (hs : SameHistory c c') : Voice na c' :=
  h.congr hs.stage hs.clientPk hs.groupKey hs.username hs.sent hs.said

/-- A step of `Start` that sends nothing sealed. -/
theorem advance (h : Voice na c) (hc : c.stage ≠ .connected) (hs : c.stage ≠ .started)
    (hx : c.stage ≠ .exited) (hc' : c'.stage ≠ .connected) (hs' : c'.stage ≠ .started)
    (hpk : c'.clientPk = c.clientPk) (hsent : c'.sent = c.sent) (hsaid : c'.said = c.said) :
    Voice na c' := by
  obtain ⟨hsaid₀, hsent₀⟩ := h.unsaid hs hx
  refine ⟨fun h' => absurd h' hc', fun _ => ?_, fun _ _ => ?_, fun _ => ?_,
    fun h' => absurd h' hs', fun h' => absurd h' hs', fun _ => ?_, ?_⟩
  · rw [hpk, hsent]
    exact h.opening hc
  · rw [hsaid, hsent]
    exact ⟨hsaid₀, hsent₀⟩
  · rw [hsaid, hsent, hsaid₀, hsent₀]
    exact .nil
  · rw [hsent, hsent₀]
    simp
  · rw [hsaid, hsaid₀]
    simp

/-- One more string is sealed and sent. -/
theorem utter (h : Voice na c) (hc : c.stage ≠ .connected) {msg : Bytes} {ok : Bool} {c₁ : Client}
    (hutter : Utters na c msg ok bs c₁) (hc' : c'.stage ≠ .connected) (hpk : c'.clientPk = c₁.clientPk)
    (hkey : c'.groupKey = c₁.groupKey) (hsent : c'.sent = c₁.sent) (hsaid : c'.said = c₁.said)
    (hlate : c'.stage = .started ∨ c'.stage = .exited)
    (hnamed : c'.stage = .started → ∃ ok' rest, c₁.said = (c'.username, ok') :: rest)
    (hsized : c'.stage = .started → c'.username.length ≤ maxUsernameLen)
    (hquit : c'.stage = .exited → c.sent.tail = [] ∧ ok = false)
    (hlines : ∀ x ∈ c₁.said.tail, IsLine c'.username x.1) : Voice na c' := by
  obtain ⟨hlen, ok₀, rest, hopening⟩ := h.opening hc
  have htail : ∀ y, (c.sent ++ [y]).tail = c.sent.tail ++ [y] := by
    intro y
    rw [hopening]
    rfl
  refine ⟨fun h' => absurd h' hc', fun _ => ?_, fun h₁ h₂ => ?_, fun hseals => ?_, ?_, hsized,
    fun hx => ?_, ?_⟩
  · rw [hpk, hsent]
    cases hutter with
    | dropped => exact ⟨hlen, ok₀, rest, hopening⟩
    | @packet p _ _ _ _ => exact ⟨hlen, ok₀, rest ++ [(p, ok)], by rw [hopening]; rfl⟩
  · rcases hlate with hl | hl
    · exact absurd hl h₁
    · exact absurd hl h₂
  · cases hutter with
    | @dropped nonce hfail =>
      have hsome := hseals msg nonce
      rw [hkey, hfail] at hsome
      cases hsome
    | @packet p _ _ hbox _ =>
      rw [hkey] at hseals
      rw [hkey, hsent, hsaid, htail]
      exact List.rel_append (h.sealed hseals) (.cons ⟨hbox, rfl⟩ .nil)
  · intro hst
    rw [hsaid]
    exact hnamed hst
  · obtain ⟨hnil, rfl⟩ := hquit hx
    rw [hsent]
    cases hutter with
    | dropped =>
      rw [show c.sent.tail = [] from hnil]
      simp
    | packet => simp [htail, hnil]
  · rw [hsaid]
    exact hlines

end Voice

/-- STEP: every action keeps the invariant of what was sent. -/
theorem Acted.voice {na : Sodium} {utf8 : Bytes → Bool} (hv : Voice na c)
    (hrun : c.running = true → c.stage = .started) (h : Acted na utf8 c ch c' bs ch') :
    Voice na c' := by
  cases h with
  | @keySent pk sk ok _ hstage hpk _ =>
    have hmute := hv.mute hstage
    obtain ⟨hsaid, -⟩ := hv.unsaid (by rw [hstage]; decide) (by rw [hstage]; decide)
    refine ⟨fun h' => (by cases h'), fun _ => ⟨hpk, ok, [], by rw [hmute]; rfl⟩, fun _ _ => ?_,
      fun _ => ?_, fun h' => (by cases h'), fun h' => (by cases h'), fun h' => (by cases h'), ?_⟩
    · exact ⟨hsaid, by rw [hmute]; rfl⟩
    · dsimp only
      rw [hsaid, hmute]
      exact .nil
    · dsimp only
      rw [hsaid]
      simp
  | keyRefused hstage _ =>
    refine hv.advance ?_ ?_ ?_ ?_ ?_ rfl rfl rfl <;>
      rcases hstage with h' | h' <;> simp [h', fail]
  | serverPkRead hstage _ =>
    exact hv.advance (by rw [hstage]; decide) (by rw [hstage]; decide) (by rw [hstage]; decide)
      (by simp) (by simp) rfl rfl rfl
  | groupKeyRead hstage _ _ =>
    exact hv.advance (by rw [hstage]; decide) (by rw [hstage]; decide) (by rw [hstage]; decide)
      (by simp) (by simp) rfl rfl rfl
  | @nameRefused c₁ _ what hstage hutter =>
    have hc : c.stage ≠ .connected := by rw [hstage]; decide
    rcases hutter with ⟨rfl, rfl⟩ | ⟨username, hutter⟩
    · exact hv.advance hc (by rw [hstage]; decide) (by rw [hstage]; decide) (by simp [fail])
        (by simp [fail]) rfl rfl rfl
    · obtain ⟨hsaid, hnil⟩ := hv.unsaid (by rw [hstage]; decide) (by rw [hstage]; decide)
      have htail : c₁.said.tail = [] := by cases hutter <;> simp [hsaid]
      exact hv.utter hc hutter (by simp [fail]) rfl rfl rfl rfl (Or.inr rfl) (fun h' => by cases h')
        (fun h' => by cases h') (fun _ => ⟨hnil, rfl⟩) (by rw [htail]; simp)
  | @nameSent c₁ _ username hstage _ hlen hutter =>
    have hc : c.stage ≠ .connected := by rw [hstage]; decide
    obtain ⟨hsaid, -⟩ := hv.unsaid (by rw [hstage]; decide) (by rw [hstage]; decide)
    have hone : c₁.said = [(username, true)] := by cases hutter; simp [hsaid]
    exact hv.utter hc hutter (by simp) rfl rfl rfl rfl (Or.inl rfl)
      (fun _ => ⟨true, [], hone⟩) (fun _ => hlen) (fun h' => by cases h')
      (by rw [hone]; simp)
  | @messageRead pkt _ _ _ =>
    have hd : Voice na (c.decrypting na pkt) := hv.congr rfl rfl rfl rfl rfl rfl
    exact hd.same (onMessage_history _ _)
  | idle => exact hv
  | left => exact hv.same (stop_history c)
  | @lineSent _ ok _ text hr hne hutter =>
    have hstage := hrun hr
    obtain ⟨ok₀, rest, hnamed⟩ := hv.named hstage
    have hsame : c'.stage = c.stage ∧ c'.username = c.username := by
      cases hutter <;> exact ⟨rfl, rfl⟩
    have hsaid : c'.said = c.said ++ [(c.username ++ ascii ": " ++ text, ok)] := by
      cases hutter <;> rfl
    refine hv.utter (by rw [hstage]; decide) hutter (by rw [hsame.1, hstage]; decide) rfl rfl rfl rfl
      (Or.inl (hsame.1.trans hstage)) (fun _ => ?_) (fun _ => hsame.2 ▸ hv.sized hstage)
      (fun h' => by rw [hsame.1, hstage] at h'; cases h') ?_
    · rw [hsaid, hnamed, hsame.2]
      exact ⟨ok₀, _, rfl⟩
    · intro x hx
      rw [hsaid, hnamed, List.cons_append, List.tail_cons, List.mem_append,
        List.mem_singleton] at hx
      rw [hsame.2]
      rcases hx with hx | rfl
      · exact hv.lines x (by rw [hnamed]; exact hx)
      · exact ⟨text, hne, rfl⟩
  | @printed queue _ _ => exact hv.congr rfl rfl rfl rfl rfl rfl
  | @choked bad rest _ _ _ _ =>
    have hq : Voice na { c with msgQueue := rest } := hv.congr rfl rfl rfl rfl rfl rfl
    exact hq.same (stop_history _)

/-! ### What a client has received -/

/-- What the client has received: the server's key, the group key sealed for it, and packets that
    were opened under the group key. -/
structure Ear (na : Sodium) (c : Client) : Prop where
  deaf : c.stage = .connected ∨ c.stage = .awaitsServerPk → c.taken = [] ∧ c.inbox = []
  keyed : c.stage = .awaitsGroupKey →
    ∃ k, c.taken = [k] ∧ c.serverPk = k.take boxPublicKeyBytes ∧ c.inbox = []
  tuned : c.stage = .promptsUsername ∨ c.stage = .started →
    ∃ k g, c.taken = k :: g :: c.inbox.map Prod.fst ∧ c.serverPk = k.take boxPublicKeyBytes ∧
      na.boxOpenEasy (g.drop boxNonceBytes) (g.take boxNonceBytes) c.serverPk c.clientSk =
        some c.groupKey
  opened : ∀ x ∈ c.inbox, x.2 = openPacket na c.groupKey x.1
  unopened : c.stage ≠ .started → c.inbox = []

theorem Ear.start (na : Sodium) : Ear na {} where
  deaf _ := ⟨rfl, rfl⟩
  keyed h := by cases h
  tuned h := by rcases h with h | h <;> cases h
  opened x hx := by cases hx
  unopened _ := rfl

namespace Ear

variable {na : Sodium}

/-- The invariant reads the stage, the keys and what was received. -/
theorem congr (h : Ear na c) (hstage : c'.stage = c.stage) (hsk : c'.clientSk = c.clientSk)
    (hpk : c'.serverPk = c.serverPk) (hkey : c'.groupKey = c.groupKey)
    (htaken : c'.taken = c.taken) (hinbox : c'.inbox = c.inbox) : Ear na c' where
  deaf := by rw [hstage, htaken, hinbox]; exact h.deaf
  keyed := by rw [hstage, hpk, htaken, hinbox]; exact h.keyed
  tuned := by rw [hstage, hsk, hpk, hkey, htaken, hinbox]; exact h.tuned
  opened := by rw [hkey, hinbox]; exact h.opened
  unopened := by rw [hstage, hinbox]; exact h.unopened

theorem same (h : Ear na c) (hs : SameHistory c c') : Ear na c' :=
  h.congr hs.stage hs.clientSk hs.serverPk hs.groupKey hs.taken hs.inbox

/-- `Start` is left. -/
theorem exit (h : Ear na c) (hstart : c.stage ≠ .started) (hstage : c'.stage = .exited)
    (hkey : c'.groupKey = c.groupKey) (hinbox : c'.inbox = c.inbox) : Ear na c' where
  deaf h' := by rw [hstage] at h'; rcases h' with h' | h' <;> cases h'
  keyed h' := by rw [hstage] at h'; cases h'
  tuned h' := by rw [hstage] at h'; rcases h' with h' | h' <;> cases h'
  opened := by rw [hkey, hinbox]; exact h.opened
  unopened _ := by rw [hinbox]; exact h.unopened hstart

/-- The name or a line was sent. -/
theorem utter (h : Ear na c) (hstage : c.stage = .promptsUsername ∨ c.stage = .started)
    {msg : Bytes} {ok : Bool} {c₁ : Client} (hutter : Utters na c msg ok bs c₁)
    (hstage' : c'.stage = .started) (hsk : c'.clientSk = c₁.clientSk)
    (hpk : c'.serverPk = c₁.serverPk) (hkey : c'.groupKey = c₁.groupKey) (htaken : c'.taken = c₁.taken)
    (hinbox : c'.inbox = c₁.inbox) : Ear na c' := by
  have hsame : c₁.clientSk = c.clientSk ∧ c₁.groupKey = c.groupKey ∧ c₁.taken = c.taken ∧
      c₁.inbox = c.inbox ∧ c₁.serverPk = c.serverPk := by
    cases hutter <;> exact ⟨rfl, rfl, rfl, rfl, rfl⟩
  obtain ⟨h₁, h₂, h₃, h₄, h₅⟩ := hsame
  refine ⟨fun h' => ?_, fun h' => ?_, fun _ => ?_, ?_, fun h' => absurd hstage' h'⟩
  · rw [hstage'] at h'
    rcases h' with h' | h' <;> cases h'
  · rw [hstage'] at h'
    cases h'
  · rw [htaken, hsk, hpk, hkey, hinbox, h₁, h₂, h₃, h₄, h₅]
    exact h.tuned hstage
  · rw [hkey, hinbox, h₂, h₄]
    exact h.opened

end Ear

/-- STEP: every action keeps the invariant of what was received. -/
theorem Acted.ear {na : Sodium} {utf8 : Bytes → Bool} (he : Ear na c)
    (hrun : c.running = true → c.stage = .started) (h : Acted na utf8 c ch c' bs ch') :
    Ear na c' := by
  cases h with
  | keySent hstage _ _ =>
    obtain ⟨ht, hi⟩ := he.deaf (Or.inl hstage)
    refine ⟨fun _ => ⟨ht, hi⟩, fun h' => (by cases h'),
      fun h' => (by rcases h' with h' | h' <;> cases h'), ?_, fun _ => hi⟩
    rw [show c.inbox = [] from hi]
    simp
  | keyRefused hstage _ =>
    refine he.exit ?_ rfl rfl rfl
    rcases hstage with h' | h' <;> simp [h']
  | @serverPkRead pkt _ hstage _ =>
    obtain ⟨ht, hi⟩ := he.deaf (Or.inr hstage)
    refine ⟨fun h' => (by rcases h' with h' | h' <;> cases h'), fun _ => ⟨pkt, ?_, rfl, hi⟩,
      fun h' => (by rcases h' with h' | h' <;> cases h'), he.opened, fun _ => hi⟩
    simp [reading, ht]
  | @groupKeyRead pkt key _ hstage _ hopen =>
    obtain ⟨k, ht, hpk, hi⟩ := he.keyed hstage
    refine ⟨fun h' => (by rcases h' with h' | h' <;> cases h'), fun h' => (by cases h'),
      fun _ => ⟨k, pkt, ?_, hpk, hopen⟩, ?_, fun _ => hi⟩
    · simp [reading, ht, hi]
    · simp [reading, hi]
  | nameRefused hstage hutter =>
    have hstart : c.stage ≠ .started := by rw [hstage]; decide
    rcases hutter with ⟨rfl, rfl⟩ | ⟨username, hutter⟩
    · exact he.exit hstart rfl rfl rfl
    · cases hutter <;> exact he.exit hstart rfl rfl rfl
  | nameSent hstage _ _ hutter => exact he.utter (Or.inl hstage) hutter rfl rfl rfl rfl rfl rfl
  | @messageRead pkt _ hr _ =>
    have hd : Ear na (c.decrypting na pkt) := by
      obtain ⟨k, g, ht, hpk, hkey⟩ := he.tuned (Or.inr (hrun hr))
      refine ⟨fun h' => ?_, fun h' => ?_, fun _ => ⟨k, g, ?_, hpk, hkey⟩, ?_,
        fun h' => absurd (hrun hr) h'⟩
      · have h'' : c.stage = .connected ∨ c.stage = .awaitsServerPk := h'
        rw [hrun hr] at h''
        rcases h'' with h'' | h'' <;> cases h''
      · have h'' : c.stage = .awaitsGroupKey := h'
        rw [hrun hr] at h''
        cases h''
      · cases pkt <;> simp [decrypting, reading, ht]
      · intro x hx
        rcases List.mem_append.mp hx with hx | hx
        · exact he.opened x hx
        · cases pkt with
          | none => cases hx
          | some enc => rw [List.mem_singleton.mp hx]; rfl
    exact hd.same (onMessage_history _ _)
  | idle => exact he
  | left => exact he.same (stop_history c)
  | lineSent hr _ hutter =>
    have hstage := hrun hr
    have hsame : c'.stage = c.stage := by cases hutter <;> rfl
    exact he.utter (Or.inr hstage) hutter (hsame.trans hstage) rfl rfl rfl rfl rfl
  | printed => exact he.congr rfl rfl rfl rfl rfl rfl
  | @choked bad rest _ _ _ _ =>
    have hq : Ear na { c with msgQueue := rest } := he.congr rfl rfl rfl rfl rfl rfl
    exact hq.same (stop_history _)

/-! ### The flags -/

/-- A client that runs has started and has not stopped; before that nothing is stopped. -/
structure Flags (c : Client) : Prop where
  running : c.running = true →
    c.stage = .started ∧ c.stopping = false ∧ c.sessionOpen = true ∧ c.uiRunning = true
  early : c.stage ≠ .started → c.stage ≠ .exited →
    c.running = false ∧ c.stopping = false ∧ c.sessionOpen = true ∧ c.uiRunning = true

theorem Flags.start : Flags {} where
  running h := by cases h
  early _ _ := ⟨rfl, rfl, rfl, rfl⟩

namespace Flags

theorem congr (h : Flags c) (hstage : c'.stage = c.stage) (hrun : c'.running = c.running)
    (hstop : c'.stopping = c.stopping) (hopen : c'.sessionOpen = c.sessionOpen)
    (hui : c'.uiRunning = c.uiRunning) : Flags c' where
  running := by rw [hstage, hrun, hstop, hopen, hui]; exact h.running
  early := by rw [hstage, hrun, hstop, hopen, hui]; exact h.early

/-- A client that is not running, and is in or past its last stage. -/
theorem of_halt (hrun : c.running = false) (hstage : c.stage = .started ∨ c.stage = .exited) :
    Flags c where
  running h := by rw [hrun] at h; cases h
  early h₁ h₂ := by
    rcases hstage with h | h
    · exact absurd h h₁
    · exact absurd h h₂

end Flags

theorem stop_running (h : c.stopping = false) : c.stop.running = false := by
  simp [stop, h]

/-- The result of `RecvDecrypted` either stops the client or joins its queue. -/
theorem onMessage_cases (hstop : c.stopping = false) (hui : c.uiRunning = true)
    (msgOpt : Option Bytes) :
    ((msgOpt = none ∨ msgOpt = some usernameTaken) ∧ (c.onMessage msgOpt).running = false) ∨
      ∃ msg, msgOpt = some msg ∧ msg ≠ usernameTaken ∧
        c.onMessage msgOpt = { c with msgQueue := c.msgQueue ++ [msg] } := by
  cases msgOpt with
  | none =>
    refine Or.inl ⟨Or.inl rfl, ?_⟩
    rw [onMessage, if_pos (by simp [hstop])]
    exact stop_running hstop
  | some msg =>
    by_cases hmsg : msg = usernameTaken
    · refine Or.inl ⟨Or.inr (by rw [hmsg]), ?_⟩
      rw [onMessage, if_pos hmsg]
      exact stop_running hstop
    · refine Or.inr ⟨msg, rfl, hmsg, ?_⟩
      rw [onMessage, if_neg hmsg, pushMessage, if_neg (by simp [hui])]

/-- STEP: every action keeps the flags in order. -/
theorem Acted.flags {na : Sodium} {utf8 : Bytes → Bool} (hf : Flags c)
    (h : Acted na utf8 c ch c' bs ch') : Flags c' := by
  have hadvance : ∀ d : Client, c.stage ≠ .started → c.stage ≠ .exited → d.running = c.running →
      d.stopping = c.stopping → d.sessionOpen = c.sessionOpen → d.uiRunning = c.uiRunning →
      Flags d := by
    intro d h₁ h₂ hr hs ho hu
    obtain ⟨e₁, e₂, e₃, e₄⟩ := hf.early h₁ h₂
    refine ⟨fun h' => ?_, fun _ _ => ⟨hr.trans e₁, hs.trans e₂, ho.trans e₃, hu.trans e₄⟩⟩
    rw [hr, e₁] at h'
    cases h'
  cases h with
  | keySent hstage => exact hadvance _ (by simp [hstage]) (by simp [hstage]) rfl rfl rfl rfl
  | keyRefused hstage _ =>
    refine .of_halt (hf.early ?_ ?_).1 (Or.inr rfl) <;> rcases hstage with h' | h' <;> simp [h']
  | serverPkRead hstage => exact hadvance _ (by simp [hstage]) (by simp [hstage]) rfl rfl rfl rfl
  | groupKeyRead hstage => exact hadvance _ (by simp [hstage]) (by simp [hstage]) rfl rfl rfl rfl
  | @nameRefused c₁ _ _ hstage hutter =>
    have hrun : c₁.running = c.running := by
      rcases hutter with ⟨rfl, rfl⟩ | ⟨username, hutter⟩
      · rfl
      · cases hutter <;> rfl
    exact .of_halt (hrun.trans (hf.early (by simp [hstage]) (by simp [hstage])).1) (Or.inr rfl)
  | @nameSent c₁ _ _ hstage _ _ hutter =>
    obtain ⟨-, h₂, h₃, h₄⟩ := hf.early (by simp [hstage]) (by simp [hstage])
    have hsame : c₁.stopping = c.stopping ∧ c₁.sessionOpen = c.sessionOpen ∧
        c₁.uiRunning = c.uiRunning := by cases hutter; exact ⟨rfl, rfl, rfl⟩
    exact ⟨fun _ => ⟨rfl, hsame.1.trans h₂, hsame.2.1.trans h₃, hsame.2.2.trans h₄⟩,
      fun h' => absurd rfl h'⟩
  | @messageRead pkt _ hr _ =>
    obtain ⟨h₁, h₂, h₃, h₄⟩ := hf.running hr
    have hd : Flags (c.decrypting na pkt) := hf.congr rfl rfl rfl rfl rfl
    have hcases := onMessage_cases (c := c.decrypting na pkt) h₂ h₄
      (pkt.bind (openPacket na c.groupKey))
    rcases hcases with ⟨-, hrun⟩ | ⟨msg, -, -, heq⟩
    · exact .of_halt hrun (Or.inl ((onMessage_history _ _).stage.trans h₁))
    · rw [heq]
      exact hd.congr rfl rfl rfl rfl rfl
  | idle => exact hf
  | left hr =>
    obtain ⟨h₁, h₂, -, -⟩ := hf.running hr
    exact .of_halt (stop_running h₂) (Or.inl ((stop_history c).stage.trans h₁))
  | lineSent _ _ hutter => cases hutter <;> exact hf.congr rfl rfl rfl rfl rfl
  | printed => exact hf.congr rfl rfl rfl rfl rfl
  | @choked bad rest hr _ _ _ =>
    obtain ⟨h₁, h₂, -, -⟩ := hf.running hr
    exact .of_halt (stop_running (c := { c with msgQueue := rest }) h₂)
      (Or.inl ((stop_history _).stage.trans h₁))

/-- A stopped client has closed its session, and stopping opens none. -/
theorem stop_session (c : Client) :
    (c.stopping = false → c.stop.sessionOpen = false) ∧
      (c.stop.sessionOpen = true → c.sessionOpen = true) := by
  unfold stop
  split
  · rename_i h
    exact ⟨fun h' => absurd h (by simp [h']), id⟩
  · exact ⟨fun _ => rfl, fun h' => by cases h'⟩

/-- STEP: an action reads nothing or one packet, or its session is closed after it. -/
theorem Acted.reading {na : Sodium} {utf8 : Bytes → Bool} (hf : Flags c)
    (h : Acted na utf8 c ch c' bs ch') :
    (ch' = ch ∧ c'.taken = c.taken ∧ (c'.sessionOpen = true → c.sessionOpen = true)) ∨
      (∃ p, CliChat.recvPacket ch = .done (some p) ch' ∧ c'.taken = c.taken ++ [p] ∧
        c.sessionOpen = true) ∨
      (c'.taken = c.taken ∧ c'.sessionOpen = false) := by
  have hsome : ∀ {p : Bytes}, Reads c ch (some p) ch' → c'.taken = c.taken ++ [p] →
      ∃ p, CliChat.recvPacket ch = .done (some p) ch' ∧ c'.taken = c.taken ++ [p] ∧
        c.sessionOpen = true := by
    intro p hreads htaken
    rcases hreads with ⟨hopen, hd⟩ | ⟨-, hpkt, -⟩
    · exact ⟨p, hd, htaken, hopen⟩
    · cases hpkt
  cases h with
  | keySent => exact Or.inl ⟨rfl, rfl, id⟩
  | @keyRefused pkt _ _ _ hreads =>
    cases pkt with
    | none => exact Or.inr (Or.inr ⟨List.append_nil _, rfl⟩)
    | some p => exact Or.inr (Or.inl (hsome hreads rfl))
  | serverPkRead _ hreads => exact Or.inr (Or.inl (hsome hreads rfl))
  | groupKeyRead _ hreads _ => exact Or.inr (Or.inl (hsome hreads rfl))
  | @nameRefused c₁ _ _ _ hutter =>
    refine Or.inl ⟨rfl, ?_, fun h' => by cases h'⟩
    rcases hutter with ⟨rfl, rfl⟩ | ⟨username, hutter⟩
    · rfl
    · cases hutter <;> rfl
  | nameSent _ _ _ hutter =>
    cases hutter
    exact Or.inl ⟨rfl, rfl, id⟩
  | @messageRead pkt _ hr hreads =>
    have hsame := onMessage_history (c.decrypting na pkt) (pkt.bind (openPacket na c.groupKey))
    cases pkt with
    | none =>
      refine Or.inr (Or.inr ⟨hsame.taken.trans (List.append_nil _), ?_⟩)
      exact (stop_session _).1 (by simp [decrypting, Client.reading, (hf.running hr).2.1])
    | some p => exact Or.inr (Or.inl (hsome hreads hsame.taken))
  | idle => exact Or.inl ⟨rfl, rfl, id⟩
  | left => exact Or.inl ⟨rfl, (stop_history c).taken, (stop_session c).2⟩
  | lineSent _ _ hutter => cases hutter <;> exact Or.inl ⟨rfl, rfl, id⟩
  | printed => exact Or.inl ⟨rfl, rfl, id⟩
  | choked => exact Or.inl ⟨rfl, (stop_history _).taken, (stop_session _).2⟩

/-! ### What is shown -/

/-- The strings that wait to be printed are strings that were received. -/
def Shown (c : Client) : Prop := ∀ m ∈ c.msgQueue, ∃ enc, (enc, some m) ∈ c.inbox

theorem Shown.congr (h : Shown c) (hqueue : c'.msgQueue ⊆ c.msgQueue) (hinbox : c'.inbox = c.inbox) :
    Shown c' := fun m hm => hinbox ▸ h m (hqueue hm)

theorem stop_queue (c : Client) : c.stop.msgQueue = c.msgQueue := by
  unfold stop
  split <;> rfl

/-- STEP: every action. -/
theorem Acted.shown {na : Sodium} {utf8 : Bytes → Bool} (hs : Shown c)
    (h : Acted na utf8 c ch c' bs ch') : Shown c' := by
  have hsame : ∀ {d : Client}, d.msgQueue = c.msgQueue → d.inbox = c.inbox → Shown d :=
    fun hq hi => hs.congr (by rw [hq]; exact List.Subset.refl _) hi
  cases h with
  | keySent => exact hsame rfl rfl
  | keyRefused => exact hsame rfl rfl
  | serverPkRead => exact hsame rfl rfl
  | groupKeyRead => exact hsame rfl rfl
  | nameRefused _ hutter =>
    rcases hutter with ⟨rfl, rfl⟩ | ⟨username, hutter⟩
    · exact hsame rfl rfl
    · cases hutter <;> exact hsame rfl rfl
  | nameSent _ _ _ hutter => cases hutter; exact hsame rfl rfl
  | @messageRead pkt _ _ _ =>
    have hread : Shown (c.decrypting na pkt) := fun m hm =>
      (hs m hm).imp fun _ hin => List.mem_append_left _ hin
    have hstop : ∀ d : Client, d.msgQueue = c.msgQueue → d.inbox = (c.decrypting na pkt).inbox →
        Shown d.stop := fun d hq hi => hread.congr
      (by rw [stop_queue, hq]; exact List.Subset.refl _) ((stop_history d).inbox.trans hi)
    cases hpt : pkt.bind (openPacket na c.groupKey) with
    | none =>
      rw [onMessage]
      split <;> exact hstop _ rfl rfl
    | some msg =>
      obtain ⟨enc, rfl, hopen⟩ := Option.bind_eq_some_iff.mp hpt
      rw [onMessage]
      split
      · exact hstop _ rfl rfl
      · unfold pushMessage
        split
        · exact hread
        · intro m hm
          rcases List.mem_append.mp hm with hm | hm
          · exact hread m hm
          · rw [List.mem_singleton.mp hm, ← hopen]
            exact ⟨enc, List.mem_append_right _ (List.mem_singleton_self _)⟩
  | idle => exact hs
  | left => exact hsame (stop_queue c) (stop_history c).inbox
  | lineSent _ _ hutter => cases hutter <;> exact hsame rfl rfl
  | printed _ hqueue => exact hs.congr hqueue rfl
  | @choked bad rest _ _ _ hrest =>
    exact hs.congr (by rw [stop_queue]; exact hrest) (stop_history _).inbox

/-! ### Together -/

/-- What holds of a client in every state it reaches. -/
structure Sane (na : Sodium) (c : Client) : Prop where
  flags : Flags c
  voice : Voice na c
  ear : Ear na c
  shown : Shown c

theorem Sane.start (na : Sodium) : Sane na {} :=
  ⟨.start, .start na, .start na, fun _ hm => by cases hm⟩

/-- STEP: every action keeps the invariant. -/
theorem Sane.act {na : Sodium} {utf8 : Bytes → Bool} (hc : Sane na c)
    (h : Acted na utf8 c ch c' bs ch') : Sane na c' where
  flags := h.flags hc.flags
  voice := h.voice hc.voice fun hr => (hc.flags.running hr).1
  ear := h.ear hc.ear fun hr => (hc.flags.running hr).1
  shown := h.shown hc.shown

end Client

end CliChat
