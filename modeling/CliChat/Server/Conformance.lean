import CliChat.Server.Sockets
import CliChat.Server.Talk

/-! @src server/src/server.cpp | name:HandleClientEvent | scheme:protocol of a connection

    What a connection is sent, from its first packet to its last. Sends to a connection are made by
    its own handler and by the handlers of all the others; `Phase` ties what was sent and received
    so far to the flags of the entry, and every `Talk` keeps it. So the packets to a connection
    always follow the protocol (`Conforms`), whoever else is served in between.

        new ──key──▶ keyed ──name──▶ registered
        []           pk, gk          pk, gk, "<name> has connected", notices and chat …
                       └──────────▶ pk, gk, "SERVER::USERNAME_TAKEN"   (the thread is stuck)  -/

namespace CliChat

open Transition

/-! ### Who receives what in one handler -/

/-- The packet is a sealed connect or disconnect notice. -/
def Notice (na : Sodium) (key : Bytes) (x : Site × Bytes × Bool) : Prop :=
  ∃ name m, (m = connectNotice name ∨ m = disconnectNotice name) ∧ x.1 = .secretbox m ∧
    SealedBox na key m (some x.2.1)

section talk

variable {na : Sodium} {s s' : Server} {fd : Fd} {c : ClientInfo} {pkt : Option Bytes}
  {r : EStateM.Result Fault Server Unit} {sends : Sends}

/-- A broadcast of a notice sends notices. -/
theorem Broadcasts.notices {msg name : Bytes} {T : List Ev} {rs : List (Σ _ : Fd, ClientInfo)}
    (h : Broadcasts na s msg s' T rs) (hmsg : msg = connectNotice name ∨ msg = disconnectNotice name)
    {id : ConnId} {x : Site × Bytes × Bool} (hx : x ∈ packetsTo id T) : Notice na s.groupKey x := by
  obtain ⟨m, hsite, hsealed, rfl | ⟨r, -, rfl⟩⟩ := h.notice hx
  · exact ⟨name, m, hmsg, hsite, hsealed⟩
  · exact ⟨r.2.username, _, Or.inr rfl, hsite, hsealed⟩

/-- OTHERS: only registered clients are sent anything by the handler of another, and only notices
    and the packet that it forwards. -/
theorem Talk.others (hl : s.clients.lookup fd = some c)
    (h : Talk na s fd c pkt r sends) {id : ConnId} (hid : id ≠ c.session.conn) :
    (sends id ≠ [] → ∃ k d, Registered s k d ∧ d.session.conn = id) ∧
      ∀ x ∈ sends id, Notice na s.groupKey x ∨
        c.registered = true ∧ pkt = some x.2.1 ∧ x.1 = .forward c.session.conn := by
  cases h with
  | blocked => exact ⟨fun hne => absurd rfl hne, fun x hx => by cases hx⟩
  | noKey => exact ⟨fun hne => absurd rfl hne, fun x hx => by cases hx⟩
  | rejected => exact ⟨fun hne => absurd rfl hne, fun x hx => by cases hx⟩
  | tooShort => exact ⟨fun hne => absurd rfl hne, fun x hx => by cases hx⟩
  | badKey =>
    rw [Sends.only_ne hid]
    exact ⟨fun hne => absurd rfl hne, fun x hx => by cases hx⟩
  | keyed =>
    rw [Sends.only_ne hid]
    exact ⟨fun hne => absurd rfl hne, fun x hx => by cases hx⟩
  | taken =>
    rw [Sends.only_ne hid]
    exact ⟨fun hne => absurd rfl hne, fun x hx => by cases hx⟩
  | @named p t s' uname T rs hk hreg hname hu ht hclients hkey hb s'' _ =>
    refine ⟨fun hne => ?_, fun x hx => Or.inl (hkey ▸ hb.notices (Or.inl rfl) hx)⟩
    obtain ⟨x, hx⟩ := List.exists_mem_of_ne_nil _ hne
    obtain ⟨⟨k, d, hd, hconn⟩, -⟩ := hb.announces.packets id x hx
    rcases (Store.registered_replace hl hclients).mp hd with ⟨-, rfl, -⟩ | ⟨-, hd⟩
    · exact absurd hconn.symm hid
    · exact ⟨k, d, hd, hconn⟩
  | @left t s' T rs hreg ht hclients hkey hb =>
    refine ⟨fun hne => ?_, fun x hx => Or.inl (hkey ▸ hb.notices (Or.inr rfl) hx)⟩
    obtain ⟨x, hx⟩ := List.exists_mem_of_ne_nil _ hne
    obtain ⟨⟨k, d, hd, hconn⟩, -⟩ := hb.announces.packets id x hx
    have hk : k ≠ fd := by
      rintro rfl
      rw [Registered, hclients, AList.lookup_erase] at hd
      cases hd.1
    rw [Registered, hclients, AList.lookup_erase_ne hk] at hd
    exact ⟨k, d, hd, hconn⟩
  | @forwarded p s' sends hreg hclients hto hnot =>
    refine ⟨fun hne => ?_, fun x hx => Or.inr ?_⟩
    · by_contra hnone
      exact hne (hnot id fun k d hd hconn => hnone ⟨k, d, hd, hconn⟩)
    · by_cases hid' : ∃ k d, Registered s k d ∧ d.session.conn = id
      · obtain ⟨k, d, hd, rfl⟩ := hid'
        obtain ⟨ok, heq⟩ := hto k d hd
        rw [heq, List.mem_singleton] at hx
        subst hx
        exact ⟨hreg, rfl, rfl⟩
      · rw [hnot id fun k d hd hconn => hid' ⟨k, d, hd, hconn⟩] at hx
        cases hx

/-- The other entries that are left have not changed. -/
theorem Talk.kept (h : Talk na s fd c pkt r sends) {k : Fd} {d : ClientInfo} (hk : k ≠ fd)
    (hd : (resultState r).clients.lookup k = some d) : s.clients.lookup k = some d := by
  cases h with
  | blocked hc => rwa [resultState, hc] at hd
  | noKey _ _ hc => rwa [resultState, hc] at hd
  | tooShort _ _ hc => rwa [resultState, hc] at hd
  | taken _ _ _ _ _ hc => rwa [resultState, hc] at hd
  | forwarded _ hc => rwa [resultState, hc] at hd
  | badKey _ _ hc => rwa [resultState, hc, AList.lookup_erase_ne hk, AList.lookup_replace_ne _ _ hk] at hd
  | keyed _ _ _ _ _ hc => rwa [resultState, hc, AList.lookup_replace_ne _ _ hk] at hd
  | rejected _ _ hc => rwa [resultState, hc, AList.lookup_erase_ne hk] at hd
  | named _ _ _ _ _ hc _ hb hc' =>
    rw [resultState, hc'] at hd
    have hl := ((hb.departures.left k d).mp hd).1
    rwa [hc, AList.lookup_replace_ne _ _ hk] at hl
  | left _ _ hc _ hb =>
    have hl := ((hb.departures.left k d).mp hd).1
    rwa [hc, AList.lookup_erase_ne hk] at hl

end talk

/-! ### What a connection says -/

/-- The packets of `id` from its key on: what comes before has another length. -/
def dialogue (id : ConnId) (l : List Ev) : List Bytes :=
  (packetsFrom id l).dropWhile fun p => decide (p.length ≠ boxPublicKeyBytes)

/-- The packets after the key and the name. -/
def chat (id : ConnId) (l : List Ev) : List Bytes := (dialogue id l).drop 2

section dialogue

variable {id : ConnId} {l m : List Ev}

theorem dialogue_length_le (id : ConnId) (l : List Ev) :
    (dialogue id l).length ≤ (packetsFrom id l).length := (List.dropWhile_sublist _).length_le

theorem dialogue_append_ne (h : dialogue id l ≠ []) :
    dialogue id (l ++ m) = dialogue id l ++ packetsFrom id m := by
  have hne : (List.dropWhile (fun p => decide (p.length ≠ boxPublicKeyBytes))
      (packetsFrom id l)).isEmpty = false := by
    simpa [dialogue] using h
  rw [dialogue, packetsFrom_append, List.dropWhile_append, hne]
  rfl

theorem dialogue_append_nil (h : dialogue id l = []) : dialogue id (l ++ m) = dialogue id m := by
  have hnil : (List.dropWhile (fun p => decide (p.length ≠ boxPublicKeyBytes))
      (packetsFrom id l)).isEmpty = true := by
    simpa [dialogue] using h
  rw [dialogue, packetsFrom_append, List.dropWhile_append, hnil]
  rfl

theorem dialogue_append_quiet (h : packetsFrom id m = []) : dialogue id (l ++ m) = dialogue id l := by
  rw [dialogue, packetsFrom_append, h, List.append_nil]
  rfl

theorem dialogue_mono (h : l <+: m) : dialogue id l <+: dialogue id m := by
  obtain ⟨T, rfl⟩ := h
  by_cases hnil : dialogue id l = []
  · rw [hnil]
    exact List.nil_prefix
  · rw [dialogue_append_ne hnil]
    exact List.prefix_append _ _

/-- An element of a prefix stays where it is. -/
theorem getElem?_of_prefix {α : Type} {xs ys : List α} (h : xs <+: ys) {i : ℕ} {a : α}
    (ha : xs[i]? = some a) : ys[i]? = some a := by
  obtain ⟨zs, rfl⟩ := h
  rw [List.getElem?_append_left (List.getElem?_eq_some_iff.mp ha).1]
  exact ha

theorem chat_mono (h : l <+: m) : chat id l <+: chat id m := (dialogue_mono h).drop 2

end dialogue

/-! ### The protocol -/

/-- `gk` is the group key, boxed for the key that `id` sent. -/
def GroupKeyBox (na : Sodium) (s : Server) (id : ConnId) (gk : Bytes) : Prop :=
  ∃ pk nonce cipher : Bytes, (dialogue id s.trace)[0]? = some pk ∧ nonce.length = boxNonceBytes ∧
    na.boxEasy s.groupKey nonce pk s.serverSk = some cipher ∧ gk = nonce ++ cipher

/-- `id` asked for the name `uname`. -/
def AskedName (na : Sodium) (s : Server) (id : ConnId) (uname : Bytes) : Prop :=
  ∃ p, (dialogue id s.trace)[1]? = some p ∧ SealedName na s.groupKey p uname

/-- What a registered client is sent after the notice of its arrival: other notices, and packets of
    registered clients. -/
def ChatItem (na : Sodium) (s : Server) (x : Site × Bytes × Bool) : Prop :=
  Notice na s.groupKey x ∨ ∃ src, x.1 = .forward src ∧ x.2.1 ∈ chat src s.trace

/-- The packets to `id`, as long as its name was not refused. -/
inductive Conforms (na : Sodium) (s : Server) (id : ConnId) :
    List (Site × Bytes × Bool) → Prop where
  | silent : Conforms na s id []
  | greeted {ok} : Conforms na s id [(.serverPk, s.serverPk, ok)]
  | keyed {gk ok ok'} : GroupKeyBox na s id gk →
      Conforms na s id [(.serverPk, s.serverPk, ok), (.groupKey, gk, ok')]
  | joined {gk uname q rest ok ok' ok''} : GroupKeyBox na s id gk → AskedName na s id uname →
      SealedBox na s.groupKey (connectNotice uname) (some q) → (∀ x ∈ rest, ChatItem na s x) →
      Conforms na s id ((.serverPk, s.serverPk, ok) :: (.groupKey, gk, ok') ::
        (.secretbox (connectNotice uname), q, ok'') :: rest)

/-- The packets to `id` when its name was refused. -/
inductive Refused (na : Sodium) (s : Server) (id : ConnId) :
    List (Site × Bytes × Bool) → Prop where
  | intro {gk uname q ok ok' ok''} : GroupKeyBox na s id gk → AskedName na s id uname →
      uname ∈ s.usernames →
      SealedBox na s.groupKey (ascii "SERVER::USERNAME_TAKEN") (some q) →
      Refused na s id [(.serverPk, s.serverPk, ok), (.groupKey, gk, ok'),
        (.secretbox (ascii "SERVER::USERNAME_TAKEN"), q, ok'')]

/-- What the flags of the entry `c` say about its connection. -/
inductive Phase (na : Sodium) (s : Server) (c : ClientInfo) : Prop where
  | new : c.keyExchanged = false → c.registered = false →
      packetsTo c.session.conn s.trace = [] → dialogue c.session.conn s.trace = [] → Phase na s c
  | keyed {gk ok ok'} : c.keyExchanged = true → c.registered = false →
      dialogue c.session.conn s.trace = [c.clientPk] → GroupKeyBox na s c.session.conn gk →
      packetsTo c.session.conn s.trace = [(.serverPk, s.serverPk, ok), (.groupKey, gk, ok')] →
      Phase na s c
  | registered {gk p q said rest ok ok' ok''} : c.keyExchanged = true → c.registered = true →
      dialogue c.session.conn s.trace = c.clientPk :: p :: said →
      SealedName na s.groupKey p c.username → GroupKeyBox na s c.session.conn gk →
      SealedBox na s.groupKey (connectNotice c.username) (some q) →
      packetsTo c.session.conn s.trace = (.serverPk, s.serverPk, ok) :: (.groupKey, gk, ok') ::
        (.secretbox (connectNotice c.username), q, ok'') :: rest →
      (∀ x ∈ rest, ChatItem na s x) → Phase na s c

/-- The keys of the server are the same. -/
structure SameKeys (s s' : Server) : Prop where
  serverPk : s'.serverPk = s.serverPk
  serverSk : s'.serverSk = s.serverSk
  groupKey : s'.groupKey = s.groupKey

theorem SameKeys.trans {a b c : Server} (h : SameKeys a b) (k : SameKeys b c) : SameKeys a c where
  serverPk := k.serverPk.trans h.serverPk
  serverSk := k.serverSk.trans h.serverSk
  groupKey := k.groupKey.trans h.groupKey

theorem SameKeys.of_sendsOnly {s s' : Server} (h : SendsOnly s s') : SameKeys s s' :=
  ⟨h.serverPk, h.serverSk, h.groupKey⟩

theorem SameKeys.of_shrinks {s s' : Server} (h : Shrinks s s') : SameKeys s s' :=
  ⟨h.serverPk, h.serverSk, h.groupKey⟩

section growth

variable {na : Sodium} {s s' : Server} {id : ConnId} {c : ClientInfo}

theorem GroupKeyBox.mono (hst : SameKeys s s') (htr : s.trace <+: s'.trace) {gk : Bytes}
    (h : GroupKeyBox na s id gk) : GroupKeyBox na s' id gk := by
  obtain ⟨pk, nonce, cipher, hpk, hnonce, hbox, rfl⟩ := h
  refine ⟨pk, nonce, cipher, ?_, hnonce, by rw [hst.groupKey, hst.serverSk]; exact hbox, rfl⟩
  exact getElem?_of_prefix (dialogue_mono htr) hpk

theorem AskedName.mono (hst : SameKeys s s') (htr : s.trace <+: s'.trace) {uname : Bytes}
    (h : AskedName na s id uname) : AskedName na s' id uname := by
  obtain ⟨p, hp, hname⟩ := h
  exact ⟨p, getElem?_of_prefix (dialogue_mono htr) hp, hst.groupKey ▸ hname⟩

theorem ChatItem.mono (hst : SameKeys s s') (htr : s.trace <+: s'.trace) {x : Site × Bytes × Bool}
    (h : ChatItem na s x) : ChatItem na s' x := by
  rcases h with h | ⟨src, hsite, hx⟩
  · exact Or.inl (hst.groupKey ▸ h)
  · exact Or.inr ⟨src, hsite, (chat_mono htr).subset hx⟩

theorem Conforms.mono (hst : SameKeys s s') (htr : s.trace <+: s'.trace)
    {xs : List (Site × Bytes × Bool)} (h : Conforms na s id xs) : Conforms na s' id xs := by
  cases h with
  | silent => exact .silent
  | greeted =>
    rw [← hst.serverPk]
    exact .greeted
  | keyed hgk =>
    rw [← hst.serverPk]
    exact .keyed (hgk.mono hst htr)
  | joined hgk hname hq hrest =>
    rw [← hst.serverPk]
    exact .joined (hgk.mono hst htr) (hname.mono hst htr) (hst.groupKey ▸ hq)
      fun x hx => (hrest x hx).mono hst htr

/-- The first two packets are keys, and no later one is the group key. -/
theorem Conforms.sites {xs : List (Site × Bytes × Bool)} (h : Conforms na s id xs) :
    (∀ x ∈ xs.take 2, x.1 = .serverPk ∨ x.1 = .groupKey) ∧ ∀ x ∈ xs.drop 2, x.1 ≠ .groupKey := by
  cases h with
  | silent => simp
  | greeted => simp
  | keyed => simp
  | @joined gk uname q rest ok ok' ok'' _ _ _ hrest =>
    refine ⟨by simp, fun x hx => ?_⟩
    rcases List.mem_cons.mp hx with rfl | hx
    · simp
    · rcases hrest x hx with ⟨name, m, -, hsite, -⟩ | ⟨src, hsite, -⟩ <;> simp [hsite]

theorem Refused.sites {xs : List (Site × Bytes × Bool)} (h : Refused na s id xs) :
    (∀ x ∈ xs.take 2, x.1 = .serverPk ∨ x.1 = .groupKey) ∧ ∀ x ∈ xs.drop 2, x.1 ≠ .groupKey := by
  cases h
  simp

/-- The phase of an entry says that its connection conforms. -/
theorem Phase.conforms (h : Phase na s c) :
    Conforms na s c.session.conn (packetsTo c.session.conn s.trace) := by
  cases h with
  | new _ _ hto => rw [hto]; exact .silent
  | keyed _ _ _ hgk hto => rw [hto]; exact .keyed hgk
  | @registered gk p q said rest ok ok' ok'' _ _ hsaid hname hgk hq hto hrest =>
    rw [hto]
    exact .joined hgk ⟨p, by rw [hsaid]; rfl, hname⟩ hq hrest

/-- A registered client has sent a key and a name. -/
theorem Phase.named (h : Phase na s c) (hreg : c.registered = true) :
    2 ≤ (dialogue c.session.conn s.trace).length := by
  cases h with
  | new _ hr => rw [hreg] at hr; cases hr
  | keyed _ hr => rw [hreg] at hr; cases hr
  | registered _ _ hsaid => rw [hsaid]; simp

/-- A phase goes on, when a registered client is sent chat items and sends chat. -/
theorem Phase.extend (h : Phase na s c) (hst : SameKeys s s') {T : List Ev}
    (htr : s'.trace = s.trace ++ T)
    (hsilent : c.registered = false →
      packetsTo c.session.conn T = [] ∧ packetsFrom c.session.conn T = [])
    (hitems : ∀ x ∈ packetsTo c.session.conn T, ChatItem na s' x) : Phase na s' c := by
  have hpre : s.trace <+: s'.trace := htr ▸ List.prefix_append _ _
  have hto : packetsTo c.session.conn s'.trace =
      packetsTo c.session.conn s.trace ++ packetsTo c.session.conn T := by
    rw [htr, packetsTo_append]
  cases h with
  | new hk hreg hnil hsaid =>
    obtain ⟨h₁, h₂⟩ := hsilent hreg
    exact .new hk hreg (by rw [hto, hnil, h₁]; rfl) (by rw [htr, dialogue_append_quiet h₂, hsaid])
  | keyed hk hreg hsaid hgk hsent =>
    obtain ⟨h₁, h₂⟩ := hsilent hreg
    exact .keyed hk hreg (by rw [htr, dialogue_append_quiet h₂, hsaid]) (hgk.mono hst hpre)
      (by rw [hto, hsent, h₁, hst.serverPk]; rfl)
  | @registered gk p q said rest ok ok' ok'' hk hreg hsaid hname hgk hq hsent hrest =>
    have hsaid' : dialogue c.session.conn s'.trace =
        c.clientPk :: p :: (said ++ packetsFrom c.session.conn T) := by
      rw [htr, dialogue_append_ne (by rw [hsaid]; simp), hsaid]
      rfl
    have hsent' : packetsTo c.session.conn s'.trace = (.serverPk, s'.serverPk, ok) ::
        (.groupKey, gk, ok') :: (.secretbox (connectNotice c.username), q, ok'') ::
          (rest ++ packetsTo c.session.conn T) := by
      rw [hto, hsent, hst.serverPk]
      rfl
    refine .registered hk hreg hsaid' (hst.groupKey ▸ hname) (hgk.mono hst hpre)
      (hst.groupKey ▸ hq) hsent' fun x hx => ?_
    rcases List.mem_append.mp hx with hx | hx
    · exact (hrest x hx).mono hst hpre
    · exact hitems x hx

end growth

/-! ### One handler -/

/-- The keys are the same after a handler, even when it gets stuck. -/
theorem sameKeys_parts (na : Sodium) (env : ReturningEnv) : HandlerParts na env SameKeys where
  trans := SameKeys.trans
  touch := fun _ _ _ => ⟨rfl, rfl, rfl⟩
  received := fun _ _ _ _ _ => ⟨rfl, rfl, rfl⟩
  keyStored := fun {s fd c} _ _ _ pk =>
    SameKeys.trans (b := s.write fd { c with clientPk := pk }) ⟨rfl, rfl, rfl⟩
      (SameKeys.of_sendsOnly (keyStored_sendsOnly env s fd c pk))
  keyed := fun {s fd c} _ _ _ payload =>
    (SameKeys.of_sendsOnly ((SendsOnly.touch s fd 1).trans
      (Server.sendPacket_sendsOnly env c.session .groupKey payload _))).trans
      ⟨rfl, rfl, rfl⟩
  lockedOut := by
    intro s fd c _ _ _
    have hlocked : SameKeys s (s.locked.touch fd 1) := ⟨rfl, rfl, rfl⟩
    have hsend := (sendSecretbox_spec na env c.session (ascii "SERVER::USERNAME_TAKEN")
      (s.locked.touch fd 1)).1
    exact (hlocked.trans (.of_sendsOnly hsend)).trans (.of_sendsOnly (SendsOnly.log _ (.lock false)))
  named := fun _ _ _ _ _ _ => ⟨rfl, rfl, rfl⟩
  used := fun _ _ => ⟨rfl, rfl, rfl⟩
  dropped := fun _ _ => ⟨rfl, rfl, rfl⟩
  broadcasted := fun _ msg => SameKeys.of_shrinks (shrinks_broadcasted na env msg _)
  forwardTo := fun _ src pkt => SameKeys.of_sendsOnly (forwardTo_spec env src pkt _ _).1

/-- Every connection follows the protocol, and is in the phase that its entry says. -/
structure Conversing (na : Sodium) (s : Server) : Prop where
  phases : ∀ fd c, s.clients.lookup fd = some c → Phase na s c
  conforms : ∀ id, Conforms na s id (packetsTo id s.trace)

section step

variable {na : Sodium} {s s' : Server} {fd : Fd} {c : ClientInfo} {pkt : Option Bytes}
  {r : EStateM.Result Fault Server Unit} {sends : Sends} {T : List Ev}

/-- What a registered client sends is chat. -/
theorem Phase.chat (h : Phase na s c) (hreg : c.registered = true) {p : Bytes}
    (htr : s'.trace = s.trace ++ T) (hfrom : packetsFrom c.session.conn T = [p]) :
    p ∈ chat c.session.conn s'.trace := by
  cases h with
  | new _ hr => rw [hreg] at hr; cases hr
  | keyed _ hr => rw [hreg] at hr; cases hr
  | registered _ _ hsaid =>
    rw [CliChat.chat, htr, dialogue_append_ne (by rw [hsaid]; simp), hsaid, hfrom]
    simp

/-- Before its key, a client was sent nothing. -/
theorem Phase.unkeyed (h : Phase na s c) (hk : c.keyExchanged = false) :
    c.registered = false ∧ packetsTo c.session.conn s.trace = [] ∧
      dialogue c.session.conn s.trace = [] := by
  cases h with
  | new _ hreg hnil hsaid => exact ⟨hreg, hnil, hsaid⟩
  | keyed hk' => rw [hk] at hk'; cases hk'
  | registered hk' => rw [hk] at hk'; cases hk'

/-- Between its key and its name, a client was sent the two keys. -/
theorem Phase.unnamed (h : Phase na s c) (hk : c.keyExchanged = true)
    (hreg : c.registered = false) :
    ∃ gk ok ok', dialogue c.session.conn s.trace = [c.clientPk] ∧
      GroupKeyBox na s c.session.conn gk ∧
      packetsTo c.session.conn s.trace = [(.serverPk, s.serverPk, ok), (.groupKey, gk, ok')] := by
  cases h with
  | new hk' => rw [hk] at hk'; cases hk'
  | keyed _ _ hsaid hgk hsent => exact ⟨_, _, _, hsaid, hgk, hsent⟩
  | registered _ hr => rw [hreg] at hr; cases hr

/-- A packet of another length is no key. -/
theorem Phase.noKey (h : Phase na s c) (hk : c.keyExchanged = false)
    (htr : s'.trace = s.trace ++ T) (hlen : ∀ p ∈ pkt, p.length ≠ boxPublicKeyBytes)
    (hfrom : packetsFrom c.session.conn T = pkt.toList) (hto : packetsTo c.session.conn T = []) :
    Phase na s' c := by
  obtain ⟨hreg, hnil, hsaid⟩ := h.unkeyed hk
  refine .new hk hreg (by rw [htr, packetsTo_append, hnil, hto]; rfl) ?_
  rw [htr, dialogue_append_nil hsaid, dialogue, hfrom]
  cases pkt with
  | none => rfl
  | some p => simp [hlen p rfl]

/-- The key of the client is stored, and it is sent the two keys. -/
theorem Phase.keys (h : Phase na s c) (hk : c.keyExchanged = false) (hst : SameKeys s s')
    (htr : s'.trace = s.trace ++ T) {pk nonce cipher : Bytes} {ok ok' : Bool}
    (hlen : pk.length = boxPublicKeyBytes) (hnonce : nonce.length = boxNonceBytes)
    (hbox : na.boxEasy s.groupKey nonce pk s.serverSk = some cipher)
    (hfrom : packetsFrom c.session.conn T = [pk])
    (hto : packetsTo c.session.conn T =
      [(.serverPk, s.serverPk, ok), (.groupKey, nonce ++ cipher, ok')]) :
    Phase na s' { c with clientPk := pk, keyExchanged := true } := by
  obtain ⟨hreg, hnil, hsaid⟩ := h.unkeyed hk
  have hsaid' : dialogue c.session.conn s'.trace = [pk] := by
    rw [htr, dialogue_append_nil hsaid, dialogue, hfrom]
    simp [hlen]
  have hgk : GroupKeyBox na s' c.session.conn (nonce ++ cipher) := by
    refine ⟨pk, nonce, cipher, by rw [hsaid']; rfl, hnonce, ?_, rfl⟩
    rw [hst.groupKey, hst.serverSk]
    exact hbox
  have hsent : packetsTo c.session.conn s'.trace =
      [(.serverPk, s'.serverPk, ok), (.groupKey, nonce ++ cipher, ok')] := by
    rw [htr, packetsTo_append, hnil, hto, hst.serverPk]
    rfl
  exact .keyed rfl hreg hsaid' hgk hsent

/-- The name that a client asks for is the packet after its key. -/
theorem Phase.asks (h : Phase na s c) (hk : c.keyExchanged = true) (hreg : c.registered = false)
    (htr : s'.trace = s.trace ++ T) {p : Bytes} (hfrom : packetsFrom c.session.conn T = [p]) :
    dialogue c.session.conn s'.trace = [c.clientPk, p] := by
  obtain ⟨gk, ok, ok', hsaid, -, -⟩ := h.unnamed hk hreg
  rw [htr, dialogue_append_ne (by rw [hsaid]; simp), hsaid, hfrom]
  rfl

/-- The name is taken. -/
theorem Phase.refused (h : Phase na s c) (hk : c.keyExchanged = true) (hreg : c.registered = false)
    (hst : SameKeys s s') (htr : s'.trace = s.trace ++ T) {p uname q : Bytes} {ok : Bool}
    (hname : SealedName na s.groupKey p uname) (hu : uname ∈ s'.usernames)
    (hq : SealedBox na s.groupKey (ascii "SERVER::USERNAME_TAKEN") (some q))
    (hfrom : packetsFrom c.session.conn T = [p])
    (hto : packetsTo c.session.conn T = [(.secretbox (ascii "SERVER::USERNAME_TAKEN"), q, ok)]) :
    Refused na s' c.session.conn (packetsTo c.session.conn s'.trace) := by
  obtain ⟨gk, ok', ok'', -, hgk, hsent⟩ := h.unnamed hk hreg
  have hasked : AskedName na s' c.session.conn uname :=
    ⟨p, by rw [h.asks hk hreg htr hfrom]; rfl, hst.groupKey ▸ hname⟩
  rw [htr, packetsTo_append, hsent, hto, ← hst.serverPk]
  exact .intro (hgk.mono hst (htr ▸ List.prefix_append _ _)) hasked hu (hst.groupKey ▸ hq)

/-- The name is registered, and the first that the client is sent is the notice of its arrival. -/
theorem Phase.joins (h : Phase na s c) (hk : c.keyExchanged = true) (hreg : c.registered = false)
    (hst : SameKeys s s') (htr : s'.trace = s.trace ++ T) {p uname q : Bytes} {ok : Bool}
    {rest : List (Site × Bytes × Bool)} (hname : SealedName na s.groupKey p uname)
    (hq : SealedBox na s.groupKey (connectNotice uname) (some q))
    (hfrom : packetsFrom c.session.conn T = [p])
    (hto : packetsTo c.session.conn T = (.secretbox (connectNotice uname), q, ok) :: rest)
    (hrest : ∀ x ∈ rest, ChatItem na s' x) :
    Phase na s' { c with username := uname, registered := true } := by
  obtain ⟨gk, ok', ok'', -, hgk, hsent⟩ := h.unnamed hk hreg
  have hsent' : packetsTo c.session.conn s'.trace = (.serverPk, s'.serverPk, ok') ::
      (.groupKey, gk, ok'') :: (.secretbox (connectNotice uname), q, ok) :: rest := by
    rw [htr, packetsTo_append, hsent, hto, hst.serverPk]
    rfl
  exact .registered hk rfl (h.asks hk hreg htr hfrom) (hst.groupKey ▸ hname)
    (hgk.mono hst (htr ▸ List.prefix_append _ _)) (hst.groupKey ▸ hq) hsent' hrest

/-- The client's own connection: a key, a name, or chat. -/
theorem Phase.own (hs : Store s) (hseal : Seals na s.groupKey)
    (hl : s.clients.lookup fd = some c) (h : Phase na s c) (ht : Talk na s fd c pkt r sends)
    (hst : SameKeys s (resultState r)) (htr : (resultState r).trace = s.trace ++ T)
    (hto : packetsTo c.session.conn T = sends c.session.conn)
    (hfrom : packetsFrom c.session.conn T = pkt.toList) :
    (∀ s' d, r = .ok () s' → s'.clients.lookup fd = some d → Phase na s' d) ∧
      (Conforms na (resultState r) c.session.conn
          (packetsTo c.session.conn (resultState r).trace) ∨
        (∃ t, r = .error .deadlock t) ∧ Refused na (resultState r) c.session.conn
          (packetsTo c.session.conn (resultState r).trace)) := by
  have hall : packetsTo c.session.conn (resultState r).trace =
      packetsTo c.session.conn s.trace ++ sends c.session.conn := by
    rw [htr, packetsTo_append, hto]
  -- nothing was sent to the client itself
  have hquiet : sends c.session.conn = [] → Conforms na (resultState r) c.session.conn
      (packetsTo c.session.conn (resultState r).trace) := by
    intro hnil
    rw [hall, hnil, List.append_nil]
    exact h.conforms.mono hst (htr ▸ List.prefix_append _ _)
  cases ht with
  | blocked => exact ⟨fun _ _ hr => (by cases hr), Or.inl (hquiet rfl)⟩
  | tooShort => exact ⟨fun _ _ hr => (by cases hr), Or.inl (hquiet rfl)⟩
  | noKey hk hlen hc =>
    refine ⟨fun _ d hr hd => ?_, Or.inl (hquiet rfl)⟩
    cases hr
    obtain rfl : d = c := Option.some.inj (hd.symm.trans (hc ▸ hl))
    exact h.noKey hk htr hlen hfrom hto
  | badKey hk hlen hc =>
    refine ⟨fun _ d hr hd => ?_, Or.inl ?_⟩
    · cases hr
      rw [hc, AList.lookup_erase] at hd
      cases hd
    · rw [hall, (h.unkeyed hk).2.1, Sends.only_self, ← hst.serverPk]
      exact .greeted
  | @keyed pk s' nonce cipher ok ok' hk hreg hlen hnonce hbox hc =>
    rw [Sends.only_self] at hto
    have hphase : Phase na s' { c with clientPk := pk, keyExchanged := true } :=
      h.keys hk hst htr hlen hnonce hbox hfrom hto
    refine ⟨fun _ d hr hd => ?_, Or.inl hphase.conforms⟩
    cases hr
    rw [hc, AList.lookup_replace_self _ (AList.mem_of_lookup hl)] at hd
    cases hd
    exact hphase
  | rejected hk hreg hc =>
    refine ⟨fun _ d hr hd => ?_, Or.inl (hquiet rfl)⟩
    cases hr
    rw [hc, AList.lookup_erase] at hd
    cases hd
  | @taken p s' uname payload ok hk hreg hname hu hp hc hc' =>
    obtain ⟨q, rfl⟩ := hseal.payload hp
    rw [Sends.only_self] at hto
    exact ⟨fun _ _ hr => (by cases hr), Or.inr ⟨⟨s', rfl⟩,
      h.refused hk hreg hst htr hname (hc' ▸ hu) hp hfrom hto⟩⟩
  | @named p t s' uname T' rs hk hreg hname hu htst hc hkey hb s'' hc' =>
    have hreg' : Registered t fd { c with username := uname, registered := true } := by
      refine ⟨?_, rfl⟩
      rw [hc]
      exact AList.lookup_replace_self _ (AList.mem_of_lookup hl)
    obtain ⟨payload, ok, rest, hp, hfirst⟩ := hb.first fd _ hreg'
    rw [hkey] at hp
    obtain ⟨q, rfl⟩ := hseal.payload hp
    have hrest : ∀ x ∈ rest, ChatItem na s'' x := by
      intro x hx
      have hx' : x ∈ packetsTo c.session.conn T' := by
        rw [hfirst]
        exact List.mem_append_right _ hx
      have hnotice : Notice na t.groupKey x := hb.notices (Or.inl rfl) hx'
      rw [hkey, ← show s''.groupKey = _ from hst.groupKey] at hnotice
      exact Or.inl hnotice
    have hphase : Phase na s'' { c with username := uname, registered := true } :=
      h.joins hk hreg hst htr hname hp hfrom (hto.trans hfirst) hrest
    refine ⟨fun _ d hr hd => ?_, Or.inl hphase.conforms⟩
    cases hr
    rw [hc'] at hd
    have hd' := ((hb.departures.left fd d).mp hd).1
    rw [hc, AList.lookup_replace_self _ (AList.mem_of_lookup hl)] at hd'
    cases hd'
    exact hphase
  | @left t s' T' rs hreg htst hc hkey hb =>
    have hnil : packetsTo c.session.conn T' = [] := by
      refine hb.silent fun k d hd hconn => ?_
      have hk : k ≠ fd := by
        rintro rfl
        rw [Registered, hc, AList.lookup_erase] at hd
        cases hd.1
      rw [Registered, hc, AList.lookup_erase_ne hk] at hd
      exact hk (hs.table.conn_inj hd.1 hl hconn).1
    refine ⟨fun _ d hr hd => ?_, Or.inl (hquiet hnil)⟩
    cases hr
    have hd' := ((hb.departures.left fd d).mp hd).1
    rw [hc, AList.lookup_erase] at hd'
    cases hd'
  | @forwarded p s' sends hreg hc hto' hnot =>
    obtain ⟨ok, hown⟩ := hto' fd c ⟨hl, hreg⟩
    have hphase : Phase na s' c := by
      refine h.extend hst htr (fun hr => by rw [hreg] at hr; cases hr) fun x hx => ?_
      rw [hto, hown, List.mem_singleton] at hx
      subst hx
      exact Or.inr ⟨c.session.conn, rfl, h.chat hreg htr hfrom⟩
    refine ⟨fun _ d hr hd => ?_, Or.inl hphase.conforms⟩
    cases hr
    obtain rfl : d = c := Option.some.inj (hd.symm.trans (hc ▸ hl))
    exact hphase

/-- STEP: a handler keeps every connection in its protocol. -/
theorem Conversing.talk (hs : Store s) (h : Conversing na s) (hseal : Seals na s.groupKey)
    (hl : s.clients.lookup fd = some c) (ht : Talk na s fd c pkt r sends)
    (htold : Told c pkt sends s (resultState r)) (hst : SameKeys s (resultState r)) :
    (∀ s', r = .ok () s' → Conversing na s') ∧
      ∀ id, Conforms na (resultState r) id (packetsTo id (resultState r).trace) ∨
        (∃ t, r = .error .deadlock t) ∧
          Refused na (resultState r) id (packetsTo id (resultState r).trace) := by
  obtain ⟨T, htr, hto, hfrom⟩ := htold
  have hpre : s.trace <+: (resultState r).trace := htr ▸ List.prefix_append _ _
  -- the other entries, also those that a broadcast removes
  have hothers : ∀ k d, k ≠ fd → s.clients.lookup k = some d → Phase na (resultState r) d := by
    intro k d hk hd
    have hne : d.session.conn ≠ c.session.conn :=
      fun hconn => hk (hs.table.conn_inj hd hl hconn).1
    obtain ⟨hreg, hitems⟩ := ht.others hl hne
    refine (h.phases k d hd).extend hst htr (fun hunreg => ⟨?_, ?_⟩) fun x hx => ?_
    · rw [hto]
      by_contra hsent
      obtain ⟨k', d', hd', hconn⟩ := hreg hsent
      obtain ⟨rfl, rfl⟩ := hs.table.conn_inj hd'.1 hd hconn
      rw [hd'.2] at hunreg
      cases hunreg
    · rw [hfrom, if_neg hne]
    · rw [hto] at hx
      rcases hitems x hx with hnotice | ⟨hcreg, hpkt, hsite⟩
      · exact Or.inl (hst.groupKey ▸ hnotice)
      · have hread : packetsFrom c.session.conn T = [x.2.1] := by
          rw [hfrom, if_pos rfl, hpkt]
          rfl
        exact Or.inr ⟨c.session.conn, hsite, (h.phases fd c hl).chat hcreg htr hread⟩
  have hown := (h.phases fd c hl).own hs hseal hl ht hst htr (hto _) (by rw [hfrom, if_pos rfl])
  have hconforms : ∀ id, id ≠ c.session.conn →
      Conforms na (resultState r) id (packetsTo id (resultState r).trace) := by
    intro id hid
    by_cases hentry : ∃ k d, s.clients.lookup k = some d ∧ d.session.conn = id
    · obtain ⟨k, d, hd, rfl⟩ := hentry
      refine (hothers k d ?_ hd).conforms
      rintro rfl
      exact hid (by rw [Option.some.inj (hd.symm.trans hl)])
    · have hnil : sends id = [] := by
        by_contra hsent
        obtain ⟨k, d, hd, hconn⟩ := (ht.others hl hid).1 hsent
        exact hentry ⟨k, d, hd.1, hconn⟩
      rw [htr, packetsTo_append, hto, hnil, List.append_nil]
      exact (h.conforms id).mono hst hpre
  constructor
  · rintro s' rfl
    refine ⟨fun k d hd => ?_, fun id => ?_⟩
    · by_cases hk : k = fd
      · subst hk
        exact hown.1 s' d rfl hd
      · exact hothers k d hk (ht.kept hk hd)
    · by_cases hid : id = c.session.conn
      · rcases hown.2 with hc | ⟨⟨_, hr⟩, -⟩
        · exact hid ▸ hc
        · cases hr
      · exact hconforms id hid
  · intro id
    by_cases hid : id = c.session.conn
    · exact hid ▸ hown.2
    · exact Or.inl (hconforms id hid)

end step

/-! ### Runs -/

section runs

variable {na : Sodium} (env : ReturningEnv) {s s' : Server}

/-- Events that send nothing and receive nothing. -/
theorem Conversing.quiet (h : Conversing na s) {T : List Ev} (htr : s'.trace = s.trace ++ T)
    (hT : ∀ e ∈ T, e.mute = true) (hst : SameKeys s s')
    (hentries : ∀ k d, s'.clients.lookup k = some d → s.clients.lookup k = some d ∨
      Phase na s' d) : Conversing na s' := by
  have hnil := fun id => mute_projections hT id
  refine ⟨fun k d hd => ?_, fun id => ?_⟩
  · rcases hentries k d hd with hd | hphase
    · refine (h.phases k d hd).extend hst htr (fun _ => hnil _) fun x hx => ?_
      rw [(hnil _).1] at hx
      cases hx
    · exact hphase
  · rw [htr, packetsTo_append, (hnil id).1, List.append_nil]
    exact (h.conforms id).mono hst (htr ▸ List.prefix_append _ _)

theorem mute_of_closes {T : List Ev} (h : ∀ e ∈ T, e.closes = true) : ∀ e ∈ T, e.mute = true := by
  intro e he
  have hc := h e he
  cases e <;> first | rfl | cases hc

/-- `Stop` keeps the keys, and at most empties the map. -/
theorem stop_keeps (s : Server) :
    SameKeys s (stop s) ∧ ((stop s).clients = s.clients ∨ (stop s).clients = ∅) := by
  unfold stop
  split
  · exact ⟨⟨rfl, rfl, rfl⟩, Or.inl rfl⟩
  · refine ⟨⟨?_, ?_, ?_⟩, Or.inr rfl⟩ <;> simp only <;> split <;> split <;> rfl

/-- A connection that is accepted has no history. -/
theorem Conversing.handleNewConnection (hs : Store s) (hw : Wired s) (h : Conversing na s)
    (accepts : List AcceptResult) : Conversing na (handleNewConnection accepts s) := by
  have hloop : Store (CliChat.handleNewConnection accepts s) ∧
      Wired (CliChat.handleNewConnection accepts s) ∧
      Conversing na (CliChat.handleNewConnection accepts s) := by
    refine Server.handleNewConnection_invariant
      (I := fun t => Store t ∧ Wired t ∧ Conversing na t) ?_ ?_ accepts s ⟨hs, hw, h⟩
    · rintro t fd r ci co ⟨ht, hwt, hct⟩ hfree
      refine ⟨(ht.admitted hfree r ci co).1, hwt.admitted fd r ci co, ?_⟩
      refine hct.quiet (T := []) (List.append_nil _).symm (by simp) ⟨rfl, rfl, rfl⟩
        fun k d hd => ?_
      rw [ht.lookup_admitted hfree] at hd
      by_cases hk : k = fd
      · rw [if_pos hk] at hd
        cases hd
        obtain ⟨hto, hfrom, -⟩ := hwt.fresh _ le_rfl
        refine Or.inr (.new rfl rfl hto ?_)
        have hnil : packetsFrom t.kernel.accepted (t.admitted fd r ci co).trace = [] := hfrom
        rw [dialogue, hnil]
        rfl
      · rw [if_neg hk] at hd
        exact Or.inl hd
    · rintro t fd ci co ⟨ht, hwt, hct⟩ hfree
      exact ⟨(ht.refused hfree ci co).1, hwt.refused fd ci co, hct.quiet (T := [.close fd]) rfl
        (by simp [Ev.mute]) ⟨rfl, rfl, rfl⟩ fun k d hd => Or.inl hd⟩
  exact hloop.2.2

/-- What a client event tells, from before the call of its handler. -/
theorem client_talk (hs : Store s) {fd : Fd} (hen : (Event.client fd).enabled s = true) :
    ∃ c pkt sends, s.clients.lookup fd = some c ∧
      (Hears s c pkt ∨ ∃ t, handle na env (.client fd) s = .error .blocked t) ∧
      Talk na (s.log (.dispatch c.session.conn)) fd c pkt (handle na env (.client fd) s) sends ∧
      Told c pkt sends (s.log (.dispatch c.session.conn)) (stateAfter na env (.client fd) s) ∧
      SameKeys (s.log (.dispatch c.session.conn)) (stateAfter na env (.client fd) s) := by
  obtain ⟨c, hl, hout⟩ := client_outcome na env hs hen
  have hs' : Store (s.log (.dispatch c.session.conn)) := hs.sendsOnly (SendsOnly.log s _)
  obtain ⟨pkt, sends, hheard, ht, htold⟩ := hout.talk na env hs' hl
  rw [stateAfter_eq]
  exact ⟨c, pkt, sends, hl, hheard, ht, htold, hout.relation (sameKeys_parts na env) hs' hl⟩

/-- The streams and the log agree after a client event. -/
theorem Wired.client_event (hs : Store s) (h : Wired s) {fd : Fd}
    (hen : (Event.client fd).enabled s = true) :
    Wired (stateAfter na env (.client fd) s) := by
  refine h.client na env hs hen (client_shuts na env hs hen).accepted fun id hid => ?_
  obtain ⟨c, pkt, sends, hl, -, ht, ⟨T, htr, hto, hfrom⟩, -⟩ := client_talk env hs hen
  have hlog : eventLog na env (.client fd) s = .dispatch c.session.conn :: T :=
    eventLog_eq na env (htr.trans (List.append_assoc ..))
  have hfresh : ∀ k d, s.clients.lookup k = some d → d.session.conn ≠ id := by
    intro k d hd hconn
    have hlt := hs.table.fresh k _ (hs.table.entry k d hd).2.2.2
    rw [hconn] at hlt
    exact absurd hlt (not_lt.mpr hid)
  have hne : id ≠ c.session.conn := fun h' => hfresh fd c hl h'.symm
  have hl' : (s.log (.dispatch c.session.conn)).clients.lookup fd = some c := hl
  rw [hlog]
  refine ⟨(hto id).trans ?_, (hfrom id).trans (if_neg hne)⟩
  by_contra hsent
  obtain ⟨k, d, hd, hconn⟩ := (ht.others hl' hne).1 hsent
  exact hfresh k d hd.1 hconn

/-- The streams and the log agree after every event. -/
theorem Wired.event (hs : Store s) (h : Wired s) {e : Event} (hen : e.enabled s = true) :
    Wired (stateAfter na env e s) := by
  cases e with
  | listener accepts => exact h.handleNewConnection accepts
  | net act => exact h.net act
  | waitFails => exact h.stop
  | client fd => exact h.client_event env hs hen

/-- No event changes the keys. -/
theorem event_sameKeys (hs : Store s) {e : Event} (hen : e.enabled s = true) :
    SameKeys s (stateAfter na env e s) := by
  cases e with
  | listener accepts =>
    have hst := handleNewConnection_steady accepts s
    exact ⟨hst.serverPk, hst.serverSk, hst.groupKey⟩
  | net act => exact ⟨rfl, rfl, rfl⟩
  | waitFails => exact (stop_keeps s).1
  | client fd =>
    obtain ⟨c, pkt, sends, -, -, -, -, hst⟩ := @client_talk na env _ hs _ hen
    exact ⟨hst.serverPk, hst.serverSk, hst.groupKey⟩

/-- STEP: every event keeps every connection in its protocol, up to the refusal of a name, after
    which the thread is stuck. -/
theorem Conversing.event (hs : Store s) (hw : Wired s) (h : Conversing na s)
    (hseal : Seals na s.groupKey) {e : Event} (hen : e.enabled s = true) :
    (∀ s', handle na env e s = .ok () s' → Conversing na s') ∧
      ∀ id, Conforms na (stateAfter na env e s) id (packetsTo id (stateAfter na env e s).trace) ∨
        (∃ t, handle na env e s = .error .deadlock t) ∧ Refused na (stateAfter na env e s) id
          (packetsTo id (stateAfter na env e s).trace) := by
  -- events that are no client's return
  have hother : ∀ t, handle na env e s = .ok () t → Conversing na t →
      (∀ s', handle na env e s = .ok () s' → Conversing na s') ∧
      ∀ id, Conforms na (stateAfter na env e s) id (packetsTo id (stateAfter na env e s).trace) ∨
        (∃ t, handle na env e s = .error .deadlock t) ∧ Refused na (stateAfter na env e s) id
          (packetsTo id (stateAfter na env e s).trace) := by
    intro t ht hct
    refine ⟨fun s' hs' => ?_, fun id => Or.inl ?_⟩
    · cases ht.symm.trans hs'
      exact hct
    · rw [stateAfter_eq, ht]
      exact hct.conforms id
  cases e with
  | listener accepts => exact hother _ rfl (h.handleNewConnection hs hw accepts)
  | net act =>
    exact hother _ rfl (h.quiet (T := []) (List.append_nil _).symm (by simp)
      ⟨rfl, rfl, rfl⟩ fun k d hd => Or.inl hd)
  | waitFails =>
    obtain ⟨T, hT, hclose⟩ := stop_adds s
    obtain ⟨hkeys, hclients⟩ := stop_keeps s
    refine hother _ rfl (h.quiet hT (mute_of_closes hclose) hkeys fun k d hd => ?_)
    rcases hclients with hsame | hnone
    · exact Or.inl (hsame ▸ hd)
    · rw [hnone] at hd
      cases hd
  | client fd =>
    obtain ⟨c, pkt, sends, hl, -, ht, htold, hst⟩ := client_talk env hs hen
    have hs' : Store (s.log (.dispatch c.session.conn)) := hs.sendsOnly (SendsOnly.log s _)
    have hlog : Conversing na (s.log (.dispatch c.session.conn)) :=
      h.quiet (T := [.dispatch c.session.conn]) rfl (by simp [Ev.mute]) ⟨rfl, rfl, rfl⟩
        fun k d hd => Or.inl hd
    rw [stateAfter_eq] at htold hst ⊢
    exact hlog.talk hs' hseal hl ht htold hst

theorem Initial.wired (h : Initial s) : Wired s := by
  obtain ⟨listenfd, epollfd, pk, sk, gk, -, -, -, -, rfl⟩ := h
  exact ⟨fun id => .nil, fun id _ => ⟨rfl, rfl, rfl⟩⟩

theorem Initial.conversing (h : Initial s) : Conversing na s := by
  obtain ⟨listenfd, epollfd, pk, sk, gk, -, -, -, -, rfl⟩ := h
  refine ⟨fun k d hd => ?_, fun id => .silent⟩
  cases hd

/-- INVARIANT: in every reachable state the streams agree with the log, and every connection is in
    its protocol. -/
theorem Reach.conversing (h : Reach na env s) :
    Store s ∧ Wired s ∧ (Seals na s.groupKey → Conversing na s) := by
  refine Reachable.invariant (I := fun s => Store s ∧ Wired s ∧ (Seals na s.groupKey →
    Conversing na s)) (fun s hs => ⟨hs.store, hs.wired, fun _ => hs.conversing⟩) ?_ h
  rintro e s s' ⟨hs, hw, hconv⟩ hstep
  obtain ⟨hen, hr⟩ := (step_some na env).mp hstep
  have hafter : stateAfter na env e s = s' := by
    rw [stateAfter_eq, hr]
    rfl
  have hkeys : SameKeys s (stateAfter na env e s) := event_sameKeys env hs hen
  have hwired : Wired (stateAfter na env e s) := hw.event env hs hen
  rw [hafter] at hkeys hwired
  refine ⟨(hs.step na env hstep).1, hwired, fun hseal => ?_⟩
  have hseal' : Seals na s.groupKey := hkeys.groupKey ▸ hseal
  exact ((hconv hseal').event env hs hw hseal' hen).1 s' hr

/-- INVARIANT RULE: what holds initially, and what every event keeps while the connections follow
    the protocol, holds in every reachable state. -/
theorem Reach.seals_invariant {P : Server → Prop} (hinit : ∀ s, Initial s → P s)
    (hstep : ∀ s e, Store s → Wired s → Conversing na s → P s → e.enabled s = true →
      P (stateAfter na env e s)) (h : Reach na env s) (hseal : Seals na s.groupKey) : P s := by
  have hinv : Reach na env s ∧ (Seals na s.groupKey → P s) := by
    refine Reachable.invariant (I := fun s => Reach na env s ∧ (Seals na s.groupKey → P s))
      (fun s hs => ⟨.start hs, fun _ => hinit s hs⟩) ?_ h
    rintro e s s' ⟨hreach, hP⟩ ht
    refine ⟨hreach.next ht, fun hseal' => ?_⟩
    obtain ⟨hs, hw, hconv⟩ := hreach.conversing env
    have hen := ((step_some na env).mp ht).1
    have hafter : stateAfter na env e s = s' := step_stateAfter na env ht
    have hkeys : SameKeys s (stateAfter na env e s) := event_sameKeys env hs hen
    rw [hafter] at hkeys
    have hseal'' : Seals na s.groupKey := hkeys.groupKey ▸ hseal'
    exact hafter ▸ hstep s e hs hw (hconv hseal'') (hP hseal'') hen
  exact hinv.2 hseal

variable (env : Env)

/-- PROTOCOL: in every reachable state, and wherever one more handler ends or gets stuck, what
    was sent to a connection is a prefix of the server's key, the group key boxed for the key that
    this client sent, and the notice of its own arrival, then notices and chat; or, if the name
    that it asked for was in use, the refusal and nothing more. Nothing else precedes the notice
    of its arrival, and the group key is sent once. A handler that stops in a `send` has sent a
    first part of that. -/
theorem protocol_conformance (h : Reach na env s) (hseal : Seals na s.groupKey) :
    (∀ id, Conforms na s id (packetsTo id s.trace)) ∧
    (∀ e, e.enabled s = true → SendsReturn na env e s → ∀ id,
      Conforms na (stateAfter na env e s) id (packetsTo id (stateAfter na env e s).trace) ∨
      (∃ t, handle na env e s = .error .deadlock t) ∧ Refused na (stateAfter na env e s) id
        (packetsTo id (stateAfter na env e s).trace)) ∧
    (∀ e, e.enabled s = true → ∀ id,
      (∀ x ∈ (packetsTo id (stateAfter na env e s).trace).take 2,
        x.1 = .serverPk ∨ x.1 = .groupKey) ∧
      (∀ x ∈ (packetsTo id (stateAfter na env e s).trace).drop 2, x.1 ≠ .groupKey)) := by
  obtain ⟨hs, hw, hconv⟩ := h.returning.conversing env.returning
  have hevent := fun e => (hconv hseal).event env.returning hs hw hseal (e := e)
  refine ⟨(hconv hseal).conforms, fun e hen hret => ?_, fun e hen id => ?_⟩
  · rw [hret.stateAfter, hret.handle]
    exact (hevent e hen).2
  · have hpre : packetsTo id (stateAfter na env e s).trace <+:
        packetsTo id (stateAfter na env.returning e s).trace :=
      (stateAfter_begins na env e s).filterMap _
    obtain ⟨hfirst, hlater⟩ : (∀ x ∈ (packetsTo id (stateAfter na env.returning e s).trace).take 2,
        x.1 = .serverPk ∨ x.1 = .groupKey) ∧
        ∀ x ∈ (packetsTo id (stateAfter na env.returning e s).trace).drop 2, x.1 ≠ .groupKey := by
      rcases (hevent e hen).2 id with hc | ⟨-, hr⟩
      · exact hc.sites
      · exact hr.sites
    exact ⟨fun x hx => hfirst x ((hpre.take 2).subset hx),
      fun x hx => hlater x ((hpre.drop 2).subset hx)⟩

end runs

/-- Two clients have joined: the first was sent two keys and two notices, and they conform. -/
theorem protocol_conformance_two : ∃ s,
    sampleRun [] (joins 0 5 (ascii "al") ++ joins 1 6 (ascii "bo")) = some s ∧
    (packetsTo 0 s.trace).map (fun x => x.1) = [.serverPk, .groupKey,
      .secretbox (connectNotice (ascii "al")), .secretbox (connectNotice (ascii "bo"))] ∧
    Conforms Sodium.plain s 0 (packetsTo 0 s.trace) := by
  have hrun : (sampleRun [] (joins 0 5 (ascii "al") ++ joins 1 6 (ascii "bo"))).map
      (fun s => (packetsTo 0 s.trace).map (fun x => x.1)) = some [.serverPk, .groupKey,
        .secretbox (connectNotice (ascii "al")), .secretbox (connectNotice (ascii "bo"))] := by
    decide +kernel
  obtain ⟨s, hs, hsites⟩ := Option.map_eq_some_iff.mp hrun
  exact ⟨s, hs, hsites,
    (protocol_conformance (Env.failing []) (sampleRun_reach hs) fun _ _ => rfl).1 0⟩

end CliChat
