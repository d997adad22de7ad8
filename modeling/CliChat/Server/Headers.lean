import CliChat.Server.Handshake

/-! @src common/src/network_session.cpp | name:SendPacket, SendSecretbox | scheme:bounds

    The length header of the frames that the server sends. It has 32 bits, and nothing looks at the
    size before it is written. What the server forwards it has received, and what it has received
    fits. What it builds from a name is longer than the packet that the name came in.

        name packet    24 + 16 + name
        its arrival    24 + 16 + name + " has connected"       14 more
        its departure  24 + 16 + name + " has disconnected"    17 more                         -/

namespace CliChat

open Framing Transition

/-! ### One frame -/

/-- The header of the frame of `p` is its length, and whoever reads the frame gets `p`. -/
structure HeaderExact (p : Bytes) : Prop where
  short : p.length < 2 ^ 32
  header : beDecode ((wire p).take 4) = p.length
  decodes : ∀ (rest : Bytes) (ending : Ending) (cuts : List ℕ), ∃ cuts',
    recvPacket ⟨wire p ++ rest, ending, cuts⟩ = .done (some p) ⟨rest, ending, cuts'⟩

theorem headerExact_iff {p : Bytes} : HeaderExact p ↔ p.length < 2 ^ 32 := by
  refine ⟨HeaderExact.short, fun h => ⟨h, ?_, fun rest ending cuts => ?_⟩⟩
  · rw [wire_eq_frame h, frame, List.take_left' (beEncode_length 4 _), beDecode_beEncode,
      Nat.mod_eq_of_lt (by simpa using h)]
  · rw [wire_eq_frame h]
    exact recvPacket_frame rest h ending cuts

/-! ### Frames and departures in the log -/

/-- Every frame of the log has an exact header. -/
def HeadersExact (l : List Ev) : Prop :=
  ∀ conn site p ok, .send conn site p ok ∈ l → HeaderExact p

/-- The event takes a registered client out of `m_clients`. -/
def Ev.leaver : Ev → Option ClientInfo
  | .erase _ client => if client.registered then some client else none
  | _ => none

/-- The registered clients that left, in order. -/
def leavers (l : List Ev) : List ClientInfo := l.filterMap Ev.leaver

/-- The event is no frame with a wrong header, and takes no registered client out. -/
def Ev.plain : Ev → Bool
  | .send _ _ payload _ => payload.length < 2 ^ 32
  | .erase _ client => !client.registered
  | _ => true

section log

variable {l m : List Ev}

theorem headersExact_append : HeadersExact (l ++ m) ↔ HeadersExact l ∧ HeadersExact m := by
  constructor
  · exact fun h => ⟨fun conn site p ok hp => h conn site p ok (List.mem_append_left _ hp),
      fun conn site p ok hp => h conn site p ok (List.mem_append_right _ hp)⟩
  · rintro ⟨hl, hm⟩ conn site p ok hp
    rcases List.mem_append.mp hp with hp | hp
    · exact hl conn site p ok hp
    · exact hm conn site p ok hp

@[simp] theorem leavers_append : leavers (l ++ m) = leavers l ++ leavers m :=
  List.filterMap_append

theorem headersExact_of_plain (h : ∀ e ∈ l, e.plain = true) : HeadersExact l :=
  fun _ _ _ _ hp => headerExact_iff.mpr (of_decide_eq_true (h _ hp))

theorem leavers_of_plain (h : ∀ e ∈ l, e.plain = true) : leavers l = [] := by
  refine List.filterMap_eq_nil_iff.mpr fun e he => ?_
  have hp := h e he
  cases e with
  | erase fd client =>
    have hreg : client.registered = false := by simpa [Ev.plain] using hp
    rw [Ev.leaver, if_neg (by rw [hreg]; exact Bool.false_ne_true)]
  | _ => rfl

end log

/-! ### Notices -/

/-- The packet of a sealed notice fits the header. -/
def NoticeFits (msg : Bytes) : Prop := secretboxNonceBytes + secretboxMacBytes + msg.length < 2 ^ 32

theorem noticeFits_connect {name : Bytes} :
    NoticeFits (connectNotice name) ↔ name.length < 2 ^ 32 - 54 := by
  have htext : (ascii " has connected").length = 14 := by decide +kernel
  rw [NoticeFits, connectNotice, List.length_append, htext]
  unfold secretboxNonceBytes secretboxMacBytes
  omega

theorem noticeFits_disconnect {name : Bytes} :
    NoticeFits (disconnectNotice name) ↔ name.length < 2 ^ 32 - 57 := by
  have htext : (ascii " has disconnected").length = 17 := by decide +kernel
  rw [NoticeFits, disconnectNotice, List.length_append, htext]
  unfold secretboxNonceBytes secretboxMacBytes
  omega

/-- Some client is registered. -/
def Attended (s : Server) : Prop := ∃ fd c, Registered s fd c

/-- Of the clients `cs`, who left in this order and left `s'` behind, those who left while another
    client was registered have names that fit the notice. -/
structure LeaveShort (s' : Server) (cs : List ClientInfo) : Prop where
  followed : ∀ c ∈ cs.dropLast, c.username.length < 2 ^ 32 - 57
  attended : Attended s' → ∀ c ∈ cs, c.username.length < 2 ^ 32 - 57

section leaving

variable {s s' t : Server} {c : ClientInfo} {cs : List ClientInfo}

theorem LeaveShort.nil (s' : Server) : LeaveShort s' [] :=
  ⟨fun _ h => (by cases h), fun _ _ h => (by cases h)⟩

theorem leaveShort_congr (h : Attended s' ↔ Attended s) : LeaveShort s' cs ↔ LeaveShort s cs :=
  ⟨fun k => ⟨k.followed, fun ha => k.attended (h.mpr ha)⟩,
    fun k => ⟨k.followed, fun ha => k.attended (h.mp ha)⟩⟩

/-- One more leaves, who was registered when the others had left. -/
theorem leaveShort_concat (ht : Attended t) : LeaveShort s' (cs ++ [c]) ↔
    LeaveShort t cs ∧ (Attended s' → c.username.length < 2 ^ 32 - 57) := by
  constructor
  · rintro ⟨hfollowed, hattended⟩
    rw [List.dropLast_concat] at hfollowed
    exact ⟨⟨fun d hd => hfollowed d (List.dropLast_subset _ hd), fun _ => hfollowed⟩,
      fun h => hattended h c (by simp)⟩
  · rintro ⟨⟨-, hattended⟩, hc⟩
    have hshort := hattended ht
    refine ⟨by rwa [List.dropLast_concat], fun h d hd => ?_⟩
    rcases List.mem_append.mp hd with hd | hd
    · exact hshort d hd
    · rw [List.mem_singleton.mp hd]
      exact hc h

/-- One leaves first, and the others after it. -/
theorem leaveShort_cons (ht : Attended t ↔ cs ≠ [] ∨ Attended s') : LeaveShort s' (c :: cs) ↔
    (Attended t → c.username.length < 2 ^ 32 - 57) ∧ LeaveShort s' cs := by
  constructor
  · rintro ⟨hfollowed, hattended⟩
    refine ⟨fun h => ?_, fun d hd => hfollowed d ?_, fun h d hd =>
      hattended h d (List.mem_cons_of_mem _ hd)⟩
    · rcases ht.mp h with hne | h'
      · exact hfollowed c (by rw [List.dropLast_cons_of_ne_nil hne]; exact List.mem_cons_self)
      · exact hattended h' c List.mem_cons_self
    · rw [List.dropLast_cons_of_ne_nil (List.ne_nil_of_mem (List.dropLast_subset _ hd))]
      exact List.mem_cons_of_mem _ hd
  · rintro ⟨hc, hfollowed, hattended⟩
    refine ⟨fun d hd => ?_, fun h d hd => ?_⟩
    · rcases eq_or_ne cs [] with rfl | hne
      · cases hd
      · rw [List.dropLast_cons_of_ne_nil hne] at hd
        rcases List.mem_cons.mp hd with rfl | hd
        · exact hc (ht.mpr (Or.inl hne))
        · exact hfollowed d hd
    · rcases List.mem_cons.mp hd with rfl | hd
      · exact hc (ht.mpr (Or.inr h))
      · exact hattended h d hd

end leaving

/-! ### One broadcast -/

section broadcasts

variable (na : Sodium) (env : ReturningEnv) {s s' : Server} {fd : Fd} {c : ClientInfo}

theorem attended_congr (h : s'.clients = s.clients) : Attended s' ↔ Attended s := by
  unfold Attended Registered
  rw [h]

/-- A pass has exact headers unless it sends a notice that is too long. -/
theorem pass_headers {na : Sodium} {key msg : Bytes} (hkey : na.SecretboxInverts key)
    (hseal : Seals na key) {removeList : List Fd} {boxes : List Box}
    (h : PassOf na key msg s.clients.entries removeList boxes) :
    HeadersExact (.broadcast msg :: boxes.flatMap (Box.events msg)) ↔
      (Attended s → NoticeFits msg) := by
  constructor
  · rintro hexact ⟨fd, c, hc⟩
    obtain ⟨b, hb, -⟩ := (mem_boxes h).mpr hc
    obtain ⟨q, hq⟩ := hseal.payload (h.sealed b hb)
    have hsent : Ev.send b.client.session.conn (.secretbox msg) q b.ok ∈ Box.events msg b := by
      simp [Box.events, boxEvents, hq]
    have hfits := hexact _ _ _ _ (List.mem_cons_of_mem _ (List.mem_flatMap.mpr ⟨b, hb, hsent⟩))
    rw [NoticeFits, ← (hq ▸ h.sealed b hb : SealedBox na key msg (some q)).length hkey]
    exact hfits.short
  · intro hfits conn site p ok hp
    rcases List.mem_cons.mp hp with heq | hp
    · cases heq
    obtain ⟨b, hb, hp⟩ := List.mem_flatMap.mp hp
    have hpayload : b.payload = some p := by
      cases hq : b.payload with
      | none => simp [Box.events, boxEvents, hq] at hp
      | some q =>
        simp only [Box.events, boxEvents, hq, Option.map_some, Option.toList_some,
          List.singleton_append, List.mem_cons, Ev.send.injEq, reduceCtorEq, List.not_mem_nil,
          or_false] at hp
        rw [hp.2.2.1]
    have hsealed := h.sealed b hb
    rw [hpayload] at hsealed
    rw [headerExact_iff, hsealed.length hkey]
    exact hfits ⟨b.fd, b.client, (mem_boxes h).mp ⟨b, hb, rfl⟩⟩

theorem leavers_pass (msg : Bytes) (boxes : List Box) :
    leavers (.broadcast msg :: boxes.flatMap (Box.events msg)) = [] := by
  refine List.filterMap_eq_nil_iff.mpr fun e he => ?_
  rcases List.mem_cons.mp he with rfl | he
  · rfl
  · obtain ⟨b, -, he⟩ := List.mem_flatMap.mp he
    have hstays := departs_boxEvents _ _ _ _ e he
    cases e <;> first | rfl | cases hstays

theorem dropLog_headers (fd : Fd) (c : ClientInfo) : HeadersExact (dropLog fd c) := by
  intro conn site p ok hp
  unfold dropLog at hp
  split at hp <;> simp at hp

theorem leavers_dropLog (fd : Fd) (c : ClientInfo) :
    leavers (dropLog fd c) = if c.registered then [c] else [] := by
  cases hreg : c.registered <;>
    simp [leavers, dropLog, Ev.leaver, hreg, List.filterMap_cons]

/-- What the log `T` from `s` to `t` says of a broadcast of `msg`. -/
structure Headed (s : Server) (msg : Bytes) (t : Server) (T : List Ev) : Prop where
  trace : t.trace = s.trace ++ T
  groupKey : t.groupKey = s.groupKey
  attended : Attended s ↔ leavers T ≠ [] ∨ Attended t
  exact_iff : HeadersExact T ↔ (Attended s → NoticeFits msg) ∧ LeaveShort t (leavers T)

/-- A broadcast has exact headers if and only if its message fits, when there is anybody to get it,
    and so do the names of those who leave while others stay. -/
theorem broadcasted_headers (hkey : na.SecretboxInverts s.groupKey) (hseal : Seals na s.groupKey)
    (msg : Bytes) : ∃ T, Headed s msg (s.broadcasted na env msg) T := by
  refine broadcasted_invariant na env (I := fun _ t => ∃ T, Headed s msg t T) ?_ ?_ ?_ ?_
  · obtain ⟨hsend, boxes, hpass, htr⟩ := cascade_send na env msg s
    refine ⟨_, htr, hsend.groupKey, ?_, ?_⟩
    · rw [leavers_pass, attended_congr hsend.clients]
      simp
    · rw [pass_headers hkey hseal hpass, leavers_pass]
      exact (and_iff_left (.nil _)).symm
  · exact fun _ _ _ h _ => h
  · rintro fd rest t c ⟨T, h⟩ hl hreg
    -- nobody who is registered has left
    have hsame : Attended (t.dropped fd c) ↔ Attended t := by
      constructor
      · rintro ⟨k, d, hd⟩
        exact ⟨k, d, (Store.registered_dropped.mp hd).2⟩
      · rintro ⟨k, d, hd⟩
        refine ⟨k, d, Store.registered_dropped.mpr ⟨?_, hd⟩⟩
        rintro rfl
        obtain rfl := Option.some.inj (hl.symm.trans hd.1)
        exact Bool.false_ne_true (hreg.symm.trans hd.2)
    have hleavers : leavers (T ++ dropLog fd c) = leavers T := by
      rw [leavers_append, leavers_dropLog, if_neg (by rw [hreg]; exact Bool.false_ne_true),
        List.append_nil]
    refine ⟨T ++ dropLog fd c, ?_, h.groupKey, ?_, ?_⟩
    · rw [dropped_log, h.trace, List.append_assoc]
    · rw [hleavers, hsame]
      exact h.attended
    · rw [headersExact_append, hleavers, leaveShort_congr hsame, h.exact_iff]
      exact and_iff_left (dropLog_headers fd c)
  · rintro fd rest t c ⟨T, h⟩ hl hreg
    obtain ⟨hsend, boxes, hpass, htr⟩ :=
      cascade_send na env (disconnectNotice c.username) (t.dropped fd c)
    have ht : Attended t := ⟨fd, c, hl, hreg⟩
    have hgroup : (t.dropped fd c).groupKey = s.groupKey := h.groupKey
    rw [hgroup] at hpass
    have hleavers : leavers (T ++ dropLog fd c ++ .broadcast (disconnectNotice c.username) ::
        boxes.flatMap (Box.events (disconnectNotice c.username))) = leavers T ++ [c] := by
      rw [leavers_append, leavers_append, leavers_pass, leavers_dropLog, if_pos hreg,
        List.append_nil]
    refine ⟨T ++ dropLog fd c ++ .broadcast (disconnectNotice c.username) ::
        boxes.flatMap (Box.events (disconnectNotice c.username)), ?_, ?_, ?_, ?_⟩
    · rw [htr, dropped_log, h.trace, List.append_assoc, List.append_assoc, List.append_assoc]
    · exact hsend.groupKey.trans hgroup
    · rw [hleavers]
      exact iff_of_true (h.attended.mpr (Or.inr ht)) (Or.inl (by simp))
    · rw [headersExact_append, headersExact_append, hleavers, leaveShort_concat ht, h.exact_iff,
        pass_headers hkey hseal hpass, noticeFits_disconnect, attended_congr hsend.clients,
        and_iff_left (dropLog_headers fd c), and_assoc]

end broadcasts

/-! ### One handler -/

/-- The keys have the sizes of the arrays that hold them. -/
structure SizedKeys (s : Server) : Prop where
  serverPk : s.serverPk.length = boxPublicKeyBytes
  groupKey : s.groupKey.length = secretboxKeyBytes

section plain

variable (na : Sodium) (env : ReturningEnv) {s : Server} {fd : Fd} {c : ClientInfo}

theorem touch_plain (s : Server) (fd : Fd) (n : ℕ) : Adds Ev.plain s (s.touch fd n) :=
  .touch rfl s n

theorem received_plain (s : Server) (fd : Fd) (c : ClientInfo) (pkt : Option Bytes) (ch : Chan) :
    Adds Ev.plain s (s.received fd c pkt ch) := .received rfl rfl s ch

theorem dropped_plain (s : Server) (fd : Fd) (hreg : c.registered = false) :
    Adds Ev.plain s (s.dropped fd c) := by
  refine ⟨dropLog fd c, dropped_log s fd c, ?_⟩
  simp [dropLog, Ev.plain, hreg]

theorem keyStored_plain (hkeys : SizedKeys s) (pk : Bytes) :
    Adds Ev.plain s (s.keyStored env fd c pk) := by
  obtain ⟨ok, htr⟩ := keyStored_trace env s fd c pk
  refine ⟨_, htr, ?_⟩
  simp [Ev.plain, hkeys.serverPk, boxPublicKeyBytes]

theorem keyed_plain (s : Server) {payload : Bytes} (hlen : payload.length < 2 ^ 32) :
    Adds Ev.plain s (s.keyed env fd c payload) := by
  obtain ⟨ok, htr⟩ := keyed_trace env s fd c payload
  refine ⟨_, htr, ?_⟩
  simp only [List.mem_cons, List.not_mem_nil, or_false, forall_eq_or_imp, forall_eq]
  exact ⟨rfl, decide_eq_true hlen, rfl⟩

theorem sendSecretbox_plain (sess : NetworkSession) (hkey : na.SecretboxInverts s.groupKey)
    {msg : Bytes} (hmsg : NoticeFits msg) : Adds Ev.plain s (s.sendSecretbox na env sess msg).2 := by
  obtain ⟨-, payload, hsealed, -, htr⟩ := sendSecretbox_spec na env sess msg s
  refine ⟨_, htr, fun e he => ?_⟩
  cases payload with
  | none =>
    rw [boxEvents, Option.map_none, Option.toList_none, List.nil_append, List.mem_singleton] at he
    rw [he]
    rfl
  | some q =>
    rw [boxEvents, Option.map_some, Option.toList_some, List.singleton_append, List.mem_cons,
      List.mem_singleton] at he
    rcases he with rfl | rfl
    · exact decide_eq_true (by rw [hsealed.length hkey]; exact hmsg)
    · rfl

theorem lockedOut_plain (s : Server) (fd : Fd) (c : ClientInfo)
    (hkey : na.SecretboxInverts s.groupKey) : Adds Ev.plain s (s.lockedOut na env fd c) := by
  have hlocked : Adds Ev.plain s s.locked := ⟨[.lock true], rfl, by simp [Ev.plain]⟩
  have hmsg : NoticeFits (ascii "SERVER::USERNAME_TAKEN") := by
    have htext : (ascii "SERVER::USERNAME_TAKEN").length = 22 := by decide +kernel
    rw [NoticeFits, htext]
    decide
  have hkey' : na.SecretboxInverts (s.locked.touch fd 1).groupKey := hkey
  exact ((hlocked.trans (touch_plain _ fd 1)).trans
    (sendSecretbox_plain na env c.session hkey' hmsg)).trans (Adds.log (by rfl) _)

theorem named_plain (s : Server) (fd : Fd) (c : ClientInfo) (uname : Bytes) :
    Adds Ev.plain s (s.named fd c uname) := .named rfl rfl rfl s c uname

theorem forwardTo_plain (s : Server) (src : ConnId) {pkt : Bytes} (hlen : pkt.length < 2 ^ 32)
    (l : List (Σ _ : Fd, ClientInfo)) : Adds Ev.plain s (s.forwardTo env src pkt l) := by
  obtain ⟨-, sent, -, htr⟩ := forwardTo_spec env src pkt l s
  refine ⟨_, htr, fun e he => ?_⟩
  obtain ⟨x, -, rfl⟩ := List.mem_map.mp he
  exact decide_eq_true hlen

end plain

section handlers

variable (na : Sodium) (env : ReturningEnv) {s s' : Server} {fd : Fd} {c : ClientInfo}
  {r : EStateM.Result Fault Server Unit}

/-- Whoever registers has a name that fits the notice of its arrival. -/
def JoinShort (s : Server) (c : ClientInfo) : Prop :=
  ∀ uname, AsksFor na s c uname → uname ∉ s.usernames → uname.length < 2 ^ 32 - 54

/-- What the log from `s` to `s'` says of the frames of a handler. -/
def Framed (c : ClientInfo) (s s' : Server) : Prop :=
  ∃ T, s'.trace = s.trace ++ T ∧
    (HeadersExact T ↔ JoinShort na s c ∧ LeaveShort s' (leavers T))

variable {na}

theorem Framed.of_plain (hadds : Adds Ev.plain s s')
    (hjoin : ∀ uname, AsksFor na s c uname → uname ∈ s.usernames) : Framed na c s s' := by
  obtain ⟨T, hT, hplain⟩ := hadds
  refine ⟨T, hT, iff_of_true (headersExact_of_plain hplain) ⟨fun uname hasks hu => ?_, ?_⟩⟩
  · exact absurd (hjoin uname hasks) hu
  · rw [leavers_of_plain hplain]
    exact .nil s'

variable {env}

/-- The arrival of a client with a free name is broadcast. -/
theorem Framed.joined (hkey : na.SecretboxInverts s.groupKey) (hseal : Seals na s.groupKey)
    (hl : s.clients.lookup fd = some c) {p uname : Bytes} {ch : Chan}
    (hp : NamePacket na s c p ch uname) (hu : uname ∉ s.usernames) :
    Framed na c s (((((s.received fd c (some p) ch).touch fd 1).named fd c uname).broadcasted na env
      (connectNotice uname)).used fd) := by
  set t := ((s.received fd c (some p) ch).touch fd 1).named fd c uname with ht
  obtain ⟨T₀, hT₀, hplain⟩ : Adds Ev.plain s t :=
    ((received_plain s fd c (some p) ch).trans (touch_plain _ fd 1)).trans
      (named_plain _ fd c uname)
  obtain ⟨T, hT⟩ := broadcasted_headers na env (s := t) hkey hseal (connectNotice uname)
  have hattended : Attended t := by
    refine ⟨fd, { c with username := uname, registered := true }, ?_, rfl⟩
    exact AList.lookup_replace_self _ (AList.mem_of_lookup hl)
  obtain ⟨T₁, hT₁, hlast⟩ : Adds Ev.plain (t.broadcasted na env (connectNotice uname))
      ((t.broadcasted na env (connectNotice uname)).used fd) := ⟨_, rfl, by simp [Ev.plain]⟩
  have hjoin : JoinShort na s c ↔ uname.length < 2 ^ 32 - 54 := by
    constructor
    · exact fun h => h uname ⟨p, ch, hp⟩ hu
    · rintro h uname' hasks -
      rwa [hasks.unique ⟨p, ch, hp⟩]
  refine ⟨T₀ ++ T ++ T₁, ?_, ?_⟩
  · rw [hT₁, hT.trace, hT₀, List.append_assoc, List.append_assoc, List.append_assoc]
  · rw [headersExact_append, headersExact_append, leavers_append, leavers_append,
      leavers_of_plain hplain, leavers_of_plain hlast, List.nil_append, List.append_nil,
      hT.exact_iff, hjoin, ← noticeFits_connect,
      and_iff_left (headersExact_of_plain hlast), and_iff_right (headersExact_of_plain hplain),
      forall_prop_of_true hattended]
    refine and_congr_right fun _ => (leaveShort_congr (attended_congr ?_)).symm
    rfl

/-- The departure of a registered client is broadcast. -/
theorem Framed.left (hkey : na.SecretboxInverts s.groupKey) (hseal : Seals na s.groupKey)
    (hreg : c.registered = true) {t : Server} (hadds : Adds Ev.plain s t)
    (hgk : t.groupKey = s.groupKey) (hno : ∀ uname, ¬AsksFor na s c uname) :
    Framed na c s ((t.dropped fd c).broadcasted na env (disconnectNotice c.username)) := by
  obtain ⟨T₀, hT₀, hplain⟩ := hadds
  obtain ⟨T, hT⟩ := broadcasted_headers na env (s := t.dropped fd c) (hgk ▸ hkey) (hgk ▸ hseal)
    (disconnectNotice c.username)
  have hjoin : JoinShort na s c := fun uname hasks => absurd hasks (hno uname)
  refine ⟨T₀ ++ dropLog fd c ++ T, ?_, ?_⟩
  · rw [hT.trace, dropped_log, hT₀, List.append_assoc, List.append_assoc, List.append_assoc]
  · rw [headersExact_append, headersExact_append, leavers_append, leavers_append,
      leavers_of_plain hplain, leavers_dropLog, if_pos hreg, List.nil_append,
      List.singleton_append, leaveShort_cons hT.attended, hT.exact_iff,
      noticeFits_disconnect, and_iff_right hjoin,
      and_iff_right ⟨headersExact_of_plain hplain, dropLog_headers fd c⟩]

/-- What one `HandleClientEvent` sends. -/
theorem Outcome.framed (hbox : na.BoxSizes) (hkey : na.SecretboxInverts s.groupKey)
    (hseal : Seals na s.groupKey) (hkeys : SizedKeys s) (hs : Store s)
    (hl : s.clients.lookup fd = some c) (hout : Outcome na env s fd c r) :
    Framed na c s (resultState r) := by
  have hread : ∀ pkt ch n, Adds Ev.plain s ((s.received fd c pkt ch).touch fd n) :=
    fun pkt ch n => (received_plain s fd c pkt ch).trans (touch_plain _ fd n)
  rcases hout.exceptions na env hs hl with
    ⟨p, ch, uname, hp, hu, hr⟩ | ⟨p, ch, uname, hp, hu, hr⟩ | ⟨hno, -, -⟩
  · -- the name is taken
    rw [hr]
    refine .of_plain ((hread (some p) ch 1).trans
      (lockedOut_plain na env _ fd c hkey)) fun uname' hasks => ?_
    rwa [hasks.unique ⟨p, ch, hp⟩]
  · -- the name is free
    rw [hr]
    exact .joined hkey hseal hl hp hu
  · have hnever : ∀ uname, AsksFor na s c uname → uname ∈ s.usernames :=
      fun uname hasks => absurd hasks (hno uname)
    cases hout with
    | blocked => exact .of_plain (touch_plain s fd 3) hnever
    | @noKey pkt ch => exact .of_plain (received_plain s fd c pkt ch) hnever
    | @badKey pk ch nonce hk hd =>
      have hreg : ({ c with clientPk := pk } : ClientInfo).registered = false :=
        (hs.unregistered hl hk :)
      have hkeys' : SizedKeys (s.received fd c (some pk) ch) := ⟨hkeys.serverPk, hkeys.groupKey⟩
      rw [resultState, Server.disconnected, if_neg (by rw [hreg]; exact Bool.false_ne_true)]
      exact .of_plain (((received_plain s fd c (some pk) ch).trans
        (keyStored_plain env hkeys' pk)).trans (dropped_plain _ fd hreg)) hnever
    | @keyed pk ch nonce cipher hk hd hlen hnonce hcipher =>
      have hkeys' : SizedKeys (s.received fd c (some pk) ch) := ⟨hkeys.serverPk, hkeys.groupKey⟩
      have hfits : (nonce ++ cipher).length < 2 ^ 32 := by
        rw [List.length_append, hnonce, hbox _ _ _ _ _ hcipher, hkeys.groupKey]
        decide
      exact .of_plain (((received_plain s fd c (some pk) ch).trans
        (keyStored_plain env hkeys' pk)).trans (keyed_plain env _ hfits)) hnever
    | @rejected pkt ch n hk hd hrej =>
      by_cases hreg : c.registered = true
      · rw [resultState, Server.disconnected, if_pos hreg]
        exact .left hkey hseal hreg (hread pkt ch n) rfl hno
      · have hreg' : c.registered = false := by simpa using hreg
        rw [resultState, Server.disconnected, if_neg hreg]
        exact .of_plain ((hread pkt ch n).trans (dropped_plain _ fd hreg')) hnever
    | @tooShort p ch => exact .of_plain (hread (some p) ch 1) hnever
    | @taken p ch uname hk hreg hd hname => exact absurd ⟨p, ch, hk, hreg, hd, hname⟩ (hno uname)
    | @named p ch uname hk hreg hd hname => exact absurd ⟨p, ch, hk, hreg, hd, hname⟩ (hno uname)
    | @forwarded p ch hk hreg hd =>
      exact .of_plain ((hread (some p) ch 1).trans
        (forwardTo_plain env _ _ (recvPacket_length hd) _)) hnever

end handlers

/-! ### Events and runs -/

section runs

variable (na : Sodium) (env : Env) {s s₀ : Server}

/-- The names in an event fit: whoever registers is shorter than 2^32 - 54 bytes, and whoever leaves
    while another client is registered is shorter than 2^32 - 57. -/
structure NamesFit (e : Event) (s : Server) : Prop where
  joins : ∀ fd c, e = .client fd → s.clients.lookup fd = some c → JoinShort na s c
  leaves : LeaveShort (stateAfter na env e s) (leavers (eventLog na env e s))

variable {na env} in
theorem SendsReturn.namesFit {e : Event} (h : SendsReturn na env e s) :
    NamesFit na env e s ↔ NamesFit na env.returning e s :=
  ⟨fun k => ⟨k.joins, h.stateAfter ▸ h.eventLog ▸ k.leaves⟩,
    fun k => ⟨k.joins, h.stateAfter.symm ▸ h.eventLog.symm ▸ k.leaves⟩⟩

variable (env : ReturningEnv)

/-- STEP: the frames of an event have exact headers if and only if the names in it fit. -/
theorem event_headers (hbox : na.BoxSizes) (hkey : na.SecretboxInverts s.groupKey)
    (hseal : Seals na s.groupKey) (hkeys : SizedKeys s) (hs : Store s) {e : Event}
    (hen : e.enabled s = true) :
    (stateAfter na env e s).trace = s.trace ++ eventLog na env e s ∧
      (HeadersExact (eventLog na env e s) ↔ NamesFit na env e s) := by
  by_cases hclient : ∃ fd, e = .client fd
  · obtain ⟨fd, rfl⟩ := hclient
    obtain ⟨c, hl, hout⟩ := client_outcome na env hs hen
    have hs' : Store (s.log (.dispatch c.session.conn)) := hs.sendsOnly (SendsOnly.log s _)
    obtain ⟨T, hT, hiff⟩ := Outcome.framed (s := s.log (.dispatch c.session.conn)) hbox hkey hseal
      ⟨hkeys.serverPk, hkeys.groupKey⟩ hs' hl hout
    rw [← stateAfter_eq] at hT hiff
    have htrace : (stateAfter na env (.client fd) s).trace =
        s.trace ++ ([.dispatch c.session.conn] ++ T) := by
      rw [hT, Server.log_trace, List.append_assoc]
    have hplain : ∀ e ∈ [Ev.dispatch c.session.conn], e.plain = true := by simp [Ev.plain]
    have hjoin : JoinShort na (s.log (.dispatch c.session.conn)) c ↔ JoinShort na s c := by
      unfold JoinShort AsksFor
      simp only [namePacket_log]
      exact Iff.rfl
    rw [eventLog_eq na env htrace]
    refine ⟨htrace, ?_⟩
    rw [headersExact_append, and_iff_right (headersExact_of_plain hplain), hiff, hjoin]
    constructor
    · rintro ⟨hshort, hleave⟩
      refine ⟨fun k d he hd => ?_, ?_⟩
      · cases he
        obtain rfl := Option.some.inj (hl.symm.trans hd)
        exact hshort
      · rw [eventLog_eq na env htrace, leavers_append, leavers_of_plain hplain]
        exact hleave
    · rintro ⟨hjoins, hleaves⟩
      rw [eventLog_eq na env htrace, leavers_append, leavers_of_plain hplain] at hleaves
      exact ⟨hjoins fd c rfl hl, hleaves⟩
  · obtain ⟨⟨T, hT, hcloses⟩, -⟩ := other_adds na env hs fun fd he => hclient ⟨fd, he⟩
    have hplain : ∀ e ∈ T, e.plain = true := fun e he => by
      have hclose := hcloses e he
      cases e <;> first | rfl | cases hclose
    rw [eventLog_eq na env hT]
    refine ⟨hT, iff_of_true (headersExact_of_plain hplain)
      ⟨fun fd _ he => absurd ⟨fd, he⟩ hclient, ?_⟩⟩
    rw [eventLog_eq na env hT, leavers_of_plain hplain]
    exact .nil _

variable {na} {env : Env}

/-- EXACT: for every run, and one more event whose sends return, whether its handler does or not,
    all frames that the server has sent have exact headers if and only if the names in all its steps
    fit. A handler that stops in a `send` has sent a first part of its frames. -/
theorem headers_exact_iff (hbox : na.BoxSizes) (h₀ : Initial s₀)
    (hsize : s₀.groupKey.length = secretboxKeyBytes) (hkey : na.SecretboxInverts s₀.groupKey)
    (hseal : Seals na s₀.groupKey) {es : List Event} (hrun : run (step na env) es s₀ = some s)
    {e : Event} (hen : e.enabled s = true) :
    (SendsReturn na env e s → (HeadersExact (stateAfter na env e s).trace ↔
      Along (step na env) (NamesFit na env) es s₀ ∧ NamesFit na env e s)) ∧
    (Along (step na env) (NamesFit na env) es s₀ → NamesFit na env.returning e s →
      HeadersExact (stateAfter na env e s).trace) := by
  -- the keys stay the same
  let I : Server → Prop := fun s => Store s ∧ SizedKeys s ∧ s.groupKey = s₀.groupKey
  have hevent : ∀ e s, I s → e.enabled s = true →
      (stateAfter na env.returning e s).trace = s.trace ++ eventLog na env.returning e s ∧
      (HeadersExact (eventLog na env.returning e s) ↔ NamesFit na env.returning e s) := by
    rintro e s ⟨hs, hkeys, hgroup⟩ hen
    exact event_headers na env.returning hbox (hgroup ▸ hkey) (hgroup ▸ hseal) hkeys hs hen
  have hstep : ∀ e s s', I s → step na env e s = some s' →
      I s' ∧ (HeadersExact s'.trace ↔ HeadersExact s.trace ∧ NamesFit na env e s) := by
    rintro e s s' hI ht
    obtain ⟨hs, hkeys, hgroup⟩ := hI
    obtain ⟨hret, ht'⟩ := step_returning ht
    have hen := ((step_some na env).mp ht).1
    have hsame := @event_sameKeys na env.returning _ hs _ hen
    obtain ⟨htrace, hiff⟩ := hevent e s ⟨hs, hkeys, hgroup⟩ hen
    rw [step_stateAfter na env.returning ht'] at hsame htrace
    refine ⟨⟨(hs.step na env ht).1, ⟨hsame.serverPk ▸ hkeys.serverPk,
      hsame.groupKey ▸ hkeys.groupKey⟩, hsame.groupKey.trans hgroup⟩, ?_⟩
    rw [htrace, headersExact_append, hiff, hret.namesFit]
  have hI : I s₀ := by
    refine ⟨h₀.store, ⟨?_, hsize⟩, rfl⟩
    obtain ⟨listenfd, epollfd, pk, sk, gk, -, -, -, hpk, rfl⟩ := h₀
    exact hpk
  have hempty : HeadersExact s₀.trace := by
    obtain ⟨listenfd, epollfd, pk, sk, gk, -, -, -, -, rfl⟩ := h₀
    intro conn site p ok hp
    cases hp
  have hlast := run_invariant (step na env) (I := I) (fun e s s' hs ht => (hstep e s s' hs ht).1) hI
    hrun
  obtain ⟨htrace, hiff⟩ := hevent e s hlast hen
  have hpast : HeadersExact s.trace ↔ Along (step na env) (NamesFit na env) es s₀ := by
    rw [along_iff (step na env) (F := fun s => HeadersExact s.trace) hstep hI hrun,
      and_iff_right hempty]
  have hexact : HeadersExact (stateAfter na env.returning e s).trace ↔
      Along (step na env) (NamesFit na env) es s₀ ∧ NamesFit na env.returning e s := by
    rw [htrace, headersExact_append, hiff, hpast]
  refine ⟨fun hret => ?_, fun halong hfit conn site p ok hp => ?_⟩
  · rw [hret.stateAfter, hret.namesFit, hexact]
  · exact hexact.mpr ⟨halong, hfit⟩ conn site p ok ((stateAfter_begins na env e s).subset hp)

end runs

/-- The packet of an event, read as a name. -/
def Event.nameRead (na : Sodium) (s : Server) : Event → Option Bytes
  | .client fd => (s.clients.lookup fd).bind fun c => s.nameRead na c.session.conn
  | _ => none

/-- The names in an event are short: a test that is enough. -/
def shortNames (na : Sodium) (env : Env) (e : Event) (s : Server) : Bool :=
  ((e.nameRead na s).toList ++ (leavers (eventLog na env e s)).map ClientInfo.username).all
    fun name => name.length < 2 ^ 32 - 57

theorem namesFit_of_short {na : Sodium} {env : Env} {e : Event} {s : Server}
    (h : shortNames na env e s = true) : NamesFit na env e s := by
  rw [shortNames, List.all_eq_true] at h
  have hleavers : ∀ c ∈ leavers (eventLog na env e s), c.username.length < 2 ^ 32 - 57 :=
    fun c hc => of_decide_eq_true (h _ (List.mem_append_right _ (List.mem_map_of_mem hc)))
  refine ⟨fun fd c he hl uname hasks _ => ?_, fun c hc => hleavers c (List.dropLast_subset _ hc),
    fun _ => hleavers⟩
  have hread : e.nameRead na s = some uname := by
    rw [he, Event.nameRead, hl]
    exact hasks.nameRead
  have hshort := of_decide_eq_true (h uname (List.mem_append_left _ (by simp [hread])))
  omega

/-- Two clients join, and one leaves: the names fit, and all headers are exact. -/
theorem headers_exact_leaving : ∃ s,
    sampleRun [] (joins 0 5 (ascii "al") ++ joins 1 6 (ascii "bo") ++ [.net (.ends 0 .eof)]) =
      some s ∧
    Along (step Sodium.plain (Env.failing [])) (NamesFit Sodium.plain (Env.failing []))
      (joins 0 5 (ascii "al") ++ joins 1 6 (ascii "bo") ++ [.net (.ends 0 .eof)]) sampleServer ∧
    NamesFit Sodium.plain (Env.failing []) (.client 5) s ∧
    HeadersExact (stateAfter Sodium.plain (Env.failing []) (.client 5) s).trace := by
  have halong : Along (step Sodium.plain (Env.failing []))
      (fun e s => shortNames Sodium.plain (Env.failing []) e s = true)
      (joins 0 5 (ascii "al") ++ joins 1 6 (ascii "bo") ++ [.net (.ends 0 .eof)]) sampleServer := by
    decide +kernel
  have hrun : (sampleRun [] (joins 0 5 (ascii "al") ++ joins 1 6 (ascii "bo") ++
      [.net (.ends 0 .eof)])).map (fun s => ((Event.client 5).enabled s,
        shortNames Sodium.plain (Env.failing []) (.client 5) s)) = some (true, true) := by
    decide +kernel
  obtain ⟨s, hs, heq⟩ := Option.map_eq_some_iff.mp hrun
  obtain ⟨hen, hshort⟩ := Prod.mk.inj heq
  have hfits := halong.imp (step Sodium.plain (Env.failing [])) fun _ _ => namesFit_of_short
  exact ⟨s, hs, hfits, namesFit_of_short hshort, ((headers_exact_iff Sodium.plain_boxSizes
    sampleServer_initial (by decide) (Sodium.plain_secretboxInverts _) (fun _ _ => rfl) hs hen).1
    .of_failing).mpr ⟨hfits, namesFit_of_short hshort⟩⟩

/-- A name whose packet fits, and whose notice does not. -/
theorem arrival_wraps {na : Sodium} {env : ReturningEnv} (hbox : na.BoxSizes) {s : Server}
    (hkey : na.SecretboxInverts s.groupKey) (hseal : Seals na s.groupKey) (hkeys : SizedKeys s)
    (hs : Store s) {fd : Fd} (hen : (Event.client fd).enabled s = true) {c : ClientInfo}
    (hl : s.clients.lookup fd = some c) {uname : Bytes} (hasks : AsksFor na s c uname)
    (hu : uname ∉ s.usernames) (hlong : 2 ^ 32 - 54 ≤ uname.length) :
    ¬HeadersExact (stateAfter na env (.client fd) s).trace := by
  intro hexact
  obtain ⟨htrace, hiff⟩ := event_headers na env hbox hkey hseal hkeys hs hen
  rw [htrace, headersExact_append] at hexact
  exact absurd ((hiff.mp hexact.2).joins fd c rfl hl uname hasks hu) (not_lt.mpr hlong)

/-- The first client of the concrete run, when it has exchanged its keys. -/
def sampleKeyed : ClientInfo where
  session := ⟨5, 0⟩
  clientPk := List.replicate boxPublicKeyBytes 5
  fd := 5
  keyExchanged := true

/-- A first client has exchanged its keys, and a packet with a name has arrived. -/
theorem sampleRun_asks (name : Bytes) (hfits : name.length < 2 ^ 32 - 40) : ∃ s,
    sampleRun [] (connects 0 5 ++ [.net (.arrive 0 (wire (sampleSealed name)))]) = some s ∧
      (Event.client 5).enabled s = true ∧ s.groupKey = sampleServer.groupKey ∧ SizedKeys s ∧
      s.clients.lookup 5 = some sampleKeyed ∧ s.usernames = ∅ ∧
      AsksFor Sodium.plain s sampleKeyed name := by
  have hrun : (sampleRun [] (connects 0 5)).any (fun s : Server => decide
      ((s.running = true ∧ s.listenfd ≠ 5) ∧ (s.serverPk = sampleServer.serverPk ∧
        s.groupKey = sampleServer.groupKey) ∧ s.clients.lookup 5 = some sampleKeyed ∧
        s.usernames = ∅ ∧ (s.kernel.conns 0).toServer = ⟨[], .alive, []⟩)) = true := by
    decide +kernel
  obtain ⟨s, hs, heq⟩ := (Option.any_eq_true _ _).mp hrun
  obtain ⟨⟨hrunning, hlisten⟩, ⟨hpk, hgk⟩, hl, hnames, hch⟩ := of_decide_eq_true heq
  have hsealed : SealedBox Sodium.plain s.groupKey name (some (sampleSealed name)) :=
    ⟨List.replicate secretboxNonceBytes 0, List.length_replicate, by rw [hgk]; rfl⟩
  have hinverts := Sodium.plain_secretboxInverts s.groupKey
  have hlen : (sampleSealed name).length < 2 ^ 32 := by
    rw [hsealed.length hinverts]
    unfold secretboxNonceBytes secretboxMacBytes
    omega
  obtain ⟨cuts, hrecv⟩ := recvPacket_frame [] hlen .alive []
  have hstream : ((s.kernel.net (.arrive 0 (wire (sampleSealed name)))).conns 0).toServer =
      ⟨frame 4 (sampleSealed name) ++ [], .alive, []⟩ := by
    rw [Kernel.net, hch, if_pos rfl, Kernel.consumed_conns, Function.update_self,
      wire_eq_frame hlen, List.append_nil, List.nil_append]
  refine ⟨{ s with kernel := s.kernel.net (.arrive 0 (wire (sampleSealed name))) },
    (run_append_some _).mpr ⟨s, hs, rfl⟩, ?_, hgk, ⟨?_, ?_⟩, hl, hnames, sampleSealed name,
    ⟨[], .alive, cuts⟩, rfl, rfl, ?_, ?_⟩
  · exact enabled_client.mpr ⟨hrunning, ⟨_, hl⟩, hlisten.symm⟩
  · rw [hpk]
    rfl
  · rw [hgk]
    rfl
  · rw [← hrecv, ← hstream]
    rfl
  · exact hsealed.sealedName hinverts (by unfold vectorMaxSize; omega)

/-- A name of 2^32 - 54 bytes: the notice of its arrival is announced as a frame of no bytes. -/
theorem long_name_wraps : ¬∀ s, Reach Sodium.plain (Env.failing []) s → ∀ e,
    e.enabled s = true →
      HeadersExact (stateAfter Sodium.plain (Env.failing []) e s).trace := by
  intro h
  have hlen : (List.replicate (2 ^ 32 - 54) (97 : UInt8)).length = 2 ^ 32 - 54 :=
    List.length_replicate
  obtain ⟨s, hs, hen, hgk, hkeys, hl, hnames, hasks⟩ :=
    sampleRun_asks (List.replicate (2 ^ 32 - 54) 97) (by rw [hlen]; decide)
  refine arrival_wraps Sodium.plain_boxSizes (Sodium.plain_secretboxInverts _) (fun _ _ => rfl)
    hkeys ((sampleRun_reach hs).store Sodium.plain (Env.failing [])) hen hl hasks ?_ hlen.ge
    (h s (sampleRun_reach hs) _ hen)
  rw [hnames]
  exact Finset.notMem_empty _

end CliChat
