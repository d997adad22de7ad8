import CliChat.Lib.Room
import CliChat.Server.Conversation

/-! @src server/src/server.cpp | name:Server | scheme:refinement

    The server is a chat room. `Represents` ties a state of the server to a room: its registered
    connections are the members under their names, and what the room told a connection is what the
    server offered it, with the texts of the notices and the forwarded bytes. A handler is a list of
    acts: a registration is a `join`, a removal with its announcement a `leave` (also inside another
    broadcast), a forwarded packet a `say`, and everything else no act at all. So every run of the
    server is a run of the room.

        server   keyed │ named ─ broadcasted ─ dropped ─ broadcasted … │ forwarded
        room           │ join            leave                         │ say        -/

namespace CliChat

open Transition

/-! ### What a connection is offered -/

/-- What is offered to a connection, whether or not the kernel takes it: the text of a notice, or a
    packet of another client. -/
inductive Offer where
  | notice (msg : Bytes)
  | packet (src : ConnId) (p : Bytes)
  deriving DecidableEq

def Ev.offer (id : ConnId) : Ev → Option Offer
  | .secretbox conn msg _ => if conn = id then some (.notice msg) else none
  | .send conn (.forward src) p _ => if conn = id then some (.packet src p) else none
  | _ => none

/-- The offers to `id`, in order. -/
def offersTo (id : ConnId) (l : List Ev) : List Offer := l.filterMap (Ev.offer id)

abbrev ChatRoom := Room.State ConnId Bytes Bytes

/-- An announcement of the room, as the server words it. -/
def render : Room.Item ConnId Bytes Bytes → Offer
  | .joined n => .notice (connectNotice n)
  | .left n => .notice (disconnectNotice n)
  | .said src p => .packet src p

section offers

variable (id : ConnId) (l m : List Ev)

@[simp] theorem offersTo_nil : offersTo id [] = [] := rfl

@[simp] theorem offersTo_append : offersTo id (l ++ m) = offersTo id l ++ offersTo id m :=
  List.filterMap_append

theorem offersTo_eq_nil {l : List Ev} (h : ∀ e ∈ l, e.offer id = none) : offersTo id l = [] :=
  List.filterMap_eq_nil_iff.mpr h

theorem offersTo_flatMap {α : Type} (xs : List α) (g : α → List Ev) :
    offersTo id (xs.flatMap g) = xs.flatMap fun x => offersTo id (g x) :=
  List.filterMap_flatMap

theorem offersTo_boxEvents (conn : ConnId) (msg : Bytes) (payload : Option Bytes) (ok : Bool) :
    offersTo id (boxEvents conn msg payload ok) = if conn = id then [.notice msg] else [] := by
  by_cases h : conn = id <;> cases payload <;>
    simp [offersTo, boxEvents, Ev.offer, h, List.filterMap_cons]

theorem offersTo_forwards (src : ConnId) (p : Bytes) : ∀ sent : List (ClientInfo × Bool),
    offersTo id (sent.map fun x => .send x.1.session.conn (.forward src) p x.2) =
      sent.flatMap fun x => if x.1.session.conn = id then [.packet src p] else []
  | [] => rfl
  | x :: sent => by
    rw [List.map_cons, List.flatMap_cons, ← offersTo_forwards src p sent]
    by_cases h : x.1.session.conn = id <;> simp [offersTo, Ev.offer, h]

end offers

/-- Different announcements are worded differently. -/
theorem render_injective : Function.Injective render := by
  intro a b h
  cases a <;> cases b <;> simp only [render, Offer.notice.injEq, Offer.packet.injEq] at h
  · rw [List.append_cancel_right h]
  · exact absurd h (connect_ne_disconnect _ _)
  · cases h
  · exact absurd h.symm (connect_ne_disconnect _ _)
  · rw [List.append_cancel_right h]
  · cases h
  · cases h
  · cases h
  · rw [h.1, h.2]

/-! ### One pass -/

section passes

variable {na : Sodium} {env : ReturningEnv} {s : Server} {id : ConnId}

/-- The pass of a broadcast offers its message once to every registered connection, and nothing to
    the others. -/
theorem offersTo_pass {key msg : Bytes} {removeList : List Fd} {boxes : List Box} (hT : Table s)
    (h : PassOf na key msg s.clients.entries removeList boxes) :
    (RegisteredConn s id →
      offersTo id (.broadcast msg :: boxes.flatMap (Box.events msg)) = [.notice msg]) ∧
    (¬ RegisteredConn s id →
      offersTo id (.broadcast msg :: boxes.flatMap (Box.events msg)) = []) := by
  have hflat : offersTo id (.broadcast msg :: boxes.flatMap (Box.events msg)) =
      boxes.flatMap fun b => if b.client.session.conn = id then [.notice msg] else [] := by
    change offersTo id (boxes.flatMap (Box.events msg)) = _
    rw [offersTo_flatMap]
    simp only [Box.events, offersTo_boxEvents]
  rw [hflat]
  constructor
  · rintro ⟨fd, c, hc, rfl⟩
    obtain ⟨b, hb, hbe⟩ := (mem_boxes h).mpr hc
    cases hbe
    exact flatMap_select (fun b : Box => b.client.session.conn) (fun _ => [Offer.notice msg])
      (boxes_nodup hT h) hb
  · intro hid
    refine List.flatMap_eq_nil_iff.mpr fun b hb => if_neg fun hconn => ?_
    exact hid ⟨b.fd, b.client, (mem_boxes h).mp ⟨b, hb, rfl⟩, hconn⟩

/-- The forwarding loop offers the packet in the same way. -/
theorem offersTo_forward (hT : Table s) {sent : List (ClientInfo × Bool)} {src : ConnId} {p : Bytes}
    (hsent : sent.map Prod.fst = (s.clients.entries.filter fun e => e.2.registered).map Sigma.snd) :
    (RegisteredConn s id → offersTo id
      (sent.map fun x => .send x.1.session.conn (.forward src) p x.2) = [.packet src p]) ∧
    (¬ RegisteredConn s id → offersTo id
      (sent.map fun x => .send x.1.session.conn (.forward src) p x.2) = []) := by
  rw [offersTo_forwards]
  constructor
  · rintro ⟨fd, c, hc, rfl⟩
    obtain ⟨x, hx, rfl⟩ := List.mem_map.mp ((mem_sent_iff hsent).mpr ⟨fd, hc⟩)
    exact flatMap_select (fun x : ClientInfo × Bool => x.1.session.conn)
      (fun _ => [Offer.packet src p]) (sent_conns_nodup hT hsent) hx
  · intro hid
    refine List.flatMap_eq_nil_iff.mpr fun x hx => if_neg fun hconn => ?_
    obtain ⟨fd, hd⟩ := (mem_sent_iff hsent).mp (List.mem_map_of_mem hx)
    exact hid ⟨fd, x.1, hd, hconn⟩

end passes

/-! ### The room of a server -/

/-- The registered connection `id` has the name `n`. -/
def HoldsName (s : Server) (id : ConnId) (n : Bytes) : Prop :=
  ∃ fd c, Registered s fd c ∧ c.session.conn = id ∧ c.username = n

/-- A name, from what the map holds. -/
theorem HoldsName.of_lookup {s : Server} {fd : Fd} {id : ConnId} {n : Bytes}
    (h : (s.clients.lookup fd).map (fun c => (c.registered, c.session.conn, c.username)) =
      some (true, id, n)) : HoldsName s id n := by
  obtain ⟨c, hl, heq⟩ := Option.map_eq_some_iff.mp h
  simp only [Prod.mk.injEq] at heq
  exact ⟨fd, c, ⟨hl, heq.1⟩, heq.2.1, heq.2.2⟩

/-- Where only the entry of `fd` changes, the other connections keep their names. -/
theorem holdsName_congr {s s' : Server} {fd : Fd} {c : ClientInfo}
    (hl : s.clients.lookup fd = some c)
    (hother : ∀ k d, k ≠ fd → (Registered s' k d ↔ Registered s k d))
    (hself : ∀ d, Registered s' fd d → d.session.conn = c.session.conn) {id : ConnId} {n : Bytes}
    (hid : id ≠ c.session.conn) : HoldsName s' id n ↔ HoldsName s id n := by
  constructor
  · rintro ⟨k, d, hd, rfl, hn⟩
    have hk : k ≠ fd := by
      rintro rfl
      exact hid (hself d hd)
    exact ⟨k, d, (hother k d hk).mp hd, rfl, hn⟩
  · rintro ⟨k, d, hd, rfl, hn⟩
    have hk : k ≠ fd := by
      rintro rfl
      exact hid (congrArg (·.session.conn) (Option.some.inj (hd.1.symm.trans hl)))
    exact ⟨k, d, (hother k d hk).mpr hd, rfl, hn⟩

theorem HoldsName.registered {s : Server} {id : ConnId} {n : Bytes} (h : HoldsName s id n) :
    RegisteredConn s id := by
  obtain ⟨fd, c, hc, hconn, -⟩ := h
  exact ⟨fd, c, hc, hconn⟩

/-- `ρ` is the room of `s`. Once the server has stopped, it is the room as it was then. -/
structure Represents (s : Server) (ρ : ChatRoom) : Prop where
  member : s.running = true → ∀ id n, ρ.name id = some n ↔ HoldsName s id n
  closed : s.running = false → ∀ fd c, ¬ Registered s fd c
  /-- A connection that has been in the room is registered, if it is still there. -/
  seen : ∀ id ∈ ρ.seen, id < s.kernel.accepted ∧
    ∀ fd c, s.clients.lookup fd = some c → c.session.conn = id → c.registered = true
  offered : ∀ id, offersTo id s.trace = (ρ.inbox id).map render

/-- Nothing that the room shows happens from `s` to `s'`. -/
structure Backstage (s s' : Server) : Prop where
  running : s'.running = s.running
  registered : ∀ fd c, Registered s' fd c ↔ Registered s fd c
  evolves : Evolves s s'
  log : ∃ T, s'.trace = s.trace ++ T ∧ ∀ id, offersTo id T = []

namespace Backstage

variable {a b d s s' : Server} {fd : Fd} {c : ClientInfo} {T : List Ev}

theorem trans (h : Backstage a b) (k : Backstage b d) : Backstage a d where
  running := k.running.trans h.running
  registered := fun fd c => (k.registered fd c).trans (h.registered fd c)
  evolves := h.evolves.trans k.evolves
  log := by
    obtain ⟨T, hT, hnil⟩ := h.log
    obtain ⟨P, hP, hnil'⟩ := k.log
    refine ⟨T ++ P, by rw [hP, hT, List.append_assoc], fun id => ?_⟩
    rw [offersTo_append, hnil, hnil']
    rfl

theorem of_sendsOnly (h : SendsOnly s s') (htr : s'.trace = s.trace ++ T)
    (hT : ∀ id, ∀ e ∈ T, e.offer id = none) : Backstage s s' where
  running := h.running
  registered := fun fd c => by rw [Registered, h.clients]; rfl
  evolves := Evolves.of_sendsOnly h
  log := ⟨T, htr, fun id => offersTo_eq_nil id (hT id)⟩

theorem touch (s : Server) (fd : Fd) (n : ℕ) : Backstage s (s.touch fd n) :=
  of_sendsOnly (SendsOnly.touch s fd n) rfl fun id e he => by rw [List.eq_of_mem_replicate he]; rfl

theorem received (s : Server) (fd : Fd) (c : ClientInfo) (pkt : Option Bytes) (ch : Chan) :
    Backstage s (s.received fd c pkt ch) where
  running := rfl
  registered := fun _ _ => Iff.rfl
  evolves := Evolves.of_clients rfl rfl
  log := by
    refine ⟨List.replicate 3 (.access fd true) ++ [.recv c.session.conn pkt],
      by simp [Server.received], fun id => offersTo_eq_nil id (by simp [Ev.offer])⟩

/-- An entry that is not registered changes. -/
theorem write (hl : s.clients.lookup fd = some c) (hreg : c.registered = false) {c' : ClientInfo}
    (hgrow : Grows c c') (hreg' : c'.registered = false) : Backstage s (s.write fd c') where
  running := rfl
  registered := by
    intro k d
    rw [Store.registered_replace hl (Server.write_clients s fd c')]
    constructor
    · rintro (⟨-, -, hr⟩ | ⟨-, hd⟩)
      · rw [hreg'] at hr
        cases hr
      · exact hd
    · intro hd
      refine Or.inr ⟨?_, hd⟩
      rintro rfl
      obtain rfl : d = c := Option.some.inj (hd.1.symm.trans hl)
      rw [hd.2] at hreg
      cases hreg
  evolves := Evolves.of_replace rfl hl rfl hgrow
  log := ⟨[.access fd true], rfl, fun id => rfl⟩

/-- An entry that is not registered is removed. -/
theorem dropped (hl : s.clients.lookup fd = some c) (hreg : c.registered = false) :
    Backstage s (s.dropped fd c) where
  running := rfl
  registered := by
    intro k d
    rw [Store.registered_dropped]
    refine and_iff_right_of_imp fun hd => ?_
    rintro rfl
    obtain rfl : d = c := Option.some.inj (hd.1.symm.trans hl)
    rw [hd.2] at hreg
    cases hreg
  evolves := Evolves.of_shrinks (Shrinks.dropped s fd c)
  log := by
    refine ⟨dropLog fd c, dropped_log s fd c, fun id => offersTo_eq_nil id ?_⟩
    unfold dropLog
    split <;> simp [Ev.offer]

variable (env : ReturningEnv)

theorem keyStored (hl : s.clients.lookup fd = some c) (hreg : c.registered = false) (pk : Bytes) :
    Backstage s (s.keyStored env fd c pk) := by
  have hgrow : Grows c { c with clientPk := pk } := ⟨rfl, id, id, fun _ => rfl⟩
  have hwrite : Backstage s (s.write fd { c with clientPk := pk }) := write hl hreg hgrow hreg
  have hsend := Server.sendPacket_sendsOnly env c.session .serverPk s.serverPk
    ((s.write fd { c with clientPk := pk }).touch fd 1)
  have htr := Server.sendPacket_trace env c.session .serverPk s.serverPk
    ((s.write fd { c with clientPk := pk }).touch fd 1)
  exact ((hwrite.trans (touch _ fd 1)).trans (of_sendsOnly (hsend.trans
    (Server.randomNonce_sendsOnly env _)) htr (by simp [Ev.offer]))).trans (touch _ fd 1)

theorem keyed (hl : s.clients.lookup fd = some c) (hreg : c.registered = false)
    (payload : Bytes) : Backstage s (s.keyed env fd c payload) := by
  have hsend := Server.sendPacket_sendsOnly env c.session .groupKey payload (s.touch fd 1)
  have htr := Server.sendPacket_trace env c.session .groupKey payload (s.touch fd 1)
  have hl' : ((s.touch fd 1).sendPacket env c.session .groupKey payload).2.clients.lookup fd =
      some c := by
    rw [hsend.clients]
    exact hl
  have hgrow : Grows c { c with keyExchanged := true } := ⟨rfl, fun _ => rfl, id, fun _ => rfl⟩
  exact ((touch s fd 1).trans (of_sendsOnly hsend htr (by simp [Ev.offer]))).trans
    (write hl' hreg hgrow hreg)

end Backstage

namespace Represents

variable {na : Sodium} {env : ReturningEnv} {s s' : Server} {ρ : ChatRoom} {fd : Fd}
  {c : ClientInfo}

theorem isSome_iff (h : Represents s ρ) (hrun : s.running = true) (id : ConnId) :
    (ρ.name id).isSome = true ↔ RegisteredConn s id := by
  rw [Option.isSome_iff_exists]
  constructor
  · rintro ⟨n, hn⟩
    obtain ⟨fd, c, hc, hid, -⟩ := (h.member hrun id n).mp hn
    exact ⟨fd, c, hc, hid⟩
  · rintro ⟨fd, c, hc, hid⟩
    exact ⟨c.username, (h.member hrun id _).mpr ⟨fd, c, hc, hid, rfl⟩⟩

/-- A server with a registered client has not stopped. -/
theorem running (h : Represents s ρ) {id : ConnId}
    (hid : RegisteredConn s id) : s.running = true := by
  obtain ⟨fd, c, hc, -⟩ := hid
  by_contra hrun
  exact h.closed (by simpa using hrun) fd c hc

/-- The names of the members are the names in use. -/
theorem present_eq (h : Represents s ρ) (hs : Store s) (hrun : s.running = true) :
    ρ.present = {n | n ∈ s.usernames} := by
  ext n
  rw [Set.mem_ofPred_eq, hs.names]
  constructor
  · rintro ⟨id, hid⟩
    obtain ⟨fd, c, hc, -, hn⟩ := (h.member hrun id n).mp hid
    exact ⟨fd, c, hc, hn⟩
  · rintro ⟨fd, c, hc, hn⟩
    exact ⟨c.session.conn, (h.member hrun _ n).mpr ⟨fd, c, hc, rfl, hn⟩⟩

theorem backstage (h : Represents s ρ) (hb : Backstage s s') : Represents s' ρ where
  member := by
    intro hrun id n
    rw [hb.running] at hrun
    rw [h.member hrun]
    unfold HoldsName
    simp only [hb.registered]
  closed := fun hrun fd c hc => h.closed (hb.running ▸ hrun) fd c ((hb.registered fd c).mp hc)
  seen := by
    intro id hid
    obtain ⟨hlt, hreg⟩ := h.seen id hid
    refine ⟨hlt.trans_le hb.evolves.accepted, fun fd c hl hconn => ?_⟩
    obtain ⟨d, hd, hgrow⟩ := hb.evolves.entries fd c hl (hconn ▸ hlt)
    exact hgrow.registered (hreg fd d hd (hgrow.conn ▸ hconn))
  offered := by
    obtain ⟨T, hT, hnil⟩ := hb.log
    intro id
    rw [hT, offersTo_append, hnil, List.append_nil]
    exact h.offered id

/-- An announcement is offered to every member. -/
theorem announce (h : Represents s ρ) (hrun : s.running = true) (hsend : SendsOnly s s')
    {T : List Ev} (htr : s'.trace = s.trace ++ T) {a : Room.Item ConnId Bytes Bytes}
    (hT : ∀ id, (RegisteredConn s id → offersTo id T = [render a]) ∧
      (¬ RegisteredConn s id → offersTo id T = [])) : Represents s' (ρ.announce a) where
  member := by
    intro _ id n
    rw [Room.State.announce_name, h.member hrun]
    unfold HoldsName Registered
    rw [hsend.clients]
  closed := by
    intro hrun'
    rw [hsend.running, hrun] at hrun'
    cases hrun'
  seen := by
    intro id hid
    rw [hsend.accepted, hsend.clients]
    exact h.seen id hid
  offered := by
    intro id
    rw [htr, offersTo_append, h.offered, Room.State.announce_inbox]
    by_cases hid : RegisteredConn s id
    · rw [(hT id).1 hid, if_pos ((h.isSome_iff hrun id).mpr hid), List.map_append]
      rfl
    · rw [(hT id).2 hid, if_neg fun hm => hid ((h.isSome_iff hrun id).mp hm), List.append_nil]

/-- A registration, up to its announcement. -/
theorem named (h : Represents s ρ) (hs : Store s) (hrun : s.running = true)
    (hl : s.clients.lookup fd = some c) (hreg : c.registered = false) {uname : Bytes}
    (hu : uname ∉ s.usernames) :
    c.session.conn ∉ ρ.seen ∧ uname ∉ ρ.present ∧
      Represents (s.named fd c uname) (ρ.enrol c.session.conn uname) := by
  have hclients : (s.named fd c uname).clients =
      s.clients.replace fd { c with username := uname, registered := true } := rfl
  have hlt : c.session.conn < s.kernel.accepted :=
    hs.table.fresh fd _ (hs.table.entry fd c hl).2.2.2
  have hother : ∀ k d, k ≠ fd → s.clients.lookup k = some d → d.session.conn ≠ c.session.conn :=
    fun k d hk hd hconn => hk (hs.table.conn_inj hd hl hconn).1
  -- the entries: the one of `fd` is registered now, and the others are as they were
  have hseen : ∀ {id}, (∀ k d, s.clients.lookup k = some d → d.session.conn = id →
      k ≠ fd → d.registered = true) → ∀ k d, (s.named fd c uname).clients.lookup k = some d →
      d.session.conn = id → d.registered = true := by
    intro id hold k d hd hconn
    rw [hclients] at hd
    by_cases hk : k = fd
    · rw [hk, AList.lookup_replace_self _ (AList.mem_of_lookup hl)] at hd
      cases hd
      rfl
    · rw [AList.lookup_replace_ne _ _ hk] at hd
      exact hold k d hd hconn hk
  refine ⟨fun hseen => ?_, ?_, ⟨fun _ id n => ?_, fun hrun' => ?_, fun id hid => ?_, fun id => ?_⟩⟩
  · have hr := (h.seen _ hseen).2 fd c hl rfl
    rw [hreg] at hr
    cases hr
  · rw [h.present_eq hs hrun]
    exact hu
  · rw [Room.State.enrol_name, Function.update_apply]
    split
    · rename_i hid
      subst hid
      rw [Option.some.injEq]
      constructor
      · rintro rfl
        exact ⟨fd, _, (Store.registered_replace hl hclients).mpr (.inl ⟨rfl, rfl, rfl⟩), rfl, rfl⟩
      · rintro ⟨k, d, hd, hconn, hn⟩
        rcases (Store.registered_replace hl hclients).mp hd with ⟨-, rfl, -⟩ | ⟨hk, hd⟩
        · exact hn
        · exact absurd hconn (hother k d hk hd.1)
    · rename_i hid
      refine (h.member hrun id n).trans (holdsName_congr hl (fun k d hk => ?_) (fun d hd => ?_)
        hid).symm
      · simp [Store.registered_replace hl hclients, hk]
      · rcases (Store.registered_replace hl hclients).mp hd with ⟨-, rfl, -⟩ | ⟨hne, -⟩
        · rfl
        · exact absurd rfl hne
  · rw [Server.named_running, hrun] at hrun'
    cases hrun'
  · rcases hid with rfl | hid
    · exact ⟨hlt, hseen fun k d hd hconn hk => absurd hconn (hother k d hk hd)⟩
    · obtain ⟨hlt', hr⟩ := h.seen id hid
      exact ⟨hlt', hseen fun k d hd hconn _ => hr k d hd hconn⟩
  · rw [Server.named_trace, offersTo_append, h.offered]
    exact List.append_nil _

/-- The removal of a registered client, up to its announcement. -/
theorem dropped (h : Represents s ρ) (hs : Store s) (hrun : s.running = true)
    (hl : s.clients.lookup fd = some c) : Represents (s.dropped fd c)
      (ρ.expel c.session.conn) where
  member := by
    intro _ id n
    rw [Room.State.expel_name, Function.update_apply]
    split
    · rename_i hid
      subst hid
      refine iff_of_false (fun hn => by cases hn) ?_
      rintro ⟨k, d, hd, hconn, -⟩
      obtain ⟨hk, hd⟩ := Store.registered_dropped.mp hd
      exact hk (hs.table.conn_inj hd.1 hl hconn).1
    · rename_i hid
      refine (h.member hrun id n).trans (holdsName_congr hl (fun k d hk => ?_) (fun d hd => ?_)
        hid).symm
      · rw [Store.registered_dropped, and_iff_right hk]
      · exact absurd rfl (Store.registered_dropped.mp hd).1
  closed := by
    intro hrun'
    rw [Server.dropped_running, hrun] at hrun'
    cases hrun'
  seen := by
    intro id hid
    obtain ⟨hlt, hreg⟩ := h.seen id hid
    exact ⟨hlt.trans_eq (Shrinks.dropped s fd c).accepted.symm,
      fun k d hd => hreg k d ((Shrinks.dropped s fd c).lookup hd)⟩
  offered := by
    intro id
    rw [dropped_log, offersTo_append, h.offered, offersTo_eq_nil, List.append_nil]
    · rfl
    · unfold dropLog
      split <;> simp [Ev.offer]

/-- A broadcast in the room: the announcement, and a departure for each client that the clean-up
    removes. -/
theorem broadcasted (na : Sodium) (env : ReturningEnv) (h : Represents s ρ) (hs : Store s)
    (hrun : s.running = true) {msg : Bytes} {a : Room.Item ConnId Bytes Bytes}
    (ha : render a = .notice msg) :
    ∃ acts ρ', run Room.step acts (ρ.announce a) = some ρ' ∧
      Represents (s.broadcasted na env msg) ρ' := by
  have hpass : ∀ {t : Server} {σ : ChatRoom} {m : Bytes} {b : Room.Item ConnId Bytes Bytes},
      Store t → t.running = true → Represents t σ → render b = .notice m →
      Represents ((cascade na env).send m t).2 (σ.announce b) := by
    intro t σ m b ht htrun hσ hb
    obtain ⟨hsend, boxes, hpass, htr⟩ := cascade_send na env m t
    refine hσ.announce htrun hsend htr fun id => ?_
    rw [hb]
    exact offersTo_pass ht.table hpass
  have hloop := @broadcasted_invariant na env
    (fun _ t => Store t ∧ t.running = true ∧
      ∃ acts ρ', run Room.step acts (ρ.announce a) = some ρ' ∧ Represents t ρ') msg s ?_ ?_ ?_ ?_
  · exact hloop.2.2
  · exact ⟨hs.sendsOnly (cascade_send na env msg s).1,
      (cascade_send na env msg s).1.running.trans hrun, [], _, rfl, hpass hs hrun h ha⟩
  · exact fun _ _ _ hi _ => hi
  · rintro fd _ t c ⟨ht, htrun, acts, ρ', hacts, hρ'⟩ hl hreg
    exact ⟨ht.dropped hl, htrun, acts, ρ', hacts, hρ'.backstage (Backstage.dropped hl hreg)⟩
  · rintro fd _ t c ⟨ht, htrun, acts, ρ', hacts, hρ'⟩ hl hreg
    have hsend := (cascade_send na env (disconnectNotice c.username) (t.dropped fd c)).1
    have hname : ρ'.name c.session.conn = some c.username :=
      (hρ'.member htrun _ _).mpr ⟨fd, c, ⟨hl, hreg⟩, rfl, rfl⟩
    refine ⟨(ht.dropped hl).sendsOnly hsend, hsend.running.trans htrun,
      acts ++ [.leave c.session.conn], (ρ'.expel c.session.conn).announce (.left c.username),
      (run_append_some _).mpr ⟨ρ', hacts, ?_⟩,
      hpass (ht.dropped hl) htrun (hρ'.dropped ht htrun hl) rfl⟩
    rw [run_cons, Room.step_leave hname]
    rfl

/-- A disconnect in the room. -/
theorem disconnected (h : Represents s ρ) (hs : Store s) (hrun : s.running = true)
    (hl : s.clients.lookup fd = some c) :
    ∃ acts ρ', run Room.step acts ρ = some ρ' ∧
      Represents (s.disconnected na env fd c) ρ' := by
  rw [Server.disconnected]
  by_cases hreg : c.registered = true
  · have hname : ρ.name c.session.conn = some c.username :=
      (h.member hrun _ _).mpr ⟨fd, c, ⟨hl, hreg⟩, rfl, rfl⟩
    obtain ⟨acts, ρ', hacts, hρ'⟩ := (h.dropped hs hrun hl).broadcasted na env
      (hs.dropped hl) hrun (a := .left c.username) rfl
    rw [if_pos hreg]
    refine ⟨.leave c.session.conn :: acts, ρ', ?_, hρ'⟩
    rw [run_cons, Room.step_leave hname]
    exact hacts
  · rw [if_neg hreg]
    exact ⟨[], ρ, rfl, h.backstage (Backstage.dropped hl (by simpa using hreg))⟩

/-- `Stop` closes the room, and nobody is told. -/
theorem stop (h : Represents s ρ) (hrun : s.running = true) : Represents (stop s) ρ := by
  obtain ⟨hclients, hstopped, haccepted⟩ : (CliChat.stop s).clients = ∅ ∧
      (CliChat.stop s).running = false ∧
      (CliChat.stop s).kernel.accepted = s.kernel.accepted := by
    unfold CliChat.stop
    rw [if_neg (by simp [hrun])]
    dsimp only
    split <;> split <;> exact ⟨rfl, rfl, rfl⟩
  have hnone : ∀ fd, (CliChat.stop s).clients.lookup fd = none := fun fd => by
    rw [hclients]
    rfl
  refine ⟨fun hr => ?_, fun _ fd c hc => ?_, fun id hid => ⟨?_, fun fd c hl => ?_⟩, fun id => ?_⟩
  · rw [hstopped] at hr
    cases hr
  · rw [Registered, hnone] at hc
    cases hc.1
  · rw [haccepted]
    exact (h.seen id hid).1
  · rw [hnone] at hl
    cases hl
  · obtain ⟨T, hT, hcloses⟩ := stop_adds s
    rw [hT, offersTo_append, h.offered, offersTo_eq_nil, List.append_nil]
    intro e he
    have hc := hcloses e he
    cases e <;> first | rfl | cases hc

/-- HANDLER: `HandleClientEvent`, when it returns, is a list of acts. -/
theorem outcome (h : Represents s ρ) (hs : Store s) (hrun : s.running = true)
    (hl : s.clients.lookup fd = some c) (hout : Outcome na env s fd c (.ok () s')) :
    ∃ acts ρ', run Room.step acts ρ = some ρ' ∧ Represents s' ρ' := by
  -- the state in which a packet of a client with keys is looked at
  have hrecv : ∀ pkt ch n, Represents ((s.received fd c pkt ch).touch fd n) ρ := fun pkt ch n =>
    h.backstage ((Backstage.received s fd c pkt ch).trans (Backstage.touch _ fd n))
  have hstore : ∀ pkt ch n, Store ((s.received fd c pkt ch).touch fd n) := fun pkt ch n =>
    (hs.received fd c pkt ch).touch fd n
  have hstored : c.registered = false → ∀ pk ch,
      Backstage s ((s.received fd c (some pk) ch).keyStored env fd c pk) := fun hreg pk ch =>
    (Backstage.received s fd c (some pk) ch).trans
      (Backstage.keyStored env (s := s.received fd c (some pk) ch) hl hreg pk)
  have hlstored : ∀ pk ch, ((s.received fd c (some pk) ch).keyStored env fd c pk).clients.lookup
      fd = some { c with clientPk := pk } := fun pk ch =>
    keyStored_lookup env (s := s.received fd c (some pk) ch) hl pk
  cases hout with
  | @noKey pkt ch => exact ⟨[], ρ, rfl, h.backstage (Backstage.received s fd c pkt ch)⟩
  | @badKey pk ch nonce hk =>
    have hreg := hs.unregistered hl hk
    have hkeys := ((hs.received fd c (some pk) ch).keyStored env hl pk).1
    exact (h.backstage (hstored hreg pk ch)).disconnected hkeys
      ((hstored hreg pk ch).running.trans hrun) (hlstored pk ch)
  | @keyed pk ch nonce cipher hk =>
    have hreg := hs.unregistered hl hk
    exact ⟨[], ρ, rfl, h.backstage ((hstored hreg pk ch).trans
      (Backstage.keyed env (hlstored pk ch) hreg (nonce ++ cipher)))⟩
  | @rejected pkt ch n => exact (hrecv pkt ch n).disconnected (hstore pkt ch n) hrun hl
  | @named p ch uname hk hreg _ hname hu =>
    obtain ⟨hfresh, hfree, henrol⟩ := (hrecv (some p) ch 1).named (hstore (some p) ch 1) hrun hl
      hreg hu
    obtain ⟨acts, ρ', hacts, hρ'⟩ := henrol.broadcasted na env
      ((hstore (some p) ch 1).named hl hk hreg hu) hrun (a := .joined uname) rfl
    refine ⟨.join c.session.conn uname :: acts, ρ', ?_, hρ'.backstage
      (Backstage.of_sendsOnly (SendsOnly.log _ _) rfl (by simp [Ev.offer]))⟩
    rw [run_cons, Room.step_join hfresh hfree]
    exact hacts
  | @forwarded p ch hk hreg hd =>
    obtain ⟨hsend, sent, hsent, htr⟩ := forwardTo_spec env c.session.conn p s.clients.entries
      ((s.received fd c (some p) ch).touch fd 1)
    have hmem : (ρ.name c.session.conn).isSome = true :=
      (h.isSome_iff hrun _).mpr ⟨fd, c, ⟨hl, hreg⟩, rfl⟩
    refine ⟨[.say c.session.conn p], ρ.announce (.said c.session.conn p), ?_, ?_⟩
    · rw [run_cons, Room.step_say hmem]
      rfl
    · exact (hrecv (some p) ch 1).announce hrun hsend htr fun id =>
        offersTo_forward (hstore (some p) ch 1).table hsent

variable (na env)

/-- STEP: an event of the server is a list of acts of the room. -/
theorem step (h : Represents s ρ) (hs : Store s) {e : Event}
    (hstep : CliChat.step na env e s = some s') :
    ∃ acts ρ', run Room.step acts ρ = some ρ' ∧ Represents s' ρ' := by
  obtain ⟨hen, hr⟩ := (step_some na env).mp hstep
  cases e with
  | client fd =>
    obtain ⟨c, hl, hout⟩ := client_outcome na env hs hen
    rw [hr] at hout
    have hlog : Backstage s (s.log (.dispatch c.session.conn)) :=
      Backstage.of_sendsOnly (SendsOnly.log _ _) rfl (by simp [Ev.offer])
    exact (h.backstage hlog).outcome (hs.sendsOnly (SendsOnly.log s _))
      (enabled_client.mp hen).1 hl hout
  | listener accepts =>
    cases hr
    refine ⟨[], ρ, rfl, ?_⟩
    refine (Server.handleNewConnection_invariant (I := fun t => Store t ∧ Represents t ρ) ?_ ?_
      accepts s ⟨hs, h⟩).2
    · rintro t fd r ci co ⟨ht, hρ⟩ hfree
      obtain ⟨ht', hev⟩ := ht.admitted hfree r ci co
      refine ⟨ht', hρ.backstage ⟨rfl, fun k d => ?_, hev, [], (List.append_nil _).symm,
        fun _ => rfl⟩⟩
      unfold Registered
      rw [ht.lookup_admitted hfree]
      split
      · rename_i hk
        rw [hk, ht.lookup_free hfree]
        exact iff_of_false (fun hd => by cases hd.1; cases hd.2) fun hd => by cases hd.1
      · exact Iff.rfl
    · rintro t fd ci co ⟨ht, hρ⟩ hfree
      obtain ⟨ht', hev⟩ := ht.refused hfree ci co
      exact ⟨ht', hρ.backstage ⟨rfl, fun _ _ => Iff.rfl, hev, [.close fd], rfl, fun _ => rfl⟩⟩
  | net act =>
    cases hr
    exact ⟨[], ρ, rfl, h.backstage ⟨rfl, fun _ _ => Iff.rfl, (hs.net act).2, [],
      (List.append_nil _).symm, fun _ => rfl⟩⟩
  | waitFails =>
    cases hr
    exact ⟨[], ρ, rfl, h.stop hen⟩

variable (env : Env)

/-- RUN: a run of the server is a run of the room. -/
theorem run (h : Represents s ρ) (hs : Store s) {es : List Event}
    (hrun : Transition.run (CliChat.step na env) es s = some s') :
    ∃ acts ρ', Transition.run Room.step acts ρ = some ρ' ∧ Represents s' ρ' := by
  have hstep : ∀ e (s m : Server) (ρ : Room.State ConnId Bytes Bytes), Represents s ρ ∧ Store s →
      CliChat.step na env e s = some m →
      ∃ acts ρ', Transition.run Room.step acts ρ = some ρ' ∧ Represents m ρ' ∧ Store m := by
    rintro e s m ρ ⟨hρ, hs⟩ hm
    obtain ⟨acts, ρ₁, hacts, hρ₁⟩ := hρ.step na env.returning hs (step_returning hm).2
    exact ⟨acts, ρ₁, hacts, hρ₁, (hs.step na env hm).1⟩
  obtain ⟨acts, ρ', hacts, hρ', -⟩ :=
    run_simulation (CliChat.step na env) Room.step hstep ⟨h, hs⟩ hrun
  exact ⟨acts, ρ', hacts, hρ'⟩

/-- A server that has just started is an empty room. -/
theorem initial (h : Initial s) : Represents s Room.State.empty := by
  obtain ⟨listenfd, epollfd, pk, sk, gk, -, -, -, -, rfl⟩ := h
  refine ⟨fun _ id n => iff_of_false (fun hn => (nomatch hn)) ?_, fun hr => (nomatch hr),
    fun _ hid => hid.elim, fun _ => rfl⟩
  rintro ⟨fd, c, hc, -⟩
  cases hc.1

end Represents

/-! ### Results -/

section results

variable (na : Sodium) (env : Env) {s s' : Server}

/-- Every reachable server is a room that acts have made of the empty one. -/
theorem Reach.room (h : Reach na env s) : ∃ ρ : ChatRoom,
    Reachable Room.step (· = Room.State.empty) ρ ∧ Represents s ρ := by
  obtain ⟨s₀, es, h₀, hes⟩ := h
  obtain ⟨acts, ρ, hacts, hρ⟩ := (Represents.initial h₀).run na env h₀.store hes
  exact ⟨ρ, ⟨_, acts, rfl, hacts⟩, hρ⟩

/-- REFINEMENT: every reachable server is a room that acts have made of the empty one, and whatever
    it does from there on is a run of that room. -/
theorem room_refinement (h : Reach na env s) : ∃ ρ : ChatRoom,
    Reachable Room.step (· = Room.State.empty) ρ ∧ Represents s ρ ∧
    ∀ es s', run (step na env) es s = some s' →
      ∃ acts ρ', run Room.step acts ρ = some ρ' ∧ Represents s' ρ' := by
  obtain ⟨ρ, hreach, hρ⟩ := h.room na env
  exact ⟨ρ, hreach, hρ, fun es s' hes => hρ.run na env (h.store na env) hes⟩

/-- Two clients have joined, and are the members of the room under their names. -/
theorem room_refinement_two : ∃ s ρ,
    sampleRun [] (joins 0 5 (ascii "al") ++ joins 1 6 (ascii "bo")) = some s ∧
    Reachable Room.step (· = Room.State.empty) ρ ∧ Represents s ρ ∧
    ρ.name 0 = some (ascii "al") ∧ ρ.name 1 = some (ascii "bo") := by
  have hrun : (sampleRun [] (joins 0 5 (ascii "al") ++ joins 1 6 (ascii "bo"))).map (fun s =>
      [5, 6].map fun fd => (s.clients.lookup fd).map fun c =>
        (c.registered, c.session.conn, c.username)) =
      some [some (true, 0, ascii "al"), some (true, 1, ascii "bo")] := by decide +kernel
  obtain ⟨s, hs, heq⟩ := Option.map_eq_some_iff.mp hrun
  simp only [List.map_cons, List.map_nil, List.cons.injEq, and_true] at heq
  have hal := HoldsName.of_lookup heq.1
  have hbo := HoldsName.of_lookup heq.2
  obtain ⟨ρ, hreach, hρ, -⟩ :=
    room_refinement Sodium.plain (Env.failing []) (sampleRun_reach hs)
  have hrunning := hρ.running hal.registered
  exact ⟨s, ρ, hs, hreach, hρ, (hρ.member hrunning _ _).mpr hal,
    (hρ.member hrunning _ _).mpr hbo⟩

end results

end CliChat
