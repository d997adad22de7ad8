import CliChat.Server.Talk
import CliChat.Server.Wire

/-! @src server/src/server.cpp | name:HandleClientEvent | scheme:loop

    The forwarding loop. It makes one `SendPacket` for each registered client, in the order of the
    map, and does not look at what it returns, where `BroadcastEncrypted` notes who failed and
    disconnects them. So whoever is registered before the loop is registered after it.

        m_clients      a     b     c     d            BroadcastEncrypted
        SendPacket     ✓     ✗     -     ✓              b in removeList, then disconnected
        registered     yes   yes   no    yes                                             -/

namespace CliChat

open Transition

/-- Whether the kernel takes the whole frame of `p` at the `i`-th `SendPacket` from now on. -/
def Server.takes (env : Env) (s : Server) (p : Bytes) (i : ℕ) : Bool :=
  match (CliChat.sendPacket p (env.sched (s.kernel.sends + i))).1 with
  | .ok ok => ok
  | .error _ => false

theorem takes_returning {env : Env} {s : Server} {i : ℕ}
    (h : (env.sched (s.kernel.sends + i)).Returns) (p : Bytes) :
    s.takes env.returning p i = s.takes env p i := by
  rw [Server.takes, Server.takes, ReturningEnv.toEnv_sched, Env.returning_answers, h.eq]

variable (env : ReturningEnv)

/-- The registered clients, in the order of the map. -/
def Server.recipients (s : Server) : List (Σ _ : Fd, ClientInfo) :=
  s.clients.entries.filter fun e => e.2.registered

theorem sendPacket_open {s : Server} {sess : NetworkSession}
    (hfd : s.kernel.fds sess.socketfd = some sess.conn) (site : Site) (p : Bytes) :
    (s.sendPacket env sess site p).1 = s.takes env p 0 ∧
      (s.sendPacket env sess site p).2.kernel.sends = s.kernel.sends + 1 := by
  refine ⟨?_, by rw [Server.sendPacket, hfd]; rfl⟩
  rw [Server.sendPacket, hfd, Server.takes, ReturningEnv.toEnv_sched, Answers.sendPacket_eq]
  rfl

/-- The loop, with the outcome of each send. -/
theorem forwardTo_takes (src : ConnId) (p : Bytes) :
    ∀ (l : List (Σ _ : Fd, ClientInfo)) (s : Server), OpenSockets s l →
      (s.forwardTo env src p l).trace = s.trace ++
        ((l.filter fun e => e.2.registered).mapIdx fun i e => (e.2, s.takes env p i)).map
          fun x => .send x.1.session.conn (.forward src) p x.2
  | [], s, _ => (List.append_nil _).symm
  | ⟨fd, client⟩ :: rest, s, h => by
    rw [Server.forwardTo]
    by_cases hreg : client.registered = true
    · have hopen : s.kernel.fds client.session.socketfd = some client.session.conn :=
        h ⟨fd, client⟩ (by simp)
      obtain ⟨hok, hsends⟩ := sendPacket_open env hopen (.forward src) p
      have ih := forwardTo_takes src p rest _
        (h.tail (Server.sendPacket_sendsOnly env client.session (.forward src) p s))
      have hshift : ∀ i, (s.sendPacket env client.session (.forward src) p).2.takes env p i =
          s.takes env p (i + 1) := by
        intro i
        rw [Server.takes, Server.takes, hsends, Nat.add_assoc, Nat.add_comm 1 i]
      rw [if_neg (by simp [hreg]), ih, Server.sendPacket_trace, hok,
        List.filter_cons_of_pos (by simpa using hreg), List.mapIdx_cons, List.map_cons,
        List.append_assoc]
      simp only [hshift]
      rfl
    · rw [if_pos (by simpa using hreg), List.filter_cons_of_neg (by simpa using hreg)]
      exact forwardTo_takes src p rest s (h.tail (SendsOnly.refl s))

/-- The loop makes one `SendPacket` for each registered client. -/
theorem forwardTo_sends (src : ConnId) (p : Bytes) :
    ∀ (l : List (Σ _ : Fd, ClientInfo)) (s : Server), OpenSockets s l →
      (s.forwardTo env src p l).kernel.sends =
        s.kernel.sends + (l.filter fun e => e.2.registered).length
  | [], s, _ => rfl
  | ⟨fd, client⟩ :: rest, s, h => by
    rw [Server.forwardTo]
    by_cases hreg : client.registered = true
    · obtain ⟨-, hsends⟩ := sendPacket_open env (h ⟨fd, client⟩ (by simp)) (.forward src) p
      rw [if_neg (by simp [hreg]), forwardTo_sends src p rest _
        (h.tail (Server.sendPacket_sendsOnly env client.session (.forward src) p s)), hsends,
        List.filter_cons_of_pos (by simpa using hreg), List.length_cons]
      omega
    · rw [if_pos (by simpa using hreg), List.filter_cons_of_neg (by simpa using hreg)]
      exact forwardTo_sends src p rest s (h.tail (SendsOnly.refl s))

section recipients

variable {env : ReturningEnv} {s : Server}

theorem recipients_registered {i : ℕ} (hi : i < s.recipients.length) :
    Registered s s.recipients[i].1 s.recipients[i].2 := by
  obtain ⟨hmem, hreg⟩ := List.mem_filter.mp (List.getElem_mem hi)
  exact ⟨AList.lookup_of_mem_entries hmem, hreg⟩

theorem exists_recipient {k : Fd} {d : ClientInfo} (h : Registered s k d) :
    ∃ i, ∃ hi : i < s.recipients.length, s.recipients[i] = ⟨k, d⟩ :=
  List.getElem_of_mem (List.mem_filter.mpr ⟨AList.mem_entries_of_lookup h.1, h.2⟩)

/-- The loop sends the packet to each recipient once. -/
theorem packetsTo_recipient (hT : Table s) (src : ConnId) (p : Bytes) {i : ℕ}
    (hi : i < s.recipients.length) :
    packetsTo s.recipients[i].2.session.conn
        ((s.recipients.mapIdx fun i e => (e.2, s.takes env p i)).map
          fun x => .send x.1.session.conn (.forward src) p x.2) =
      [(.forward src, p, s.takes env p i)] := by
  have hsent : (s.recipients.mapIdx fun i e => (e.2, s.takes env p i)).map Prod.fst =
      s.recipients.map Sigma.snd := by
    apply List.ext_getElem <;> simp
  exact packetsTo_sent hT hsent (.forward src) p (List.mem_mapIdx.mpr ⟨i, hi, rfl⟩)

end recipients

/-! ### One event -/

/-- From `s` to `s'`, with the log `T`, the packet was delivered as a broadcast is: who is still
    registered was sent its frame once and whole, and who was not is gone. -/
structure Delivered (s s' : Server) (T : List Ev) (src : ConnId) (p : Bytes) : Prop where
  delivered : ∀ k d, Registered s' k d →
    packetsTo d.session.conn T = [(.forward src, p, true)] ∧
    (s'.kernel.conns d.session.conn).toClient.bytes =
      (s.kernel.conns d.session.conn).toClient.bytes ++ wire p
  removed : ∀ conn site q, .send conn site q false ∈ T →
    ∀ k d, s'.clients.lookup k = some d → d.session.conn ≠ conn

section event

variable {na : Sodium} {env : ReturningEnv} {s : Server} {fd : Fd} {c : ClientInfo} {p : Bytes}
  {ch : Chan}

/-- A packet of a registered client: the handler returns, no entry changes, and the log tells of the
    loop. -/
theorem forward_event (hs : Store s) (hen : (Event.client fd).enabled s = true)
    (hl : s.clients.lookup fd = some c) (hreg : c.registered = true)
    (hd : CliChat.recvPacket (s.kernel.conns c.session.conn).toServer = .done (some p) ch) :
    ∃ s', step na env (.client fd) s = some s' ∧ s'.clients = s.clients ∧
      s'.kernel.sends = s.kernel.sends + s.recipients.length ∧
      s'.trace = s.trace ++ ([.dispatch c.session.conn, .access fd true, .access fd true,
        .access fd true, .recv c.session.conn (some p), .access fd true] ++
        (s.recipients.mapIdx fun i e => (e.2, s.takes env p i)).map
          fun x => .send x.1.session.conn (.forward c.session.conn) p x.2) := by
  obtain ⟨c', hl', hout⟩ := client_outcome na env hs hen
  obtain rfl : c' = c := Option.some.inj (hl'.symm.trans hl)
  have hkey := hs.keyed fd c' ⟨hl, hreg⟩
  have hkeyed : ¬ c'.keyExchanged = false := by simp [hkey]
  have hregd : ¬ c'.registered = false := by simp [hreg]
  generalize hr : handle na env (.client fd) s = r at hout
  cases hout with
  | blocked hd' => cases hd.symm.trans hd'
  | noKey hk => exact absurd hk hkeyed
  | badKey hk => exact absurd hk hkeyed
  | keyed hk => exact absurd hk hkeyed
  | tooShort _ hreg' => exact absurd hreg' hregd
  | taken _ hreg' => exact absurd hreg' hregd
  | named _ hreg' => exact absurd hreg' hregd
  | rejected _ hd' hrej =>
    cases hd.symm.trans hd'
    cases hrej with
    | short hreg' => exact absurd hreg' hregd
    | unsealed hreg' => exact absurd hreg' hregd
  | forwarded _ _ hd' =>
    cases hd.symm.trans hd'
    set t := (((s.log (.dispatch c'.session.conn)).received fd c' (some p) ch).touch fd 1) with ht
    have hopen : OpenSockets t s.clients.entries := hs.table.openSockets
    refine ⟨_, (step_some na env).mpr ⟨hen, hr⟩, ?_, ?_, ?_⟩
    · exact (forwardTo_spec env c'.session.conn p s.clients.entries t).1.clients
    · exact forwardTo_sends env c'.session.conn p s.clients.entries t hopen
    · have htakes : ∀ i, t.takes env p i = s.takes env p i := fun _ => rfl
      have htrace := forwardTo_takes env c'.session.conn p s.clients.entries t hopen
      simp only [htakes] at htrace
      refine htrace.trans ?_
      rw [← List.append_assoc]
      congr 1
      simp [ht, Server.received]

/-- Where every `send` returns, the packet is delivered as a broadcast is if and only if the kernel
    takes the whole frame at every send of the loop. -/
theorem forward_delivered (h : Reach na env s) (hen : (Event.client fd).enabled s = true)
    (hl : s.clients.lookup fd = some c) (hreg : c.registered = true)
    (hd : CliChat.recvPacket (s.kernel.conns c.session.conn).toServer = .done (some p) ch) :
    ∃ s', step na env (.client fd) s = some s' ∧
      s'.kernel.sends = s.kernel.sends + s.recipients.length ∧
      (Delivered s s' (eventLog na env (.client fd) s) c.session.conn p ↔
        ∀ i < s.recipients.length, s.takes env p i = true) := by
  have hs := h.store na env
  obtain ⟨s', hstep, hclients, hsends, htrace⟩ := forward_event hs hen hl hreg hd
  have hafter := step_stateAfter na env hstep
  have hlog := eventLog_eq na env (e := .client fd) (s := s) (by rw [hafter]; exact htrace)
  have hstreams := client_streams na env hs hen
  rw [hafter] at hstreams
  refine ⟨s', hstep, hsends, ?_⟩
  have hone : ∀ i (hi : i < s.recipients.length),
      packetsTo s.recipients[i].2.session.conn (eventLog na env (.client fd) s) =
        [(.forward c.session.conn, p, s.takes env p i)] := by
    intro i hi
    rw [hlog, packetsTo_append, packetsTo_eq_nil _ (by simp [Ev.packetTo]), List.nil_append]
    exact packetsTo_recipient hs.table c.session.conn p hi
  constructor
  · intro hdel i hi
    have hreg' : Registered s' s.recipients[i].1 s.recipients[i].2 := by
      rw [Registered, hclients]
      exact recipients_registered hi
    have hboth := (hone i hi).symm.trans (hdel.delivered _ _ hreg').1
    simpa using hboth
  · intro hall
    refine ⟨fun k d hkd => ?_, fun conn site q hq => ?_⟩
    · rw [Registered, hclients] at hkd
      obtain ⟨i, hi, heq⟩ := exists_recipient hkd
      have hpackets := hone i hi
      rw [heq, hall i hi] at hpackets
      obtain ⟨bs, hbs, hbytes⟩ := hstreams.sent d.session.conn
      rw [hpackets] at hbs
      exact ⟨hpackets, by rw [hbytes, hbs.eq_wire]⟩
    · -- no send of the loop failed
      rw [hlog] at hq
      rcases List.mem_append.mp hq with hq | hq
      · simp at hq
      · obtain ⟨x, hx, heq⟩ := List.mem_map.mp hq
        obtain ⟨i, hi, rfl⟩ := List.mem_mapIdx.mp hx
        rw [hall i hi] at heq
        cases heq

variable {env : Env}

/-- EXACT: the handling of a packet of a registered client returns if and only if every send of the
    loop does, and the packet is then delivered as a broadcast is if and only if the kernel takes
    the whole frame at every one of them. -/
theorem forwarding_iff (h : Reach na env s) (hen : (Event.client fd).enabled s = true)
    (hl : s.clients.lookup fd = some c) (hreg : c.registered = true)
    (hd : CliChat.recvPacket (s.kernel.conns c.session.conn).toServer = .done (some p) ch) :
    ((∃ s', step na env (.client fd) s = some s') ↔
      ∀ i < s.recipients.length, (env.sched (s.kernel.sends + i)).Returns) ∧
    ∀ s', step na env (.client fd) s = some s' →
      (Delivered s s' (eventLog na env (.client fd) s) c.session.conn p ↔
        ∀ i < s.recipients.length, s.takes env p i = true) := by
  obtain ⟨t, hstep, hsends, hiff⟩ := forward_delivered h.returning hen hl hreg hd
  have hwindow : SendsReturn na env (.client fd) s ↔
      ∀ i < s.recipients.length, (env.sched (s.kernel.sends + i)).Returns := by
    rw [SendsReturn, step_stateAfter na env.returning hstep, hsends]
    constructor
    · exact fun hret i hi => hret _ (Nat.le_add_right _ _) (Nat.add_lt_add_left hi _)
    · intro hret k hk hk'
      obtain ⟨i, rfl⟩ := Nat.exists_eq_add_of_le hk
      exact hret i (Nat.lt_of_add_lt_add_left hk')
  refine ⟨⟨?_, fun hret => ?_⟩, fun s' hs' => ?_⟩
  · rintro ⟨s', hs'⟩
    exact hwindow.mp (step_returning hs').1
  · exact ⟨t, step_of_returning (hwindow.mpr hret) hstep⟩
  · obtain ⟨hret, hs''⟩ := step_returning hs'
    obtain rfl : t = s' := Option.some.inj (hstep.symm.trans hs'')
    rw [hret.eventLog, hiff]
    exact forall₂_congr fun i hi => by rw [takes_returning (hwindow.mp hret i hi)]

end event

/-- Two clients have joined, and the first says something. -/
def sampleChat (bad : List ℕ) : Option Server :=
  sampleRun bad (joins 0 5 (ascii "al") ++ joins 1 6 (ascii "bo") ++
    [.net (.arrive 0 (wire (ascii "hi")))])

/-- It reaches both. -/
theorem forwarding_two : ∃ s s', sampleChat [] = some s ∧
    step Sodium.plain (Env.failing []) (.client 5) s = some s' ∧
    Delivered s s' (eventLog Sodium.plain (Env.failing []) (.client 5) s) 0 (ascii "hi") := by
  have hrun : ((sampleChat []).any fun s => decide ((Event.client 5).enabled s = true ∧
      (s.clients.lookup 5).map (fun c => (c.registered, c.session.conn)) = some (true, 0) ∧
      (recvPacket (s.kernel.conns 0).toServer).packet = some (ascii "hi") ∧
      ∀ i < s.recipients.length, s.takes (Env.failing []) (ascii "hi") i = true)) = true := by
    decide +kernel
  obtain ⟨s, hs, heq⟩ := (Option.any_eq_true _ _).mp hrun
  obtain ⟨hen, hentry, hread, htakes⟩ := of_decide_eq_true heq
  obtain ⟨c, hl, hc⟩ := Option.map_eq_some_iff.mp hentry
  obtain ⟨hreg, hconn⟩ := Prod.mk.inj hc
  obtain ⟨ch, hd⟩ := Recvd.packet_eq_some.mp hread
  rw [← hconn] at hd
  obtain ⟨hreturns, hiff⟩ := forwarding_iff (sampleRun_reach hs) hen hl hreg hd
  obtain ⟨s', hstep⟩ := hreturns.mpr fun _ _ => trivial
  exact ⟨s, s', hs, hstep, hconn ▸ (hiff s' hstep).mpr htakes⟩

/-- BUG: the send to the second fails. It stays registered, and misses the packet. -/
theorem forwarding_failed : ∃ s s', sampleChat [7] = some s ∧
    step Sodium.plain (Env.failing [7]) (.client 5) s = some s' ∧
    (s'.clients.lookup 6).map (fun d => (d.registered, d.session.conn)) = some (true, 1) ∧
    ¬Delivered s s' (eventLog Sodium.plain (Env.failing [7]) (.client 5) s) 0 (ascii "hi") := by
  have hrun : ((sampleChat [7]).any fun s =>
      (step Sodium.plain (Env.failing [7]) (.client 5) s).any fun s' =>
      decide ((s'.clients.lookup 6).map (fun d => (d.registered, d.session.conn)) =
          some (true, 1) ∧
        Ev.send 1 (.forward 0) (ascii "hi") false ∈
          eventLog Sodium.plain (Env.failing [7]) (.client 5) s)) = true := by
    decide +kernel
  obtain ⟨s, hs, hrest⟩ := (Option.any_eq_true _ _).mp hrun
  obtain ⟨s', hs', heq⟩ := (Option.any_eq_true _ _).mp hrest
  obtain ⟨hentry, hfailed⟩ := of_decide_eq_true heq
  refine ⟨s, s', hs, hs', hentry, fun hdel => ?_⟩
  obtain ⟨d, hl, hd⟩ := Option.map_eq_some_iff.mp hentry
  exact hdel.removed 1 _ _ hfailed 6 d hl (Prod.mk.inj hd).2

end CliChat
