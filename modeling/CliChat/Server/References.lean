import CliChat.Server.Discipline

/-! @src server/src/server.cpp | name:HandleClientEvent, DisconnectClient | scheme:live references

    Which uses of a `ClientInfo&` find their entry. `DisconnectClient` erases the entry last, and
    every handler returns right after it disconnected its own client, with one exception: a
    registration announces the client, which may disconnect it, and then prints its name. -/

namespace CliChat

open Transition

section references

variable (na : Sodium) (env : ReturningEnv) {s s' : Server}

/-- The event registers a client, and a send to that client fails before the handler is done. -/
def LosesItself (env : Env) (s : Server) (e : Event) : Prop :=
  ∃ fd c uname, e = .client fd ∧ s.clients.lookup fd = some c ∧ AsksFor na s c uname ∧
    uname ∉ s.usernames ∧ ∃ m, (m, false) ∈ boxesTo c.session.conn (eventLog na env e s)

/-- A registration uses the client once more, after the broadcast of its arrival: the entry is
    there unless a send to the client failed. -/
theorem registration_log (hs : Store s) {fd : Fd} {c : ClientInfo}
    (hl : s.clients.lookup fd = some c) (hk : c.keyExchanged = true) (hreg : c.registered = false)
    {uname : Bytes} (hu : uname ∉ s.usernames) :
    ∃ T live, (((s.named fd c uname).broadcasted na env (connectNotice uname)).used fd).trace =
        (s.named fd c uname).trace ++ (T ++ [.access fd live]) ∧ (∀ e ∈ T, e.live = true) ∧
      (live = false ↔ ∃ m, (m, false) ∈ boxesTo c.session.conn T) := by
  have hn := hs.named hl hk hreg hu
  obtain ⟨T, rs, hd⟩ := broadcasted_departures na env hn (connectNotice uname)
  have hself : Registered (s.named fd c uname) fd { c with username := uname, registered := true } :=
    ⟨AList.lookup_replace_self _ (AList.mem_of_lookup hl), rfl⟩
  refine ⟨T, ((s.named fd c uname).broadcasted na env
    (connectNotice uname)).clients.lookup fd |>.isSome, ?_, ?_, ?_⟩
  · rw [Server.used_trace, hd.trace, List.append_assoc]
  · obtain ⟨T', hT', hp⟩ := (broadcasted_adds na env (s.named fd c uname) (connectNotice uname)).live
    rw [hd.trace, List.append_cancel_left_eq] at hT'
    rw [hT']
    exact hp
  · constructor
    · intro hnone
      have hmem : ⟨fd, { c with username := uname, registered := true }⟩ ∈ rs := by
        by_contra hnot
        rw [(hd.left fd _).mpr ⟨hself.1, hnot⟩] at hnone
        cases hnone
      exact ((hd.removed fd _).mp hmem).2
    · rintro ⟨m, hm⟩
      have hmem := (hd.removed fd _).mpr ⟨hself, m, hm⟩
      rcases hlook : ((s.named fd c uname).broadcasted na env
        (connectNotice uname)).clients.lookup fd with _ | d
      · rfl
      · obtain ⟨hld, hnot⟩ := (hd.left fd d).mp hlook
        obtain rfl := Option.some.inj (hself.1.symm.trans hld)
        exact absurd hmem hnot

/-- What precedes the broadcast of a registration. -/
theorem registration_prefix (s : Server) (fd : Fd) (c : ClientInfo) (p : Bytes) (ch : Chan)
    (uname : Bytes) :
    ∃ pre, ((((s.log (.dispatch c.session.conn)).received fd c (some p) ch).touch fd 1).named fd c
        uname).trace = s.trace ++ pre ∧ (∀ e ∈ pre, e.live = true) ∧
      boxesTo c.session.conn pre = [] := by
  refine ⟨[.dispatch c.session.conn, .access fd true, .access fd true, .access fd true,
    .recv c.session.conn (some p), .access fd true, .lock true, .unlock, .access fd true,
    .access fd true, .access fd true], ?_, ?_, rfl⟩
  · simp [Server.received, List.replicate_succ]
  · simp [Ev.live]

/-- A client that registers uses only live references, but for the last, if it is lost to its own
    arrival. -/
theorem registration_uses (hs : Store s) {fd : Fd} {c : ClientInfo}
    (hl : s.clients.lookup fd = some c) {p uname : Bytes} {ch : Chan}
    (hp : NamePacket na s c p ch uname) (hu : uname ∉ s.usernames)
    (hr : handle na env (.client fd) s =
      .ok () ((((((s.log (.dispatch c.session.conn)).received fd c (some p) ch).touch fd 1).named fd
        c uname).broadcasted na env (connectNotice uname)).used fd)) :
    ∃ T live, eventLog na env (.client fd) s = T ++ [.access fd live] ∧ (∀ ev ∈ T, ev.live = true) ∧
      (live = true ↔ ¬ LosesItself na env s (.client fd)) := by
  have hs' : Store (s.log (.dispatch c.session.conn)) := hs.sendsOnly (SendsOnly.log s _)
  have hl' : (((s.log (.dispatch c.session.conn)).received fd c (some p) ch).touch fd
      1).clients.lookup fd = some c := hl
  obtain ⟨pre, hpre, hlive, hbox⟩ := registration_prefix s fd c p ch uname
  obtain ⟨T, live, htr, hT, hiff⟩ := registration_log na env
    ((hs'.received fd c (some p) ch).touch fd 1) hl' hp.keyExchanged hp.unregistered hu
  have htrace : (stateAfter na env (.client fd) s).trace =
      s.trace ++ (pre ++ T ++ [.access fd live]) := by
    rw [stateAfter_eq, hr, resultState, htr, hpre, List.append_assoc, List.append_assoc]
  have hlog := eventLog_eq na env htrace
  have hboxes : boxesTo c.session.conn (pre ++ T ++ [.access fd live]) =
      boxesTo c.session.conn T := by
    rw [boxesTo_append, boxesTo_append, hbox, List.nil_append]
    exact List.append_nil _
  refine ⟨pre ++ T, live, hlog, fun ev hev => ?_, ?_⟩
  · rcases List.mem_append.mp hev with hev | hev
    · exact hlive ev hev
    · exact hT ev hev
  · rw [← Bool.not_eq_false, hiff, not_iff_not, ← hboxes, ← hlog]
    constructor
    · exact fun hm => ⟨fd, c, uname, rfl, hl, ⟨p, ch, hp⟩, hu, hm⟩
    · rintro ⟨k, d, uname', he, hd, -, -, hm⟩
      cases he
      obtain rfl : d = c := Option.some.inj (hd.symm.trans hl)
      exact hm

/-- STEP: the uses of references while an event is handled, whether its handler returns or not. -/
theorem event_uses (hs : Store s) {e : Event} (hen : e.enabled s = true) :
    (¬ LosesItself na env s e ∧ ∀ ev ∈ eventLog na env e s, ev.live = true) ∨
    ∃ T last, eventLog na env e s = T ++ [last] ∧ (∀ ev ∈ T, ev.live = true) ∧
      (last.live = true ↔ ¬ LosesItself na env s e) := by
  -- a log without breach, for an event that registers nobody
  have hfine : Adds Ev.live s (stateAfter na env e s) → ∀ ev ∈ eventLog na env e s,
      ev.live = true := by
    rintro ⟨T, hT, hp⟩
    rwa [eventLog_eq na env hT]
  by_cases hclient : ∃ fd, e = .client fd
  · obtain ⟨fd, rfl⟩ := hclient
    obtain ⟨c, hl, hout⟩ := client_outcome na env hs hen
    have hs' : Store (s.log (.dispatch c.session.conn)) := hs.sendsOnly (SendsOnly.log s _)
    have hlog : Adds Ev.live s (s.log (.dispatch c.session.conn)) := Adds.log (by rfl) s
    have hstate := stateAfter_eq na env (.client fd) s
    rcases hout.exceptions na env hs' hl with
      ⟨p, ch, uname, hp, hu, hr⟩ | ⟨p, ch, uname, hp, hu, hr⟩ | ⟨hno, hadds, -⟩
    · refine Or.inl ⟨?_, hfine ?_⟩
      · rintro ⟨k, d, uname', he, hd, hasks, hfree, -⟩
        cases he
        obtain rfl : d = c := Option.some.inj (hd.symm.trans hl)
        rw [hasks.unique ⟨p, ch, namePacket_log.mp hp⟩] at hfree
        exact hfree hu
      · rw [hstate, hr]
        exact (hlog.trans ((received_adds _ fd c (some p) ch).trans
          (touch_adds _ fd 1)).live).trans (lockedOut_adds na env _ fd c).1
    · obtain ⟨T, live, hT, hlive, hiff⟩ :=
        registration_uses na env hs hl (namePacket_log.mp hp) hu hr
      exact Or.inr ⟨T, .access fd live, hT, hlive, hiff⟩
    · refine Or.inl ⟨?_, hfine ?_⟩
      · rintro ⟨k, d, uname, he, hd, ⟨p, ch, hp⟩, -⟩
        cases he
        obtain rfl : d = c := Option.some.inj (hd.symm.trans hl)
        exact hno uname ⟨p, ch, namePacket_log.mpr hp⟩
      · rw [hstate]
        exact hlog.trans hadds.live
  · refine Or.inl ⟨?_, hfine (other_adds na env hs fun fd he => hclient ⟨fd, he⟩).1.sound.live⟩
    rintro ⟨fd, c, uname, he, -⟩
    exact hclient ⟨fd, he⟩

theorem event_live (hs : Store s) {e : Event} (hen : e.enabled s = true) :
    (∀ ev ∈ eventLog na env e s, ev.live = true) ↔ ¬ LosesItself na env s e := by
  rcases event_uses na env hs hen with ⟨hno, hlive⟩ | ⟨T, last, hlog, hT, hlast⟩
  · exact ⟨fun _ => hno, fun _ => hlive⟩
  · rw [hlog, List.forall_mem_append, List.forall_mem_singleton, hlast]
    exact and_iff_right hT

variable (env : Env)

/-- A handler of which a `send` does not return has not come to the last use. -/
theorem stopped_live (hs : Store s) {e : Event} (hen : e.enabled s = true)
    (hstop : ¬ SendsReturn na env e s) : ∀ ev ∈ eventLog na env e s, ev.live = true := by
  obtain ⟨x, hx⟩ := eventLog_stops na env hstop
  have hfirst : eventLog na env e s <+: eventLog na env.returning e s :=
    (List.prefix_append _ [x]).trans hx
  rcases event_uses na env.returning hs hen with ⟨-, hlive⟩ | ⟨T, last, hlog, hT, -⟩
  · exact fun ev hev => hlive ev (hfirst.subset hev)
  · rw [hlog, List.prefix_concat_iff] at hx
    rcases hx with heq | hx
    · rwa [(List.append_inj' heq rfl).1]
    · exact fun ev hev => hT ev (hx.subset (List.mem_append_left _ hev))

/-- REFERENCES: from every reachable state, the references used while an event is handled are live
    exactly when no client is lost to its own arrival (by a handler whose sends return); and in
    every run without such an event every use so far found its entry. -/
theorem references_live_iff (h : Reach na env s) :
    (∀ e, e.enabled s = true →
      ((∀ ev ∈ eventLog na env e s, ev.live = true) ↔
        ¬ (SendsReturn na env e s ∧ LosesItself na env s e))) ∧
    (∀ es s', Along (step na env) (fun e t => ¬ LosesItself na env t e) es s →
      run (step na env) es s = some s' → (∀ ev ∈ s.trace, ev.live = true) →
      ∀ ev ∈ s'.trace, ev.live = true) := by
  have hevent : ∀ {t : Server} {e : Event}, Store t → e.enabled t = true →
      SendsReturn na env e t →
      ((∀ ev ∈ eventLog na env e t, ev.live = true) ↔ ¬ LosesItself na env t e) := by
    intro t e ht hen hret
    have hloses : LosesItself na env t e ↔ LosesItself na env.returning t e := by
      unfold LosesItself
      rw [hret.eventLog]
    rw [hret.eventLog, hloses]
    exact event_live na env.returning ht hen
  refine ⟨fun e hen => ?_, ?_⟩
  · by_cases hret : SendsReturn na env e s
    · rw [hevent (h.store na env) hen hret, not_and]
      exact ⟨fun hno _ => hno, fun hno => hno hret⟩
    · exact iff_of_true (stopped_live na env (h.store na env) hen hret) fun hboth => hret hboth.1
  intro es s' halong hrun hlive
  have hinv : Store s' ∧ ∀ ev ∈ s'.trace, ev.live = true := by
    refine along_invariant (step na env) (I := fun t => Store t ∧ ∀ ev ∈ t.trace, ev.live = true)
      ?_ ⟨h.store na env, hlive⟩ halong hrun
    rintro e t t' ⟨hst, ht⟩ hcond hstep
    obtain ⟨hret, hstep'⟩ := step_returning hstep
    have hen := ((step_some na env).mp hstep).1
    have hpre := event_prefix na env.returning hst hen
    refine ⟨(hst.step na env hstep).1, ?_⟩
    have hnew := (hevent hst hen hret).mpr hcond
    rw [eventLog, step_stateAfter na env hstep] at hnew
    rw [step_stateAfter na env.returning hstep'] at hpre
    intro ev hev
    rw [List.prefix_iff_eq_append.mp hpre |>.symm] at hev
    rcases List.mem_append.mp hev with hev | hev
    · exact ht ev hev
    · exact hnew ev hev
  exact hinv.2

end references

/-- A client registers and its arrival reaches it: every use found its entry. -/
theorem references_live_first : ∃ s,
    sampleRun [] (connects 0 5 ++ [.net (.arrive 0 (wire (sampleSealed (ascii "al"))))]) = some s ∧
    boxesTo 0 (eventLog Sodium.plain (Env.failing []) (.client 5) s) =
      [(connectNotice (ascii "al"), true)] ∧
    ∀ ev ∈ eventLog Sodium.plain (Env.failing []) (.client 5) s, ev.live = true := by
  have hrun : (sampleRun [] (connects 0 5 ++
      [.net (.arrive 0 (wire (sampleSealed (ascii "al"))))])).map
      (fun s => ((Event.client 5).enabled s, (s.clients.lookup 5).map fun c => c.session.conn,
        boxesTo 0 (eventLog Sodium.plain (Env.failing []) (.client 5) s))) =
      some (true, some 0, [(connectNotice (ascii "al"), true)]) := by decide +kernel
  obtain ⟨s, hs, heq⟩ := Option.map_eq_some_iff.mp hrun
  simp only [Prod.mk.injEq] at heq
  obtain ⟨hen, howner, hboxes⟩ := heq
  refine ⟨s, hs, hboxes, ((references_live_iff Sodium.plain (Env.failing []) (sampleRun_reach hs)).1
    (.client 5) hen).mpr ?_⟩
  rintro ⟨-, fd, c, uname, he, hl, -, -, m, hm⟩
  cases he
  rw [hl, Option.map_some] at howner
  rw [Option.some.inj howner, hboxes] at hm
  simp at hm

/-- A client registers, and the announcement of its arrival fails for it: the entry is erased, and
    its name is printed. -/
theorem own_arrival_dangles : ¬ ∀ s, Reach Sodium.plain (Env.failing [2]) s →
    ∀ e, e.enabled s = true →
      ∀ ev ∈ eventLog Sodium.plain (Env.failing [2]) e s, ev.live = true := by
  intro hall
  have hrun : (sampleRun [2] (connects 0 5 ++
      [.net (.arrive 0 (wire (sampleSealed (ascii "al"))))])).map
      (fun s => ((Event.client 5).enabled s,
        (eventLog Sodium.plain (Env.failing [2]) (.client 5) s).all Ev.live)) =
      some (true, false) := by decide +kernel
  obtain ⟨s, hs, heq⟩ := Option.map_eq_some_iff.mp hrun
  rw [Prod.mk.injEq] at heq
  have hlive := List.all_eq_true.mpr (hall s (sampleRun_reach hs) (.client 5) heq.1)
  rw [heq.2] at hlive
  cases hlive

end CliChat
