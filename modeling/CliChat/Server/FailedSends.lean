import CliChat.Server.EventLoop

/-! @src server/src/server.cpp | name:SendPacket call sites | scheme:run invariant

    What follows a failed `SendPacket`. The key exchange and the forwarding loop do not look at the
    outcome; a broadcast disconnects the peers it failed for, one after the other, and announces
    each to those it has not come to yet. A run in which the former never happens and no pass
    fails twice sends nothing after a failure (`Clean` is the invariant). -/

namespace CliChat

open Transition

/-! ### The property and the condition -/

/-- The event is a failed call of `SendPacket` on the session of `id`. -/
def Ev.failsTo (id : ConnId) : Ev → Bool
  | .send conn _ _ ok => conn = id && !ok
  | _ => false

/-- If `a` is a failed `SendPacket`, `b` is none on the same session. -/
def Ev.noFrameAfter (a b : Ev) : Bool :=
  match a with
  | .send id _ _ false => !b.sendsTo id
  | _ => true

/-- No frame follows a failed one. -/
def NoFrameAfterFailure (l : List Ev) : Prop := l.Pairwise fun a b => a.noFrameAfter b = true

/-- A failure that the source does not look at: in the key exchange or in the forwarding loop. -/
def Ev.ignored : Ev → Bool
  | .send _ (.secretbox _) _ _ => false
  | .send _ _ _ ok => !ok
  | _ => false

/-- At most one `SendSecretbox` fails between two entries of `BroadcastEncrypted`; `seen` tells that
    one has failed since the last. -/
def onePerPass : Bool → List Ev → Bool
  | _, [] => true
  | _, .broadcast _ :: l => onePerPass false l
  | seen, .secretbox _ _ ok :: l => (ok || !seen) && onePerPass (seen || !ok) l
  | seen, _ :: l => onePerPass seen l

/-- The pattern of send failures: none is ignored, and no pass of a broadcast has two. -/
def SendsOk (l : List Ev) : Prop := (∀ e ∈ l, e.ignored = false) ∧ onePerPass false l = true

theorem noFrameAfter_iff {a b : Ev} :
    a.noFrameAfter b = true ↔ ∀ id, a.failsTo id = true → b.sendsTo id = false := by
  cases a with
  | send conn site p ok =>
    cases ok with
    | true => simp [Ev.noFrameAfter, Ev.failsTo]
    | false => simp [Ev.noFrameAfter, Ev.failsTo]
  | _ => simp [Ev.noFrameAfter, Ev.failsTo]

theorem failsTo_sendsTo {id : ConnId} {e : Ev} (h : e.failsTo id = true) : e.sendsTo id = true := by
  cases e <;> simp_all [Ev.failsTo, Ev.sendsTo]

theorem onePerPass_broadcast (msg : Bytes) (r : List Ev) : ∀ (l : List Ev) (seen : Bool),
    onePerPass seen (l ++ .broadcast msg :: r) = (onePerPass seen l && onePerPass false r) := by
  intro l
  induction l with
  | nil => intro seen; simp [onePerPass]
  | cons e l ih => intro seen; cases e <;> simp [onePerPass, ih, Bool.and_assoc]

theorem onePerPass_prefix (r : List Ev) : ∀ (l : List Ev) (seen : Bool),
    onePerPass seen (l ++ r) = true → onePerPass seen l = true := by
  intro l
  induction l with
  | nil => intro seen _; rfl
  | cons e l ih =>
    intro seen h
    cases e with
    | secretbox conn msg ok =>
      simp only [List.cons_append, onePerPass, Bool.and_eq_true] at h ⊢
      exact ⟨h.1, ih _ h.2⟩
    | _ => exact ih _ h

/-- Within a pass at most one failure is seen. -/
theorem onePerPass_count : ∀ (l : List Ev) (seen : Bool), (∀ e ∈ l, e.departs = false) →
    onePerPass seen l = true → (l.filter Ev.boxFails).length ≤ if seen then 0 else 1 := by
  intro l
  induction l with
  | nil => intro seen _ _; simp
  | cons e l ih =>
    intro seen hno h
    have hl : ∀ e ∈ l, e.departs = false := fun e he => hno e (List.mem_cons_of_mem _ he)
    cases e with
    | broadcast msg => exact absurd (hno _ List.mem_cons_self) (by simp [Ev.departs])
    | secretbox conn msg ok =>
      simp only [onePerPass, Bool.and_eq_true] at h
      have hrest := ih _ hl h.2
      cases ok with
      | true => simpa [Ev.boxFails] using hrest
      | false =>
        have hseen : seen = false := by simpa using h.1
        subst hseen
        simp [Ev.boxFails] at hrest ⊢
        exact hrest
    | _ => exact ih _ hl h

theorem SendsOk.of_prefix {l m : List Ev} (h : SendsOk m) (hlm : l <+: m) : SendsOk l := by
  obtain ⟨r, rfl⟩ := hlm
  exact ⟨fun e he => h.1 e (List.mem_append_left _ he), onePerPass_prefix r l false h.2⟩

/-! ### The invariant -/

/-- Some `SendPacket` on the session of `id` has failed. -/
def HasFailed (s : Server) (id : ConnId) : Prop := ∃ e ∈ s.trace, e.failsTo id = true

/-- No frame followed a failed one, and who had a failure has left. -/
structure Clean (s : Server) : Prop where
  order : NoFrameAfterFailure s.trace
  gone : ∀ id, HasFailed s id → ∀ fd c, s.clients.lookup fd = some c → c.session.conn ≠ id
  old : ∀ id, HasFailed s id → id < s.kernel.accepted

/-- The loop invariant of a broadcast: who had a failure and is still there is the one descriptor
    that waits. -/
structure Purging (W : List Fd) (t : Server) : Prop where
  order : NoFrameAfterFailure t.trace
  waits : ∀ id, HasFailed t id → ∀ fd c, t.clients.lookup fd = some c → c.session.conn = id →
    fd ∈ W
  old : ∀ id, HasFailed t id → id < t.kernel.accepted
  short : W.length ≤ 1

section clean

variable {na : Sodium} {env : ReturningEnv} {s s' t : Server} {T : List Ev}

theorem hasFailed_append (h : s'.trace = s.trace ++ T) {id : ConnId} :
    HasFailed s' id ↔ HasFailed s id ∨ ∃ e ∈ T, e.failsTo id = true := by
  unfold HasFailed
  rw [h]
  constructor
  · rintro ⟨e, he, hf⟩
    rcases List.mem_append.mp he with he | he
    · exact Or.inl ⟨e, he, hf⟩
    · exact Or.inr ⟨e, he, hf⟩
  · rintro (⟨e, he, hf⟩ | ⟨e, he, hf⟩)
    · exact ⟨e, List.mem_append_left _ he, hf⟩
    · exact ⟨e, List.mem_append_right _ he, hf⟩

/-- Sends to clients that are there come after no failure. -/
theorem Clean.order_append (h : Clean s) (htr : s'.trace = s.trace ++ T)
    (hT : ∀ e ∈ T, ∀ id, e.sendsTo id = true →
      ∃ fd c, s.clients.lookup fd = some c ∧ c.session.conn = id)
    (hord : NoFrameAfterFailure T) : NoFrameAfterFailure s'.trace := by
  rw [htr, NoFrameAfterFailure, List.pairwise_append]
  refine ⟨h.order, hord, fun a ha b hb => noFrameAfter_iff.mpr fun id hid => ?_⟩
  by_contra hsend
  obtain ⟨fd, c, hl, hconn⟩ := hT b hb id (by simpa using hsend)
  exact h.gone id ⟨a, ha, hid⟩ fd c hl hconn

/-- Successful sends to clients that are there keep the invariant. -/
theorem Clean.quiet (h : Clean s) (hev : Evolves s s') (htr : s'.trace = s.trace ++ T)
    (hT : ∀ e ∈ T, ∀ id, e.sendsTo id = true →
      e.failsTo id = false ∧ ∃ fd c, s.clients.lookup fd = some c ∧ c.session.conn = id) :
    Clean s' := by
  have hnofail : ∀ e ∈ T, ∀ id, e.failsTo id = false := by
    intro e he id
    by_contra hf
    have hf' : e.failsTo id = true := by simpa using hf
    rw [(hT e he id (failsTo_sendsTo hf')).1] at hf'
    cases hf'
  have hfailed : ∀ id, HasFailed s' id → HasFailed s id := by
    intro id hid
    rcases (hasFailed_append htr).mp hid with hid | ⟨e, he, hf⟩
    · exact hid
    · rw [hnofail e he id] at hf
      cases hf
  refine ⟨h.order_append htr (fun e he id hid => (hT e he id hid).2) ?_, ?_, ?_⟩
  · refine List.pairwise_of_forall_mem_list fun a ha b _ => noFrameAfter_iff.mpr fun id hid => ?_
    rw [hnofail a ha id] at hid
    cases hid
  · intro id hid fd c hl hconn
    have hold := h.old id (hfailed id hid)
    obtain ⟨c₀, hc₀, hgrow⟩ := hev.entries fd c hl (hconn ▸ hold)
    exact h.gone id (hfailed id hid) fd c₀ hc₀ (hgrow.conn.symm.trans hconn)
  · exact fun id hid => (h.old id (hfailed id hid)).trans_le hev.accepted

/-- A pass from a state without failures leaves those it failed for waiting. -/
theorem Clean.pass (hs : Store s) (h : Clean s) (msg : Bytes)
    (hok : SendsOk ((cascade na env).send msg s).2.trace) :
    Purging ((cascade na env).send msg s).1 ((cascade na env).send msg s).2 := by
  obtain ⟨hsend, P, hP, htr⟩ := cascade_pass na env hs.table msg
  have hthere : ∀ e ∈ P, ∀ id, e.sendsTo id = true →
      ∃ fd c, Registered s fd c ∧ c.session.conn = id :=
    fun e he id hid => hP.only e he id (sendsTo_isTo hid)
  refine ⟨h.order_append htr ?_ ?_, ?_, ?_, ?_⟩
  · intro e he id hid
    obtain ⟨fd, c, hc, hconn⟩ := hthere e he id hid
    exact ⟨fd, c, hc.1, hconn⟩
  · exact hP.once.imp fun hab => noFrameAfter_iff.mpr fun id hid => hab id (failsTo_sendsTo hid)
  · intro id hid fd c hl hconn
    rw [hsend.clients] at hl
    rcases (hasFailed_append htr).mp hid with hid | ⟨e, he, hf⟩
    · exact absurd hconn (h.gone id hid fd c hl)
    · obtain ⟨k, d, hd, hdconn⟩ := hthere e he id (failsTo_sendsTo hf)
      obtain ⟨rfl, rfl⟩ := hs.table.conn_inj hd.1 hl (hdconn.trans hconn.symm)
      by_contra hnot
      -- a recipient that is not listed was sent one packet, with success
      have hsent := (hP.reached k d hd hnot).2
      cases e with
      | send conn site p ok =>
        simp only [Ev.failsTo, Bool.and_eq_true, decide_eq_true_eq] at hf
        obtain ⟨rfl, hfalse⟩ := hf
        have hmem : (site, p, ok) ∈ packetsTo d.session.conn P :=
          List.mem_filterMap.mpr ⟨_, he, by rw [Ev.packetTo, if_pos hconn.symm]⟩
        have hmem' := List.mem_map_of_mem (f := fun x : Site × Bytes × Bool => (x.1, x.2.2)) hmem
        rw [hsent, List.mem_singleton] at hmem'
        cases hmem'
        cases hfalse
      | _ => cases hf
  · intro id hid
    rw [hsend.accepted]
    rcases (hasFailed_append htr).mp hid with hid | ⟨e, he, hf⟩
    · exact h.old id hid
    · obtain ⟨k, d, hd, rfl⟩ := hthere e he id (failsTo_sendsTo hf)
      exact hs.table.fresh k _ (hs.table.entry k d hd.1).2.2.2
  · obtain ⟨Q, rfl, hQ⟩ := hP.shape
    have honce := hok.2
    rw [htr, onePerPass_broadcast, Bool.and_eq_true] at honce
    rw [hP.count, List.filter_cons_of_neg (by simp [Ev.boxFails])]
    simpa using onePerPass_count Q false hQ honce.2

theorem mem_dropLog_sendsTo {fd : Fd} {c : ClientInfo} {id : ConnId} {e : Ev}
    (he : e ∈ dropLog fd c) : e.sendsTo id = false := by
  by_contra hid
  have hsends : e.sendsTo id = true := by simpa using hid
  have hto := sendsTo_isTo hsends
  rw [dropLog_isTo fd c id e he] at hto
  cases hto

/-- A disconnect fails for nobody. -/
theorem hasFailed_dropped {fd : Fd} {c : ClientInfo} {id : ConnId} :
    HasFailed (t.dropped fd c) id ↔ HasFailed t id := by
  rw [hasFailed_append (dropped_log t fd c)]
  refine or_iff_left ?_
  rintro ⟨e, he, hf⟩
  have hsend := failsTo_sendsTo hf
  rw [mem_dropLog_sendsTo he] at hsend
  cases hsend

/-- Once the one that waits is disconnected, nobody with a failure is left. -/
theorem Purging.dropped {fd : Fd} {rest : List Fd} (h : Purging (fd :: rest) t) (c : ClientInfo) :
    Clean (t.dropped fd c) ∧ rest = [] := by
  have hrest : rest = [] := by
    have := h.short
    rw [List.length_cons] at this
    exact List.length_eq_zero_iff.mp (by omega)
  refine ⟨⟨?_, ?_, ?_⟩, hrest⟩
  · rw [dropped_log, NoFrameAfterFailure, List.pairwise_append]
    refine ⟨h.order, List.pairwise_of_forall_mem_list fun a _ b hb => ?_, fun a _ b hb => ?_⟩ <;>
      exact noFrameAfter_iff.mpr fun id _ => mem_dropLog_sendsTo hb
  · intro id hid k d hd hconn
    have hmem := h.waits id (hasFailed_dropped.mp hid) k d ((Shrinks.dropped t fd c).lookup hd) hconn
    rw [hrest, List.mem_singleton] at hmem
    rw [hmem, Server.dropped_clients, AList.lookup_erase] at hd
    cases hd
  · intro id hid
    exact (h.old id (hasFailed_dropped.mp hid)).trans_eq (Shrinks.dropped t fd c).accepted.symm

variable (na env)

/-- A broadcast whose passes fail at most once each leaves nobody with a failure. -/
theorem Clean.broadcasted (hs : Store s) (h : Clean s) (msg : Bytes)
    (hok : SendsOk (s.broadcasted na env msg).trace) : Clean (s.broadcasted na env msg) := by
  have hloop : Store (s.broadcasted na env msg) ∧
      (SendsOk (s.broadcasted na env msg).trace → Purging [] (s.broadcasted na env msg)) := by
    refine broadcasted_invariant na env
      (I := fun W t => Store t ∧ (SendsOk t.trace → Purging W t)) ?_ ?_ ?_ ?_
    · exact ⟨hs.sendsOnly (cascade_send na env msg s).1, fun hok => h.pass hs msg hok⟩
    · rintro fd rest t ⟨ht, hp⟩ hl
      refine ⟨ht, fun hok => ?_⟩
      have hpur := hp hok
      refine ⟨hpur.order, ?_, hpur.old, (Nat.le_succ _).trans hpur.short⟩
      intro id hid k d hd hconn
      rcases List.mem_cons.mp (hpur.waits id hid k d hd hconn) with rfl | hmem
      · rw [hl] at hd
        cases hd
      · exact hmem
    · rintro fd rest t c ⟨ht, hp⟩ hl -
      refine ⟨ht.dropped hl, fun hok => ?_⟩
      obtain ⟨hclean, hrest⟩ := (hp (hok.of_prefix (Shrinks.dropped t fd c).trace)).dropped c
      exact ⟨hclean.order, fun id hid k d hd hconn => absurd hconn (hclean.gone id hid k d hd),
        hclean.old, by rw [hrest]; simp⟩
    · rintro fd rest t c ⟨ht, hp⟩ hl -
      have hst := ht.dropped hl
      refine ⟨hst.sendsOnly (cascade_send na env _ _).1, fun hok => ?_⟩
      have hpre := (Shrinks.dropped t fd c).trace.trans
        (shrinks_send na env (disconnectNotice c.username) (t.dropped fd c)).trace
      obtain ⟨hclean, hrest⟩ := (hp (hok.of_prefix hpre)).dropped c
      rw [hrest, List.append_nil]
      exact hclean.pass hst _ hok
  have hpur := hloop.2 hok
  refine ⟨hpur.order, ?_, hpur.old⟩
  intro id hid fd c hl hconn
  have := hpur.waits id hid fd c hl hconn
  simp at this

/-! ### Handlers -/

variable {na env} {fd : Fd} {c : ClientInfo}

/-- A log without sends. -/
theorem Clean.silent (h : Clean s) (hev : Evolves s s') (htr : s'.trace = s.trace ++ T)
    (hT : ∀ e ∈ T, ∀ id, e.sendsTo id = false) : Clean s' :=
  h.quiet hev htr fun e he id hid => by rw [hT e he id] at hid; cases hid

theorem Clean.adds (h : Clean s) (hev : Evolves s s')
    (hadds : ∀ id, Adds (fun e => !e.sendsTo id) s s') : Clean s' := by
  obtain ⟨T, hT, hnot⟩ := Adds.uniform hadds
  exact h.silent hev hT fun e he id => by simpa using hnot id e he

/-- A log whose sends all go to one client that is there, and are looked at by nobody. -/
theorem Clean.ignored (h : Clean s) (hl : s.clients.lookup fd = some c) (hev : Evolves s s')
    (htr : s'.trace = s.trace ++ T) (hok : SendsOk s'.trace)
    (hT : ∀ e ∈ T, ∀ id, e.sendsTo id = true →
      c.session.conn = id ∧ (e.failsTo id = true → e.ignored = true)) : Clean s' := by
  refine h.quiet hev htr fun e he id hid => ⟨?_, fd, c, hl, (hT e he id hid).1⟩
  by_contra hf
  have hign := (hT e he id hid).2 (by simpa using hf)
  rw [hok.1 e (by rw [htr]; exact List.mem_append_right _ he)] at hign
  cases hign

theorem Clean.received (h : Clean s) (fd : Fd) (c : ClientInfo) (pkt : Option Bytes) (ch : Chan)
    (n : ℕ) : Clean ((s.received fd c pkt ch).touch fd n) :=
  h.adds (Evolves.of_clients rfl rfl) fun _ =>
    (Adds.received rfl rfl s ch).trans (.touch rfl _ n)

theorem Clean.dropped (h : Clean s) : Clean (s.dropped fd c) :=
  h.silent (Evolves.of_shrinks (Shrinks.dropped s fd c)) (dropped_log s fd c)
    fun _ he _ => mem_dropLog_sendsTo he

theorem Clean.disconnected (hs : Store s) (h : Clean s) (hl : s.clients.lookup fd = some c)
    (hok : SendsOk (s.disconnected na env fd c).trace) : Clean (s.disconnected na env fd c) := by
  rw [Server.disconnected] at hok ⊢
  split at hok
  · rename_i hreg
    rw [if_pos hreg]
    exact (h.dropped).broadcasted na env (hs.dropped hl) _ hok
  · rename_i hreg
    rw [if_neg hreg]
    exact h.dropped

theorem Clean.keyStored (h : Clean s) (hs : Store s) (hl : s.clients.lookup fd = some c)
    (pk : Bytes) (hok : SendsOk (s.keyStored env fd c pk).trace) :
    Clean (s.keyStored env fd c pk) := by
  obtain ⟨ok, htr⟩ := keyStored_trace env s fd c pk
  refine h.ignored hl (hs.keyStored env hl pk).2 htr hok fun e he id hid => ?_
  simp only [List.mem_cons, List.not_mem_nil, or_false] at he
  rcases he with rfl | rfl | rfl | rfl <;>
    simp_all [Ev.sendsTo, Ev.failsTo, Ev.ignored]

theorem Clean.keyed (h : Clean s) (hs : Store s) (hl : s.clients.lookup fd = some c)
    (payload : Bytes) (hok : SendsOk (s.keyed env fd c payload).trace) :
    Clean (s.keyed env fd c payload) := by
  obtain ⟨ok, htr⟩ := keyed_trace env s fd c payload
  refine h.ignored hl (hs.keyed' env hl payload).2 htr hok fun e he id hid => ?_
  simp only [List.mem_cons, List.not_mem_nil, or_false] at he
  rcases he with rfl | rfl | rfl <;>
    simp_all [Ev.sendsTo, Ev.failsTo, Ev.ignored]

theorem Clean.forwarded (h : Clean s) (src : ConnId) (pkt : Bytes)
    (hok : SendsOk (s.forwardTo env src pkt s.clients.entries).trace) :
    Clean (s.forwardTo env src pkt s.clients.entries) := by
  obtain ⟨hsend, sent, hsent, htr⟩ := forwardTo_spec env src pkt s.clients.entries s
  refine h.quiet (Evolves.of_sendsOnly hsend) htr fun e he id hid => ?_
  obtain ⟨⟨d, ok⟩, hx, rfl⟩ := List.mem_map.mp he
  have hign := hok.1 _ (by rw [htr]; exact List.mem_append_right _ he)
  refine ⟨?_, ?_⟩
  · simp_all [Ev.ignored, Ev.failsTo]
  · have hmem : d ∈ (s.clients.entries.filter fun e => e.2.registered).map Sigma.snd :=
      hsent ▸ List.mem_map_of_mem (f := Prod.fst) hx
    obtain ⟨⟨k, d'⟩, hentry, rfl⟩ := List.mem_map.mp hmem
    refine ⟨k, d', AList.lookup_of_mem_entries (List.mem_filter.mp hentry).1, ?_⟩
    simpa [Ev.sendsTo] using hid

theorem Clean.named (h : Clean s) (hl : s.clients.lookup fd = some c) (hk : c.keyExchanged = true)
    (hreg : c.registered = false) (uname : Bytes) : Clean (s.named fd c uname) := by
  have hgrow : Grows c { c with username := uname, registered := true } :=
    ⟨rfl, fun _ => hk, fun _ => rfl, fun hr => by rw [hreg] at hr; cases hr⟩
  have hev : Evolves s (s.named fd c uname) := Evolves.of_replace rfl hl rfl hgrow
  refine h.silent hev rfl fun e he id => ?_
  simp only [List.mem_cons, List.not_mem_nil, or_false] at he
  rcases he with rfl | rfl | rfl | rfl | rfl <;> rfl

/-- The message to the client of a taken name is the last. -/
theorem Clean.lockedOut (h : Clean s) (hl : s.clients.lookup fd = some c) :
    NoFrameAfterFailure (s.lockedOut na env fd c).trace := by
  obtain ⟨-, payload, -, -, htr⟩ := sendSecretbox_spec na env c.session
    (ascii "SERVER::USERNAME_TAKEN") (s.locked.touch fd 1)
  generalize ((s.locked.touch fd 1).sendSecretbox na env c.session
    (ascii "SERVER::USERNAME_TAKEN")).1 = ok at htr
  have htr' : (s.lockedOut na env fd c).trace = s.trace ++ ([.lock true, .access fd true] ++
      boxEvents c.session.conn (ascii "SERVER::USERNAME_TAKEN") payload ok ++ [.lock false]) := by
    have hlocked : (s.locked.touch fd 1).trace = s.trace ++ [.lock true, .access fd true] :=
      List.append_assoc _ _ _
    rw [Server.lockedOut, Server.log_trace, htr, hlocked, List.append_assoc, List.append_assoc,
      ← List.append_assoc [_, _]]
  refine h.order_append htr' ?_ ?_
  · intro e he id hid
    simp only [List.mem_append, List.mem_cons, List.not_mem_nil, or_false] at he
    rcases he with ((rfl | rfl) | he) | rfl
    · cases hid
    · cases hid
    · exact ⟨fd, c, hl, isTo_boxEvents id _ _ _ _ e he (sendsTo_isTo hid)⟩
    · cases hid
  · rw [NoFrameAfterFailure, List.pairwise_append, List.pairwise_append]
    refine ⟨⟨?_, (once_boxEvents _ _ payload ok).imp fun hab => noFrameAfter_iff.mpr fun id hid =>
      hab id (failsTo_sendsTo hid), ?_⟩, List.pairwise_singleton _ _, ?_⟩
    · simp [Ev.noFrameAfter]
    · intro a ha b _
      simp only [List.mem_cons, List.not_mem_nil, or_false] at ha
      rcases ha with rfl | rfl <;> rfl
    · intro a _ b hb
      rw [List.mem_singleton.mp hb]
      exact noFrameAfter_iff.mpr fun _ _ => rfl

/-- Every way through `HandleClientEvent`: no frame follows a failed one, and if the handler
    returns, who had a failure has left. -/
theorem Outcome.clean (hs : Store s) (h : Clean s) (hl : s.clients.lookup fd = some c)
    {r : EStateM.Result Fault Server Unit} (hout : Outcome na env s fd c r)
    (hok : SendsOk (resultState r).trace) :
    NoFrameAfterFailure (resultState r).trace ∧ ∀ s', r = .ok () s' → Clean s' := by
  have hdone : ∀ t, Clean t → (NoFrameAfterFailure t.trace ∧
      ∀ s', (EStateM.Result.ok () t : EStateM.Result Fault Server Unit) = .ok () s' → Clean s') := by
    intro t ht
    refine ⟨ht.order, fun s' heq => ?_⟩
    cases heq
    exact ht
  have hstore : ∀ pkt ch n, Store ((s.received fd c pkt ch).touch fd n) :=
    fun pkt ch n => (hs.received fd c pkt ch).touch fd n
  have hlook : ∀ pkt ch n, ((s.received fd c pkt ch).touch fd n).clients.lookup fd = some c :=
    fun _ _ _ => hl
  have hzero : ∀ t : Server, t.touch fd 0 = t := fun t => t.touch_zero fd
  cases hout with
  | blocked hb =>
    have htouch : Clean (s.touch fd 3) :=
      h.adds (Evolves.of_clients rfl rfl) fun _ => .touch rfl s 3
    exact ⟨htouch.order, fun s' heq => by cases heq⟩
  | @noKey pkt ch hk hd hlen =>
    have hr := h.received fd c pkt ch 0
    rw [hzero] at hr
    exact hdone _ hr
  | @badKey pk ch nonce hk hd hlen hbox =>
    have hr := h.received fd c (some pk) ch 0
    have hsr := hstore (some pk) ch 0
    have hlr := hlook (some pk) ch 0
    rw [hzero] at hr hsr hlr
    have hsk := (hsr.keyStored env hlr pk).1
    have hck := hr.keyStored hsr hlr pk
      (hok.of_prefix (shrinks_disconnected na env _ fd { c with clientPk := pk }).trace)
    exact hdone _ (hck.disconnected hsk (keyStored_lookup env hlr pk) hok)
  | @keyed pk ch nonce cipher hk hd hlen hnonce hbox =>
    have hr := h.received fd c (some pk) ch 0
    have hsr := hstore (some pk) ch 0
    have hlr := hlook (some pk) ch 0
    rw [hzero] at hr hsr hlr
    have hsk := (hsr.keyStored env hlr pk).1
    obtain ⟨ok, htr⟩ := keyed_trace env ((s.received fd c (some pk) ch).keyStored env fd c pk) fd
      { c with clientPk := pk } (nonce ++ cipher)
    have hck := hr.keyStored hsr hlr pk (hok.of_prefix (htr ▸ List.prefix_append _ _))
    exact hdone _ (hck.keyed hsk (keyStored_lookup env hlr pk) (nonce ++ cipher) hok)
  | @rejected pkt ch n hk hd hrej =>
    exact hdone _ ((h.received fd c pkt ch n).disconnected (hstore pkt ch n) (hlook pkt ch n) hok)
  | @tooShort p ch hk hreg hd hlong hover =>
    exact ⟨(h.received fd c (some p) ch 1).order, fun s' heq => by cases heq⟩
  | @taken p ch uname hk hreg hd hname hu =>
    exact ⟨(h.received fd c (some p) ch 1).lockedOut (hlook (some p) ch 1),
      fun s' heq => by cases heq⟩
  | @named p ch uname hk hreg hd hname hu =>
    have hn := (h.received fd c (some p) ch 1).named (hlook (some p) ch 1) hk hreg uname
    have hsn := (hstore (some p) ch 1).named (hlook (some p) ch 1) hk hreg hu
    have hb := hn.broadcasted na env hsn (connectNotice uname)
      (hok.of_prefix (List.prefix_append _ _))
    exact hdone _ (hb.silent (Evolves.of_sendsOnly (SendsOnly.log _ _)) rfl (by simp [Ev.sendsTo]))
  | @forwarded p ch hk hreg hd =>
    exact hdone _ ((h.received fd c (some p) ch 1).forwarded c.session.conn p hok)

end clean

/-! ### Runs -/

section runs

variable (na : Sodium) (env : ReturningEnv) {s s' : Server}

/-- STEP: an event keeps the order of frames, and the invariant if its handler returns. -/
theorem event_clean (hs : Store s) (h : Clean s) {e : Event} (hen : e.enabled s = true)
    (hok : SendsOk (stateAfter na env e s).trace) :
    NoFrameAfterFailure (stateAfter na env e s).trace ∧
      ∀ s', step na env e s = some s' → Clean s' := by
  by_cases hclient : ∃ fd, e = .client fd
  · obtain ⟨fd, rfl⟩ := hclient
    obtain ⟨c, hl, hout⟩ := client_outcome na env hs hen
    have hdisp : Clean (s.log (.dispatch c.session.conn)) :=
      h.silent (Evolves.of_clients rfl rfl) rfl (by simp [Ev.sendsTo])
    rw [stateAfter_eq] at hok ⊢
    obtain ⟨hord, hclean⟩ := hout.clean (hs.sendsOnly (SendsOnly.log s _)) hdisp hl hok
    exact ⟨hord, fun s' hstep => hclean s' ((step_some na env).mp hstep).2⟩
  · obtain ⟨⟨T, hT, hcloses⟩, -⟩ := other_adds na env hs fun fd he => hclient ⟨fd, he⟩
    have hmute : ∀ ev ∈ T, ∀ id, ev.sendsTo id = false := by
      intro ev hev id
      have := hcloses ev hev
      cases ev <;> simp_all [Ev.closes, Ev.sendsTo]
    refine ⟨h.order_append hT (fun ev hev id hid => ?_) ?_, fun s' hstep => ?_⟩
    · rw [hmute ev hev id] at hid
      cases hid
    · exact List.pairwise_of_forall_mem_list fun a _ b hb =>
        noFrameAfter_iff.mpr fun id _ => hmute b hb id
    · rw [step_stateAfter na env hstep] at hT
      exact h.silent (hs.step na env hstep).2 hT hmute

theorem Initial.clean (h : Initial s) : Clean s := by
  obtain ⟨l, ep, pk, sk, gk, -, -, -, -, rfl⟩ := h
  have hno : ∀ id, ¬ HasFailed (Server.started l ep pk sk gk) id := by
    rintro id ⟨e, he, -⟩
    cases he
  exact ⟨List.Pairwise.nil, fun id hid => absurd hid (hno id), fun id hid => absurd hid (hno id)⟩

/-- INVARIANT: in every reachable state whose failures are of the pattern. -/
theorem Reach.clean (h : Reach na env s) (hok : SendsOk s.trace) : Clean s := by
  have hinv : Store s ∧ (SendsOk s.trace → Clean s) := by
    refine Reachable.invariant (I := fun s => Store s ∧ (SendsOk s.trace → Clean s))
      (fun t ht => ⟨ht.store, fun _ => ht.clean⟩) ?_ h
    rintro e t t' ⟨hs, hclean⟩ hstep
    have hen := ((step_some na env).mp hstep).1
    have hafter := step_stateAfter na env hstep
    refine ⟨(hs.step na env hstep).1, fun hok => ?_⟩
    have hpre := event_prefix na env hs hen
    rw [hafter] at hpre
    exact (event_clean na env hs (hclean (hok.of_prefix hpre)) hen (hafter ▸ hok)).2 t' hstep
  exact hinv.2 hok

variable (env : Env)

/-- FRAMES: in every run in which no send of the key exchange or of the forwarding loop fails and no
    pass of a broadcast fails twice, no frame follows a failed one, in every state reached and,
    if every `send` returns, also where a handler does not. -/
theorem noFrame_after_failure (h : Reach na env s) :
    (SendsOk s.trace → NoFrameAfterFailure s.trace) ∧
    ∀ e, e.enabled s = true → SendsReturn na env e s → SendsOk (stateAfter na env e s).trace →
      NoFrameAfterFailure (stateAfter na env e s).trace := by
  have hclean := h.returning.clean na env.returning
  refine ⟨fun hok => (hclean hok).order, fun e hen hret => ?_⟩
  rw [hret.stateAfter]
  intro hok
  have hpre := event_prefix na env.returning (h.store na env) hen
  exact (event_clean na env.returning (h.store na env) (hclean (hok.of_prefix hpre)) hen hok).1

end runs

/-- Three clients have joined, and the third left at once: its own arrival failed. -/
theorem noFrame_after_failure_three : ∃ s,
    sampleRun [9] (joins 0 5 (ascii "al") ++ joins 1 6 (ascii "bo") ++ joins 2 7 (ascii "cy")) =
      some s ∧ s.clients.keys = [6, 5] ∧ NoFrameAfterFailure s.trace := by
  have hrun : (sampleRun [9] (joins 0 5 (ascii "al") ++ joins 1 6 (ascii "bo") ++
      joins 2 7 (ascii "cy"))).map (fun s => (s.clients.keys, s.trace.all (fun e => !e.ignored),
        onePerPass false s.trace)) = some ([6, 5], true, true) := by decide +kernel
  obtain ⟨s, hs, heq⟩ := Option.map_eq_some_iff.mp hrun
  simp only [Prod.mk.injEq, List.all_eq_true, Bool.not_eq_true'] at heq
  exact ⟨s, hs, heq.1, (noFrame_after_failure Sodium.plain (Env.failing [9])
    (sampleRun_reach hs)).1 ⟨heq.2.1, heq.2.2⟩⟩

/-- The arrival of the third fails for the other two. One of them is disconnected, and announced to
    the other. -/
theorem announcement_after_failure : ¬ ∀ s, Reach Sodium.plain (Env.failing [10, 11]) s →
    NoFrameAfterFailure s.trace := by
  intro hall
  have hrun : (sampleRun [10, 11] (joins 0 5 (ascii "al") ++ joins 1 6 (ascii "bo") ++
      joins 2 7 (ascii "cy"))).map (fun s =>
        decide (s.trace.Pairwise fun a b => a.noFrameAfter b = true)) = some false := by
    decide +kernel
  obtain ⟨s, hs, heq⟩ := Option.map_eq_some_iff.mp hrun
  have hord : s.trace.Pairwise fun a b => a.noFrameAfter b = true := hall s (sampleRun_reach hs)
  exact of_decide_eq_false heq hord

end CliChat
