import CliChat.Server.Conformance

/-! @src server/src/server.cpp | name:SendSecretbox, BroadcastEncrypted | scheme:run invariant

    The nonces under the group key. Every message is sealed anew for every client, with a nonce that
    `randombytes_buf` draws for it alone. So over a whole run the nonces of the sealed packets are
    draws of increasing number: as long as `randombytes_buf` does not repeat itself, no two packets
    have the same nonce, also where a clean-up broadcasts inside a broadcast.

        draw     0    1    2    3    4    5  …
        packet   ✓         ✓    ✓         ✓        (the others: group keys, failed seals) -/

namespace CliChat

open Transition

/-- The nonce in front of a packet that is sealed with the group key. -/
def Ev.sealNonce : Ev → Option Bytes
  | .send _ (.secretbox _) payload _ => some (payload.take secretboxNonceBytes)
  | _ => none

/-- The nonces of the sealed packets, in the order of the calls of `SendPacket`. -/
def sealNonces (l : List Ev) : List Bytes := l.filterMap Ev.sealNonce

theorem sealNonces_append (l m : List Ev) : sealNonces (l ++ m) = sealNonces l ++ sealNonces m :=
  List.filterMap_append

theorem sealNonces_eq_nil {l : List Ev} (h : ∀ e ∈ l, e.sealNonce = none) : sealNonces l = [] :=
  List.filterMap_eq_nil_iff.mpr h

/-- From `s` to `s'` every sealed packet has a draw of its own, made in between. -/
structure Draws (env : ReturningEnv) (s s' : Server) : Prop where
  rands : s.kernel.rands ≤ s'.kernel.rands
  log : ∃ T, ∃ ks : List ℕ, s'.trace = s.trace ++ T ∧ sealNonces T = ks.map env.nonce ∧
    ks.Pairwise (· < ·) ∧ ∀ k ∈ ks, s.kernel.rands ≤ k ∧ k < s'.kernel.rands

namespace Draws

variable {env : ReturningEnv} {a b c s s' : Server} {T : List Ev}

theorem trans (h : Draws env a b) (k : Draws env b c) : Draws env a c where
  rands := h.rands.trans k.rands
  log := by
    obtain ⟨T, ks, hT, hnonces, hinc, hks⟩ := h.log
    obtain ⟨P, ms, hP, hnonces', hinc', hms⟩ := k.log
    refine ⟨T ++ P, ks ++ ms, by rw [hP, hT, List.append_assoc],
      by rw [sealNonces_append, hnonces, hnonces', List.map_append], ?_, fun i hi => ?_⟩
    · refine List.pairwise_append.mpr ⟨hinc, hinc', fun i hi j hj => ?_⟩
      exact (hks i hi).2.trans_le (hms j hj).1
    · rcases List.mem_append.mp hi with hi | hi
      · exact ⟨(hks i hi).1, (hks i hi).2.trans_le k.rands⟩
      · exact ⟨h.rands.trans (hms i hi).1, (hms i hi).2⟩

/-- Nothing is sealed. -/
theorem of_plain (hr : s.kernel.rands ≤ s'.kernel.rands) (htr : s'.trace = s.trace ++ T)
    (hT : ∀ e ∈ T, e.sealNonce = none) : Draws env s s' :=
  ⟨hr, T, [], htr, sealNonces_eq_nil hT, List.Pairwise.nil, by simp⟩

theorem refl (s : Server) : Draws env s s := of_plain le_rfl (List.append_nil _).symm (by simp)

end Draws

section sends

variable (na : Sodium) (env : ReturningEnv)

theorem sendPacket_rands (sess : NetworkSession) (site : Site) (data : Bytes) (s : Server) :
    (s.sendPacket env sess site data).2.kernel.rands = s.kernel.rands := by
  unfold Server.sendPacket
  split <;> rfl

/-- A packet that is not sealed. -/
theorem sendPacket_draws (sess : NetworkSession) {site : Site}
    (hsite : ∀ msg, site ≠ .secretbox msg) (data : Bytes) (s : Server) :
    Draws env s (s.sendPacket env sess site data).2 := by
  refine Draws.of_plain (sendPacket_rands env sess site data s).ge
    (Server.sendPacket_trace env sess site data s) fun e he => ?_
  rw [List.mem_singleton] at he
  subst he
  cases site with
  | secretbox msg => exact absurd rfl (hsite msg)
  | _ => rfl

/-- `SendSecretbox` draws once, and its packet starts with what was drawn. -/
theorem sendSecretbox_draws (sess : NetworkSession) (msg : Bytes) (s : Server) :
    Draws env s (s.sendSecretbox na env sess msg).2 := by
  have hdraw : (s.randomNonce env).2.kernel.rands = s.kernel.rands + 1 := rfl
  unfold Server.sendSecretbox
  dsimp only
  split
  · exact Draws.of_plain (T := [.secretbox sess.conn msg false]) (Nat.le_succ _) rfl
      (by simp [Ev.sealNonce])
  · rename_i cipher hseal
    set payload := (s.randomNonce env).1 ++ cipher with hpayload
    set r := (s.randomNonce env).2.sendPacket env sess (.secretbox msg) payload with hr
    have hrands : r.2.kernel.rands = s.kernel.rands + 1 :=
      (sendPacket_rands env sess (.secretbox msg) payload (s.randomNonce env).2).trans hdraw
    have htr : r.2.trace = s.trace ++ [.send sess.conn (.secretbox msg) payload r.1] :=
      Server.sendPacket_trace env sess (.secretbox msg) payload (s.randomNonce env).2
    have hnonce : payload.take secretboxNonceBytes = env.nonce s.kernel.rands :=
      List.take_left' (env.nonce_length s.kernel.rands)
    refine ⟨(Nat.le_succ _).trans hrands.ge,
      [.send sess.conn (.secretbox msg) payload r.1, .secretbox sess.conn msg r.1],
      [s.kernel.rands], ?_, ?_, List.pairwise_singleton _ _, fun k hk => ?_⟩
    · rw [Server.log_trace, htr, List.append_assoc]
      rfl
    · rw [List.map_singleton, ← hnonce]
      rfl
    · rw [List.mem_singleton.mp hk, Server.log_kernel, hrands]
      exact ⟨le_rfl, Nat.lt_succ_self _⟩

/-- A pass draws once for each registered client. -/
theorem sendToRegistered_draws (msg : Bytes) :
    ∀ (l : List (Σ _ : Fd, ClientInfo)) (s : Server),
      Draws env s (s.sendToRegistered na env msg l).2
  | [], s => Draws.refl s
  | ⟨fd, client⟩ :: rest, s => by
    rw [Server.sendToRegistered]
    split
    · exact sendToRegistered_draws msg rest s
    · exact (sendSecretbox_draws na env client.session msg s).trans
        (sendToRegistered_draws msg rest _)

theorem forwardTo_draws (src : ConnId) (pkt : Bytes) :
    ∀ (l : List (Σ _ : Fd, ClientInfo)) (s : Server), Draws env s (s.forwardTo env src pkt l)
  | [], s => Draws.refl s
  | ⟨fd, client⟩ :: rest, s => by
    rw [Server.forwardTo]
    split
    · exact forwardTo_draws src pkt rest s
    · exact (sendPacket_draws env client.session (fun _ h => by cases h) pkt s).trans
        (forwardTo_draws src pkt rest _)

theorem close_rands (k : Kernel) (fd : Fd) : (k.close fd).rands = k.rands := by
  unfold Kernel.close
  split <;> rfl

theorem dropped_draws (s : Server) (fd : Fd) (c : ClientInfo) : Draws env s (s.dropped fd c) := by
  refine Draws.of_plain (close_rands (s.kernel.epollDel fd) fd).ge (dropped_log s fd c) ?_
  unfold dropLog
  split <;> simp [Ev.sealNonce]

/-- A broadcast, with all that it sends inside. -/
theorem broadcasted_draws (msg : Bytes) (s : Server) :
    Draws env s (s.broadcasted na env msg) := by
  refine broadcasted_relation na env (R := Draws env) (fun _ _ _ => Draws.trans) (fun m t => ?_)
    (fun t fd c _ => dropped_draws env t fd c) msg s
  have hlog : Draws env t (t.log (.broadcast m)) :=
    Draws.of_plain le_rfl rfl (by simp [Ev.sealNonce])
  exact hlog.trans (sendToRegistered_draws na env m t.clients.entries _)

/-- Every part of a handler draws a nonce for each packet that it seals. -/
theorem draws_parts : HandlerParts na env (Draws env) where
  trans := Draws.trans
  touch := fun s fd n => Draws.of_plain le_rfl rfl fun e he => by
    rw [List.eq_of_mem_replicate he]
    rfl
  received := fun {s fd c} _ _ {pkt ch} _ => Draws.of_plain (T := List.replicate 3
    (.access fd true) ++ [.recv c.session.conn pkt]) le_rfl (by simp [Server.received])
    (by simp [Ev.sealNonce])
  keyStored := fun {s fd c} _ _ _ pk => by
    obtain ⟨ok, htr⟩ := keyStored_trace env s fd c pk
    refine Draws.of_plain ?_ htr (by simp [Ev.sealNonce])
    refine (Nat.le_succ _).trans (Nat.succ_le_succ ?_)
    exact (sendPacket_rands env c.session .serverPk s.serverPk
      ((s.write fd { c with clientPk := pk }).touch fd 1)).ge
  keyed := fun {s fd c} _ _ _ payload => by
    obtain ⟨ok, htr⟩ := keyed_trace env s fd c payload
    exact Draws.of_plain (sendPacket_rands env c.session .groupKey payload (s.touch fd 1)).ge htr
      (by simp [Ev.sealNonce])
  lockedOut := fun {s fd c} _ _ _ => by
    have hlocked : Draws env s (s.locked.touch fd 1) :=
      Draws.of_plain (T := [.lock true, .access fd true]) le_rfl (by simp) (by simp [Ev.sealNonce])
    exact (hlocked.trans (sendSecretbox_draws na env c.session _ _)).trans
      (Draws.of_plain (T := [.lock false]) le_rfl rfl (by simp [Ev.sealNonce]))
  named := fun {s fd c} _ _ _ _ {uname} _ => Draws.of_plain le_rfl
    (Server.named_trace s fd c uname) (by simp [Ev.sealNonce])
  used := fun s fd => Draws.of_plain le_rfl (Server.used_trace s fd) (by simp [Ev.sealNonce])
  dropped := fun {s fd c} _ _ => dropped_draws env s fd c
  broadcasted := fun {s} _ msg => broadcasted_draws na env msg s
  forwardTo := fun {s} _ src pkt => forwardTo_draws env src pkt _ s

end sends

section runs

variable (na : Sodium) (env : ReturningEnv) {s s' : Server}

/-- Events of no client seal nothing. -/
theorem other_draws (hs : Store s) {e : Event} (he : ∀ fd, e ≠ .client fd) :
    Draws env s (stateAfter na env e s) := by
  have hrands : s.kernel.rands ≤ (stateAfter na env e s).kernel.rands := by
    cases e with
    | client fd => exact absurd rfl (he fd)
    | listener accepts =>
      refine Server.handleNewConnection_invariant (I := fun t => s.kernel.rands ≤ t.kernel.rands)
        (fun _ _ _ _ _ h _ => h) (fun t fd ci co h _ => ?_) accepts s le_rfl
      exact h.trans (close_rands (t.kernel.accept fd ci co) fd).ge
    | net act =>
      change s.kernel.rands ≤ (s.kernel.net act).rands
      cases act <;> simp only [Kernel.net] <;> split <;> exact le_rfl
    | waitFails =>
      change s.kernel.rands ≤ (stop s).kernel.rands
      unfold stop
      split
      · exact le_rfl
      · dsimp only
        split <;> split <;> exact le_rfl
  obtain ⟨⟨T, hT, hcloses⟩, -⟩ := other_adds na env hs he
  refine Draws.of_plain hrands hT fun e he => ?_
  have hc := hcloses e he
  cases e <;> first | rfl | cases hc

/-- STEP: every event, also one whose handler gets stuck. -/
theorem event_draws (hs : Store s) {e : Event} (hen : e.enabled s = true) :
    Draws env s (stateAfter na env e s) := by
  by_cases hclient : ∃ fd, e = .client fd
  · obtain ⟨fd, rfl⟩ := hclient
    obtain ⟨c, hl, hout⟩ := client_outcome na env hs hen
    have hs' : Store (s.log (.dispatch c.session.conn)) := hs.sendsOnly (SendsOnly.log s _)
    have hlog : Draws env s (s.log (.dispatch c.session.conn)) :=
      Draws.of_plain le_rfl rfl (by simp [Ev.sealNonce])
    rw [stateAfter_eq]
    exact hlog.trans (hout.relation (draws_parts na env) hs' hl)
  · exact other_draws na env hs fun fd he => hclient ⟨fd, he⟩

/-- FRESH: in every reachable state the nonces of the packets sealed so far are draws of increasing
    number. So no nonce was used twice under the group key, if the draws so far did not repeat
    each other. -/
theorem nonces_fresh (env : Env) (h : Reach na env s) : ∃ ks : List ℕ,
    sealNonces s.trace = ks.map env.nonce ∧ ks.Pairwise (· < ·) ∧
    (∀ k ∈ ks, k < s.kernel.rands) ∧
    (Set.InjOn env.nonce {k | k < s.kernel.rands} → (sealNonces s.trace).Nodup) := by
  obtain ⟨s₀, es, h₀, hes⟩ := h.returning
  have hdraws : Draws env.returning s₀ s := run_relation (step na env.returning) (I := Store)
    (fun _ _ _ hs ht => (hs.step na env.returning ht).1) (fun s _ => Draws.refl s)
    (fun _ _ _ => Draws.trans) (fun e s s' hs ht => by
      rw [← step_stateAfter na env.returning ht]
      exact event_draws na env.returning hs ((step_some na env.returning).mp ht).1) h₀.store hes
  obtain ⟨T, ks, hT, hnonces, hinc, hks⟩ := hdraws.log
  have hnil : s₀.trace = [] := by
    obtain ⟨listenfd, epollfd, pk, sk, gk, -, -, -, -, rfl⟩ := h₀
    rfl
  rw [hnil, List.nil_append] at hT
  subst hT
  refine ⟨ks, hnonces, hinc, fun k hk => (hks k hk).2, fun hinj => ?_⟩
  rw [hnonces]
  exact List.Nodup.map_on (fun k hk l hl heq => hinj (hks k hk).2 (hks l hl).2 heq)
    (hinc.imp fun hlt => hlt.ne)

end runs

/-- The environment in which the send numbered 10 fails, and each nonce is its number. -/
def Env.numbering : Env where
  sched := (Env.failing [10]).sched
  nonce i := List.replicate (secretboxNonceBytes - 1) 0 ++ [UInt8.ofNat i]
  nonce_length _ := by simp [secretboxNonceBytes]

/-- Three clients have joined, and one of them was cleaned up: eight messages were sealed, no two
    of them with one nonce. -/
theorem nonces_fresh_three : ∃ s, run (step Sodium.plain Env.numbering)
      (joins 0 5 (ascii "al") ++ joins 1 6 (ascii "bo") ++ joins 2 7 (ascii "cy")) sampleServer =
      some s ∧
    (sealNonces s.trace).length = 8 ∧ (sealNonces s.trace).Nodup := by
  have hrun : (run (step Sodium.plain Env.numbering) (joins 0 5 (ascii "al") ++
      joins 1 6 (ascii "bo") ++ joins 2 7 (ascii "cy")) sampleServer).map
        (fun s => ((sealNonces s.trace).length, s.kernel.rands)) = some (8, 11) := by
    decide +kernel
  obtain ⟨s, hs, heq⟩ := Option.map_eq_some_iff.mp hrun
  obtain ⟨hlength, hrands⟩ := Prod.mk.inj heq
  have hdistinct : ∀ k < 11, ∀ l < 11, Env.numbering.nonce k = Env.numbering.nonce l → k = l := by
    decide
  refine ⟨s, hs, hlength, ?_⟩
  refine (nonces_fresh Sodium.plain Env.numbering ⟨_, _, sampleServer_initial, hs⟩).elim
    fun ks hks => hks.2.2.2 fun k hk l hl => ?_
  rw [hrands] at hk hl
  exact hdistinct k hk l hl

end CliChat
