import CliChat.Server.Room

/-! @src server/src/server.cpp | name:SendSecretbox, HandleClientEvent | scheme:run invariant

    What a connection is offered is what is sent to it: as long as nothing fails to seal, every
    message has its packet in the log, and the packets after the two keys are the offers, one by
    one. So what a client reads after its keys is what the room told it.

        packetsTo   pk   gk   [al has connected]   p   [bo has disconnected]
        offersTo               al has connected    p    bo has disconnected      -/

namespace CliChat

open Transition

/-- The offer that a packet carries. The keys carry none. -/
def offerOf : Site × Bytes × Bool → Option Offer
  | (.secretbox msg, _) => some (.notice msg)
  | (.forward src, p, _) => some (.packet src p)
  | _ => none

/-- Every offer of the log has its packet there. -/
def Backed (l : List Ev) : Prop := ∀ id, offersTo id l = (packetsTo id l).filterMap offerOf

/-- The event is about a packet that is sealed with the group key. -/
def Ev.isSealed : Ev → Bool
  | .secretbox .. => true
  | .send _ (.secretbox _) _ _ => true
  | _ => false

section backed

variable {l m : List Ev}

theorem Backed.append (h : Backed l) (k : Backed m) : Backed (l ++ m) := by
  intro id
  rw [offersTo_append, packetsTo_append, List.filterMap_append, h id, k id]

/-- An event that is not about a sealed packet is its own packet, or none. -/
theorem Ev.offer_eq {e : Ev} (h : e.isSealed = false) (id : ConnId) :
    e.offer id = (e.packetTo id).bind offerOf := by
  cases e with
  | send conn site p ok =>
    cases site with
    | secretbox msg => cases h
    | forward src => by_cases hid : conn = id <;> simp [Ev.offer, Ev.packetTo, offerOf, hid]
    | serverPk => by_cases hid : conn = id <;> simp [Ev.offer, Ev.packetTo, offerOf, hid]
    | groupKey => by_cases hid : conn = id <;> simp [Ev.offer, Ev.packetTo, offerOf, hid]
  | secretbox => cases h
  | _ => rfl

theorem Backed.of_unsealed (h : ∀ e ∈ l, e.isSealed = false) : Backed l := by
  intro id
  rw [offersTo, packetsTo, List.filterMap_filterMap]
  exact List.filterMap_congr fun e he => Ev.offer_eq (h e he) id

theorem backed_boxEvents (conn : ConnId) (msg p : Bytes) (ok : Bool) :
    Backed (boxEvents conn msg (some p) ok) := by
  intro id
  rw [offersTo_boxEvents, packetsTo_boxEvents]
  by_cases hid : conn = id <;> simp [hid, offerOf]

theorem Backed.flatMap {α : Type} {xs : List α} {g : α → List Ev} (h : ∀ x ∈ xs, Backed (g x)) :
    Backed (xs.flatMap g) := by
  induction xs with
  | nil => exact fun _ => rfl
  | cons x xs ih =>
    rw [List.flatMap_cons]
    exact (h x List.mem_cons_self).append (ih fun y hy => h y (List.mem_cons_of_mem _ hy))

end backed

/-- The first offer is the arrival under the name that was asked for. -/
theorem Conforms.first {na : Sodium} {s : Server} {id : ConnId} {xs : List (Site × Bytes × Bool)}
    (h : Conforms na s id xs) {told : List (Room.Item ConnId Bytes Bytes)}
    (htold : xs.filterMap offerOf = told.map render) :
    told = [] ∨ ∃ uname, AskedName na s id uname ∧ told.head? = some (.joined uname) := by
  cases h with
  | silent => exact .inl (List.map_eq_nil_iff.mp htold.symm)
  | greeted => exact .inl (List.map_eq_nil_iff.mp htold.symm)
  | keyed => exact .inl (List.map_eq_nil_iff.mp htold.symm)
  | @joined gk uname q rest _ _ _ _ hname _ _ =>
    have hcons : .notice (connectNotice uname) :: rest.filterMap offerOf = told.map render := htold
    obtain ⟨a, l, rfl, ha, -⟩ := List.map_eq_cons_iff.mp hcons.symm
    obtain rfl : a = .joined uname := render_injective ha
    exact .inr ⟨uname, hname, rfl⟩

/-- From `s` to `s'` every offer has its packet, if sealing succeeds. -/
structure Backs (na : Sodium) (s s' : Server) : Prop where
  groupKey : s'.groupKey = s.groupKey
  log : ∃ T, s'.trace = s.trace ++ T ∧ (Seals na s.groupKey → Backed T)

namespace Backs

variable {na : Sodium} {a b c s s' : Server} {T : List Ev}

theorem trans (h : Backs na a b) (k : Backs na b c) : Backs na a c where
  groupKey := k.groupKey.trans h.groupKey
  log := by
    obtain ⟨T, hT, hback⟩ := h.log
    obtain ⟨P, hP, hback'⟩ := k.log
    refine ⟨T ++ P, by rw [hP, hT, List.append_assoc], fun hseal => ?_⟩
    exact (hback hseal).append (hback' (h.groupKey ▸ hseal))

theorem of_unsealed (hkey : s'.groupKey = s.groupKey) (htr : s'.trace = s.trace ++ T)
    (hT : ∀ e ∈ T, e.isSealed = false) : Backs na s s' :=
  ⟨hkey, T, htr, fun _ => .of_unsealed hT⟩

end Backs

section parts

variable (na : Sodium) (env : ReturningEnv) {s : Server}

theorem sendSecretbox_backs (sess : NetworkSession) (msg : Bytes) (s : Server) :
    Backs na s (s.sendSecretbox na env sess msg).2 := by
  obtain ⟨hs, payload, hsealed, -, htr⟩ := sendSecretbox_spec na env sess msg s
  refine ⟨hs.groupKey, _, htr, fun hseal => ?_⟩
  obtain ⟨p, rfl⟩ := hseal.payload hsealed
  exact backed_boxEvents _ _ _ _

theorem dropped_backs (s : Server) (fd : Fd) (c : ClientInfo) : Backs na s (s.dropped fd c) := by
  refine .of_unsealed rfl (dropped_log s fd c) ?_
  unfold dropLog
  split <;> simp [Ev.isSealed]

/-- A broadcast, with all that it sends inside. -/
theorem broadcasted_backs (msg : Bytes) (s : Server) : Backs na s (s.broadcasted na env msg) := by
  refine broadcasted_relation na env (R := Backs na) (fun _ _ _ => Backs.trans) (fun m t => ?_)
    (fun t fd c _ => dropped_backs na t fd c) msg s
  obtain ⟨hsend, boxes, hpass, htr⟩ := cascade_send na env m t
  refine ⟨hsend.groupKey, _, htr, fun hseal => ?_⟩
  have hpass' : Backed (boxes.flatMap (Box.events m)) := by
    refine .flatMap fun b hb => ?_
    obtain ⟨p, hp⟩ := hseal.payload (hpass.sealed b hb)
    rw [Box.events, hp]
    exact backed_boxEvents _ _ _ _
  have hentered : Backed [.broadcast m] := .of_unsealed (by simp [Ev.isSealed])
  exact hentered.append hpass'

/-- Every part of a handler sends what it offers. -/
theorem backs_parts : HandlerParts na env (Backs na) where
  trans := Backs.trans
  touch := fun s fd n => .of_unsealed rfl rfl fun e he => by
    rw [List.eq_of_mem_replicate he]
    rfl
  received := fun {s fd c} _ _ {pkt ch} _ => .of_unsealed (T := List.replicate 3
    (.access fd true) ++ [.recv c.session.conn pkt]) rfl (by simp [Server.received])
    (by simp [Ev.isSealed])
  keyStored := fun {s fd c} hs hl hk pk => by
    obtain ⟨ok, htr⟩ := keyStored_trace env s fd c pk
    exact .of_unsealed ((sameKeys_parts na env).keyStored hs hl hk pk).groupKey htr
      (by simp [Ev.isSealed])
  keyed := fun {s fd c} hs hl hk payload => by
    obtain ⟨ok, htr⟩ := keyed_trace env s fd c payload
    exact .of_unsealed ((sameKeys_parts na env).keyed hs hl hk payload).groupKey htr
      (by simp [Ev.isSealed])
  lockedOut := fun {s fd c} _ _ _ => by
    have hlocked : Backs na s (s.locked.touch fd 1) :=
      .of_unsealed (T := [.lock true, .access fd true]) rfl (by simp) (by simp [Ev.isSealed])
    exact (hlocked.trans (sendSecretbox_backs na env c.session _ _)).trans
      (.of_unsealed (T := [.lock false]) rfl rfl (by simp [Ev.isSealed]))
  named := fun {s fd c} _ _ _ _ {uname} _ =>
    .of_unsealed rfl (Server.named_trace s fd c uname) (by simp [Ev.isSealed])
  used := fun s fd => .of_unsealed rfl (Server.used_trace s fd) (by simp [Ev.isSealed])
  dropped := fun {s fd c} _ _ => dropped_backs na s fd c
  broadcasted := fun {s} _ msg => broadcasted_backs na env msg s
  forwardTo := fun {s} _ src pkt => by
    obtain ⟨hs, sent, -, htr⟩ := forwardTo_spec env src pkt s.clients.entries s
    refine .of_unsealed hs.groupKey htr fun e he => ?_
    obtain ⟨x, -, rfl⟩ := List.mem_map.mp he
    rfl

/-- INVARIANT: every message that was offered to a connection was sent to it, and nothing else but
    the keys was. -/
theorem Reach.backed (h : Reach na env s) (hseal : Seals na s.groupKey) : Backed s.trace := by
  refine Reach.seals_invariant (P := fun s => Seals na s.groupKey → Backed s.trace) env ?_ ?_ h
    hseal hseal
  · rintro s ⟨listenfd, epollfd, pk, sk, gk, -, -, -, -, rfl⟩ -
    exact fun _ => rfl
  · intro s e hs hw hc hback hen hseal
    have hbacks : Backs na s (stateAfter na env e s) := by
      by_cases hclient : ∃ fd, e = .client fd
      · obtain ⟨fd, rfl⟩ := hclient
        obtain ⟨c, hl, hout⟩ := client_outcome na env hs hen
        have hs' : Store (s.log (.dispatch c.session.conn)) := hs.sendsOnly (SendsOnly.log s _)
        have hlog : Backs na s (s.log (.dispatch c.session.conn)) :=
          .of_unsealed rfl rfl (by simp [Ev.isSealed])
        rw [stateAfter_eq]
        exact hlog.trans (hout.relation (backs_parts na env) hs' hl)
      · have hkeys : SameKeys s (stateAfter na env e s) := event_sameKeys env hs hen
        obtain ⟨⟨T, hT, hcloses⟩, -⟩ := other_adds na env hs fun fd he => hclient ⟨fd, he⟩
        refine .of_unsealed hkeys.groupKey hT fun e he => ?_
        have hclose := hcloses e he
        cases e <;> first | rfl | cases hclose
    have hkey : Seals na s.groupKey := hbacks.groupKey ▸ hseal
    obtain ⟨T, hT, hbackT⟩ := hbacks.log
    rw [hT]
    exact (hback hkey).append (hbackT hkey)

end parts

end CliChat
