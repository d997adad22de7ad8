import CliChat.Server.Store

/-! @src server/src/server.cpp | name:Server | scheme:projections of the log

    What the log says of one connection (`boxesTo`, `packetsTo`) and of the departures
    (`Ev.departs`), and what one pass of a broadcast contributes to each. -/

namespace CliChat

/-! ### Projections -/

/-- The event is an outcome of `SendSecretbox` to `id`. -/
def Ev.boxTo (id : ConnId) : Ev → Option (Bytes × Bool)
  | .secretbox conn msg ok => if conn = id then some (msg, ok) else none
  | _ => none

/-- The event is an outcome of `SendPacket` to `id`. -/
def Ev.packetTo (id : ConnId) : Ev → Option (Site × Bytes × Bool)
  | .send conn site payload ok => if conn = id then some (site, payload, ok) else none
  | _ => none

/-- The event is a packet received from `id`. -/
def Ev.packetFrom (id : ConnId) : Ev → Option Bytes
  | .recv conn (some pkt) => if conn = id then some pkt else none
  | _ => none

/-- The messages offered to `id`, with their outcomes. -/
def boxesTo (id : ConnId) (l : List Ev) : List (Bytes × Bool) := l.filterMap (Ev.boxTo id)

/-- The packets sent to `id`, with their outcomes. -/
def packetsTo (id : ConnId) (l : List Ev) : List (Site × Bytes × Bool) :=
  l.filterMap (Ev.packetTo id)

/-- The packets received from `id`. -/
def packetsFrom (id : ConnId) (l : List Ev) : List Bytes := l.filterMap (Ev.packetFrom id)

/-- The event is a send to `id`, of either level. -/
def Ev.isTo (id : ConnId) : Ev → Bool
  | .secretbox conn _ _ => conn = id
  | .send conn _ _ _ => conn = id
  | _ => false

/-- The events that tell a cascade: broadcasts and removals. -/
def Ev.departs : Ev → Bool
  | .broadcast _ => true
  | .erase _ _ => true
  | _ => false

/-- The event is a call of `SendPacket` on the session of `id`. -/
def Ev.sendsTo (id : ConnId) : Ev → Bool
  | .send conn _ _ _ => conn = id
  | _ => false

/-- The event is a failed `SendSecretbox`. -/
def Ev.boxFails : Ev → Bool
  | .secretbox _ _ ok => !ok
  | _ => false

section projections

variable (id : ConnId) (l m : List Ev)

@[simp] theorem boxesTo_nil : boxesTo id [] = [] := rfl

@[simp] theorem packetsTo_nil : packetsTo id [] = [] := rfl

@[simp] theorem boxesTo_append : boxesTo id (l ++ m) = boxesTo id l ++ boxesTo id m :=
  List.filterMap_append

@[simp] theorem packetsTo_append : packetsTo id (l ++ m) = packetsTo id l ++ packetsTo id m :=
  List.filterMap_append

@[simp] theorem packetsFrom_nil : packetsFrom id [] = [] := rfl

@[simp] theorem packetsFrom_append :
    packetsFrom id (l ++ m) = packetsFrom id l ++ packetsFrom id m :=
  List.filterMap_append

theorem boxesTo_flatMap {α : Type} (xs : List α) (g : α → List Ev) :
    boxesTo id (xs.flatMap g) = xs.flatMap fun x => boxesTo id (g x) :=
  List.filterMap_flatMap

theorem packetsTo_flatMap {α : Type} (xs : List α) (g : α → List Ev) :
    packetsTo id (xs.flatMap g) = xs.flatMap fun x => packetsTo id (g x) :=
  List.filterMap_flatMap

variable {l}

theorem packetsTo_eq_nil (h : ∀ e ∈ l, e.packetTo id = none) : packetsTo id l = [] :=
  List.filterMap_eq_nil_iff.mpr h

theorem packetsFrom_eq_nil (h : ∀ e ∈ l, e.packetFrom id = none) : packetsFrom id l = [] :=
  List.filterMap_eq_nil_iff.mpr h

variable {id}

/-- A log without sends to `id` offers it nothing. -/
theorem projections_nil (h : ∀ e ∈ l, e.isTo id = false) :
    boxesTo id l = [] ∧ packetsTo id l = [] := by
  have hbox : ∀ e : Ev, e.isTo id = false → e.boxTo id = none := by
    intro e he
    cases e <;> simp_all [Ev.isTo, Ev.boxTo]
  have hpacket : ∀ e : Ev, e.isTo id = false → e.packetTo id = none := by
    intro e he
    cases e <;> simp_all [Ev.isTo, Ev.packetTo]
  exact ⟨List.filterMap_eq_nil_iff.mpr fun e he => hbox e (h e he),
    List.filterMap_eq_nil_iff.mpr fun e he => hpacket e (h e he)⟩

end projections

/-! ### One recipient -/

section box

variable (id conn : ConnId) (msg : Bytes) (payload : Option Bytes) (ok : Bool)

theorem boxesTo_boxEvents : boxesTo id (boxEvents conn msg payload ok) =
    if conn = id then [(msg, ok)] else [] := by
  by_cases h : conn = id <;> cases payload <;>
    simp [boxesTo, boxEvents, Ev.boxTo, h, List.filterMap_cons]

theorem packetsTo_boxEvents : packetsTo id (boxEvents conn msg payload ok) =
    if conn = id then (payload.map fun p => (Site.secretbox msg, p, ok)).toList else [] := by
  by_cases h : conn = id <;> cases payload <;>
    simp [packetsTo, boxEvents, Ev.packetTo, h, List.filterMap_cons]

theorem packetsFrom_boxEvents : packetsFrom id (boxEvents conn msg payload ok) = [] :=
  packetsFrom_eq_nil id (by cases payload <;> simp [boxEvents, Ev.packetFrom])

theorem departs_boxEvents : ∀ e ∈ boxEvents conn msg payload ok, e.departs = false := by
  intro e he
  cases payload <;> simp [boxEvents] at he
  · rw [he]; rfl
  · rcases he with rfl | rfl <;> rfl

theorem isTo_boxEvents : ∀ e ∈ boxEvents conn msg payload ok, e.isTo id = true → conn = id := by
  intro e he
  cases payload <;> simp [boxEvents] at he
  · rw [he]; simp [Ev.isTo]
  · rcases he with rfl | rfl <;> simp [Ev.isTo]

/-- One recipient is sent at most one packet, and at most one failure is logged. -/
theorem once_boxEvents : (boxEvents conn msg payload ok).Pairwise
    fun a b => ∀ id, a.sendsTo id = true → b.sendsTo id = false := by
  cases payload <;> simp [boxEvents, Ev.sendsTo]

theorem boxFails_boxEvents : ((boxEvents conn msg payload ok).filter Ev.boxFails).length =
    if ok then 0 else 1 := by
  cases payload <;> cases ok <;> rfl

theorem sendsTo_isTo {id : ConnId} {e : Ev} (h : e.sendsTo id = true) : e.isTo id = true := by
  cases e <;> simp_all [Ev.sendsTo, Ev.isTo]

end box

/-- Of elements with distinct keys, one is selected. -/
theorem flatMap_select {α β κ : Type} [DecidableEq κ] (key : α → κ) (f : α → List β) :
    ∀ {l : List α}, (l.map key).Nodup → ∀ {b : α}, b ∈ l →
      (l.flatMap fun x => if key x = key b then f x else []) = f b
  | [], _, b, hb => by simp at hb
  | a :: l, hnd, b, hb => by
    obtain ⟨hnot, hnd'⟩ := List.nodup_cons.mp hnd
    rw [List.flatMap_cons]
    rcases List.mem_cons.mp hb with rfl | hb
    · have hrest : (l.flatMap fun x => if key x = key b then f x else []) = [] := by
        refine List.flatMap_eq_nil_iff.mpr fun x hx => if_neg fun heq => hnot ?_
        rw [← heq]
        exact List.mem_map_of_mem hx
      rw [if_pos rfl, hrest, List.append_nil]
    · have hne : key a ≠ key b := fun heq => hnot (heq ▸ List.mem_map_of_mem hb)
      rw [if_neg hne, List.nil_append]
      exact flatMap_select key f hnd' hb

/-! ### One pass -/

/-- What the log `P` of a pass with message `msg` over the clients of `s` says; `removeList` is
    the pass's result. -/
structure Pass (s : Server) (msg : Bytes) (removeList : List Fd) (P : List Ev) : Prop where
  shape : ∃ Q, P = .broadcast msg :: Q ∧ ∀ e ∈ Q, e.departs = false
  listed : ∀ fd ∈ removeList, ∃ c, Registered s fd c
  failed : ∀ fd c, Registered s fd c → fd ∈ removeList → boxesTo c.session.conn P = [(msg, false)]
  reached : ∀ fd c, Registered s fd c → fd ∉ removeList →
    boxesTo c.session.conn P = [(msg, true)] ∧
      (packetsTo c.session.conn P).map (fun x => (x.1, x.2.2)) = [(.secretbox msg, true)]
  only : ∀ e ∈ P, ∀ id, e.isTo id = true → ∃ fd c, Registered s fd c ∧ c.session.conn = id
  once : P.Pairwise fun a b => ∀ id, a.sendsTo id = true → b.sendsTo id = false
  count : removeList.length = (P.filter Ev.boxFails).length

theorem Pass.departs {s : Server} {msg : Bytes} {removeList : List Fd} {P : List Ev}
    (h : Pass s msg removeList P) : P.filter Ev.departs = [.broadcast msg] := by
  obtain ⟨Q, rfl, hQ⟩ := h.shape
  rw [List.filter_cons_of_pos rfl, List.filter_eq_nil_iff.mpr]
  intro e he
  rw [hQ e he]
  exact Bool.false_ne_true

section pass

variable {na : Sodium} {s : Server} {key msg : Bytes} {removeList : List Fd} {boxes : List Box}

/-- The recipients of a pass are the registered entries. -/
theorem mem_boxes (h : PassOf na key msg s.clients.entries removeList boxes) {fd : Fd}
    {c : ClientInfo} : (∃ b ∈ boxes, b.entry = ⟨fd, c⟩) ↔ Registered s fd c := by
  have hmem : (⟨fd, c⟩ : Σ _ : Fd, ClientInfo) ∈ boxes.map Box.entry ↔ Registered s fd c := by
    rw [h.recipients, List.mem_filter]
    exact and_congr_left' ⟨AList.lookup_of_mem_entries, AList.mem_entries_of_lookup⟩
  rw [← hmem, List.mem_map]

/-- No two registered entries share a connection. -/
theorem registered_conns_nodup (hT : Table s) :
    ((s.clients.entries.filter fun e => e.2.registered).map fun e => e.2.session.conn).Nodup := by
  refine List.Nodup.map_on ?_ (s.clients.nodupKeys.nodup.filter _)
  rintro ⟨k, d⟩ hx ⟨k', d'⟩ hy heq
  have hd := AList.lookup_of_mem_entries (List.mem_filter.mp hx).1
  have hd' := AList.lookup_of_mem_entries (List.mem_filter.mp hy).1
  obtain ⟨rfl, rfl⟩ := hT.conn_inj hd hd' heq
  rfl

/-- No two recipients share a connection. -/
theorem boxes_nodup (hT : Table s) (h : PassOf na key msg s.clients.entries removeList boxes) :
    (boxes.map fun b => b.client.session.conn).Nodup := by
  have hconn : (boxes.map fun b => b.client.session.conn) =
      (boxes.map Box.entry).map fun e => e.2.session.conn := by
    rw [List.map_map]
    rfl
  rw [hconn, h.recipients]
  exact registered_conns_nodup hT

/-- What the log of a pass says of the recipient in a box. -/
theorem boxesTo_box (hT : Table s) (h : PassOf na key msg s.clients.entries removeList boxes)
    {b : Box} (hb : b ∈ boxes) : boxesTo b.client.session.conn
      (.broadcast msg :: boxes.flatMap (Box.events msg)) = [(msg, b.ok)] := by
  have hsel := flatMap_select (fun b : Box => b.client.session.conn) (fun b => [(msg, b.ok)])
    (boxes_nodup hT h) hb
  rw [← hsel]
  show boxesTo _ (boxes.flatMap (Box.events msg)) = _
  rw [boxesTo_flatMap]
  simp only [Box.events, boxesTo_boxEvents]

theorem packetsTo_box (hT : Table s) (h : PassOf na key msg s.clients.entries removeList boxes)
    {b : Box} (hb : b ∈ boxes) : packetsTo b.client.session.conn
      (.broadcast msg :: boxes.flatMap (Box.events msg)) =
        (b.payload.map fun p => (Site.secretbox msg, p, b.ok)).toList := by
  have hsel := flatMap_select (fun b : Box => b.client.session.conn)
    (fun b => (b.payload.map fun p => (Site.secretbox msg, p, b.ok)).toList) (boxes_nodup hT h) hb
  rw [← hsel]
  show packetsTo _ (boxes.flatMap (Box.events msg)) = _
  rw [packetsTo_flatMap]
  simp only [Box.events, packetsTo_boxEvents]

/-- The outcome in its box decides whether a recipient is listed. -/
theorem mem_removeList_iff (hT : Table s) (h : PassOf na key msg s.clients.entries removeList boxes)
    {b : Box} (hb : b ∈ boxes) : b.fd ∈ removeList ↔ b.ok = false := by
  rw [h.failed, List.mem_map]
  constructor
  · rintro ⟨b', hb', hfd⟩
    obtain ⟨hb', hok⟩ := List.mem_filter.mp hb'
    have hl := (mem_boxes h).mp ⟨b, hb, rfl⟩
    have hl' := (mem_boxes h).mp ⟨b', hb', rfl⟩
    have hclient : b'.client = b.client := by
      refine Option.some.inj (hl'.1.symm.trans ?_)
      rw [hfd]
      exact hl.1
    have hbb : b' = b := List.inj_on_of_nodup_map (boxes_nodup hT h) hb' hb (by rw [hclient])
    rw [← hbb]
    simpa using hok
  · intro hok
    exact ⟨b, List.mem_filter.mpr ⟨hb, by simp [hok]⟩, rfl⟩

theorem PassOf.pass (hT : Table s) (h : PassOf na key msg s.clients.entries removeList boxes) :
    Pass s msg removeList (.broadcast msg :: boxes.flatMap (Box.events msg)) := by
  refine ⟨?_, ?_, ?_, ?_, ?_, ?_, ?_⟩
  · refine ⟨_, rfl, fun e he => ?_⟩
    obtain ⟨b, -, he⟩ := List.mem_flatMap.mp he
    exact departs_boxEvents _ _ _ _ e he
  · intro fd hfd
    rw [h.failed, List.mem_map] at hfd
    obtain ⟨b, hb, rfl⟩ := hfd
    exact ⟨b.client, (mem_boxes h).mp ⟨b, (List.mem_filter.mp hb).1, rfl⟩⟩
  · intro fd c hc hfd
    obtain ⟨b, hb, hbe⟩ := (mem_boxes h).mpr hc
    cases hbe
    rw [boxesTo_box hT h hb, (mem_removeList_iff hT h hb).mp hfd]
  · intro fd c hc hfd
    obtain ⟨b, hb, hbe⟩ := (mem_boxes h).mpr hc
    cases hbe
    have hok : b.ok = true := by
      by_contra hne
      exact hfd ((mem_removeList_iff hT h hb).mpr (by simpa using hne))
    refine ⟨by rw [boxesTo_box hT h hb, hok], ?_⟩
    rw [packetsTo_box hT h hb, hok]
    cases hp : b.payload with
    | none =>
      rw [h.unsealed b hb hp] at hok
      cases hok
    | some p => rfl
  · intro e he id hid
    rcases List.mem_cons.mp he with rfl | he
    · cases hid
    · obtain ⟨b, hb, he⟩ := List.mem_flatMap.mp he
      exact ⟨b.fd, b.client, (mem_boxes h).mp ⟨b, hb, rfl⟩, isTo_boxEvents id _ _ _ _ e he hid⟩
  · rw [List.pairwise_cons, List.pairwise_flatMap]
    refine ⟨fun _ _ _ hid => (nomatch hid), fun b _ => once_boxEvents _ _ _ _, ?_⟩
    refine (List.pairwise_map.mp (boxes_nodup hT h)).imp ?_
    intro b b' hne e he e' he' id hid
    by_contra hid'
    have h₁ := isTo_boxEvents id _ _ _ _ e he (sendsTo_isTo hid)
    have h₂ := isTo_boxEvents id _ _ _ _ e' he' (sendsTo_isTo (by simpa using hid'))
    exact hne (h₁.trans h₂.symm)
  · rw [h.failed, List.length_map, List.filter_cons_of_neg (by simp [Ev.boxFails]),
      List.filter_flatMap, List.length_flatMap]
    have hsum : ∀ l : List Box, (l.filter fun b => !b.ok).length =
        (l.map fun b => ((Box.events msg b).filter Ev.boxFails).length).sum := by
      intro l
      induction l with
      | nil => rfl
      | cons b l ih =>
        rw [List.map_cons, List.sum_cons, Box.events, boxFails_boxEvents, ← ih]
        cases hok : b.ok <;> simp [hok, Nat.add_comm]
    exact hsum boxes

end pass

/-- The pass of a broadcast. -/
theorem cascade_pass (na : Sodium) (env : ReturningEnv) {s : Server} (hT : Table s) (msg : Bytes) :
    SendsOnly s ((cascade na env).send msg s).2 ∧
      ∃ P, Pass s msg ((cascade na env).send msg s).1 P ∧
        ((cascade na env).send msg s).2.trace = s.trace ++ P := by
  obtain ⟨hs, boxes, hpass, htr⟩ := cascade_send na env msg s
  exact ⟨hs, _, hpass.pass hT, htr⟩

end CliChat
