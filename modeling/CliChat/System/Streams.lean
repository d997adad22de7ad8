import CliChat.System.View

/-! @src common/src/network_session.cpp | name:SendPacket, RecvPacket | scheme:two pipes

    The two directions of the connection of an honest client are pipes, in every reachable state:
    the server has read the first packets that the client sent, and the client the first that the
    server sent to it, each once and in order. This rests on the sends of what was read: they
    succeeded, and fitted the header (`UpWhole`, `DownWhole`). Later sends may fail, and either
    stream may.

        client.sent   ═══ Pipe ═══▶ packetsFrom id        packetsTo id ═══ Pipe ═══▶ client.taken  -/

namespace CliChat

open Framing Transition

namespace System

variable (σ : System) (id : ConnId)

def client : Client := (σ.links id).client

/-- The packets given to `SendPacket` for `id`, and what it returned. -/
def sentTo : List (Bytes × Bool) := (packetsTo id σ.server.trace).map Prod.snd

/-- The packets that `RecvPacket` returned for `id`. -/
def heardFrom : List Bytes := packetsFrom id σ.server.trace

/-- What was cut off from the stream that the client of `id` reads. -/
def lost : Bytes :=
  match (σ.links id).cut with
  | none => []
  | some n => (σ.conn id).toClient.bytes.drop n

end System

/-- What the server has read of `id` was sent whole. -/
def UpWhole (σ : System) (id : ConnId) : Prop :=
  ∀ y ∈ (σ.client id).sent.take (σ.heardFrom id).length, Whole y

/-- What the client of `id` has read was sent whole. -/
def DownWhole (σ : System) (id : ConnId) : Prop :=
  ∀ y ∈ (σ.sentTo id).take (σ.client id).taken.length, Whole y

/-- From the client to the server. -/
structure Up (σ : System) (id : ConnId) : Prop where
  fresh : σ.server.kernel.accepted ≤ id →
    (σ.conn id).toServer.bytes = [] ∧ (σ.conn id).toServer.ending = .alive
  read : σ.heardFrom id <+: (σ.client id).sent.map Prod.fst
  pipe : (σ.conn id).toServer.Drained ∨
    Pipe (σ.client id).sent (σ.heardFrom id) (σ.conn id).toServer (σ.links id).uplink

/-- From the server to the client, who reads until its session is closed. -/
structure Down (σ : System) (id : ConnId) : Prop where
  position : (σ.links id).position ≤ (σ.conn id).toClient.bytes.length
  cut : ∀ n, (σ.links id).cut = some n →
    (σ.links id).position ≤ n ∧ n ≤ (σ.conn id).toClient.bytes.length
  read : (σ.client id).taken <+: (σ.sentTo id).map Prod.fst
  pipe : (σ.client id).sessionOpen = true →
    Pipe (σ.sentTo id) (σ.client id).taken (σ.incoming id) (σ.lost id)

/-! ### Logs only grow -/

/-- The logs of the connection `id` have grown. -/
structure Advances (σ σ' : System) (id : ConnId) : Prop where
  trace : σ.server.trace <+: σ'.server.trace
  sent : (σ.client id).sent <+: (σ'.client id).sent
  taken : (σ.client id).taken <+: (σ'.client id).taken

theorem Advances.refl (σ : System) (id : ConnId) : Advances σ σ id :=
  ⟨List.prefix_refl _, List.prefix_refl _, List.prefix_refl _⟩

theorem Advances.trans {a b c : System} {id : ConnId} (h : Advances a b id)
    (k : Advances b c id) : Advances a c id where
  trace := h.trace.trans k.trace
  sent := h.sent.trans k.sent
  taken := h.taken.trans k.taken

/-- A prefix of a prefix. -/
theorem take_subset_take {α : Type} {xs ys : List α} {m n : ℕ} (h : xs <+: ys)
    (hmn : m ≤ n) : xs.take m ⊆ ys.take n := by
  obtain ⟨zs, rfl⟩ := h
  rw [List.take_append]
  exact fun x hx => List.mem_append_left _ ((List.take_prefix_take_left hmn).subset hx)

theorem packetsTo_mono {l m : List Ev} (h : l <+: m) (id : ConnId) :
    packetsTo id l <+: packetsTo id m := by
  obtain ⟨T, rfl⟩ := h
  rw [packetsTo_append]
  exact List.prefix_append _ _

theorem packetsFrom_mono {l m : List Ev} (h : l <+: m) (id : ConnId) :
    packetsFrom id l <+: packetsFrom id m := by
  obtain ⟨T, rfl⟩ := h
  rw [packetsFrom_append]
  exact List.prefix_append _ _

/-- What was whole later was whole before. -/
theorem UpWhole.mono {σ σ' : System} {id : ConnId} (h : UpWhole σ' id) (ha : Advances σ σ' id) :
    UpWhole σ id := fun y hy =>
  h y (take_subset_take ha.sent (packetsFrom_mono ha.trace id).length_le hy)

theorem DownWhole.mono {σ σ' : System} {id : ConnId} (h : DownWhole σ' id)
    (ha : Advances σ σ' id) : DownWhole σ id := fun y hy =>
  h y (take_subset_take ((packetsTo_mono ha.trace id).map _) ha.taken.length_le hy)

/-- STEP: the logs of every connection grow. -/
theorem View.advances {na : Sodium} {utf8 : Bytes → Bool} {σ σ' : System} {id : ConnId}
    (h : View na utf8 σ σ' id) : Advances σ σ' id := by
  have hserver : σ.server.trace <+: σ'.server.trace → σ'.client id = σ.client id →
      Advances σ σ' id := by
    intro htr hclient
    exact ⟨htr, by rw [hclient], by rw [hclient]⟩
  cases h with
  | served hl htr => exact hserver (htr ▸ List.prefix_append _ _) (by rw [System.client, hl]; rfl)
  | @acted c' bs ch' hact hs hl =>
    obtain ⟨hsends, hreads⟩ := hact.linked
    have hclient : σ'.client id = c' := by rw [System.client, hl]
    refine ⟨by rw [hs], ?_, ?_⟩
    · rw [hclient]
      rcases hsends with ⟨heq, -⟩ | ⟨data, ok, heq, -⟩
      · rw [heq]
        exact List.prefix_refl _
      · rw [heq]
        exact List.prefix_append _ _
    · rw [hclient]
      rcases hreads with ⟨-, heq⟩ | ⟨pkt, -, heq⟩
      · rw [heq]
        exact List.prefix_refl _
      · rw [heq]
        exact List.prefix_append _ _
  | arrived _ _ htr _ _ _ _ hl => exact hserver (by rw [htr]) (by rw [System.client, hl]; rfl)
  | ended _ _ htr _ _ _ _ hl => exact hserver (by rw [htr]) (by rw [System.client, hl]; rfl)
  | cutOff _ _ _ hs hl => exact hserver (by rw [hs]) (by rw [System.client, hl]; rfl)

/-! ### One step -/

section steps

variable {na : Sodium} {utf8 : Bytes → Bool} {σ σ' : System} {id : ConnId}

/-- STEP: the pipe to the server. -/
theorem Up.step (h : Up σ id) (hv : View na utf8 σ σ' id) (hwhole : UpWhole σ' id) : Up σ' id := by
  -- a live stream is not drained
  have hpipe : (σ.conn id).toServer.ending = .alive →
      Pipe (σ.client id).sent (σ.heardFrom id) (σ.conn id).toServer (σ.links id).uplink :=
    fun halive => h.pipe.resolve_left fun hd => hd.2 halive
  cases hv with
  | @served T hl htr hserves hacc =>
    have hclient : σ'.client id = σ.client id := by rw [System.client, hl]; rfl
    have hheard : σ'.heardFrom id = σ.heardFrom id ++ packetsFrom id T := by
      rw [System.heardFrom, htr, packetsFrom_append]
      rfl
    rcases hserves.read with hread | ⟨hid, hnil, cuts, hnew⟩
    · have hfresh : σ'.server.kernel.accepted ≤ id →
          (σ'.conn id).toServer.bytes = [] ∧ (σ'.conn id).toServer.ending = .alive := by
        intro hid
        obtain ⟨hempty, halive⟩ := h.fresh (hacc.trans hid)
        exact ⟨hread.of_nil hempty, hread.ending.trans halive⟩
      rcases h.pipe with hd | hp
      · obtain ⟨hnil, hd'⟩ := hread.of_drained hd
        refine ⟨hfresh, ?_, Or.inl hd'⟩
        rw [hclient, hheard, hnil, List.append_nil]
        exact h.read
      · rw [UpWhole, hclient, hheard] at hwhole
        obtain ⟨hread', hp'⟩ := hp.consumes hread hwhole
        refine ⟨hfresh, ?_, ?_⟩
        · rw [hclient, hheard]
          exact hread'
        · rw [hclient, hheard, hl]
          exact hp'
    · -- the connection is accepted: nothing has arrived on it before
      have hch : (σ'.conn id).toServer = ⟨[], .alive, cuts⟩ := hnew
      obtain ⟨hempty, halive⟩ := h.fresh hid
      refine ⟨fun _ => by rw [hch]; exact ⟨rfl, rfl⟩, ?_, Or.inr ?_⟩
      · rw [hclient, hheard, hnil, List.append_nil]
        exact h.read
      · rw [hclient, hheard, hnil, List.append_nil, hl]
        exact (hpipe halive).move (by rw [hch, hempty]) fun heof => by rw [hch] at heof; cases heof
  | @acted c' bs ch' hact hs hl =>
    have hconn : σ'.conn id = σ.conn id := by rw [System.conn, hs]; rfl
    have hheard : σ'.heardFrom id = σ.heardFrom id := by rw [System.heardFrom, hs]; rfl
    have hclient : σ'.client id = c' := by rw [System.client, hl]
    have hwrite : ∃ zs, c'.sent = (σ.client id).sent ++ zs ∧ Written zs bs := by
      rcases hact.linked.sends with ⟨heq, rfl⟩ | ⟨data, ok, heq, hbs⟩
      · exact ⟨[], by rw [heq, List.append_nil]; rfl, .nil⟩
      · exact ⟨[(data, ok)], heq, .single hbs⟩
    obtain ⟨zs, hsent, hzs⟩ := hwrite
    refine ⟨by rw [hs, hconn]; exact h.fresh, ?_, ?_⟩
    · rw [hclient, hheard, hsent, List.map_append]
      exact h.read.trans (List.prefix_append _ _)
    · rw [hclient, hheard, hconn, hsent, hl]
      exact h.pipe.imp_right fun hp => hp.write hzs
  | @arrived n hid halive htr hacc hto halive' hbytes hl =>
    have hheard : σ'.heardFrom id = σ.heardFrom id := by rw [System.heardFrom, htr]; rfl
    have hclient : σ'.client id = σ.client id := by rw [System.client, hl]; rfl
    refine ⟨fun hid' => absurd hid (not_lt.mpr (hacc ▸ hid')), ?_, Or.inr ?_⟩
    · rw [hclient, hheard]
      exact h.read
    · rw [hclient, hheard]
      refine (hpipe halive).move ?_ fun heof => by rw [halive'] at heof; cases heof
      rw [hbytes, hl, List.append_assoc]
      dsimp only
      rw [List.take_append_drop]
  | ended hid halive htr hacc hto hbytes heof hl =>
    have hheard : σ'.heardFrom id = σ.heardFrom id := by rw [System.heardFrom, htr]; rfl
    have hclient : σ'.client id = σ.client id := by rw [System.client, hl]; rfl
    refine ⟨fun hid' => absurd hid (not_lt.mpr (hacc ▸ hid')), ?_, Or.inr ?_⟩
    · rw [hclient, hheard]
      exact h.read
    · rw [hclient, hheard, hl]
      exact (hpipe halive).move (by rw [hbytes]) heof
  | cutOff _ _ _ hs hl =>
    have hconn : σ'.conn id = σ.conn id := by rw [System.conn, hs]; rfl
    have hheard : σ'.heardFrom id = σ.heardFrom id := by rw [System.heardFrom, hs]; rfl
    have hclient : σ'.client id = σ.client id := by rw [System.client, hl]; rfl
    refine ⟨by rw [hs, hconn]; exact h.fresh, ?_, ?_⟩
    · rw [hclient, hheard]
      exact h.read
    · rw [hclient, hheard, hconn, hl]
      exact h.pipe

/-- The stream that a client reads depends on its link and on what the server wrote to it. -/
theorem incoming_congr (hto : (σ'.conn id).toClient = (σ.conn id).toClient)
    (hpos : (σ'.links id).position = (σ.links id).position)
    (hcuts : (σ'.links id).cuts = (σ.links id).cuts)
    (hcut : (σ'.links id).cut = (σ.links id).cut) :
    σ'.incoming id = σ.incoming id ∧ σ'.lost id = σ.lost id := by
  unfold System.incoming System.lost
  rw [hto, hpos, hcuts, hcut]
  exact ⟨rfl, rfl⟩

theorem incoming_whole (h : (σ.links id).cut = none) :
    (σ.incoming id).bytes = (σ.conn id).toClient.bytes.drop (σ.links id).position ∧
      σ.lost id = [] := by
  simp only [System.incoming, System.lost, h, and_self]

theorem incoming_cut {n : ℕ} (h : (σ.links id).cut = some n) :
    σ.incoming id = ⟨((σ.conn id).toClient.bytes.take n).drop (σ.links id).position, .error,
      (σ.links id).cuts⟩ ∧ σ.lost id = (σ.conn id).toClient.bytes.drop n := by
  simp only [System.incoming, System.lost, h, and_self]

/-- What a client leaves on its stream is what it reads next. -/
theorem incoming_acted {c' : Client} {bs : Bytes} {ch' : Chan} (hs : σ'.server = σ.server)
    (hl : σ'.links id = { σ.links id with
      client := c'
      uplink := (σ.links id).uplink ++ bs
      position := (σ.links id).position + ((σ.incoming id).bytes.length - ch'.bytes.length)
      cuts := ch'.cuts }) (hsuffix : ch'.bytes <:+ (σ.incoming id).bytes)
    (hend : ch'.ending = (σ.incoming id).ending) :
    σ'.incoming id = ch' ∧ σ'.lost id = σ.lost id := by
  have hconn : σ'.conn id = σ.conn id := by rw [System.conn, hs]; rfl
  have hdrop := List.suffix_iff_eq_drop.mp hsuffix
  have hcut : (σ'.links id).cut = (σ.links id).cut := by rw [hl]
  have heta : ch' = ⟨ch'.bytes, ch'.ending, ch'.cuts⟩ := rfl
  unfold System.incoming System.lost at *
  rw [hcut, hconn, hl]
  rcases hx : (σ.links id).cut with _ | x
  · simp only [hx] at hdrop hend ⊢
    rw [List.drop_drop] at hdrop
    rw [heta, ← hdrop, hend]
    exact ⟨rfl, trivial⟩
  · simp only [hx] at hdrop hend ⊢
    rw [List.drop_drop] at hdrop
    rw [heta, ← hdrop, hend]
    exact ⟨rfl, trivial⟩

/-- A client reads no further than its stream goes. -/
theorem Down.bound (h : Down σ id) :
    (σ.links id).position + (σ.incoming id).bytes.length ≤ (σ.conn id).toClient.bytes.length ∧
      ∀ n, (σ.links id).cut = some n →
        (σ.links id).position + (σ.incoming id).bytes.length ≤ n := by
  have hpos := h.position
  rcases hx : (σ.links id).cut with _ | n
  · obtain ⟨hin, -⟩ := incoming_whole hx
    rw [hin, List.length_drop]
    exact ⟨by omega, fun n hn => by cases hn⟩
  · obtain ⟨hin, -⟩ := incoming_cut hx
    obtain ⟨h₁, h₂⟩ := h.cut n hx
    have hlen : (σ.incoming id).bytes.length = n - (σ.links id).position := by
      rw [hin, List.length_drop, List.length_take, Nat.min_eq_left h₂]
    rw [hlen]
    refine ⟨by omega, fun m hm => ?_⟩
    cases hm
    omega

/-- STEP: the pipe to the client, when the server writes. -/
theorem Down.served (h : Down σ id) {T : List Ev} (hl : σ'.links id = σ.links id)
    (htr : σ'.server.trace = σ.server.trace ++ T) (hserves : Serves σ.server σ'.server T id) :
    Down σ' id := by
  obtain ⟨bs, hbs, hbytes⟩ := hserves.written
  have hbytes' : (σ'.conn id).toClient.bytes = (σ.conn id).toClient.bytes ++ bs := hbytes
  have hclient : σ'.client id = σ.client id := by rw [System.client, hl]; rfl
  have hsent : σ'.sentTo id = σ.sentTo id ++ (packetsTo id T).map Prod.snd := by
    rw [System.sentTo, htr, packetsTo_append, List.map_append]
    rfl
  have hlen : (σ.conn id).toClient.bytes.length ≤ (σ'.conn id).toClient.bytes.length := by
    rw [hbytes', List.length_append]
    exact Nat.le_add_right _ _
  refine ⟨?_, ?_, ?_, ?_⟩
  · rw [hl]
    exact h.position.trans hlen
  · rw [hl]
    exact fun n hn => ⟨(h.cut n hn).1, (h.cut n hn).2.trans hlen⟩
  · rw [hclient, hsent, List.map_append]
    exact h.read.trans (List.prefix_append _ _)
  · rw [hclient, hsent]
    intro hopen
    have hpipe := h.pipe hopen
    rcases hx : (σ.links id).cut with _ | n
    · -- what the server writes can be read at once
      obtain ⟨hin, hlost⟩ := incoming_whole hx
      obtain ⟨hin', hlost'⟩ := @incoming_whole σ' id (by rw [hl, hx])
      rw [hlost'] at *
      rw [hlost] at hpipe
      refine hpipe.feed hbs ?_
      rw [hin', hbytes', hl, hin, List.drop_append_of_le_length h.position]
    · -- what the server writes is lost
      obtain ⟨hin, hlost⟩ := incoming_cut hx
      obtain ⟨hin', hlost'⟩ := @incoming_cut σ' id n (by rw [hl, hx])
      obtain ⟨-, hafter⟩ := h.cut n hx
      have heq : σ'.incoming id = σ.incoming id := by
        rw [hin', hin, hbytes', List.take_append_of_le_length hafter, hl]
      rw [heq, hlost', hbytes', List.drop_append_of_le_length hafter, ← hlost]
      exact hpipe.write hbs

/-- STEP: the pipe to the client, when the client acts. -/
theorem Down.acted (hf : (σ.client id).Flags) (h : Down σ id) {c' : Client} {bs : Bytes}
    {ch' : Chan} (hact : Client.Acted na utf8 (σ.links id).client (σ.incoming id) c' bs ch')
    (hs : σ'.server = σ.server) (hl : σ'.links id = { σ.links id with
      client := c'
      uplink := (σ.links id).uplink ++ bs
      position := (σ.links id).position + ((σ.incoming id).bytes.length - ch'.bytes.length)
      cuts := ch'.cuts }) (hwhole : DownWhole σ' id) : Down σ' id := by
  have hconn : σ'.conn id = σ.conn id := by rw [System.conn, hs]; rfl
  have hclient : σ'.client id = c' := by rw [System.client, hl]
  have hsent : σ'.sentTo id = σ.sentTo id := by rw [System.sentTo, hs]; rfl
  have hcut : (σ'.links id).cut = (σ.links id).cut := by rw [hl]
  have hposition : (σ'.links id).position ≤
      (σ.links id).position + (σ.incoming id).bytes.length := by
    rw [hl]
    exact Nat.add_le_add_left (Nat.sub_le _ _) _
  obtain ⟨hbound, hbound'⟩ := h.bound
  have hstream : c'.taken <+: (σ.sentTo id).map Prod.fst ∧ (c'.sessionOpen = true →
      Pipe (σ.sentTo id) c'.taken (σ'.incoming id) (σ'.lost id)) := by
    rcases hact.reading hf with ⟨hch, htaken, hopen⟩ | ⟨p, hrecv, htaken, hopen⟩ | ⟨htaken, hclosed⟩
    · obtain ⟨hin, hlost⟩ := incoming_acted hs hl (by rw [hch]) (by rw [hch])
      rw [htaken, hin, hlost, hch]
      exact ⟨h.read, fun hopen' => h.pipe (hopen hopen')⟩
    · obtain ⟨hsuffix, hend⟩ := recvPacket_suffix hrecv
      obtain ⟨hin, hlost⟩ := incoming_acted hs hl hsuffix hend
      rw [DownWhole, hclient, hsent, htaken, List.length_append, List.length_singleton] at hwhole
      have hnext := (h.pipe hopen).packet hrecv hwhole
      rw [htaken, hin, hlost]
      exact ⟨hnext.read, fun _ => hnext⟩
    · rw [htaken]
      refine ⟨h.read, fun hopen' => ?_⟩
      rw [hopen'] at hclosed
      cases hclosed
  refine ⟨by rw [hconn]; exact hposition.trans hbound, ?_, ?_, ?_⟩
  · rw [hcut, hconn]
    exact fun n hn => ⟨hposition.trans (hbound' n hn), (h.cut n hn).2⟩
  · rw [hclient, hsent]
    exact hstream.1
  · rw [hclient, hsent]
    exact hstream.2

/-- STEP: the pipe to the client. -/
theorem Down.step (hf : (σ.client id).Flags) (h : Down σ id) (hv : View na utf8 σ σ' id)
    (hwhole : DownWhole σ' id) : Down σ' id := by
  -- only the other direction has changed
  have hsame : (σ'.conn id).toClient = (σ.conn id).toClient → σ'.server.trace = σ.server.trace →
      (σ'.links id).position = (σ.links id).position → (σ'.links id).cuts = (σ.links id).cuts →
      (σ'.links id).cut = (σ.links id).cut → σ'.client id = σ.client id → Down σ' id := by
    intro hto htr hpos hcuts hcut hclient
    obtain ⟨hin, hlost⟩ := incoming_congr hto hpos hcuts hcut
    have hsent : σ'.sentTo id = σ.sentTo id := by rw [System.sentTo, htr]; rfl
    refine ⟨by rw [hpos, hto]; exact h.position, by rw [hcut, hpos, hto]; exact h.cut, ?_, ?_⟩
    · rw [hclient, hsent]
      exact h.read
    · rw [hclient, hsent, hin, hlost]
      exact h.pipe
  cases hv with
  | served hl htr hserves _ => exact h.served hl htr hserves
  | acted hact hs hl => exact h.acted hf hact hs hl hwhole
  | arrived _ _ htr _ hto _ _ hl =>
    exact hsame hto htr (by rw [hl]) (by rw [hl]) (by rw [hl]) (by rw [System.client, hl]; rfl)
  | ended _ _ htr _ hto _ _ hl =>
    exact hsame hto htr (by rw [hl]) (by rw [hl]) (by rw [hl]) (by rw [System.client, hl]; rfl)
  | @cutOff n hnone hpos hn hs hl =>
    have hconn : σ'.conn id = σ.conn id := by rw [System.conn, hs]; rfl
    have hclient : σ'.client id = σ.client id := by rw [System.client, hl]; rfl
    have hsent : σ'.sentTo id = σ.sentTo id := by rw [System.sentTo, hs]; rfl
    obtain ⟨hin, hlost⟩ := incoming_whole hnone
    obtain ⟨hin', hlost'⟩ := @incoming_cut σ' id _ (by rw [hl])
    refine ⟨by rw [hl, hconn]; exact h.position, ?_, by rw [hclient, hsent]; exact h.read, ?_⟩
    · rw [hl, hconn]
      intro m hm
      cases hm
      exact ⟨hpos, hn⟩
    · rw [hclient, hsent]
      intro hopen
      refine (h.pipe hopen).move ?_ fun heof => by rw [hin'] at heof; cases heof
      rw [hlost, hin, hlost', hin', hconn, hl, List.append_nil]
      conv_rhs => rw [← List.take_append_drop n (σ.conn id).toClient.bytes]
      rw [List.drop_append_of_le_length (by rw [List.length_take]; omega)]

end steps

/-- The first `n` packets that the server has read are the first that the client sent, if those
    were sent whole. -/
def HeardFirst (σ : System) (id : ConnId) : Prop :=
  ∀ n, (∀ y ∈ (σ.client id).sent.take n, Whole y) →
    (σ.heardFrom id).take n <+: (σ.client id).sent.map Prod.fst

/-- The first `n` packets that the client has read are the first that the server sent to it. -/
def TakenFirst (σ : System) (id : ConnId) : Prop :=
  ∀ n, (∀ y ∈ (σ.sentTo id).take n, Whole y) →
    (σ.client id).taken.take n <+: (σ.sentTo id).map Prod.fst

section steps

variable {na : Sodium} {utf8 : Bytes → Bool} {σ σ' : System} {id : ConnId}

theorem Advances.whole_sent (ha : Advances σ σ' id) {n : ℕ}
    (h : ∀ y ∈ (σ'.client id).sent.take n, Whole y) : ∀ y ∈ (σ.client id).sent.take n, Whole y :=
  fun y hy => h y (take_subset_take ha.sent le_rfl hy)

theorem Advances.whole_sentTo (ha : Advances σ σ' id) {n : ℕ}
    (h : ∀ y ∈ (σ'.sentTo id).take n, Whole y) : ∀ y ∈ (σ.sentTo id).take n, Whole y :=
  fun y hy => h y (take_subset_take ((packetsTo_mono ha.trace id).map _) le_rfl hy)

/-- STEP: the first packets heard. -/
theorem HeardFirst.step (h : HeardFirst σ id) (hup : UpWhole σ id → Up σ id)
    (hv : View na utf8 σ σ' id) : HeardFirst σ' id := by
  intro n hn'
  have ha := hv.advances
  have hn := ha.whole_sent hn'
  have hsent : (σ.client id).sent.map Prod.fst <+: (σ'.client id).sent.map Prod.fst := ha.sent.map _
  by_cases hmore : (σ'.heardFrom id) = σ.heardFrom id
  · rw [hmore]
    exact (h n hn).trans hsent
  · by_cases hlong : n ≤ (σ.heardFrom id).length
    · obtain ⟨T, hT⟩ := packetsFrom_mono ha.trace id
      have hheard : σ'.heardFrom id = σ.heardFrom id ++ T := hT.symm
      rw [hheard, List.take_append_of_le_length hlong]
      exact (h n hn).trans hsent
    · have hup' := hup fun y hy =>
        hn y ((List.take_prefix_take_left (by omega)).subset hy)
      cases hv with
      | @served T hl htr hserves _ =>
        have hheard : σ'.heardFrom id = σ.heardFrom id ++ packetsFrom id T := by
          rw [System.heardFrom, htr, packetsFrom_append]
          rfl
        rw [hheard]
        refine List.IsPrefix.trans ?_ hsent
        rcases hserves.read with hread | ⟨-, hnil, -⟩
        · rcases hup'.pipe with hd | hp
          · obtain ⟨hnil, -⟩ := hread.of_drained hd
            rw [hnil, List.append_nil]
            exact h n hn
          · exact hp.consumes_take hread hn
        · rw [hnil, List.append_nil]
          exact h n hn
      | acted _ hs _ => exact absurd (by rw [System.heardFrom, hs]; rfl) hmore
      | arrived _ _ htr _ _ _ _ _ => exact absurd (by rw [System.heardFrom, htr]; rfl) hmore
      | ended _ _ htr _ _ _ _ _ => exact absurd (by rw [System.heardFrom, htr]; rfl) hmore
      | cutOff _ _ _ hs _ => exact absurd (by rw [System.heardFrom, hs]; rfl) hmore

/-- STEP: the first packets taken. -/
theorem TakenFirst.step (h : TakenFirst σ id) (hf : (σ.client id).Flags)
    (hdown : DownWhole σ id → Down σ id) (hv : View na utf8 σ σ' id) : TakenFirst σ' id := by
  intro n hn'
  have ha := hv.advances
  have hn := ha.whole_sentTo hn'
  have hsent : (σ.sentTo id).map Prod.fst <+: (σ'.sentTo id).map Prod.fst :=
    ((packetsTo_mono ha.trace id).map _).map _
  by_cases hmore : (σ'.client id).taken = (σ.client id).taken
  · rw [hmore]
    exact (h n hn).trans hsent
  · cases hv with
    | @acted c' bs ch' hact hs hl =>
      have hclient : σ'.client id = c' := by rw [System.client, hl]
      rw [hclient] at hmore ⊢
      refine List.IsPrefix.trans ?_ hsent
      rcases hact.reading hf with ⟨-, htaken, -⟩ | ⟨p, hrecv, htaken, hopen⟩ | ⟨htaken, -⟩
      · exact absurd htaken hmore
      · have htaken' : c'.taken = (σ.client id).taken ++ [p] := htaken
        rw [htaken']
        by_cases hlong : n ≤ (σ.client id).taken.length
        · rw [List.take_append_of_le_length hlong]
          exact h n hn
        · have hdown' := hdown fun y hy =>
            hn y ((List.take_prefix_take_left (by omega)).subset hy)
          exact (List.take_prefix _ _).trans ((hdown'.pipe hopen).packet hrecv fun y hy =>
            hn y ((List.take_prefix_take_left (by omega)).subset hy)).read
      · exact absurd htaken hmore
    | served hl _ _ _ => exact absurd (by rw [System.client, hl]; rfl) hmore
    | arrived _ _ _ _ _ _ _ hl => exact absurd (by rw [System.client, hl]; rfl) hmore
    | ended _ _ _ _ _ _ _ hl => exact absurd (by rw [System.client, hl]; rfl) hmore
    | cutOff _ _ _ _ hl => exact absurd (by rw [System.client, hl]; rfl) hmore

end steps

/-! ### Runs -/

section runs

variable {na : Sodium} {env : ReturningEnv} {utf8 : Bytes → Bool} {honest : ConnId → Bool}
  {σ σ' : System}

/-- What holds of the system in every state it reaches. -/
structure Sound (na : Sodium) (env : ReturningEnv) (honest : ConnId → Bool) (σ : System) :
    Prop where
  served : Served na env σ
  sane : ∀ id, honest id = true → (σ.client id).Sane na
  up : ∀ id, honest id = true → UpWhole σ id → Up σ id
  down : ∀ id, honest id = true → DownWhole σ id → Down σ id
  heardFirst : ∀ id, honest id = true → HeardFirst σ id
  takenFirst : ∀ id, honest id = true → TakenFirst σ id

theorem SystemInitial.sound (h : SystemInitial σ) : Sound na env honest σ := by
  obtain ⟨hinit, hrun, hlinks⟩ := h
  obtain ⟨listenfd, epollfd, pk, sk, gk, -, -, -, -, hserver⟩ := id hinit
  have hheard : ∀ id, σ.heardFrom id = [] := fun id => by rw [System.heardFrom, hserver]; rfl
  have hsent : ∀ id, σ.sentTo id = [] := fun id => by rw [System.sentTo, hserver]; rfl
  have hclient : ∀ id, σ.client id = {} := by
    intro id
    obtain ⟨cuts, hl⟩ := hlinks id
    rw [System.client, hl]
  have hconn : ∀ id, σ.conn id = ⟨⟨[], .alive, []⟩, ⟨[], .alive, []⟩⟩ := by
    intro id
    rw [System.conn, hserver]
    rfl
  refine ⟨⟨fun _ => .start hinit, fun h' => ?_⟩, fun id _ => ?_, fun id _ _ => ?_, fun id _ _ => ?_,
    fun id _ n _ => ?_, fun id _ n _ => ?_⟩
  · rw [hrun] at h'
    cases h'
  · rw [hclient]
    exact .start na
  · obtain ⟨cuts, hl⟩ := hlinks id
    refine ⟨fun _ => by rw [hconn]; exact ⟨rfl, rfl⟩, ?_, Or.inr ?_⟩
    · rw [hheard]
      exact List.nil_prefix
    · rw [hclient, hl, hheard, hconn]
      exact .start []
  · obtain ⟨cuts, hl⟩ := hlinks id
    have hcut : (σ.links id).cut = none := by rw [hl]
    obtain ⟨hin, hlost⟩ := incoming_whole hcut
    refine ⟨by rw [hl]; exact Nat.zero_le _, ?_, ?_, fun _ => ?_⟩
    · rw [hcut]
      exact fun n hn => by cases hn
    · rw [hclient]
      exact List.nil_prefix
    · rw [hclient, hsent, hlost]
      refine (Pipe.start []).move ?_ fun _ => rfl
      rw [hin, hconn, List.drop_nil]
  · rw [hheard, List.take_nil]
    exact List.nil_prefix
  · rw [hclient, List.take_nil]
    exact List.nil_prefix

/-- STEP: every step of the system keeps the invariant. -/
theorem Sound.step (hσ : Sound na env honest σ) (h : Stepped na env utf8 honest σ σ') :
    Sound na env honest σ' := by
  have hv : ∀ id, honest id = true → View na utf8 σ σ' id := fun id hid => h.view hσ.served hid
  refine ⟨hσ.served.step h, fun id hid => ?_, fun id hid hw => ?_, fun id hid hw => ?_,
    fun id hid => (hσ.heardFirst id hid).step (hσ.up id hid) (hv id hid),
    fun id hid => (hσ.takenFirst id hid).step (hσ.sane id hid).flags (hσ.down id hid) (hv id hid)⟩
  · have hs := hσ.sane id hid
    cases hv id hid with
    | served hl => rw [System.client, hl]; exact hs
    | acted hact _ hl => rw [System.client, hl]; exact hs.act hact
    | arrived _ _ _ _ _ _ _ hl => rw [System.client, hl]; exact hs
    | ended _ _ _ _ _ _ _ hl => rw [System.client, hl]; exact hs
    | cutOff _ _ _ _ hl => rw [System.client, hl]; exact hs
  · exact (hσ.up id hid (hw.mono (hv id hid).advances)).step (hv id hid) hw
  · exact (hσ.down id hid (hw.mono (hv id hid).advances)).step (hσ.sane id hid).flags (hv id hid) hw

variable {env : Env}

/-- INVARIANT: every reachable state of the system. -/
theorem SystemReach.sound (h : SystemReach na env utf8 honest σ) :
    Sound na env.returning honest σ :=
  Reachable.invariant (I := Sound na env.returning honest) (fun _ => SystemInitial.sound)
    (fun _ _ _ hσ ht => hσ.step (systemStep_stepped ht)) h.returning

/-- RUNS: the logs of an honest client's connection grow. -/
theorem SystemReach.advances (h : SystemReach na env utf8 honest σ) {as : List SystemAct}
    (hrun : run (systemStep na env utf8 honest) as σ = some σ') {id : ConnId}
    (hid : honest id = true) : Advances σ σ' id :=
  run_relation (systemStep na env.returning utf8 honest) (I := Sound na env.returning honest)
    (R := fun σ σ' => Advances σ σ' id) (fun _ _ _ hσ ht => hσ.step (systemStep_stepped ht))
    (fun σ _ => Advances.refl σ id) (fun _ _ _ => Advances.trans)
    (fun _ _ _ hσ ht => ((systemStep_stepped ht).view hσ.served hid).advances) h.sound
    (systemRun_returning hrun)

end runs

end CliChat
