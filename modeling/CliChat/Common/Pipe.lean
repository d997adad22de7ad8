import CliChat.Common.FrameStream

/-! @src common/src/network_session.cpp | name:SendPacket, RecvPacket | scheme:pipe

    One direction of a connection between two sessions, whoever writes and whoever reads. The
    writer's log says which packets it gave to `SendPacket` and what that returned; the reader's log
    says which packets `RecvPacket` returned. `Pipe` ties the two to the bytes that are unread: as
    long as the sends of the packets that were read succeeded, the reader has read the first packets
    that were written, each once. A failed connection may end anywhere; an orderly end comes after
    all that was written before it.

        ys    y₁ ✓   y₂ ✓  │ y₃ ✓    y₄ ✗       y₅ ✓
              ░ read: ps ░ │ frame y₃ │ part of y₄ │ frame y₅       = ch.bytes ++ tail
                           ▲ reader         ch.bytes │ tail (has not arrived)          -/

namespace CliChat

open Framing

/-- `bs` is what the sends `ys` left on the stream: a send that succeeded left its whole frame. -/
def Written (ys : List (Bytes × Bool)) (bs : Bytes) : Prop :=
  ∃ ws : List Bytes, List.Forall₂ (fun y w => y.2 = true → w = wire y.1) ys ws ∧ bs = ws.flatten

/-- The send succeeded, and the header can hold the length. -/
def Whole (y : Bytes × Bool) : Prop := y.2 = true ∧ y.1.length < 2 ^ 32

instance : DecidablePred Whole := fun y =>
  inferInstanceAs (Decidable (y.2 = true ∧ y.1.length < 2 ^ 32))

theorem Written.nil : Written [] [] := ⟨[], .nil, rfl⟩

theorem Written.single {p w : Bytes} {ok : Bool} (h : ok = true → w = wire p) :
    Written [(p, ok)] w := ⟨[w], .cons h .nil, by simp⟩

theorem Written.append {ys zs : List (Bytes × Bool)} {bs cs : Bytes} (h : Written ys bs)
    (k : Written zs cs) : Written (ys ++ zs) (bs ++ cs) := by
  obtain ⟨ws, hws, rfl⟩ := h
  obtain ⟨vs, hvs, rfl⟩ := k
  exact ⟨ws ++ vs, List.rel_append hws hvs, List.flatten_append.symm⟩

theorem Written.eq_nil {bs : Bytes} (h : Written [] bs) : bs = [] := by
  obtain ⟨ws, hws, rfl⟩ := h
  cases hws
  rfl

theorem Written.eq_wire {p bs : Bytes} (h : Written [(p, true)] bs) : bs = wire p := by
  obtain ⟨ws, hws, rfl⟩ := h
  cases hws with
  | @cons _ w _ _ hw hnil =>
    cases hnil
    rw [hw rfl, List.flatten_singleton]

/-- The first send left its frame, if it is whole. -/
theorem Written.uncons {y : Bytes × Bool} {ys : List (Bytes × Bool)} {bs : Bytes}
    (h : Written (y :: ys) bs) (hy : Whole y) :
    ∃ rest, bs = frame 4 y.1 ++ rest ∧ Written ys rest := by
  obtain ⟨ws, hws, rfl⟩ := h
  cases hws with
  | @cons _ w _ ws hw hws =>
    exact ⟨ws.flatten, by rw [List.flatten_cons, hw hy.1, wire_eq_frame hy.2], ws, hws, rfl⟩

/-- Frames are a prefix code. -/
theorem frame_append_inj {p q a b : Bytes} (hp : p.length < 2 ^ 32) (hq : q.length < 2 ^ 32)
    (h : frame 4 p ++ a = frame 4 q ++ b) : p = q ∧ a = b := by
  have hp' := unframe_frame 4 (p := p) (by simpa using hp) a
  have hq' := unframe_frame 4 (p := q) (by simpa using hq) b
  rw [h, hq'] at hp'
  simp only [Option.some.injEq, Prod.mk.injEq] at hp'
  exact ⟨hp'.1.symm, hp'.2.symm⟩

/-! ### One call -/

/-- The stream has ended and there is nothing left on it. -/
def Chan.Drained (ch : Chan) : Prop := ch.bytes = [] ∧ ch.ending ≠ .alive

/-- Unless the end was orderly, a packet that is returned was a frame. -/
theorem recvPacket_some {ch ch' : Chan} {p : Bytes} (h : recvPacket ch = .done (some p) ch')
    (hend : ch.ending ≠ .eof) : p.length < 2 ^ 32 ∧ ch.bytes = frame 4 p ++ ch'.bytes := by
  have hsound : DecodesSoundly ch := (decodesSoundly_iff ch).mpr fun hpad => hend hpad.1
  obtain ⟨hbytes, hlen⟩ := hsound.exact_frame p ch' h
  exact ⟨hlen, hbytes⟩

/-- A call leaves a part of the stream, which ends as before. -/
theorem recvPacket_suffix {ch ch' : Chan} {r : Option Bytes} (h : recvPacket ch = .done r ch') :
    ch'.bytes <:+ ch.bytes ∧ ch'.ending = ch.ending := by
  have hshort : ∀ {o : Option Bytes} {cuts : List ℕ}, recvPacket ch = cutShort o cuts ch.ending →
      ch'.bytes <:+ ch.bytes ∧ ch'.ending = ch.ending := by
    intro o cuts hs
    obtain ⟨rfl, -⟩ := cutShort_done (hs.symm.trans h)
    exact ⟨List.nil_suffix, rfl⟩
  rcases stream_cases ch.bytes with ⟨p, rest, hs, hp⟩ | hlt | ⟨h4, hlt⟩
  · obtain ⟨cuts, hrecv⟩ := recvPacket_frame rest hp ch.ending ch.cuts
    rw [← hs, h] at hrecv
    cases hrecv
    exact ⟨hs ▸ List.suffix_append _ _, rfl⟩
  · exact hshort (recvPacket_header ch hlt).choose_spec
  · exact hshort (recvPacket_body h4 hlt).choose_spec

/-- After nullopt there is nothing left. -/
theorem recvPacket_none {ch ch' : Chan} (h : recvPacket ch = .done none ch') : ch'.Drained := by
  have hshort : ∀ {o : Option Bytes} {cuts : List ℕ}, recvPacket ch = cutShort o cuts ch.ending →
      ch'.Drained := by
    intro o cuts hs
    obtain ⟨rfl, hne⟩ := cutShort_done (hs.symm.trans h)
    exact ⟨rfl, hne⟩
  rcases stream_cases ch.bytes with ⟨p, rest, hs, hp⟩ | hlt | ⟨h4, hlt⟩
  · obtain ⟨cuts, hrecv⟩ := recvPacket_frame rest hp ch.ending ch.cuts
    rw [← hs, h] at hrecv
    cases hrecv
  · exact hshort (recvPacket_header ch hlt).choose_spec
  · exact hshort (recvPacket_body h4 hlt).choose_spec

theorem recvPacket_drained {ch ch' : Chan} {r : Option Bytes} (h : recvPacket ch = .done r ch')
    (hd : ch.Drained) : r = none := by
  obtain ⟨cuts, hshort⟩ := recvPacket_header ch (by simp [hd.1])
  rw [h, hd.1] at hshort
  cases hch : ch.ending <;> rw [hch] at hshort <;> simp at hshort
  · exact hshort.1
  · exact hshort.1

/-- The channels carry the same stream, which `recv` may cut in different ways. -/
structure Chan.Same (ch₁ ch₂ : Chan) : Prop where
  bytes : ch₂.bytes = ch₁.bytes
  ending : ch₂.ending = ch₁.ending

/-- The cuts do not decide what a call returns, nor what it leaves. -/
theorem recvPacket_same {ch₁ ch₂ ch₁' : Chan} {r : Option Bytes}
    (h : recvPacket ch₁ = .done r ch₁') (hsame : ch₁.Same ch₂) :
    ∃ ch₂', recvPacket ch₂ = .done r ch₂' ∧ ch₁'.Same ch₂' := by
  have hshort : ∀ {o : Option Bytes} {cuts₁ cuts₂ : List ℕ},
      recvPacket ch₁ = cutShort o cuts₁ ch₁.ending → recvPacket ch₂ = cutShort o cuts₂ ch₂.ending →
      ∃ ch₂', recvPacket ch₂ = .done r ch₂' ∧ ch₁'.Same ch₂' := by
    intro o cuts₁ cuts₂ h₁ h₂
    rw [hsame.ending] at h₂
    rw [h] at h₁
    cases hend : ch₁.ending <;> rw [hend] at h₁ h₂ <;> cases h₁
    · exact ⟨_, h₂, rfl, rfl⟩
    · exact ⟨_, h₂, rfl, rfl⟩
  rcases stream_cases ch₁.bytes with ⟨p, rest, hs, hp⟩ | hlt | ⟨h4, hlt⟩
  · obtain ⟨cuts₁, h₁⟩ := recvPacket_frame rest hp ch₁.ending ch₁.cuts
    obtain ⟨cuts₂, h₂⟩ := recvPacket_frame rest hp ch₂.ending ch₂.cuts
    rw [← hs, h] at h₁
    rw [← hs, ← hsame.bytes] at h₂
    cases h₁
    exact ⟨_, h₂, rfl, hsame.ending⟩
  · obtain ⟨cuts₁, h₁⟩ := recvPacket_header ch₁ hlt
    obtain ⟨cuts₂, h₂⟩ := recvPacket_header ch₂ (hsame.bytes ▸ hlt)
    rw [hsame.bytes] at h₂
    exact hshort h₁ h₂
  · obtain ⟨cuts₁, h₁⟩ := recvPacket_body h4 hlt
    obtain ⟨cuts₂, h₂⟩ := recvPacket_body (hsame.bytes ▸ h4) (by rw [hsame.bytes]; exact hlt)
    rw [hsame.bytes] at h₂
    exact hshort h₁ h₂

/-- A call that returns on a live stream returns the same when more has come, or the end has. -/
theorem recvPacket_more {ch ch' : Chan} {r : Option Bytes} (h : recvPacket ch = .done r ch')
    (halive : ch.ending = .alive) (bs : Bytes) (ending : Ending) (cuts : List ℕ) :
    ∃ ch'', recvPacket ⟨ch.bytes ++ bs, ending, cuts⟩ = .done r ch'' ∧
      ch''.bytes = ch'.bytes ++ bs ∧ ch''.ending = ending := by
  have hframe : HoldsFrame ch.bytes := by
    by_contra hnot
    rw [(recvPacket_blocks_iff ch).mpr ⟨halive, hnot⟩] at h
    cases h
  obtain ⟨p, rest, hp, hs⟩ := hframe
  obtain ⟨cuts₁, h₁⟩ := recvPacket_frame rest hp ch.ending ch.cuts
  obtain ⟨cuts₂, h₂⟩ := recvPacket_frame (rest ++ bs) hp ending cuts
  rw [← hs, h] at h₁
  rw [← List.append_assoc, ← hs] at h₂
  cases h₁
  exact ⟨_, h₂, rfl, rfl⟩

/-! ### Successive calls -/

/-- Successive calls of `RecvPacket` lead from `ch` to `ch'` and return the packets `ps`. -/
inductive Consumes : Chan → List Bytes → Chan → Prop
  | refl (ch : Chan) : Consumes ch [] ch
  | packet {ch ch' ch'' : Chan} {p : Bytes} {ps : List Bytes} :
      recvPacket ch = .done (some p) ch' → Consumes ch' ps ch'' → Consumes ch (p :: ps) ch''
  | nothing {ch ch' ch'' : Chan} {ps : List Bytes} :
      recvPacket ch = .done none ch' → Consumes ch' ps ch'' → Consumes ch ps ch''

theorem Consumes.trans {a b c : Chan} {ps qs : List Bytes} (h : Consumes a ps b)
    (k : Consumes b qs c) : Consumes a (ps ++ qs) c := by
  induction h with
  | refl => exact k
  | packet hp _ ih => exact .packet hp (ih k)
  | nothing hp _ ih => exact .nothing hp (ih k)

theorem Consumes.single {ch ch' : Chan} {pkt : Option Bytes} (h : recvPacket ch = .done pkt ch') :
    Consumes ch pkt.toList ch' := by
  cases pkt with
  | none => exact .nothing h (.refl _)
  | some p => exact .packet h (.refl _)

theorem Consumes.of_nil {ch ch' : Chan} {ps : List Bytes} (h : Consumes ch ps ch')
    (hnil : ch.bytes = []) : ch'.bytes = [] := by
  induction h with
  | refl => exact hnil
  | packet hp _ ih => exact ih (List.suffix_nil.mp (hnil ▸ (recvPacket_suffix hp).1))
  | nothing hp _ ih => exact ih (List.suffix_nil.mp (hnil ▸ (recvPacket_suffix hp).1))

theorem Consumes.ending {ch ch' : Chan} {ps : List Bytes} (h : Consumes ch ps ch') :
    ch'.ending = ch.ending := by
  induction h with
  | refl => rfl
  | packet hp _ ih => exact ih.trans (recvPacket_suffix hp).2
  | nothing hp _ ih => exact ih.trans (recvPacket_suffix hp).2

theorem Consumes.of_drained {ch ch' : Chan} {ps : List Bytes} (h : Consumes ch ps ch')
    (hd : ch.Drained) : ps = [] ∧ ch'.Drained := by
  induction h with
  | refl => exact ⟨rfl, hd⟩
  | packet hp _ _ => cases recvPacket_drained hp hd
  | nothing hp _ ih => exact ih (recvPacket_none hp)

theorem Consumes.lengths {ch ch' : Chan} {ps : List Bytes} (h : Consumes ch ps ch') :
    ∀ p ∈ ps, p.length < 2 ^ 32 := by
  induction h with
  | refl => simp
  | packet hp _ ih =>
    intro q hq
    rcases List.mem_cons.mp hq with rfl | hq
    · exact recvPacket_length hp
    · exact ih q hq
  | nothing _ _ ih => exact ih

/-! ### The pipe -/

/-- The packets `ps` were read of the sends `ys`; `ch` is unread, and `tail` has not arrived. An
    orderly end comes between two sends. -/
structure Pipe (ys : List (Bytes × Bool)) (ps : List Bytes) (ch : Chan) (tail : Bytes) : Prop where
  read : ps <+: ys.map Prod.fst
  unread : Written (ys.drop ps.length) (ch.bytes ++ tail)
  ended : ch.ending = .eof → ∃ ms ls, ys.drop ps.length = ms ++ ls ∧ Written ms ch.bytes

namespace Pipe

variable {ys zs : List (Bytes × Bool)} {ps qs : List Bytes} {ch ch' : Chan} {tail bs : Bytes}

theorem start (cuts : List ℕ) : Pipe [] [] ⟨[], .alive, cuts⟩ [] :=
  ⟨List.nil_prefix, .nil, fun h => by cases h⟩

theorem length_le (h : Pipe ys ps ch tail) : ps.length ≤ ys.length := by
  simpa using h.read.length_le

theorem drop_append (h : Pipe ys ps ch tail) :
    (ys ++ zs).drop ps.length = ys.drop ps.length ++ zs := by
  rw [List.drop_append_of_le_length h.length_le]

theorem read_append (h : Pipe ys ps ch tail) : ps <+: (ys ++ zs).map Prod.fst := by
  rw [List.map_append]
  exact h.read.trans (List.prefix_append _ _)

/-- More is written, and is on its way. -/
theorem write (h : Pipe ys ps ch tail) (hbs : Written zs bs) :
    Pipe (ys ++ zs) ps ch (tail ++ bs) where
  read := h.read_append
  unread := by
    rw [h.drop_append, ← List.append_assoc]
    exact h.unread.append hbs
  ended := by
    intro heof
    obtain ⟨ms, ls, heq, hms⟩ := h.ended heof
    exact ⟨ms, ls ++ zs, by rw [h.drop_append, heq, List.append_assoc], hms⟩

/-- More is written, and has arrived. -/
theorem feed (h : Pipe ys ps ch []) (hbs : Written zs bs) (hch : ch'.bytes = ch.bytes ++ bs) :
    Pipe (ys ++ zs) ps ch' [] := by
  have hunread : Written ((ys ++ zs).drop ps.length) ch'.bytes := by
    rw [h.drop_append, hch]
    exact (List.append_nil ch.bytes ▸ h.unread).append hbs
  exact ⟨h.read_append, by rw [List.append_nil]; exact hunread,
    fun _ => ⟨_, [], (List.append_nil _).symm, hunread⟩⟩

/-- What is unread is divided elsewhere: more of it has arrived, or the stream is cut. -/
theorem move (h : Pipe ys ps ch tail) (hmove : ch'.bytes ++ bs = ch.bytes ++ tail)
    (hend : ch'.ending = .eof → bs = []) : Pipe ys ps ch' bs where
  read := h.read
  unread := hmove ▸ h.unread
  ended := by
    intro heof
    refine ⟨_, [], (List.append_nil _).symm, ?_⟩
    rw [hend heof, List.append_nil] at hmove
    exact hmove ▸ h.unread

/-- READ: the next packet, if its send is whole. -/
theorem packet (h : Pipe ys ps ch tail) {p : Bytes} (hrecv : recvPacket ch = .done (some p) ch')
    (hok : ∀ y ∈ ys.take (ps.length + 1), Whole y) : Pipe ys (ps ++ [p]) ch' tail := by
  obtain ⟨-, hending⟩ := recvPacket_suffix hrecv
  have hne : ch.bytes ≠ [] := by
    intro hnil
    obtain ⟨cuts, hshort⟩ := recvPacket_header ch (by simp [hnil])
    rw [hrecv, hnil] at hshort
    cases hch : ch.ending <;> rw [hch] at hshort <;> simp at hshort
  -- the next send has left its frame in front of what is unread
  have hunread := h.unread
  have hnext : ∃ y, ys[ps.length]? = some y := by
    rcases hy : ys[ps.length]? with _ | y
    · rw [List.getElem?_eq_none_iff] at hy
      rw [List.drop_eq_nil_of_le hy] at hunread
      exact absurd (List.append_eq_nil_iff.mp hunread.eq_nil).1 hne
    · exact ⟨y, rfl⟩
  obtain ⟨y, hy⟩ := hnext
  obtain ⟨hlt, hyeq⟩ := List.getElem?_eq_some_iff.mp hy
  have hwhole : Whole y := by
    refine hok y ?_
    rw [List.take_add_one, hy]
    simp
  have hdrop : ys.drop ps.length = y :: ys.drop (ps.length + 1) := by
    rw [List.drop_eq_getElem_cons hlt, hyeq]
  have hlength : (ps ++ [p]).length = ps.length + 1 := List.length_append
  rw [hdrop] at hunread
  obtain ⟨rest, hrest, hunread'⟩ := hunread.uncons hwhole
  have hstep : p = y.1 ∧ ch'.bytes ++ tail = rest ∧ (ch'.ending = .eof → ∃ ms ls,
      ys.drop (ps.length + 1) = ms ++ ls ∧ Written ms ch'.bytes) := by
    by_cases heof : ch.ending = .eof
    · obtain ⟨ms, ls, heq, hms⟩ := h.ended heof
      cases ms with
      | nil => exact absurd hms.eq_nil hne
      | cons m ms =>
        rw [hdrop, List.cons_append, List.cons.injEq] at heq
        obtain ⟨rfl, heq⟩ := heq
        obtain ⟨rest', hrest', hms'⟩ := hms.uncons hwhole
        obtain ⟨cuts, hframe⟩ := recvPacket_frame rest' hwhole.2 ch.ending ch.cuts
        rw [← hrest', hrecv] at hframe
        cases hframe
        rw [hrest', List.append_assoc] at hrest
        exact ⟨rfl, List.append_cancel_left hrest, fun _ => ⟨ms, ls, heq, hms'⟩⟩
    · obtain ⟨hp, hbytes⟩ := recvPacket_some hrecv heof
      rw [hbytes, List.append_assoc] at hrest
      obtain ⟨hpy, hrest'⟩ := frame_append_inj hp hwhole.2 hrest
      exact ⟨hpy, hrest', fun heof' => absurd (hending ▸ heof') heof⟩
  obtain ⟨rfl, rfl, hended⟩ := hstep
  refine ⟨?_, ?_, ?_⟩
  · have hps : ps = (ys.map Prod.fst).take ps.length := List.prefix_iff_eq_take.mp h.read
    have htake : ps ++ [y.1] = (ys.take (ps.length + 1)).map Prod.fst := by
      rw [List.take_add_one, hy, List.map_append, List.map_take, ← hps]
      rfl
    rw [htake]
    exact (List.take_prefix _ _).map _
  · rw [hlength]
    exact hunread'
  · rw [hlength]
    exact hended

/-- READ: successive calls, up to the end of the stream. -/
theorem consumes (hc : Consumes ch qs ch') : ∀ {ps : List Bytes}, Pipe ys ps ch tail →
    (∀ y ∈ ys.take (ps ++ qs).length, Whole y) →
    (ps ++ qs) <+: ys.map Prod.fst ∧ (ch'.Drained ∨ Pipe ys (ps ++ qs) ch' tail) := by
  induction hc with
  | refl ch =>
    intro ps h _
    rw [List.append_nil]
    exact ⟨h.read, Or.inr h⟩
  | @packet ch ch₁ ch' p qs hrecv _ ih =>
    intro ps h hok
    have hnext := h.packet hrecv fun y hy =>
      hok y ((List.take_prefix_take_left (by simp)).subset hy)
    have hsplit : ps ++ p :: qs = ps ++ [p] ++ qs := by simp
    rw [hsplit] at hok ⊢
    exact ih hnext hok
  | @nothing ch ch₁ ch' qs hrecv hrest _ =>
    intro ps h _
    obtain ⟨rfl, hdrained⟩ := hrest.of_drained (recvPacket_none hrecv)
    rw [List.append_nil]
    exact ⟨h.read, Or.inl hdrained⟩

/-- READ: the first packets, if their sends are whole. -/
theorem consumes_take {n : ℕ} (hc : Consumes ch qs ch') : ∀ {ps : List Bytes},
    Pipe ys ps ch tail → (∀ y ∈ ys.take n, Whole y) →
    (ps ++ qs).take n <+: ys.map Prod.fst := by
  induction hc with
  | refl ch =>
    intro ps h _
    rw [List.append_nil]
    exact (List.take_prefix _ _).trans h.read
  | @packet ch ch₁ ch' p qs hrecv _ ih =>
    intro ps h hok
    by_cases hn : n ≤ ps.length
    · rw [List.take_append_of_le_length hn]
      exact (List.take_prefix _ _).trans h.read
    · have hnext := h.packet hrecv fun y hy =>
        hok y ((List.take_prefix_take_left (by omega)).subset hy)
      have hsplit : ps ++ p :: qs = ps ++ [p] ++ qs := by simp
      rw [hsplit]
      exact ih hnext hok
  | @nothing ch ch₁ ch' qs hrecv hrest _ =>
    intro ps h _
    obtain ⟨rfl, -⟩ := hrest.of_drained (recvPacket_none hrecv)
    rw [List.append_nil]
    exact (List.take_prefix _ _).trans h.read

end Pipe

end CliChat
