import CliChat.Client.Invariant

/-! @src client/src/client.cpp | name:HandleBroadcast, ClientLoop, UIUpdateLoop | scheme:case analysis

    The actions after which a running client does not run. `RecvDecrypted` has one answer for a
    stream that has ended and for a packet that it cannot open, so a packet is enough to end the
    loop of `HandleBroadcast`; a text that is not UTF-8 ends the loop of `UIUpdateLoop`.

        HandleBroadcast   stream ended │ packet not readable
        ClientLoop        prompt closed │ "/exit"
        UIUpdateLoop      text not UTF-8                        -/

namespace CliChat

/-- The packet `p` is longer than a nonce and a MAC, and libsodium opens its box to `m`. -/
def Holds (na : Sodium) (key p m : Bytes) : Prop :=
  secretboxNonceBytes + secretboxMacBytes < p.length ∧
    na.secretboxOpenEasy (p.drop secretboxNonceBytes) (p.take secretboxNonceBytes) key = some m

/-- The packet holds a text, and not the control text. -/
def Readable (na : Sodium) (key p : Bytes) : Prop := ∃ m, Holds na key p m ∧ m ≠ usernameTaken

theorem openPacket_eq_some {na : Sodium} {key p m : Bytes} :
    openPacket na key p = some m ↔ Holds na key p m := by
  rw [openPacket, Holds]
  split
  · rename_i hshort
    exact ⟨fun h => (by cases h), fun h => absurd h.1 (by omega)⟩
  · rename_i hlong
    simp only [List.length_drop]
    split
    · exact ⟨fun h => (by cases h), fun h => absurd h.1 (by omega)⟩
    · exact ⟨fun h => ⟨by omega, h⟩, fun h => h.2⟩

instance (na : Sodium) (key p : Bytes) : Decidable (Readable na key p) :=
  decidable_of_iff (∃ m ∈ openPacket na key p, m ≠ usernameTaken) <| exists_congr fun m => by
    rw [Option.mem_def, openPacket_eq_some]

namespace Client

variable {na : Sodium} {utf8 : Bytes → Bool} {c c' : Client} {ch ch' : Chan}

/-- EXACT: a pass of `HandleBroadcast` that reads a packet leaves the client running if and only if
    the packet is readable. -/
theorem handleBroadcast_running (hf : Flags c) (hrun : c.running = true) {p : Bytes} {ch₁ : Chan}
    (hrecv : CliChat.recvPacket ch = .done (some p) ch₁)
    (h : c.handleBroadcast na ch = some (c', ch')) :
    c'.running = true ↔ Readable na c.groupKey p := by
  obtain ⟨-, hstop, hopen, hui⟩ := hf.running hrun
  obtain ⟨⟨msgOpt, c₁, ch₂⟩, hr, heq⟩ := Option.map_eq_some_iff.mp h
  obtain ⟨pkt, rfl, rfl, hreads⟩ := recvDecrypted_reads hr
  cases heq
  -- the packet that was read is `p`
  have hpkt : pkt = some p := by
    rcases hreads with ⟨-, hd⟩ | ⟨hclosed, -⟩
    · rw [hrecv] at hd
      cases hd
      rfl
    · rw [hopen] at hclosed
      cases hclosed
  subst hpkt
  have hcases := onMessage_cases (c := c.decrypting na (some p)) hstop hui
    (openPacket na c.groupKey p)
  rw [Option.bind_some]
  constructor
  · intro hgoes
    rcases hcases with ⟨-, hhalt⟩ | ⟨m, hm, hne, -⟩
    · rw [hgoes] at hhalt
      cases hhalt
    · exact ⟨m, openPacket_eq_some.mp hm, hne⟩
  · rintro ⟨m, hm, hne⟩
    rcases hcases with ⟨hnone | htaken, -⟩ | ⟨m', -, -, heq⟩
    · rw [openPacket_eq_some.mpr hm] at hnone
      cases hnone
    · rw [openPacket_eq_some.mpr hm] at htaken
      exact absurd (Option.some.inj htaken) hne
    · rw [heq]
      exact hrun

/-- What ends the loop of a thread. -/
inductive Stops (na : Sodium) (utf8 : Bytes → Bool) (c : Client) (ch : Chan) : ClientAct → Prop where
  | left {inputOpt : Option Bytes} {nonce : Bytes} {sched : Answers} :
      inputOpt = none ∨ inputOpt = some (ascii "/exit") →
      Stops na utf8 c ch (.clientLoop inputOpt nonce sched)
  | closed {ch' : Chan} : CliChat.recvPacket ch = .done none ch' →
      Stops na utf8 c ch .handleBroadcast
  | unreadable {p : Bytes} {ch' : Chan} : CliChat.recvPacket ch = .done (some p) ch' →
      ¬ Readable na c.groupKey p → Stops na utf8 c ch .handleBroadcast
  | choked {m : Bytes} : m ∈ c.msgQueue → utf8 m = false → Stops na utf8 c ch .uiUpdateLoop

theorem Utters.running {msg bs : Bytes} {ok : Bool} {c₁ : Client} (h : Utters na c msg ok bs c₁) :
    c₁.running = c.running := by
  cases h <;> rfl

theorem clientLoop_stops (hrun : c.running = true) (inputOpt : Option Bytes) {nonce : Bytes}
    (hnonce : nonce.length = secretboxNonceBytes) (sched : Answers)
    (h : (c.clientLoop na inputOpt nonce sched).1.running = false) :
    inputOpt = none ∨ inputOpt = some (ascii "/exit") := by
  unfold clientLoop at h
  split at h
  · exact Or.inl rfl
  · rename_i input
    split at h
    · rw [hrun] at h
      cases h
    · split at h
      · rename_i hexit
        exact Or.inr (by rw [hexit])
      · have hutter := c.sendEncrypted_utters na (c.username ++ ascii ": " ++ input) hnonce sched
        dsimp only at h
        rw [hutter.running, hrun] at h
        cases h

theorem uiUpdateLoop_stops (hrun : c.running = true) (h : (c.uiUpdateLoop utf8).running = false) :
    ∃ m ∈ c.msgQueue, utf8 m = false := by
  by_contra hall
  have hutf8 : ∀ m ∈ c.msgQueue, utf8 m = true := by
    intro m hm
    by_contra hbad
    exact hall ⟨m, hm, by simpa using hbad⟩
  have hnil : c.msgQueue.dropWhile utf8 = [] := List.dropWhile_eq_nil_iff.mpr hutf8
  have hgoes : (c.uiUpdateLoop utf8).running = c.running := by
    rw [uiUpdateLoop, hnil]
    split <;> rfl
  rw [hgoes, hrun] at h
  cases h

/-- COMPLETE: an action that stops the client is one of these. -/
theorem act_stops (hf : Flags c) (hrun : c.running = true) {a : ClientAct} {bs : Bytes}
    (h : c.act na utf8 ch a = some (c', bs, ch')) (hstop : c'.running = false) :
    Stops na utf8 c ch a := by
  have hstage := (hf.running hrun).1
  cases a with
  | sendKey pk sk sched => simp [act, hstage] at h
  | recvServerPk => simp [act, hstage] at h
  | recvGroupKey => simp [act, hstage] at h
  | sendUsername usernameOpt nonce sched => simp [act, hstage] at h
  | handleBroadcast =>
    simp only [act, hrun, if_true, Option.map_eq_some_iff, Prod.mk.injEq] at h
    obtain ⟨⟨c₁, ch₁⟩, h, rfl, rfl, rfl⟩ := h
    obtain ⟨x, hr, heq⟩ := Option.map_eq_some_iff.mp h
    obtain ⟨pkt, -, -, hreads⟩ := recvDecrypted_reads hr
    rcases hreads with ⟨-, hrecv⟩ | ⟨hclosed, -⟩
    · cases pkt with
      | none => exact .closed hrecv
      | some p =>
        refine .unreadable hrecv fun hp => ?_
        rw [(handleBroadcast_running hf hrun hrecv h).mpr hp] at hstop
        cases hstop
    · rw [(hf.running hrun).2.2.1] at hclosed
      cases hclosed
  | clientLoop inputOpt nonce sched =>
    simp only [act, Option.ite_none_right_eq_some, Option.some.injEq, Prod.mk.injEq] at h
    obtain ⟨⟨-, hnonce⟩, rfl, -, -⟩ := h
    exact .left (clientLoop_stops hrun inputOpt hnonce sched hstop)
  | uiUpdateLoop =>
    simp only [act, Option.ite_none_right_eq_some, Option.some.injEq, Prod.mk.injEq] at h
    obtain ⟨-, rfl, -, -⟩ := h
    obtain ⟨m, hm, hbad⟩ := uiUpdateLoop_stops hrun hstop
    exact .choked hm hbad

end Client

end CliChat
