import CliChat.Server.Outcome

/-! @src server/src/server.cpp | name:m_clients, m_usernames | scheme:run invariant

    The two containers agree: `m_usernames` is the set of the names of the registered entries, no
    two of them share a name, and registration comes after the key exchange (`Store`). Every
    disconnect of a cascade keeps this, so a registration that disconnects others on the way, or
    the client itself, keeps it too. `Evolves` is the companion relation over time: an entry that is
    still there has kept its connection, its flags have only gone up, and its name is settled. -/

namespace CliChat

open Transition

/-- `c` is the entry of `fd`, and it is registered. -/
def Registered (s : Server) (fd : Fd) (c : ClientInfo) : Prop :=
  s.clients.lookup fd = some c ∧ c.registered = true

/-- The store invariant. -/
structure Store (s : Server) : Prop extends Ready s where
  names : ∀ n, n ∈ s.usernames ↔ ∃ fd c, Registered s fd c ∧ c.username = n
  unique : ∀ fd fd' c c', Registered s fd c → Registered s fd' c' → c.username = c'.username →
    fd = fd'
  keyed : ∀ fd c, Registered s fd c → c.keyExchanged = true

/-- What an entry keeps while it stays in the map. -/
structure Grows (c c' : ClientInfo) : Prop where
  conn : c'.session.conn = c.session.conn
  keyExchanged : c.keyExchanged = true → c'.keyExchanged = true
  registered : c.registered = true → c'.registered = true
  username : c.registered = true → c'.username = c.username

theorem Grows.refl (c : ClientInfo) : Grows c c := ⟨rfl, id, id, fun _ => rfl⟩

theorem Grows.trans {a b c : ClientInfo} (h : Grows a b) (k : Grows b c) : Grows a c where
  conn := k.conn.trans h.conn
  keyExchanged := fun ha => k.keyExchanged (h.keyExchanged ha)
  registered := fun ha => k.registered (h.registered ha)
  username := fun ha => (k.username (h.registered ha)).trans (h.username ha)

/-- Entries only grow; those of later connections are new. -/
structure Evolves (s s' : Server) : Prop where
  accepted : s.kernel.accepted ≤ s'.kernel.accepted
  entries : ∀ fd c', s'.clients.lookup fd = some c' → c'.session.conn < s.kernel.accepted →
    ∃ c, s.clients.lookup fd = some c ∧ Grows c c'

namespace Evolves

theorem of_clients {s s' : Server} (ha : s'.kernel.accepted = s.kernel.accepted)
    (hc : s'.clients = s.clients) : Evolves s s' where
  accepted := ha.ge
  entries := fun fd c' hl _ => ⟨c', by rw [← hc]; exact hl, Grows.refl c'⟩

theorem refl (s : Server) : Evolves s s := of_clients rfl rfl

theorem trans {a b c : Server} (h : Evolves a b) (k : Evolves b c) : Evolves a c where
  accepted := h.accepted.trans k.accepted
  entries := by
    intro fd e hl hlt
    obtain ⟨d, hd, hgrow⟩ := k.entries fd e hl (hlt.trans_le h.accepted)
    obtain ⟨e₀, he₀, hgrow₀⟩ := h.entries fd d hd (hgrow.conn ▸ hlt)
    exact ⟨e₀, he₀, hgrow₀.trans hgrow⟩

theorem of_shrinks {s s' : Server} (h : Shrinks s s') : Evolves s s' where
  accepted := h.accepted.ge
  entries := fun _ c' hl _ => ⟨c', h.lookup hl, Grows.refl c'⟩

theorem of_sendsOnly {s s' : Server} (h : SendsOnly s s') : Evolves s s' :=
  of_clients h.accepted h.clients

/-- One entry is updated in place. -/
theorem of_replace {s s' : Server} {fd : Fd} {c c' : ClientInfo}
    (ha : s'.kernel.accepted = s.kernel.accepted) (hl : s.clients.lookup fd = some c)
    (hc : s'.clients = s.clients.replace fd c') (hgrow : Grows c c') : Evolves s s' where
  accepted := ha.ge
  entries := by
    intro k d hd _
    rw [hc] at hd
    by_cases hk : k = fd
    · subst hk
      rw [AList.lookup_replace_self c' (AList.mem_of_lookup hl)] at hd
      cases hd
      exact ⟨c, hl, hgrow⟩
    · rw [AList.lookup_replace_ne c' s.clients hk] at hd
      exact ⟨d, hd, Grows.refl d⟩

end Evolves

/-! ### The invariant under the updates of a handler -/

namespace Store

variable {s s' : Server} {fd : Fd} {c : ClientInfo}

/-- The invariant reads the two containers, and what `Ready` reads. -/
theorem congr (h : Store s) (hr : Ready s') (hc : s'.clients = s.clients)
    (hu : s'.usernames = s.usernames) : Store s' where
  toReady := hr
  names := by unfold Registered; rw [hc, hu]; exact h.names
  unique := by unfold Registered; rw [hc]; exact h.unique
  keyed := by unfold Registered; rw [hc]; exact h.keyed

/-- Whoever has not exchanged keys is not registered. -/
theorem unregistered (h : Store s) (hl : s.clients.lookup fd = some c)
    (hk : c.keyExchanged = false) : c.registered = false := by
  by_contra hreg
  have hkey := h.keyed fd c ⟨hl, by simpa using hreg⟩
  rw [hk] at hkey
  cases hkey

theorem sendsOnly (h : Store s) (hs : SendsOnly s s') : Store s' :=
  h.congr (h.toReady.sendsOnly hs) hs.clients hs.usernames

theorem touch (h : Store s) (fd : Fd) (n : ℕ) : Store (s.touch fd n) :=
  h.sendsOnly (SendsOnly.touch s fd n)

theorem received (h : Store s) (fd : Fd) (c : ClientInfo) (pkt : Option Bytes) (ch : Chan) :
    Store (s.received fd c pkt ch) :=
  h.congr ⟨h.table.congr rfl rfl rfl, h.free⟩ rfl rfl

/-- The entries after a removal are the others. -/
theorem registered_dropped {k : Fd} {d : ClientInfo} :
    Registered (s.dropped fd c) k d ↔ k ≠ fd ∧ Registered s k d := by
  unfold Registered
  rw [Server.dropped_clients]
  by_cases hk : k = fd
  · subst hk
    simp [AList.lookup_erase]
  · simp [AList.lookup_erase_ne hk, hk]

/-- A disconnect gives back the name of the entry, which nobody else holds. -/
theorem dropped (h : Store s) (hl : s.clients.lookup fd = some c) : Store (s.dropped fd c) where
  toReady := h.toReady.dropped fd c
  names := by
    intro n
    simp only [registered_dropped]
    rw [Server.dropped_usernames]
    by_cases hreg : c.registered = true
    · rw [if_pos hreg, Finset.mem_erase, h.names]
      constructor
      · rintro ⟨hne, k, d, hd, rfl⟩
        refine ⟨k, d, ⟨?_, hd⟩, rfl⟩
        rintro rfl
        rw [hd.1] at hl
        cases hl
        exact hne rfl
      · rintro ⟨k, d, ⟨hk, hd⟩, rfl⟩
        exact ⟨fun heq => hk (h.unique k fd d c hd ⟨hl, hreg⟩ heq), k, d, hd, rfl⟩
    · rw [if_neg hreg, h.names]
      constructor
      · rintro ⟨k, d, hd, rfl⟩
        refine ⟨k, d, ⟨?_, hd⟩, rfl⟩
        rintro rfl
        rw [hd.1] at hl
        cases hl
        exact hreg hd.2
      · rintro ⟨k, d, ⟨-, hd⟩, rfl⟩
        exact ⟨k, d, hd, rfl⟩
  unique := by
    intro k k' d d' hd hd'
    exact h.unique k k' d d' (registered_dropped.mp hd).2 (registered_dropped.mp hd').2
  keyed := fun k d hd => h.keyed k d (registered_dropped.mp hd).2

/-- The entries after an update in place. -/
theorem registered_replace (hl : s.clients.lookup fd = some c) {c' : ClientInfo}
    (hc : s'.clients = s.clients.replace fd c') {k : Fd} {d : ClientInfo} :
    Registered s' k d ↔
      (k = fd ∧ d = c' ∧ c'.registered = true) ∨ (k ≠ fd ∧ Registered s k d) := by
  unfold Registered
  rw [hc]
  by_cases hk : k = fd
  · subst hk
    rw [AList.lookup_replace_self c' (AList.mem_of_lookup hl), Option.some.injEq]
    constructor
    · rintro ⟨rfl, hreg⟩
      exact Or.inl ⟨rfl, rfl, hreg⟩
    · rintro (⟨-, rfl, hreg⟩ | ⟨hne, -⟩)
      · exact ⟨rfl, hreg⟩
      · exact absurd rfl hne
  · simp [AList.lookup_replace_ne c' s.clients hk, hk]

/-- An update that leaves the name and the registration of the entry alone. -/
theorem write (h : Store s) (hl : s.clients.lookup fd = some c) {c' : ClientInfo}
    (hfd : c'.fd = c.fd) (hsess : c'.session = c.session) (hname : c'.username = c.username)
    (hreg : c'.registered = c.registered) (hkey : c.keyExchanged = true → c'.keyExchanged = true) :
    Store (s.write fd c') := by
  have hiff : ∀ {k d}, Registered (s.write fd c') k d ↔
      (k = fd ∧ d = c' ∧ c'.registered = true) ∨ (k ≠ fd ∧ Registered s k d) :=
    registered_replace hl rfl
  have hold : c'.registered = true → Registered s fd c := fun hr => ⟨hl, hreg ▸ hr⟩
  refine ⟨⟨h.table.write hl hfd hsess, h.free⟩, ?_, ?_, ?_⟩
  · intro n
    rw [Server.write_usernames, h.names]
    constructor
    · rintro ⟨k, d, hd, rfl⟩
      by_cases hk : k = fd
      · subst hk
        obtain rfl : d = c := Option.some.inj (hd.1.symm.trans hl)
        exact ⟨k, c', hiff.mpr (Or.inl ⟨rfl, rfl, hreg ▸ hd.2⟩), hname⟩
      · exact ⟨k, d, hiff.mpr (Or.inr ⟨hk, hd⟩), rfl⟩
    · rintro ⟨k, d, hd, rfl⟩
      rcases hiff.mp hd with ⟨rfl, rfl, hr⟩ | ⟨-, hd⟩
      · exact ⟨k, c, hold hr, hname.symm⟩
      · exact ⟨k, d, hd, rfl⟩
  · intro k k' d d' hd hd' heq
    rcases hiff.mp hd with ⟨rfl, rfl, hr⟩ | ⟨-, hold₁⟩ <;>
      rcases hiff.mp hd' with ⟨rfl, rfl, hr'⟩ | ⟨-, hold₂⟩
    · rfl
    · exact h.unique _ _ _ _ (hold hr) hold₂ (hname ▸ heq)
    · exact h.unique _ _ _ _ hold₁ (hold hr') (heq.trans hname)
    · exact h.unique _ _ _ _ hold₁ hold₂ heq
  · intro k d hd
    rcases hiff.mp hd with ⟨rfl, rfl, hr⟩ | ⟨-, hd⟩
    · exact hkey (h.keyed _ _ (hold hr))
    · exact h.keyed k d hd

/-- The registration of a name that nobody holds. -/
theorem named (h : Store s) (hl : s.clients.lookup fd = some c) (hkey : c.keyExchanged = true)
    (hreg : c.registered = false) {uname : Bytes} (hu : uname ∉ s.usernames) :
    Store (s.named fd c uname) := by
  have hiff : ∀ {k d}, Registered (s.named fd c uname) k d ↔
      (k = fd ∧ d = { c with username := uname, registered := true } ∧ true = true) ∨
        (k ≠ fd ∧ Registered s k d) := registered_replace hl rfl
  have hnone : ∀ d, ¬ Registered s fd d := by
    intro d hd
    obtain rfl : d = c := Option.some.inj (hd.1.symm.trans hl)
    rw [hd.2] at hreg
    cases hreg
  have hfree : ∀ k d, Registered s k d → d.username ≠ uname :=
    fun k d hd heq => hu ((h.names uname).mpr ⟨k, d, hd, heq⟩)
  have hwrite : Table (s.write fd { c with username := uname, registered := true }) :=
    h.table.write hl rfl rfl
  have hready : Ready (s.named fd c uname) := ⟨hwrite.congr rfl rfl rfl, rfl⟩
  refine ⟨hready, ?_, ?_, ?_⟩
  · intro n
    rw [Server.named_usernames, Finset.mem_insert, h.names]
    constructor
    · rintro (rfl | ⟨k, d, hd, rfl⟩)
      · exact ⟨fd, _, hiff.mpr (Or.inl ⟨rfl, rfl, rfl⟩), rfl⟩
      · exact ⟨k, d, hiff.mpr (Or.inr ⟨fun hk => hnone d (hk ▸ hd), hd⟩), rfl⟩
    · rintro ⟨k, d, hd, rfl⟩
      rcases hiff.mp hd with ⟨-, rfl, -⟩ | ⟨-, hd⟩
      · exact Or.inl rfl
      · exact Or.inr ⟨k, d, hd, rfl⟩
  · intro k k' d d' hd hd' heq
    rcases hiff.mp hd with ⟨rfl, rfl, -⟩ | ⟨-, hold₁⟩ <;>
      rcases hiff.mp hd' with ⟨rfl, rfl, -⟩ | ⟨-, hold₂⟩
    · rfl
    · exact absurd heq.symm (hfree _ _ hold₂)
    · exact absurd heq (hfree _ _ hold₁)
    · exact h.unique _ _ _ _ hold₁ hold₂ heq
  · intro k d hd
    rcases hiff.mp hd with ⟨rfl, rfl, -⟩ | ⟨-, hd⟩
    · exact hkey
    · exact h.keyed k d hd

variable (na : Sodium) (env : ReturningEnv)

/-- A broadcast keeps the invariant, whoever it disconnects. -/
theorem broadcasted (h : Store s) (msg : Bytes) : Store (s.broadcasted na env msg) :=
  broadcasted_relation na env (R := fun s s' => Store s → Store s') (fun _ _ _ f g h => g (f h))
    (fun m t ht => ht.sendsOnly (cascade_send na env m t).1) (fun _ _ _ hl ht => ht.dropped hl)
    msg s h

theorem disconnected (h : Store s) (hl : s.clients.lookup fd = some c) :
    Store (s.disconnected na env fd c) := by
  rw [Server.disconnected]
  split
  · exact (h.dropped hl).broadcasted na env _
  · exact h.dropped hl

end Store

end CliChat
