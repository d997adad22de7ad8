import CliChat.Lib.Transition

/-! A room whose announcements have one order, independent of any program.

    Members join under a name, speak and leave. Every act is announced at once to all who are
    members then, and an identity that has left does not come back. So there is one history, and
    what a member was told is a contiguous piece of it, from its own arrival to its departure
    (`Sound`); whoever is told a piece of the history can keep the set of names up to date
    (`Follows`), and the announcements about one name take turns (`Alternates`).

        history   +ann  +bob  ann:p  -bob  +cyd  -ann
        ann       +ann  +bob  ann:p  -bob  +cyd
        bob             +bob  ann:p
        cyd                                +cyd  -ann -/

namespace Room

variable {ι ν π : Type*}

/-- What is announced. -/
inductive Item (ι ν π : Type*) where
  | joined (n : ν)
  | left (n : ν)
  | said (i : ι) (p : π)

inductive Act (ι ν π : Type*) where
  | join (i : ι) (n : ν)
  | leave (i : ι)
  | say (i : ι) (p : π)

/-- Who is in the room under which name, who has been, what each was told, and all that was
    announced. -/
structure State (ι ν π : Type*) where
  name : ι → Option ν
  seen : Set ι
  inbox : ι → List (Item ι ν π)
  history : List (Item ι ν π)

/-- The empty room. -/
def State.empty : State ι ν π := ⟨fun _ => none, ∅, fun _ => [], []⟩

namespace State

variable (r : State ι ν π)

/-- The names in use. -/
def present : Set ν := {n | ∃ i, r.name i = some n}

/-- All members are told `a`. -/
@[simps] def announce (a : Item ι ν π) : State ι ν π :=
  { r with
    inbox := fun i => if (r.name i).isSome then r.inbox i ++ [a] else r.inbox i
    history := r.history ++ [a] }

variable [DecidableEq ι]

/-- `i` is let in as `n`. -/
@[simps] def enrol (i : ι) (n : ν) : State ι ν π :=
  { r with name := Function.update r.name i (some n), seen := insert i r.seen }

/-- `i` is taken out. -/
@[simps] def expel (i : ι) : State ι ν π := { r with name := Function.update r.name i none }

end State

variable [DecidableEq ι]

open Classical in
/-- An act, with its announcement. -/
noncomputable def step : Act ι ν π → State ι ν π → Option (State ι ν π)
  | .join i n, r =>
    if i ∉ r.seen ∧ n ∉ r.present then some ((r.enrol i n).announce (.joined n)) else none
  | .leave i, r => (r.name i).map fun n => (r.expel i).announce (.left n)
  | .say i p, r => if (r.name i).isSome then some (r.announce (.said i p)) else none

/-- Everything an act can do. -/
theorem step_cases {a : Act ι ν π} {r r' : State ι ν π} (h : step a r = some r') :
    (∃ i n, a = .join i n ∧ i ∉ r.seen ∧ n ∉ r.present ∧
      r' = (r.enrol i n).announce (.joined n)) ∨
    (∃ i n, a = .leave i ∧ r.name i = some n ∧ r' = (r.expel i).announce (.left n)) ∨
    (∃ i p, a = .say i p ∧ (r.name i).isSome = true ∧ r' = r.announce (.said i p)) := by
  cases a with
  | join i n =>
    rw [step] at h
    split at h
    · rename_i hc
      exact .inl ⟨i, n, rfl, hc.1, hc.2, (Option.some.inj h).symm⟩
    · cases h
  | leave i =>
    obtain ⟨n, hn, heq⟩ := Option.map_eq_some_iff.mp h
    exact .inr (.inl ⟨i, n, rfl, hn, heq.symm⟩)
  | say i p =>
    rw [step] at h
    split at h
    · rename_i hc
      exact .inr (.inr ⟨i, p, rfl, hc, (Option.some.inj h).symm⟩)
    · cases h

theorem step_join {r : State ι ν π} {i : ι} {n : ν} (hi : i ∉ r.seen) (hn : n ∉ r.present) :
    step (.join i n) r = some ((r.enrol i n).announce (.joined n)) := if_pos ⟨hi, hn⟩

theorem step_leave {r : State ι ν π} {i : ι} {n : ν} (hi : r.name i = some n) :
    step (.leave i) r = some ((r.expel i).announce (.left n)) := by rw [step, hi]; rfl

theorem step_say {r : State ι ν π} {i : ι} (hi : (r.name i).isSome = true) (p : π) :
    step (.say i p) r = some (r.announce (.said i p)) := if_pos hi

/-! ### Reading the announcements -/

/-- What `i` says, out of `l`. -/
def spoken (i : ι) (l : List (Item ι ν π)) : List π :=
  l.filterMap fun a => match a with
    | .said j p => if j = i then some p else none
    | _ => none

theorem spoken_append (i : ι) (l m : List (Item ι ν π)) :
    spoken i (l ++ m) = spoken i l ++ spoken i m := List.filterMap_append

/-- What an announcement makes of the names in use. -/
def Item.effect (names : Set ν) : Item ι ν π → Set ν
  | .joined n => insert n names
  | .left n => names \ {n}
  | .said _ _ => names

open Classical in
/-- The announcements about the name `n`: whether it is an arrival. -/
noncomputable def turns (n : ν) (l : List (Item ι ν π)) : List Bool :=
  l.filterMap fun a => match a with
    | .joined m => if m = n then some true else none
    | .left m => if m = n then some false else none
    | .said _ _ => none

omit [DecidableEq ι] in
theorem turns_append (n : ν) (l m : List (Item ι ν π)) :
    turns n (l ++ m) = turns n l ++ turns n m := List.filterMap_append

/-- Arrivals and departures take turns, from absent or present (`b`) to `b'`. -/
inductive Alternates : Bool → List Bool → Bool → Prop where
  | nil {b} : Alternates b [] b
  | cons {b b' l} : Alternates (!b) l b' → Alternates b ((!b) :: l) b'

theorem Alternates.append {b b₁ b₂ : Bool} {l m : List Bool} (h : Alternates b l b₁)
    (k : Alternates b₁ m b₂) : Alternates b (l ++ m) b₂ := by
  induction h with
  | nil => exact k
  | cons _ ih => exact .cons (ih k)

/-- The end of turns takes turns, up to the same state. -/
theorem Alternates.of_append {b b' : Bool} : ∀ {l m : List Bool}, Alternates b (l ++ m) b' →
    ∃ c, Alternates b l c ∧ Alternates c m b'
  | [], _, h => ⟨b, .nil, h⟩
  | _ :: l, m, h => by
    cases h with
    | cons h =>
      obtain ⟨c, hl, hm⟩ := of_append h
      exact ⟨c, .cons hl, hm⟩

/-- The last turn tells the state. -/
theorem Alternates.last {b b' x : Bool} {l : List Bool} (h : Alternates b l b')
    (hx : l.getLast? = some x) : x = b' := by
  induction h with
  | nil => cases hx
  | @cons b b' l hl ih =>
    rw [List.getLast?_cons] at hx
    cases hl with
    | nil => exact (Option.some.inj hx).symm
    | cons hl => exact ih (by rw [List.getLast?_cons] at hx ⊢; exact hx)

/-! ### What a member was told -/

/-- Every inbox is a piece of the history, and a member's is its end. -/
structure Told (r : State ι ν π) : Prop where
  named : ∀ i n, r.name i = some n → i ∈ r.seen
  inj : ∀ i j n, r.name i = some n → r.name j = some n → i = j
  stranger : ∀ i, i ∉ r.seen → r.inbox i = []
  piece : ∀ i, r.inbox i <:+: r.history
  current : ∀ i, (r.name i).isSome = true → r.inbox i <:+ r.history
  /-- Whoever speaks is told what it says. -/
  own : ∀ i, spoken i (r.inbox i) = spoken i r.history

/-- And it begins with its own arrival. -/
structure Sound (r : State ι ν π) : Prop extends Told r where
  first : ∀ i ∈ r.seen, ∃ n, (r.inbox i).head? = some (.joined n) ∧ ∀ m, r.name i = some m → m = n

namespace Told

variable {r : State ι ν π}

theorem announce (h : Told r) {a : Item ι ν π}
    (ha : ∀ i p, a = .said i p → (r.name i).isSome = true) : Told (r.announce a) where
  named := h.named
  inj := h.inj
  stranger := by
    intro i hi
    have hnone : (r.name i).isSome = false := by
      cases hn : r.name i with
      | none => rfl
      | some n => exact absurd (h.named i n hn) hi
    rw [State.announce_inbox, hnone]
    exact h.stranger i hi
  piece := by
    intro i
    rw [State.announce_inbox]
    split
    · rename_i hi
      obtain ⟨x, hx⟩ := h.current i hi
      exact ⟨x, [], by rw [State.announce_history, ← hx, List.append_nil, List.append_assoc]⟩
    · exact (h.piece i).trans (List.prefix_append _ _).isInfix
  current := by
    intro i hi
    rw [State.announce_name] at hi
    obtain ⟨x, hx⟩ := h.current i hi
    rw [State.announce_inbox, if_pos hi]
    exact ⟨x, by rw [State.announce_history, ← hx, List.append_assoc]⟩
  own := by
    intro i
    rw [State.announce_inbox, State.announce_history, spoken_append, ← h.own i]
    split
    · exact spoken_append i _ _
    · rename_i hi
      have hnot : spoken i [a] = [] := by
        refine List.filterMap_eq_nil_iff.mpr fun b hb => ?_
        rw [List.mem_singleton] at hb
        subst hb
        cases b with
        | said j p =>
          refine if_neg ?_
          rintro rfl
          exact hi (ha j p rfl)
        | joined n => rfl
        | left n => rfl
      rw [hnot, List.append_nil]

theorem enrol (h : Told r) {i : ι} {n : ν} (hi : i ∉ r.seen) (hn : n ∉ r.present) :
    Told (r.enrol i n) where
  named := by
    intro j m hm
    rw [State.enrol_name, Function.update_apply] at hm
    split at hm
    · rename_i hj
      exact Or.inl hj
    · exact Or.inr (h.named j m hm)
  inj := by
    intro j k m hj hk
    rw [State.enrol_name, Function.update_apply] at hj hk
    split at hj <;> split at hk
    · rename_i hji hki
      exact hji.trans hki.symm
    · cases hj
      exact absurd ⟨k, hk⟩ hn
    · cases hk
      exact absurd ⟨j, hj⟩ hn
    · exact h.inj j k m hj hk
  stranger := fun j hj => h.stranger j fun hs => hj (Or.inr hs)
  piece := h.piece
  current := by
    intro j hj
    rw [State.enrol_name, Function.update_apply] at hj
    split at hj
    · rename_i heq
      rw [State.enrol_inbox, heq, h.stranger i hi]
      exact List.nil_suffix
    · exact h.current j hj
  own := h.own

theorem expel (h : Told r) (i : ι) : Told (r.expel i) where
  named := by
    intro j m hm
    rw [State.expel_name, Function.update_apply] at hm
    split at hm
    · cases hm
    · exact h.named j m hm
  inj := by
    intro j k m hj hk
    rw [State.expel_name, Function.update_apply] at hj hk
    split at hj
    · cases hj
    · split at hk
      · cases hk
      · exact h.inj j k m hj hk
  stranger := h.stranger
  piece := h.piece
  current := by
    intro j hj
    rw [State.expel_name, Function.update_apply] at hj
    split at hj
    · cases hj
    · exact h.current j hj
  own := h.own

end Told

theorem Sound.empty : Sound (State.empty : State ι ν π) where
  named := fun _ _ h => by cases h
  inj := fun _ _ _ h => by cases h
  stranger := fun _ _ => rfl
  piece := fun _ => List.nil_infix
  current := fun _ h => by cases h
  own := fun _ => rfl
  first := fun _ h => h.elim

/-- STEP: every act keeps the room sound. -/
theorem Sound.step {r r' : State ι ν π} {a : Act ι ν π} (h : Sound r) (hs : step a r = some r') :
    Sound r' := by
  obtain ⟨i, n, rfl, hi, hn, rfl⟩ | ⟨i, n, rfl, hi, rfl⟩ | ⟨i, p, rfl, hi, rfl⟩ := step_cases hs
  · refine ⟨(h.toTold.enrol hi hn).announce (fun _ _ heq => by cases heq), fun j hj => ?_⟩
    simp only [State.announce_inbox, State.announce_name, State.enrol_name, State.enrol_inbox,
      State.announce_seen, State.enrol_seen, Set.mem_insert_iff, Function.update_apply] at hj ⊢
    by_cases hji : j = i
    · subst hji
      rw [if_pos rfl, h.stranger j hi]
      exact ⟨n, rfl, fun m hm => (Option.some.inj hm).symm⟩
    · obtain ⟨m, hm, hname⟩ := h.first j (hj.resolve_left hji)
      simp only [if_neg hji]
      refine ⟨m, ?_, hname⟩
      split
      · rw [List.head?_append, hm]
        rfl
      · exact hm
  · refine ⟨(h.toTold.expel i).announce (fun _ _ heq => by cases heq), fun j hj => ?_⟩
    obtain ⟨m, hm, hname⟩ := h.first j hj
    simp only [State.announce_inbox, State.announce_name, State.expel_name, State.expel_inbox,
      Function.update_apply]
    refine ⟨m, ?_, fun m' hm' => ?_⟩
    · by_cases hj' : (if j = i then none else r.name j).isSome = true
      · rw [if_pos hj', List.head?_append, hm]
        rfl
      · rw [if_neg hj']
        exact hm
    · split at hm'
      · cases hm'
      · exact hname m' hm'
  · have ha : ∀ j q, (Item.said i p : Item ι ν π) = .said j q → (r.name j).isSome = true := by
      rintro j q ⟨⟩
      exact hi
    refine ⟨h.toTold.announce ha, fun j hj => ?_⟩
    obtain ⟨m, hm, hname⟩ := h.first j hj
    refine ⟨m, ?_, hname⟩
    rw [State.announce_inbox]
    split
    · rw [List.head?_append, hm]
      rfl
    · exact hm

/-- INVARIANT: every room that acts make of the empty one is sound. -/
theorem sound {r : State ι ν π} (h : Transition.Reachable step (· = State.empty) r) : Sound r :=
  h.invariant (fun _ hs => hs ▸ Sound.empty) fun _ _ _ hs ht => hs.step ht

/-- Whoever comes adds its name to those in use. -/
theorem Sound.present_enrol {r : State ι ν π} (h : Sound r) {i : ι} {n : ν} (hi : i ∉ r.seen) :
    (r.enrol i n).present = insert n r.present := by
  ext m
  simp only [State.present, State.enrol_name, Set.mem_ofPred_eq, Set.mem_insert_iff,
    Function.update_apply]
  constructor
  · rintro ⟨j, hj⟩
    split at hj
    · exact Or.inl (Option.some.inj hj).symm
    · exact Or.inr ⟨j, hj⟩
  · rintro (rfl | ⟨j, hj⟩)
    · exact ⟨i, if_pos rfl⟩
    · refine ⟨j, ?_⟩
      rw [if_neg, hj]
      rintro rfl
      exact hi (h.named j m hj)

/-- Whoever leaves takes its name away, which no other member has. -/
theorem Sound.present_expel {r : State ι ν π} (h : Sound r) {i : ι} {n : ν}
    (hi : r.name i = some n) : (r.expel i).present = r.present \ {n} := by
  ext m
  simp only [State.present, State.expel_name, Set.mem_ofPred_eq, Set.mem_sdiff,
    Set.mem_singleton_iff, Function.update_apply]
  constructor
  · rintro ⟨j, hj⟩
    split at hj
    · cases hj
    · rename_i hji
      refine ⟨⟨j, hj⟩, ?_⟩
      rintro rfl
      exact hji (h.inj j i m hj hi)
  · rintro ⟨⟨j, hj⟩, hmn⟩
    refine ⟨j, ?_⟩
    rw [if_neg, hj]
    rintro rfl
    exact hmn (Option.some.inj (hj.symm.trans hi))

/-! ### What the announcements tell -/

/-- From `r` to `r'` the announcements `items` are made. -/
structure Follows (r r' : State ι ν π) (items : List (Item ι ν π)) : Prop where
  history : r'.history = r.history ++ items
  seen : r.seen ⊆ r'.seen
  /-- Whoever has been there is there only if it never left. -/
  stayed : ∀ i ∈ r.seen, ∀ n, r'.name i = some n → r.name i = some n
  inbox : ∀ i ∈ r.seen, (r'.name i).isSome = true → r'.inbox i = r.inbox i ++ items
  present : r'.present = items.foldl Item.effect r.present
  turns : ∀ n b b', (b = true ↔ n ∈ r.present) → (b' = true ↔ n ∈ r'.present) →
    Alternates b (turns n items) b'

namespace Follows

omit [DecidableEq ι] in
theorem refl (r : State ι ν π) : Follows r r [] where
  history := (List.append_nil _).symm
  seen := Set.Subset.refl _
  stayed := fun _ _ _ h => h
  inbox := fun _ _ _ => (List.append_nil _).symm
  present := rfl
  turns := by
    intro n b b' hb hb'
    obtain rfl : b = b' := Bool.eq_iff_iff.mpr (hb.trans hb'.symm)
    exact .nil

omit [DecidableEq ι] in
theorem trans {a b c : State ι ν π} {l m : List (Item ι ν π)} (h : Follows a b l)
    (k : Follows b c m) : Follows a c (l ++ m) where
  history := by rw [k.history, h.history, List.append_assoc]
  seen := h.seen.trans k.seen
  stayed := fun i hi n hn => h.stayed i hi n (k.stayed i (h.seen hi) n hn)
  inbox := by
    intro i hi hc
    obtain ⟨n, hn⟩ := Option.isSome_iff_exists.mp hc
    have hb : (b.name i).isSome = true :=
      Option.isSome_iff_exists.mpr ⟨n, k.stayed i (h.seen hi) n hn⟩
    rw [k.inbox i (h.seen hi) hc, h.inbox i hi hb, List.append_assoc]
  present := by rw [k.present, h.present, List.foldl_append]
  turns := by
    classical
    intro n x y hx hy
    rw [turns_append]
    exact (h.turns n x (decide (n ∈ b.present)) hx decide_eq_true_iff).append
      (k.turns n (decide (n ∈ b.present)) y decide_eq_true_iff hy)

/-- STEP: an act makes one announcement. -/
theorem step {r r' : State ι ν π} {a : Act ι ν π} (h : Sound r) (hs : step a r = some r') :
    ∃ x, Follows r r' [x] := by
  obtain ⟨i, n, rfl, hi, hn, rfl⟩ | ⟨i, n, rfl, hi, rfl⟩ | ⟨i, p, rfl, hi, rfl⟩ := step_cases hs
  · have hpresent : ((r.enrol i n).announce (.joined n)).present = insert n r.present :=
      h.present_enrol hi
    refine ⟨.joined n, rfl, Set.subset_insert i _, fun j hj m hm => ?_, fun j hj hm => if_pos hm,
      hpresent, fun m b b' hb hb' => ?_⟩
    · rwa [State.announce_name, State.enrol_name, Function.update_of_ne] at hm
      rintro rfl
      exact hi hj
    · rw [hpresent, Set.mem_insert_iff] at hb'
      by_cases hmn : n = m
      · subst hmn
        obtain rfl : b = false := by simpa using fun hbt => hn (hb.mp hbt)
        obtain rfl : b' = true := hb'.mpr (Or.inl rfl)
        simpa [Room.turns] using Alternates.cons (b := false) .nil
      · obtain rfl : b = b' := by
          rw [Bool.eq_iff_iff, hb, hb']
          exact (or_iff_right fun heq => hmn heq.symm).symm
        simpa [Room.turns, hmn] using Alternates.nil
  · have hpresent : ((r.expel i).announce (.left n)).present = r.present \ {n} :=
      h.present_expel hi
    refine ⟨.left n, rfl, Set.Subset.refl _, fun j hj m hm => ?_, fun j hj hm => if_pos hm,
      hpresent, fun m b b' hb hb' => ?_⟩
    · rw [State.announce_name, State.expel_name, Function.update_apply] at hm
      split at hm
      · cases hm
      · exact hm
    · rw [hpresent, Set.mem_sdiff, Set.mem_singleton_iff] at hb'
      by_cases hmn : n = m
      · subst hmn
        obtain rfl : b = true := hb.mpr ⟨i, hi⟩
        obtain rfl : b' = false := by simpa using fun hbt => (hb'.mp hbt).2 rfl
        simpa [Room.turns] using Alternates.cons (b := true) .nil
      · obtain rfl : b = b' := by
          rw [Bool.eq_iff_iff, hb, hb']
          exact (and_iff_left fun heq => hmn heq.symm).symm
        simpa [Room.turns, hmn] using Alternates.nil
  · refine ⟨.said i p, rfl, Set.Subset.refl _, fun _ _ _ hm => hm, fun j _ hm => if_pos hm, rfl,
      fun m b b' hb hb' => ?_⟩
    obtain rfl : b = b' := Bool.eq_iff_iff.mpr (hb.trans hb'.symm)
    exact .nil

end Follows

/-- RUNS: what acts announce, one after the other, their run announces. -/
theorem follows {r r' : State ι ν π} (h : Sound r) {acts : List (Act ι ν π)}
    (hrun : Transition.run step acts r = some r') : ∃ items, Follows r r' items :=
  Transition.run_relation step (I := Sound) (R := fun r r' => ∃ items, Follows r r' items)
    (fun _ _ _ hs ht => hs.step ht) (fun r _ => ⟨[], Follows.refl r⟩)
    (fun _ _ _ ⟨_, hl⟩ ⟨_, hm⟩ => ⟨_, hl.trans hm⟩)
    (fun _ _ _ hs ht => (Follows.step hs ht).imp' (fun x => [x]) fun _ hf => hf) h hrun

section reachable

variable {r : State ι ν π}

/-- The history of a room is all that was announced since it was empty. -/
theorem follows_history (h : Transition.Reachable step (· = State.empty) r) :
    Follows State.empty r r.history := by
  obtain ⟨_, acts, rfl, hacts⟩ := h
  obtain ⟨items, hf⟩ := follows Sound.empty hacts
  have hhistory : r.history = items := hf.history
  rw [hhistory]
  exact hf

/-- In what a member was told, the announcements about a name take turns, up to whether the name is
    in use now. -/
theorem alternates_inbox (h : Transition.Reachable step (· = State.empty) r) {i : ι}
    (hi : (r.name i).isSome = true) (n : ν) {b : Bool} (hb : b = true ↔ n ∈ r.present) :
    ∃ c, Alternates c (turns n (r.inbox i)) b := by
  obtain ⟨before, hbefore⟩ := (sound h).current i hi
  have hempty : (false = true ↔ n ∈ (State.empty : State ι ν π).present) :=
    iff_of_false Bool.false_ne_true fun ⟨_, hj⟩ => by cases hj
  have hall := (follows_history h).turns n false b hempty hb
  rw [← hbefore, turns_append] at hall
  obtain ⟨c, -, hc⟩ := hall.of_append
  exact ⟨c, hc⟩

end reachable

end Room
