import Faultloggerd.LiteDump.ThreadStacks
import Mathlib.Data.Finset.Card

/-! # Which slots are sent

Slots are numbered by the handlers that start, and as many are sent as handlers have completed. The two agree when no
handler has completed before one with a smaller slot.
-/
namespace Faultloggerd.LiteDump
open State List Foundations.EventRuns Function

/-- The slot holds what the handler that took it stores, and no other handler took it. -/
def Filled (p : Process) (s : State) (pos : ℕ) (slot : Slot) : Prop :=
  ∃ t, (s.handlers t = .copied pos ∨ s.handlers t = .completed pos) ∧ slot.request = some (p.request t) ∧
    ∀ u, (s.handlers u).pos? = some pos → u = t

/-- When the slots are sent, all of them are filled, and those of the handlers that had completed when the count was
read are among them. -/
def SlotsSent (p : Process) (s : State) (e : Event) : Prop :=
  e = .collect → ∀ n atRead slots, s.collector = .closed n atRead → s.writeOtherThreadStack n = some slots →
    (∀ pos slot, slots[pos]? = some slot → Filled p s pos slot) ∧
      ∀ t pos, atRead t = .completed pos → pos < slots.length

/-- When the count was read, no handler had completed before one with a smaller slot. -/
def InOrder (s : State) (e : Event) : Prop :=
  e = .collect → ∀ n atRead, s.collector = .closed n atRead →
    ∀ t u a b, (atRead t).pos? = some a → atRead u = .completed b → a < b → atRead t = .completed a

/-! ## Slots and counters -/

/-- The slots below the start count are taken by one handler each, and the completed count is that of the handlers that
have completed. -/
structure Numbered (handlers : ℕ → Point) (threadStartCount threadCompletedCount : ℕ) : Prop where
  below : ∀ t pos, (handlers t).pos? = some pos → pos < threadStartCount
  distinct : ∀ t u pos, (handlers t).pos? = some pos → (handlers u).pos? = some pos → t = u
  taken : ∀ pos < threadStartCount, ∃ t, (handlers t).pos? = some pos
  inside : ∀ t pos, (handlers t).pos? = some pos → pos < maxDumpThreadNum ∨ handlers t = .returned pos
  counted : ∃ done : Finset ℕ, done.card = threadCompletedCount ∧ ∀ pos, pos ∈ done ↔ ∃ t, handlers t = .completed pos

theorem numbered_initial : Numbered (fun _ => .idle) 0 0 where
  below := nofun
  distinct := nofun
  taken := nofun
  inside := nofun
  counted := ⟨∅, rfl, by simp⟩

section Moves
variable {handlers : ℕ → Point} {startCount completedCount t pos : ℕ} {point : Point}

theorem pos_update (hp : point.pos?=(handlers t).pos?) (u : ℕ) :
    (update handlers t point u).pos?=(handlers u).pos? := by
  by_cases hu : u=t
  · rw [hu, update_self, hp]
  · rw [update_of_ne hu]

theorem completed_update (ho : ∀ pos, handlers t≠.completed pos) (hn : ∀ pos, point≠.completed pos) (pos : ℕ) :
    (∃ u, update handlers t point u=.completed pos) ↔ ∃ u, handlers u=.completed pos := by
  refine exists_congr fun u => ?_
  by_cases hu : u=t
  · rw [hu, update_self]
    exact iff_of_false (hn pos) (ho pos)
  · rw [update_of_ne hu]

section

variable (h : Numbered handlers startCount completedCount)
include h

theorem Numbered.same {handlers' : ℕ → Point} (hp : ∀ u, (handlers' u).pos?=(handlers u).pos?)
    (hi : ∀ u pos, (handlers' u).pos?=some pos → pos< maxDumpThreadNum ∨ handlers' u=.returned pos) {n : ℕ}
    (hc : ∃ done : Finset ℕ, done.card=n ∧ ∀ pos, pos∈done ↔ ∃ t, handlers' t=.completed pos) :
    Numbered handlers' startCount n where
  below u pos hu := h.below u pos (hp u ▸ hu)
  distinct u v pos hu hv := h.distinct u v pos (hp u ▸ hu) (hp v ▸ hv)
  taken pos hlt := (h.taken pos hlt).imp fun u hu => hp u ▸ hu
  inside := hi
  counted := hc

theorem Numbered.move (hp : point.pos?=(handlers t).pos?)
    (hi : ∀ pos, point.pos?=some pos → pos< maxDumpThreadNum ∨ point=.returned pos)
    (ho : ∀ pos, handlers t≠.completed pos) (hn : ∀ pos, point≠.completed pos) :
    Numbered (update handlers t point) startCount completedCount := by
  obtain ⟨done, hc, hd⟩ := h.counted
  refine h.same (pos_update hp) ?_ ⟨done, hc, fun pos => by rw [hd, completed_update ho hn]⟩
  exact (forall_update_iff handlers fun _ point => ∀ pos, point.pos? = some pos →
    pos< maxDumpThreadNum ∨ point = .returned pos).mpr
    ⟨hi, fun u _ => h.inside u⟩

theorem Numbered.start (ho : handlers t=.pending)
    (hp1 : point=.returned startCount ∨ point=.started startCount ∧ startCount< maxDumpThreadNum) :
    Numbered (update handlers t point) (startCount+1) completedCount := by
  have hp : point.pos? = some startCount := by
    rcases hp1 with rfl | ⟨rfl, -⟩
    · rfl
    · rfl
  have hn : ∀ pos, point≠.completed pos := by grind
  refine ⟨fun u pos hu => ?_, fun u v pos hu hv => ?_, fun pos hlt => ?_, fun u pos hu => ?_, ?_⟩
  · by_cases hut : u=t
    · rw [hut, update_self, hp] at hu
      cases hu
      omega
    · rw [update_of_ne hut] at hu
      have := h.below u pos hu
      omega
  · -- the slot taken now is above all others
    by_cases hut : u=t
    · by_cases hvt : v=t
      · rw [hut, hvt]
      · rw [hut, update_self, hp] at hu
        rw [update_of_ne hvt] at hv
        cases hu
        exact absurd (h.below v _ hv) (by omega)
    · rw [update_of_ne hut] at hu
      by_cases hvt : v=t
      · rw [hvt, update_self, hp] at hv
        cases hv
        exact absurd (h.below u _ hu) (by omega)
      · rw [update_of_ne hvt] at hv
        exact h.distinct u v pos hu hv
  · by_cases hl : pos=startCount
    · exact ⟨t, by rw [update_self, hp, hl]⟩
    · obtain ⟨u, hu⟩ := h.taken pos (by omega)
      have hut : u≠t := by
        rintro rfl
        rw [ho] at hu
        cases hu
      exact ⟨u, by rwa [update_of_ne hut]⟩
  · by_cases hut : u=t
    · rw [hut, update_self] at hu ⊢
      rw [hp] at hu
      cases hu
      rcases hp1 with h | h
      · exact .inr h
      · exact .inl h.2
    · rw [update_of_ne hut] at hu ⊢
      exact h.inside u pos hu
  · obtain ⟨done, hc, hd⟩ := h.counted
    refine ⟨done, hc, fun pos => ?_⟩
    rw [hd, completed_update (fun pos => by rw [ho]; nofun) hn]

theorem Numbered.complete (ho : handlers t=.copied pos) :
    Numbered (update handlers t (.completed pos)) startCount (completedCount+1) := by
  have hp : (Point.completed pos).pos? = (handlers t).pos? := by rw [ho]; rfl
  refine h.same (pos_update hp) (fun u k hu => ?_) ?_
  · have hu' := h.inside u k (by rwa [pos_update hp] at hu)
    by_cases hut : u=t
    · refine .inl (hu'.resolve_right ?_)
      rw [hut, ho]
      nofun
    · rwa [update_of_ne hut]
  · obtain ⟨done, hc, hd⟩ := h.counted
    have hn : pos ∉ done := by
      rw [hd]
      rintro ⟨u, hu⟩
      have := h.distinct u t pos (by rw [hu]; rfl) (by rw [ho]; rfl)
      rw [this, ho] at hu
      cases hu
    refine ⟨insert pos done, by rw [Finset.card_insert_of_notMem hn, hc], fun k => ?_⟩
    rw [Finset.mem_insert, hd]
    constructor
    · rintro (rfl | ⟨u, hu⟩)
      · exact ⟨t, update_self ..⟩
      · refine ⟨u, ?_⟩
        rw [update_of_ne, hu]
        rintro rfl
        rw [ho] at hu
        cases hu
    · rintro ⟨u, hu⟩
      by_cases hut : u=t
      · rw [hut, update_self] at hu
        cases hu
        exact .inl rfl
      · exact .inr ⟨u, by rwa [update_of_ne hut] at hu⟩

end

end Moves

/-! ## Counting in order -/

theorem eq_range_of_closed {done : Finset ℕ} (h : ∀ b∈done, ∀ a<b, a∈done) : done=Finset.range done.card := by
  refine Finset.eq_of_subset_of_card_le (fun b hb => ?_) (by rw [Finset.card_range])
  have hs : Finset.range (b+1) ⊆ done := by
    intro a ha
    rw [Finset.mem_range] at ha
    by_cases hab : a=b
    · rwa [hab]
    · exact h b hb a (by omega)
  have := Finset.card_le_card hs
  grind

theorem eq_range_of_bounded {done : Finset ℕ} (h : ∀ b∈done, b<done.card) : done=Finset.range done.card :=
  Finset.eq_of_subset_of_card_le (fun b hb => Finset.mem_range.mpr (h b hb)) (by rw [Finset.card_range])

variable {handlers : ℕ → Point} {n startCount : ℕ}

section

variable (h : Numbered handlers startCount n)
include h

theorem Numbered.inOrder_iff :
    (∀ t u a b, (handlers t).pos?=some a → handlers u=.completed b → a<b → handlers t=.completed a) ↔
      ∀ pos, pos<n ↔ ∃ t, handlers t=.completed pos := by
  obtain ⟨done, rfl, hd⟩ := h.counted
  constructor
  · intro ho
    have hr : done=Finset.range done.card := by
      refine eq_range_of_closed fun b hb a hab => ?_
      obtain ⟨u, hu⟩ := (hd b).mp hb
      have hb := h.below u b (by rw [hu]; rfl)
      obtain ⟨t, ht⟩ := h.taken a (by omega)
      exact (hd a).mpr ⟨t, ho t u a b ht hu hab⟩
    intro pos
    rw [←hd, ←Finset.mem_range, ←hr]
  · intro hf t u a b ht hu hab
    have hb := (hf b).mpr ⟨u, hu⟩
    obtain ⟨v, hv⟩ := (hf a).mp (by omega)
    rw [h.distinct t v a ht (by rw [hv]; rfl), hv]

theorem Numbered.first_iff :
    (∀ pos, pos<n ↔ ∃ t, handlers t=.completed pos) ↔ ∀ t pos, handlers t=.completed pos → pos<n := by
  refine ⟨fun hf t pos ht => (hf pos).mpr ⟨t, ht⟩, fun hb1 pos => ?_⟩
  obtain ⟨done, rfl, hd⟩ := h.counted
  have hr : done=Finset.range done.card := by
    refine eq_range_of_bounded fun b hb => ?_
    obtain ⟨u, hu⟩ := (hd b).mp hb
    exact hb1 u b hu
  rw [←hd, ←Finset.mem_range, ←hr]

theorem Numbered.count_le : n≤ maxDumpThreadNum := by
  obtain ⟨done, rfl, hd⟩ := h.counted
  have hs : done ⊆ Finset.range maxDumpThreadNum := by
    intro b hb
    obtain ⟨u, hu⟩ := (hd b).mp hb
    rw [Finset.mem_range]
    refine (h.inside u b (by rw [hu]; rfl)).resolve_right ?_
    rw [hu]
    nofun
  have := Finset.card_le_card hs
  rwa [Finset.card_range] at this

end

/-! ## Whole runs -/

def Point.Later (before after : Point) : Prop :=
  (∀ pos, before.pos? = some pos → after.pos? = some pos) ∧ ∀ pos, before = .completed pos → after = .completed pos

theorem Point.Later.refl (point : Point) : point.Later point := ⟨fun _ h => h, fun _ h => h⟩

theorem Point.Later.trans {a b c : Point} (hab : a.Later b) (hbc : b.Later c) : a.Later c :=
  ⟨fun pos h => hbc.1 pos (hab.1 pos h), fun pos h => hbc.2 pos (hab.2 pos h)⟩

def ReadEarlier (s : State) (n : ℕ) (atRead : ℕ → Point) : Prop :=
  (∃ startCount, Numbered atRead startCount n) ∧ ∀ t, (atRead t).Later (s.handlers t)

structure Inv (p : Process) (s : State) : Prop where
  numbered : Numbered s.handlers s.threadStartCount s.threadCompletedCount
  recorded : ∀ t pos, (s.handlers t).pos? = some pos →
    s.handlers t = .started pos ∨ s.handlers t = .returned pos ∨ (s.slots pos).request = some (p.request t)
  collected : ∀ n atRead, s.collector = .collected n atRead → ReadEarlier s n atRead
  closed : ∀ n atRead, s.collector = .closed n atRead → ReadEarlier s n atRead

theorem inv_initial (p : Process) (mem : ℕ → Option UInt8) : Inv p (.initial mem) :=
  ⟨numbered_initial, nofun, nofun, nofun⟩

section Steps
variable {p : Process} {s : State} {t pos : ℕ}

variable {atRead : ℕ → Point} {point : Point}

theorem ReadEarlier.move {n : ℕ} {s' : State} (h : ReadEarlier s n atRead)
    (hs : s'.handlers=update s.handlers t point) (hp : (s.handlers t).Later point) : ReadEarlier s' n atRead := by
  refine ⟨h.1, fun u => (h.2 u).trans ?_⟩
  rw [hs]
  exact (forall_update_iff s.handlers fun u => (s.handlers u).Later).mpr ⟨hp, fun _ _ => .refl _⟩ u

theorem Inv.moveTo {s' : State} (h : Inv p s)
    (hs : s'.handlers=update s.handlers t point) (hl : (s.handlers t).Later point)
    (hn : Numbered s'.handlers s'.threadStartCount s'.threadCompletedCount)
    (hc1 : ∀ n atRead, s'.collector=.collected n atRead → s.collector=.collected n atRead)
    (hc2 : ∀ n atRead, s'.collector=.closed n atRead → s.collector=.closed n atRead)
    (hs1 : ∀ u k, u≠t → (s.handlers u).pos?=some k → s'.slots k=s.slots k) (hp : ∀ k, point.pos?=some k →
      point=.started k ∨ point=.returned k ∨ (s'.slots k).request=some (p.request t)) : Inv p s' where
  numbered := hn
  recorded u k hu := by
    rw [hs] at hu ⊢
    by_cases hut : u=t
    · rw [hut, update_self] at hu ⊢
      exact hp k hu
    · rw [update_of_ne hut] at hu ⊢
      rw [hs1 u k hut hu]
      exact h.recorded u k hu
  collected n atRead hc := (h.collected n atRead (hc1 n atRead hc)).move hs hl
  closed n atRead hc := (h.closed n atRead (hc2 n atRead hc)).move hs hl

def Point.Filling (pos : ℕ) (point : Point) : Prop :=
  point = .copied pos ∨ ∃ currentPtr dest stage, point = .copying pos currentPtr dest stage

theorem Inv.move {pipe : Option (List Copied)} {slot : Slot} (h : Inv p s)
    (hat : s.handlers t=.started pos ∨ ∃ ptr dest stage, s.handlers t=.copying pos ptr dest stage)
    (hp : point=.returned pos ∨ point.Filling pos ∧ slot.request=some (p.request t)) :
    Inv p (({s with pipe := pipe}.setSlot pos slot).move t point) := by
  obtain ⟨ho, hu1, hr⟩ : (s.handlers t).pos? = some pos ∧ (∀ k, s.handlers t≠.completed k) ∧
      s.handlers t≠.returned pos := by
    rcases hat with hat | ⟨_, _, _, hat⟩ <;> rw [hat] <;> exact ⟨rfl, nofun, nofun⟩
  have hp1 : point.pos? = some pos := by
    rcases hp with rfl | ⟨rfl | ⟨_, _, _, rfl⟩, -⟩ <;> rfl
  have hn : ∀ k, point≠.completed k := by
    rintro k rfl
    simp [Point.Filling] at hp
  have hl : (s.handlers t).Later point := ⟨fun k hk => by rw [hp1, ←ho, hk], fun k hk => absurd hk (hu1 k)⟩
  refine h.moveTo rfl hl (h.numbered.move (by rw [hp1, ho]) (fun k hk => ?_) hu1 hn)
    (fun _ _ hc => hc) (fun _ _ hc => hc) (fun u k hut hu => ?_) (fun k hk => ?_)
  · rw [hp1] at hk
    cases hk
    exact .inl ((h.numbered.inside t pos ho).resolve_right hr)
  · refine update_of_ne ?_ slot s.slots
    rintro rfl
    exact hut (h.numbered.distinct u t k hu ho)
  · rw [hp1] at hk
    cases hk
    change _ ∨ _ ∨ (update s.slots pos slot pos).request=_
    rw [update_self]
    rcases hp with hp | ⟨-, hs⟩
    · exact .inr (.inl hp)
    · exact .inr (.inr hs)

theorem Inv.request (h : Inv p s) {ptr dest : ℕ} {stage : Stage}
    (hat : s.handlers t=.copying pos ptr dest stage) : (s.slots pos).request=some (p.request t) := by
  have hr := h.recorded t pos (by rw [hat]; rfl)
  rw [hat] at hr
  simpa using hr

theorem nextPage_filling (p : Process) (t pos ptr dest : ℕ) : (p.nextPage t pos ptr dest).Filling pos := by
  rw [Process.nextPage]
  split_ifs
  · exact .inr ⟨_, _, _, rfl⟩
  · exact .inl rfl

theorem readableDataByPipe_shape (p : Process) (t : ℕ) (ok : Bool) (pos ptr dest : ℕ) (stage : Stage) (s : State) :
    ∃ pipe stack point, s.readableDataByPipe p t ok pos ptr dest stage =
        ({s with pipe := pipe}.setSlot pos {s.slots pos with stack := stack}).move t point ∧ point.Filling pos := by
  have hs : ∀ pipe point, {s with pipe := pipe}.move t point =
      ({s with pipe := pipe}.setSlot pos {s.slots pos with stack := (s.slots pos).stack}).move t point := by
    intro pipe point
    rw [setSlot, update_eq_self]
  have hn := nextPage_filling p t pos ptr dest
  unfold readableDataByPipe
  cases stage with
  | check => exact ⟨s.pipe, _, _, hs _ _, .inr ⟨_, _, _, rfl⟩⟩
  | initPipe =>
    dsimp only
    split_ifs
    · exact ⟨some [], _, _, hs _ _, .inr ⟨_, _, _, rfl⟩⟩
    · exact ⟨none, _, _, hs _ _, hn⟩
  | write =>
    dsimp only
    split
    · exact ⟨_, _, _, hs _ _, .inr ⟨_, _, _, rfl⟩⟩
    · exact ⟨s.pipe, _, _, hs _ _, hn⟩
  | read =>
    dsimp only
    split
    · exact ⟨_, _, _, rfl, hn⟩
    · exact ⟨s.pipe, _, _, hs _ _, hn⟩

theorem Inv.runHandler (h : Inv p s) (t : ℕ) (ok : Bool) : Inv p (s.runHandler p t ok) := by
  rw [State.runHandler]
  split
  case _ hat =>
    have hl : ∀ point, (s.handlers t).Later point := by
      intro point
      rw [hat]
      exact ⟨nofun, nofun⟩
    split_ifs with hf
    · refine h.moveTo rfl (hl _) (h.numbered.start hat (.inl rfl)) (fun _ _ hc => hc) (fun _ _ hc => hc)
        (fun _ _ _ _ => rfl) fun k hk => ?_
      cases hk
      exact .inr (.inl rfl)
    · refine h.moveTo rfl (hl _) (h.numbered.start hat (.inr ⟨rfl, by omega⟩)) (fun _ _ hc => hc)
        (fun _ _ hc => hc) (fun _ _ _ _ => rfl) fun k hk => ?_
      cases hk
      exact .inl rfl
  case _ pos hat =>
    split_ifs
    · rw [copyReadableBufSafe]
      split_ifs
      · exact h.move (.inl hat) (.inr ⟨.inl rfl, rfl⟩)
      · exact h.move (.inl hat) (.inr ⟨.inr ⟨_, _, _, rfl⟩, rfl⟩)
    · have hs1 : s.move t (.returned pos) =
          ({s with pipe := s.pipe}.setSlot pos (s.slots pos)).move t (.returned pos) := by
        rw [setSlot, update_eq_self]
      rw [hs1]
      exact h.move (.inl hat) (.inl rfl)
  case _ pos currentPtr dest stage hat =>
    obtain ⟨pipe, stack, point, hs, hp⟩ := readableDataByPipe_shape p t ok pos currentPtr dest stage s
    rw [hs]
    exact h.move (.inr ⟨_, _, _, hat⟩) (.inr ⟨hp, h.request hat⟩)
  case _ pos hat =>
    have hl : (s.handlers t).Later (.completed pos) := by
      rw [hat]
      exact ⟨fun k hk => hk, nofun⟩
    refine h.moveTo rfl hl (h.numbered.complete hat) (fun _ _ hc => hc) (fun _ _ hc => hc) (fun _ _ _ _ => rfl)
      fun k hk => ?_
    cases hk
    have hr := h.recorded t pos (by rw [hat]; rfl)
    rw [hat] at hr
    simp only [reduceCtorEq, false_or] at hr
    exact .inr (.inr hr)
  all_goals exact h

theorem Inv.signal (h : Inv p s) (t : ℕ) : Inv p (s.signal t) := by
  rw [State.signal]
  split
  case _ hcollector hat =>
    have hl : (s.handlers t).Later .pending := by
      rw [hat]
      exact ⟨nofun, nofun⟩
    have hp : Point.pending.pos? = (s.handlers t).pos? := by rw [hat]; rfl
    refine h.moveTo rfl hl (h.numbered.move hp nofun (fun k => by rw [hat]; nofun) nofun) (fun n atRead hc => ?_)
      (fun n atRead hc => ?_) (fun _ _ _ _ => rfl) nofun
    · change (if _ then _ else _)=_ at hc
      split_ifs at hc
    · change (if _ then _ else _)=_ at hc
      split_ifs at hc
  all_goals exact h

theorem Inv.collector {c : Collector} (h : Inv p s) (hc1 : ∀ n atRead, c≠.collected n atRead)
    (hc2 : ∀ n atRead, c≠.closed n atRead) : Inv p {s with collector := c} :=
  ⟨h.numbered, h.recorded, fun n atRead hc => absurd hc (hc1 n atRead), fun n atRead hc => absurd hc (hc2 n atRead)⟩

theorem Inv.collect (h : Inv p s) : Inv p s.collect := by
  rw [State.collect]
  split
  · exact h.collector nofun nofun
  · exact h.collector nofun nofun
  · split_ifs <;> exact h.collector nofun nofun
  · refine ⟨h.numbered, h.recorded, fun n atRead hc => ?_, nofun⟩
    cases hc
    exact ⟨⟨_, h.numbered⟩, fun t => Point.Later.refl _⟩
  case _ n atRead hat =>
    refine ⟨h.numbered, h.recorded, nofun, fun n atRead hc => ?_⟩
    cases hc
    exact h.collected _ _ hat
  · exact ⟨h.numbered, h.recorded, nofun, nofun⟩
  · exact h

theorem inv_step (p : Process) (s : State) (e : Event) (h : Inv p s) : Inv p (step p e s) := by
  cases e with
  | signal t => exact h.signal t
  | collect => exact h.collect
  | run t ok => exact h.runHandler t ok
  | store addr value => exact ⟨h.numbered, h.recorded, h.collected, h.closed⟩

theorem Inv.filled (h : Inv p s) {n : ℕ} (hc : s.collector=.closed n atRead)
    (ht : atRead t=.completed pos) : Filled p s pos (s.slots pos) := by
  have hat : s.handlers t=.completed pos := ((h.closed n atRead hc).2 t).2 pos ht
  have hp : (s.handlers t).pos? = some pos := by rw [hat]; rfl
  have hr := h.recorded t pos hp
  rw [hat] at hr
  exact ⟨t, .inr hat, by simpa using hr, fun u hu => h.numbered.distinct u t pos hu hp⟩

theorem slotsSent_iff_inOrder (s : State) (e : Event) (h : Inv p s) : SlotsSent p s e ↔ InOrder s e := by
  refine imp_congr_right fun _ => forall_congr' fun n => forall_congr' fun atRead => ?_
  rw [forall_comm]
  refine imp_congr_right fun hc => ?_
  obtain ⟨_, hn⟩ := (h.closed n atRead hc).1
  have hs1 : s.writeOtherThreadStack n=some ((List.range n).map s.slots) := if_neg (by have := hn.count_le; omega)
  rw [hn.inOrder_iff]
  constructor
  · intro hl
    obtain ⟨-, ha⟩ := hl _ hs1
    rw [hn.first_iff]
    simpa using ha
  · intro hf slots hs
    rw [hs1] at hs
    cases hs
    refine ⟨fun pos slot hs2 => ?_, ?_⟩
    · rw [List.getElem?_map, Option.map_eq_some_iff] at hs2
      obtain ⟨k, hk, rfl⟩ := hs2
      obtain ⟨hlt, rfl⟩ := List.getElem?_eq_some_iff.mp hk
      rw [List.length_range] at hlt
      rw [List.getElem_range]
      obtain ⟨t, ht⟩ := (hf pos).mp hlt
      exact h.filled hc ht
    · simpa using hn.first_iff.mp hf

end Steps

/-- All that is sent is filled and complete, in every interleaving, if and only if no handler is overtaken. -/
theorem slots_sent_iff (p : Process) (memory : ℕ → Option UInt8) (events : List Event) :
    Every (step p) (SlotsSent p) events (.initial memory) ↔ Every (step p) InOrder events (.initial memory) :=
  every_congr (Inv p) (fun s e h _ => inv_step p s e h) (inv_initial p memory) slotsSent_iff_inOrder

/-- In every interleaving a slot has one handler, and the completed count is that of the handlers that completed. -/
theorem slots_numbered (p : Process) (memory : ℕ → Option UInt8) (events : List Event) :
    let s := run (step p) events (.initial memory)
    Numbered s.handlers s.threadStartCount s.threadCompletedCount :=
  (run_invariant (Inv p) (inv_step p) (inv_initial p memory) events).numbered

/-! ## A slow handler -/

theorem wait_out (p : Process) (timeoutMs : ℕ) {s : State} (hc : s.collector=.waiting timeoutMs)
    (hl : s.threadCompletedCount<s.threadSentCount) :
    run (step p) (replicate (timeoutMs+1) .collect) s={s with collector := .reading} := by
  induction timeoutMs generalizing s with
  | zero =>
    change s.collect=_
    rw [collect, hc]
  | succ timeoutMs ih =>
    rw [replicate_succ, run_cons]
    have ht : step p .collect s={s with collector := .waiting timeoutMs} := by
      change s.collect=_
      rw [collect, hc]
      exact if_neg (by omega)
    rw [ht]
    exact ih rfl hl

def twoThreads : Process where
  pageSize := 65536
  request t := ⟨t, t, "worker", ⟨65536*(t % 2+1), by omega⟩⟩

/-- Thread 0 takes the first slot and is slow; thread 1 takes the second one and completes. -/
def overtaking : List Event :=
  [.signal 0, .signal 1, .collect, .run 0 true, .run 1 true, .run 1 true, .run 1 true, .run 1 false, .run 1 true]

theorem empty_slot_sent : ¬Every (step twoThreads) (SlotsSent twoThreads)
    (overtaking++List.replicate (localdumpTimeout+1) Event.collect++[Event.collect, Event.collect] ++
      [Event.collect]) (.initial fun _ => none) := by
  intro h
  rw [every_append, run_append, run_append, wait_out twoThreads localdumpTimeout (by rfl) (by decide)] at h
  obtain ⟨-, ha⟩ := h.2.1 rfl 1 _ _ rfl rfl
  exact absurd (ha 1 1 rfl) (by decide)

end Faultloggerd.LiteDump
