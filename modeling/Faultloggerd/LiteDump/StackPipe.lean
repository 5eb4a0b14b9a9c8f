import Faultloggerd.LiteDump.ThreadSlots

/-! # Whose stack a slot holds

All handlers copy through one pipe, so a handler reads what was written first. That is its own page as long as no other
handler writes between its write and its read.
-/
namespace Faultloggerd.LiteDump
open List State Foundations.EventRuns Function

/-- The bytes of every completed slot come from the stack whose pointer is recorded in the slot. -/
def Attributed (s : State) : Prop :=
  ∀ t pos, s.handlers t = .completed pos → ∀ i byte, (s.slots pos).stack i = some byte →
    ∃ request, (s.slots pos).request = some request ∧ byte.address = request.context.sp+i

def Point.reading : Point → Bool
  | .copying _ _ _ .read => true
  | _ => false

def Point.writing : Point → Bool
  | .copying _ _ _ .initPipe | .copying _ _ _ .write => true
  | _ => false

/-- No handler opens the pipe or writes to it while another one has a page in it. -/
def Undisturbed (s : State) (e : Event) : Prop :=
  ∀ t ok, e = .run t ok → (s.handlers t).writing = true → ∀ u, u ≠ t → (s.handlers u).reading = false

/-! ## The pipe -/

/-- The bytes were read from the addresses from `address` on. -/
def ReadFrom (address : ℕ) (bytes : List Copied) : Prop :=
  ∀ (i : ℕ) byte, bytes[i]? = some byte → byte.address = address+i

theorem readFrom_readable {mem : ℕ → Option UInt8} {addr size : ℕ} {bytes : List Copied}
    (h : readable mem addr size=some bytes) : bytes.length=size ∧ ReadFrom addr bytes := by
  rw [readable] at h
  split_ifs at h
  cases h
  refine ⟨by rw [length_map, length_range], fun i byte hb => ?_⟩
  rw [List.getElem?_map, Option.map_eq_some_iff] at hb
  obtain ⟨k, hk, rfl⟩ := hb
  obtain ⟨hlt, rfl⟩ := List.getElem?_eq_some_iff.mp hk
  rw [getElem_range]

/-- The pipe is empty, or holds at most the page of the one handler that has written and not read. -/
inductive PipeOwned (p : Process) (handlers : ℕ → Point) (pipe : Option (List Copied)) : Prop
  | free (idle : ∀ t, (handlers t).reading=false) (empty : ∀ queue, pipe=some queue → queue=[])
  | page (t pos currentPtr dest : ℕ) (at_ : handlers t = .copying pos currentPtr dest .read)
      (others : ∀ u, u≠t → (handlers u).reading=false)
      (bytes : ∀ queue, pipe=some queue → queue.length≤p.copySize t currentPtr ∧ ReadFrom currentPtr queue)

section Pipe
variable {p : Process} {handlers : ℕ → Point} {pipe : Option (List Copied)} {t : ℕ} {point : Point}

theorem reading_update (hp : point.reading=false) (ho : ∀ u, u≠t → (handlers u).reading=false) (u : ℕ) :
    (update handlers t point u).reading=false := by
  by_cases hu : u=t
  · rw [hu, update_self, hp]
  · rw [update_of_ne hu, ho u hu]

section

variable (h : PipeOwned p handlers pipe)
include h

theorem PipeOwned.move (ho : (handlers t).reading=false)
    (hp : point.reading=false) : PipeOwned p (update handlers t point) pipe := by
  cases h with
  | free idle empty => exact .free (reading_update hp fun u _ => idle u) empty
  | page v pos ptr dest at_ others bytes =>
    have hvt : v≠t := by
      rintro rfl
      rw [at_] at ho
      cases ho
    refine .page v pos ptr dest (by rw [update_of_ne hvt, at_]) (fun u hu => ?_) bytes
    by_cases hut : u=t
    · rw [hut, update_self, hp]
    · rw [update_of_ne hut, others u hu]

theorem PipeOwned.empty (hi : ∀ t, (handlers t).reading=false) {queue : List Copied}
    (hp : pipe=some queue) : queue=[] := by
  cases h with
  | free idle empty => exact empty queue hp
  | page v pos ptr dest at_ others bytes =>
    have := hi v
    rw [at_] at this
    cases this

theorem PipeOwned.write (hi : ∀ t, (handlers t).reading=false)
    {queue bytes : List Copied} {pos ptr dest : ℕ} (hp : pipe=some queue)
    (hl : bytes.length=p.copySize t ptr) (hb : ReadFrom ptr bytes) :
    PipeOwned p (update handlers t (.copying pos ptr dest .read)) (some (queue++bytes)) := by
  rw [h.empty hi hp, nil_append]
  refine .page t pos ptr dest (update_self ..) (fun u hu => ?_) fun queue hq => ?_
  · rw [update_of_ne hu, hi u]
  · cases hq
    exact ⟨by omega, hb⟩

theorem PipeOwned.owner {pos ptr dest : ℕ}
    (hat : handlers t=.copying pos ptr dest .read) : (∀ u, u≠t → (handlers u).reading=false) ∧
      ∀ queue, pipe=some queue → queue.length≤p.copySize t ptr ∧ ReadFrom ptr queue := by
  have ht : (handlers t).reading=true := by rw [hat]; rfl
  cases h with
  | free idle empty =>
    rw [idle t] at ht
    cases ht
  | page v pos' currentPtr' dest' at_ others bytes =>
    have hvt : t=v := by grind
    subst hvt
    rw [hat] at at_
    cases at_
    exact ⟨others, bytes⟩

end

end Pipe

/-! ## The slots -/

def Point.Holds (pos : ℕ) (point : Point) : Prop := point.Filling pos ∨ point = .completed pos

/-- Every byte of a slot comes from the stack of the thread that took it. -/
def Stored (p : Process) (handlers : ℕ → Point) (slots : ℕ → Slot) : Prop :=
  ∀ pos i byte, (slots pos).stack i = some byte → ∃ t, (handlers t).Holds pos ∧ byte.address = p.srcPtr t+i

theorem Point.Holds.pos_eq {pos : ℕ} {point : Point} (h : point.Holds pos) : point.pos?=some pos := by
  rcases h with (rfl | ⟨_, _, _, rfl⟩) | rfl <;> rfl

section Slots
variable {p : Process} {handlers : ℕ → Point} {slots : ℕ → Slot} {t pos : ℕ} {point : Point}

theorem Stored.move (h : Stored p handlers slots) (hp : ∀ pos, (handlers t).Holds pos → point.Holds pos) :
    Stored p (update handlers t point) slots := by
  intro pos i byte hb
  obtain ⟨u, hu, ha⟩ := h pos i byte hb
  refine ⟨u, ?_, ha⟩
  by_cases hut : u=t
  · rw [hut, update_self]
    rw [hut] at hu
    exact hp pos hu
  · rwa [update_of_ne hut]

theorem Stored.setSlot (h : Stored p handlers slots) {slot : Slot}
    (hs : ∀ i byte, slot.stack i=some byte → (slots pos).stack i=some byte ∨
      ∃ t, (handlers t).Holds pos ∧ byte.address=p.srcPtr t+i) : Stored p handlers (update slots pos slot) := by
  intro k i byte hb
  by_cases hk : k=pos
  · rw [hk, update_self] at hb
    rw [hk]
    rcases hs i byte hb with ho | hn
    · exact h pos i byte ho
    · exact hn
  · rw [update_of_ne hk] at hb
    exact h k i byte hb

theorem store_address {slot : Slot} {dest : ℕ} {bytes : List Copied} {i : ℕ} {byte : Copied}
    (hb1 : ReadFrom (p.srcPtr t+dest) bytes) (hb : (slot.store dest bytes).stack i=some byte) :
    slot.stack i=some byte ∨ byte.address=p.srcPtr t+i := by
  change (if i<dest then slot.stack i else (bytes[i-dest]?).or (slot.stack i))=some byte at hb
  split_ifs at hb with hi
  · exact .inl hb
  rw [Option.or_eq_some_iff] at hb
  rcases hb with hn | ⟨-, ho⟩
  · have := hb1 (i-dest) byte hn
    exact .inr (by omega)
  · exact .inl ho

end Slots

/-! ## Whole runs -/

/-- Every copy is as far behind the stack pointer as behind the start of the slot. -/
def Placed (p : Process) (handlers : ℕ → Point) : Prop :=
  ∀ t pos currentPtr dest stage, handlers t = .copying pos currentPtr dest stage → currentPtr = p.srcPtr t+dest

structure PipeInv (p : Process) (s : State) : Prop where
  inv : Inv p s
  placed : Placed p s.handlers
  owned : PipeOwned p s.handlers s.pipe
  stored : Stored p s.handlers s.slots

theorem pipeInv_initial (p : Process) (mem : ℕ → Option UInt8) : PipeInv p (.initial mem) :=
  ⟨inv_initial p mem, nofun, .free (fun _ => rfl) nofun, nofun⟩

theorem PipeInv.attributed {p : Process} {s : State} (h : PipeInv p s) : Attributed s := by
  intro t pos _ i byte hb
  obtain ⟨u, hu, ha⟩ := h.stored pos i byte hb
  refine ⟨p.request u, ?_, ha⟩
  have hr := h.inv.recorded u pos hu.pos_eq
  rcases hu with (hu | ⟨_, _, _, hu⟩) | hu <;> simpa [hu] using hr

section Steps
variable {p : Process} {s : State} {t pos ptr dest : ℕ} {stage : Stage}

variable {point : Point}

theorem Placed.move {handlers : ℕ → Point} (h : Placed p handlers)
    (hp : ∀ pos ptr dest stage, point=.copying pos ptr dest stage → ptr=p.srcPtr t+dest)
    : Placed p (update handlers t point) := by
  intro u pos ptr dest stage hu
  by_cases hut : u=t
  · rw [hut, update_self] at hu
    rw [hut]
    exact hp pos ptr dest stage hu
  · rw [update_of_ne hut] at hu
    exact h u pos ptr dest stage hu

theorem Placed.at_stage (h : Placed p s.handlers) (hat : s.handlers t=.copying pos ptr dest stage)
    (stage' : Stage) : Placed p (update s.handlers t (.copying pos ptr dest stage')) := by
  refine h.move fun _ _ _ _ he => ?_
  cases he
  exact h t pos ptr dest stage hat

theorem Placed.nextPage (h : Placed p s.handlers) (hat : s.handlers t=.copying pos ptr dest stage) :
    Placed p (update s.handlers t (p.nextPage t pos ptr dest)) := by
  refine h.move fun _ _ _ _ he => ?_
  have := h t pos ptr dest stage hat
  rw [Process.nextPage] at he
  split_ifs at he
  cases he
  omega

theorem nextPage_reading (p : Process) (t pos ptr dest : ℕ) :
    (p.nextPage t pos ptr dest).reading=false := by
  rw [Process.nextPage]
  split_ifs <;> rfl

theorem Stored.filling {slots : ℕ → Slot} (h : Stored p s.handlers slots)
    (hat : s.handlers t=.copying pos ptr dest stage) (hp : point.Filling pos) :
    Stored p (update s.handlers t point) slots := by
  refine h.move fun k hk => ?_
  have := hk.pos_eq
  rw [hat] at this
  cases this
  exact .inl hp

theorem PipeOwned.read (h : PipeOwned p s.handlers s.pipe) (hat : s.handlers t=.copying pos ptr dest .read)
    (hp : point.reading=false) {queue : List Copied} (hp1 : s.pipe=some queue) :
    PipeOwned p (update s.handlers t point) (some (queue.drop (p.copySize t ptr))) := by
  obtain ⟨others, bytes⟩ := h.owner hat
  refine .free (reading_update hp others) fun rest hr => ?_
  cases hr
  exact drop_eq_nil_of_le (bytes queue hp1).1

theorem Stored.read (h : PipeInv p s) (hat : s.handlers t=.copying pos ptr dest .read) {queue : List Copied}
    (hp : s.pipe=some queue) : Stored p s.handlers (update s.slots pos
      ((s.slots pos).store dest (queue.take (p.copySize t ptr)))) := by
  obtain ⟨hl, hb⟩ := (h.owned.owner hat).2 queue hp
  rw [take_of_length_le hl]
  rw [h.placed t pos ptr dest .read hat] at hb
  refine h.stored.setSlot fun i byte hb1 => ?_
  rcases store_address hb hb1 with ho | hn
  · exact .inl ho
  · exact .inr ⟨t, .inl (hat ▸ .inr ⟨_, _, _, rfl⟩), hn⟩

theorem PipeInv.readableDataByPipe (h : PipeInv p s) (hat : s.handlers t=.copying pos ptr dest stage) (ok : Bool)
    (hc : (s.handlers t).writing=true → ∀ u, u≠t → (s.handlers u).reading=false) :
    PipeOwned p (s.readableDataByPipe p t ok pos ptr dest stage).handlers
        (s.readableDataByPipe p t ok pos ptr dest stage).pipe ∧
      Placed p (s.readableDataByPipe p t ok pos ptr dest stage).handlers ∧
      Stored p (s.readableDataByPipe p t ok pos ptr dest stage).handlers
        (s.readableDataByPipe p t ok pos ptr dest stage).slots := by
  have hn := nextPage_reading p t pos ptr dest
  have hs := h.stored.filling hat (nextPage_filling p t pos ptr dest)
  have hf : ∀ stage', (Point.copying pos ptr dest stage').Filling pos := fun stage' => .inr ⟨_, _, _, rfl⟩
  unfold State.readableDataByPipe
  cases stage with
  | check =>
    refine ⟨h.owned.move (by rw [hat]; rfl) ?_, h.placed.at_stage hat _, h.stored.filling hat (hf _)⟩
    split_ifs <;> rfl
  | initPipe =>
    have ho := hc (by rw [hat]; rfl)
    dsimp only
    split_ifs
    · exact ⟨.free (reading_update rfl ho) (by rintro queue ⟨⟩; rfl), h.placed.at_stage hat _,
        h.stored.filling hat (hf _)⟩
    · exact ⟨.free (reading_update hn ho) nofun, h.placed.nextPage hat, hs⟩
  | write =>
    have hi : ∀ u, (s.handlers u).reading=false := by
      intro u
      by_cases hu : u=t
      · rw [hu, hat]
        rfl
      · exact hc (by rw [hat]; rfl) u hu
    dsimp only
    split
    case _ queue bytes hp hb =>
      obtain ⟨hl, hf1⟩ := readFrom_readable hb
      exact ⟨h.owned.write hi hp hl hf1, h.placed.at_stage hat _, h.stored.filling hat (hf _)⟩
    case _ => exact ⟨h.owned.move (hi t) hn, h.placed.nextPage hat, hs⟩
  | read =>
    dsimp only
    split
    case _ queue hp =>
      exact ⟨h.owned.read hat hn hp, h.placed.nextPage hat,
        (Stored.read h hat hp).filling hat (nextPage_filling p t pos ptr dest)⟩
    case _ hp =>
      refine ⟨.free (reading_update hn (h.owned.owner hat).1) ?_, h.placed.nextPage hat, hs⟩
      intro queue hq
      cases hp.symm.trans hq

theorem PipeInv.move {s' : State} (h : PipeInv p s) (hi : Inv p s')
    (hh : s'.handlers=update s.handlers t point) (hp2 : s'.pipe=s.pipe)
    (hs : Stored p s.handlers s'.slots) (ho : (s.handlers t).reading=false) (hp1 : point.reading=false)
    (hp : ∀ pos ptr dest stage, point=.copying pos ptr dest stage → ptr=p.srcPtr t+dest)
    (hh1 : ∀ pos, (s.handlers t).Holds pos → point.Holds pos) : PipeInv p s' := by
  refine ⟨hi, ?_, ?_, ?_⟩
  · rw [hh]
    exact h.placed.move hp
  · rw [hh, hp2]
    exact h.owned.move ho hp1
  · rw [hh]
    exact hs.move hh1

theorem not_holds_of_pos (h : point.pos?=none) (pos : ℕ) : ¬point.Holds pos := by
  intro hh
  rw [hh.pos_eq] at h
  cases h

theorem PipeInv.runHandler (h : PipeInv p s) (t : ℕ) (ok : Bool)
    (hc : (s.handlers t).writing=true → ∀ u, u≠t → (s.handlers u).reading=false) :
    PipeInv p (s.runHandler p t ok) := by
  have hi := h.inv.runHandler t ok
  unfold State.runHandler at hi ⊢
  split at hi
  case _ hat =>
    have hn : ∀ pos, ¬(s.handlers t).Holds pos := not_holds_of_pos (by rw [hat]; rfl)
    split_ifs at hi ⊢
    · exact h.move hi rfl rfl h.stored (by rw [hat]; rfl) rfl (fun _ _ _ _ he => by cases he) fun pos hp =>
        absurd hp (hn pos)
    · exact h.move hi rfl rfl h.stored (by rw [hat]; rfl) rfl (fun _ _ _ _ he => by cases he) fun pos hp =>
        absurd hp (hn pos)
  case _ pos hat =>
    have hn : ∀ k, ¬(s.handlers t).Holds k := by
      rintro k ((hk | ⟨_, _, _, hk⟩) | hk) <;> rw [hat] at hk <;> cases hk
    have hs : Stored p s.handlers
        (update s.slots pos {s.slots pos with request := some (p.request t)}) :=
        h.stored.setSlot fun i byte hb => .inl hb
    split_ifs at hi ⊢
    · rw [copyReadableBufSafe] at hi ⊢
      split_ifs at hi ⊢
      · exact h.move hi rfl rfl hs (by rw [hat]; rfl) rfl (fun _ _ _ _ he => by cases he) fun k hk => absurd hk (hn k)
      · refine h.move hi rfl rfl hs (by rw [hat]; rfl) rfl (fun _ _ _ _ he => ?_) fun k hk => absurd hk (hn k)
        cases he
        rfl
    · exact h.move hi rfl rfl h.stored (by rw [hat]; rfl) rfl (fun _ _ _ _ he => by cases he) fun k hk =>
        absurd hk (hn k)
  case _ pos ptr dest stage hat =>
    obtain ⟨ho, hp1, hs⟩ := h.readableDataByPipe hat ok hc
    exact ⟨hi, hp1, ho, hs⟩
  case _ pos hat =>
    refine h.move hi rfl rfl h.stored (by rw [hat]; rfl) rfl (fun _ _ _ _ he => by cases he) fun k hk => ?_
    have := hk.pos_eq
    rw [hat] at this
    cases this
    exact .inr rfl
  all_goals exact h

theorem PipeInv.signal (h : PipeInv p s) (t : ℕ) : PipeInv p (s.signal t) := by
  have hi := h.inv.signal t
  unfold State.signal at hi ⊢
  split at hi
  case _ hcollector hat =>
    exact h.move hi rfl rfl h.stored (by rw [hat]; rfl) rfl nofun
      fun k hk => absurd hk (not_holds_of_pos (by rw [hat]; rfl) k)
  case _ => exact h

theorem PipeInv.collect (h : PipeInv p s) : PipeInv p s.collect := by
  have hi := h.inv.collect
  unfold State.collect at hi ⊢
  split at hi
  case h_3 =>
    split_ifs at hi ⊢ <;> exact ⟨hi, h.placed, h.owned, h.stored⟩
  case h_5 =>
    refine ⟨hi, h.placed, ?_, h.stored⟩
    cases h.owned with
    | free idle empty => exact .free idle nofun
    | page v pos ptr dest at_ others bytes => exact .page v pos ptr dest at_ others nofun
  all_goals exact ⟨hi, h.placed, h.owned, h.stored⟩

end Steps

theorem pipeInv_step (p : Process) (s : State) (e : Event) (h : PipeInv p s) (hc : Undisturbed s e) :
    PipeInv p (step p e s) := by
  cases e with
  | signal t => exact h.signal t
  | collect => exact h.collect
  | run t ok => exact h.runHandler t ok (hc t ok rfl)
  | store addr value => exact ⟨inv_step p s _ h.inv, h.placed, h.owned, h.stored⟩

/-- In every interleaving in which no page in the pipe is disturbed, every completed slot holds its own stack. -/
theorem stacks_attributed (p : Process) (memory : ℕ → Option UInt8) (events : List Event)
    (h : Every (step p) Undisturbed events (.initial memory)) : Attributed (run (step p) events (.initial memory)) :=
  (run_invariant_of_every (PipeInv p) (pipeInv_step p) (pipeInv_initial p memory) h).attributed

/-! ## One handler alone -/

theorem runHandler_others (p : Process) (s : State) {t u : ℕ} (ok : Bool) (hu : u≠t) :
    (s.runHandler p t ok).handlers u=s.handlers u := by
  have hm : ∀ (s' : State) point, s'.handlers=s.handlers → (s'.move t point).handlers u=s.handlers u := by
    intro s' point hs
    change update s'.handlers t point u=_
    rw [update_of_ne hu, hs]
  unfold runHandler
  split
  · split_ifs <;> exact hm _ _ rfl
  · split_ifs
    · rw [copyReadableBufSafe]
      split_ifs <;> exact hm _ _ rfl
    · exact hm _ _ rfl
  case _ pos ptr dest stage _ =>
    obtain ⟨pipe, stack, point, hs1, -⟩ := readableDataByPipe_shape p t ok pos ptr dest stage s
    rw [hs1]
    exact hm _ _ rfl
  · exact hm _ _ rfl
  all_goals rfl

theorem signal_others (s : State) {t u : ℕ} (hu : u≠t) : (s.signal t).handlers u=s.handlers u := by
  unfold signal
  split
  · exact update_of_ne hu ..
  · rfl

/-- The events are steps of the handler of one thread. -/
def Solo (t : ℕ) (events : List Event) : Prop := ∀ e ∈ events, e = .signal t ∨ ∃ ok, e = .run t ok

theorem solo_others (p : Process) {t u : ℕ} (hu : u ≠ t) {events : List Event} (h : Solo t events) (s : State) :
    (run (step p) events s).handlers u = s.handlers u := by
  induction events generalizing s with
  | nil => rfl
  | cons e events ih =>
    rw [run_cons, ih fun d hd => h d (mem_cons_of_mem e hd)]
    obtain rfl | ⟨ok, rfl⟩ := h e mem_cons_self
    · exact signal_others s hu
    · exact runHandler_others p s ok hu

theorem every_undisturbed_solo (p : Process) {t : ℕ} {events : List Event} (h : Solo t events) {s : State}
    (hs : ∀ u, u ≠ t → (s.handlers u).reading = false) : Every (step p) Undisturbed events s := by
  induction events generalizing s with
  | nil => trivial
  | cons e events ih =>
    refine ⟨?_, ih (fun d hd => h d (mem_cons_of_mem e hd)) fun u hu => ?_⟩
    · rintro v ok rfl - u hu
      obtain hv | ⟨_, hv⟩ := h _ mem_cons_self
      · cases hv
      · cases hv
        exact hs u hu
    · have he : Solo t [e] := forall_mem_singleton.mpr (h e mem_cons_self)
      exact (congrArg Point.reading (solo_others p hu he s)).trans (hs u hu)

/-! ## Two handlers at the pipe -/

def pageEnds : Process where
  pageSize := 65536
  request t := ⟨t, t, "worker", ⟨65536*(t % 2+1)-1, by omega⟩⟩

def twoBytes (address : ℕ) : Option UInt8 :=
  if address = 65535 then some 7 else if address = 131071 then some 9 else none

def toPipe (t : ℕ) : List Event := [.signal t, .run t true, .run t true, .run t true]

def fromPipe (t : ℕ) : List Event := [.run t true, .run t false, .run t true]

/-- Thread 0 opens the pipe, writes its byte, reads it back and completes; then thread 1 goes through the same pipe. -/
def inTurn : List Event :=
  (toPipe 0 ++ List.replicate 3 (Event.run 0 true) ++ fromPipe 0) ++
    (toPipe 1 ++ List.replicate 2 (Event.run 1 true) ++ fromPipe 1)

theorem stacks_attributed_in_turn : Attributed (run (step pageEnds) inTurn (.initial twoBytes)) ∧
    ((run (step pageEnds) inTurn (.initial twoBytes)).slots 0).stack 0 = some ⟨65535, 7⟩ ∧
    ((run (step pageEnds) inTurn (.initial twoBytes)).slots 1).stack 0 = some ⟨131071, 9⟩ := by
  have h₀ : Solo 0 (toPipe 0 ++ List.replicate 3 (Event.run 0 true) ++ fromPipe 0) := by unfold Solo; decide
  have h₁ : Solo 1 (toPipe 1 ++ List.replicate 2 (Event.run 1 true) ++ fromPipe 1) := by unfold Solo; decide
  refine ⟨stacks_attributed pageEnds twoBytes inTurn ((every_append _ _).mpr ⟨?_, ?_⟩), by decide, by decide⟩
  · exact every_undisturbed_solo pageEnds h₀ fun _ _ => rfl
  · refine every_undisturbed_solo pageEnds h₁ fun u _ => ?_
    by_cases hu : u = 0
    · rw [hu]
      decide
    · rw [solo_others pageEnds hu h₀]
      rfl

/-- Both handlers write before one of them reads: thread 1 reads the byte of thread 0. -/
def crossing : List Event :=
  toPipe 0 ++ [Event.run 0 true] ++ toPipe 1 ++
    [Event.run 0 true, Event.run 1 true, Event.run 1 true, Event.run 0 true] ++ fromPipe 1

theorem foreign_byte_stored : ¬Attributed (run (step pageEnds) crossing (.initial twoBytes)) := by
  intro h
  obtain ⟨request, hr, ha⟩ := h 1 1 (by decide) 0 ⟨65535, 7⟩ (by decide)
  have ho : some request=some (pageEnds.request 1) := hr.symm.trans rfl
  cases ho
  exact absurd ha (by decide)

end Faultloggerd.LiteDump
