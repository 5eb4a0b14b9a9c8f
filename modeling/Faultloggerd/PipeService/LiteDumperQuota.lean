import Faultloggerd.PipeService.LiteDumperLifetime
import Mathlib.Algebra.Group.Int.Defs

/-! # The daily quota of lite dumps

The counters of all users are cleared together, a day after the first request that found none of them. Such a request
starts the clearing before it is filtered; where it is counted as well, each window of the counters lasts a day.
-/
namespace Faultloggerd.PipeService.LiteDumper
open Foundations Foundations.EventRuns EventLoop KeyedList List Note Nat Prod
open Coredump (Ucred Connection)

/-! ## Notes -/

namespace Note

def time : Note → ℕ
  | counted _ time _ => time
  | cleared time => time

def isCleared : Note → Bool
  | cleared _ => true
  | _ => false

def isCountedFor (uid : ℤ) : Note → Bool
  | counted user _ _ => user == uid
  | _ => false

def passedWithin (uid : ℤ) (start : ℕ) : Note → Bool
  | counted user time passed => user == uid && passed && start ≤ time && time < start+oneDaySec*1000*1000
  | _ => false

end Note

def sinceCleared (notes : List Note) : List Note :=
  notes.takeWhile fun note => !note.isCleared

/-- The first request counted for a user since their counter was last reset opens a window: no reset within a day, and
no more than the limit passes in it. -/
def UserWindows (notes : List Note) : Prop :=
  ∀ later uid start passed earlier, notes = later ++ .counted uid start passed::earlier →
    (sinceCleared earlier).countP (Note.isCountedFor uid) = 0 →
      (∀ time, .cleared time∈later → start+oneDaySec*1000*1000≤time) ∧
        ((later++[.counted uid start passed]).countP (Note.passedWithin uid start) : ℤ) ≤ liteDumpLimitOneDay*3

/-- The first request that is counted for any user since the counters were last cleared opens a window for all of them.
-/
def DailyWindows (notes : List Note) : Prop :=
  ∀ later uid start passed earlier, notes = later ++ .counted uid start passed::earlier → sinceCleared earlier = [] →
    (∀ time, .cleared time∈later → start+oneDaySec*1000*1000≤time) ∧
      ∀ user, ((later++[.counted uid start passed]).countP (Note.passedWithin user start) : ℤ) ≤
        liteDumpLimitOneDay*3

section Notes

variable {notes later earlier : List Note} {uid : ℤ} {start time : ℕ} {passed : Bool}

@[simp] theorem sinceCleared_counted :
    sinceCleared (.counted uid time passed::notes)=.counted uid time passed::sinceCleared notes := rfl

@[simp] theorem sinceCleared_cleared : sinceCleared (.cleared time::notes)=[] := rfl

theorem sinceCleared_open (ho : ∀ time, cleared time∉later) (he : sinceCleared earlier=[]) :
    sinceCleared (later ++ .counted uid start passed::earlier)=later++[.counted uid start passed] := by
  induction later with
  | nil => rw [nil_append, sinceCleared_counted, he, nil_append]
  | cons note later ih =>
    have hl := ih fun time hm => ho time (mem_cons_of_mem note hm)
    cases note with
    | counted uid' time' passed' => rw [cons_append, sinceCleared_counted, hl, cons_append]
    | cleared time' => exact absurd mem_cons_self (ho time')

theorem passedWithin_le_isCountedFor (user : ℤ) (start : ℕ) (notes : List Note) :
    notes.countP (passedWithin user start)≤notes.countP (isCountedFor user) := by
  refine countP_mono_left fun note _ hp => ?_
  cases note with
  | counted uid time passed =>
    simp only [passedWithin, Bool.and_eq_true] at hp
    exact hp.1.1.1
  | cleared time => cases hp

theorem DailyWindows.counted (h : DailyWindows notes) {now : ℕ} (hp2 : ∀ note∈notes, note.time≤now)
    (hl1 : passed=true → ((sinceCleared notes).countP (isCountedFor uid) : ℤ)<liteDumpLimitOneDay*3) :
    DailyWindows (.counted uid now passed::notes) := by
  have hl2 : liteDumpLimitOneDay*3=180 := rfl
  intro later first start firstPassed earlier hs he
  cases later with
  | nil =>
    refine ⟨nofun, fun user => ?_⟩
    have ho1 : ([]++[Note.counted first start firstPassed]).countP (Note.passedWithin user start)≤1 := countP_le_length
    omega
  | cons note later =>
    obtain ⟨rfl, hn⟩ : _ ∧ notes=later ++ .counted first start firstPassed::earlier := cons.inj hs
    obtain ⟨hc, hp1⟩ := h later first start firstPassed earlier hn he
    refine ⟨fun time hm => ?_, fun user => ?_⟩
    · obtain hh | hl := mem_cons.mp hm
      · cases hh
      · exact hc time hl
    · have hb := hp1 user
      rw [cons_append, countP_cons]
      split
      · rename_i hn1
        simp only [passedWithin, Bool.and_eq_true, beq_iff_eq, decide_eq_true_eq] at hn1
        obtain ⟨⟨⟨rfl, hp⟩, -⟩, hd⟩ := hn1
        -- no clearing since the window was opened, for it would lie behind the day
        have ho : ∀ time, cleared time ∉ later := by
          intro time hm
          have hl3 := hc time hm
          have ht := hp2 (.cleared time) (hn ▸ mem_append_left _ hm)
          change time≤now at ht
          omega
        have hc1 := hl1 hp
        rw [hn, sinceCleared_open ho he] at hc1
        have hle := passedWithin_le_isCountedFor uid start (later++[.counted first start firstPassed])
        omega
      · exact hb

theorem DailyWindows.cleared (h : DailyWindows notes) {now : ℕ} (hp1 : ∀ note∈notes, note.time≤now)
    (hd : ∀ note∈(sinceCleared notes).getLast?, note.time+oneDaySec*1000*1000≤now) :
    DailyWindows (.cleared now::notes) := by
  intro later first start firstPassed earlier hs he
  cases later with
  | nil => cases hs
  | cons note later =>
    obtain ⟨rfl, hn⟩ : _ ∧ notes=later ++ .counted first start firstPassed::earlier := cons.inj hs
    obtain ⟨hc, hp⟩ := h later first start firstPassed earlier hn he
    refine ⟨fun time hm => ?_, fun user => ?_⟩
    · obtain hh | hl := mem_cons.mp hm
      · cases hh
        by_cases ho : ∀ time, Note.cleared time ∉ later
        · rw [hn, sinceCleared_open ho he, getLast?_concat] at hd
          exact hd _ rfl
        · push Not at ho
          obtain ⟨time, hm⟩ := ho
          have hl1 := hc time hm
          have ht := hp1 (.cleared time) (hn ▸ mem_append_left _ hm)
          exact le_trans hl1 ht
      · exact hc time hl
    · exact hp user

end Notes

/-! ## Counters -/

theorem find_countRequest (uid user : ℤ) (m : Memory) : find fst user (countRequest uid m).launchLiteDumpPipeMap =
      if user=uid then some (uid, (liteDumpCount uid m+1).bmod (2^32))
      else find fst user m.launchLiteDumpPipeMap := by
  unfold countRequest
  cases hf : find fst uid m.launchLiteDumpPipeMap with
  | none =>
    rw [find_append_singleton]
    by_cases hu : user=uid
    · simp [hu, hf]
    · simp [hu, Ne.symm hu]
  | some pair =>
    have hm : find fst user (modify fst uid
        (fun _ => (uid, (liteDumpCount uid m+1).bmod (2^32))) m.launchLiteDumpPipeMap)=if user=uid then
          (find fst uid m.launchLiteDumpPipeMap).map
            fun _ => (uid, (liteDumpCount uid m+1).bmod (2^32))
        else find fst user m.launchLiteDumpPipeMap := find_modify (k := uid) (fun _ _ => rfl) user
    rw [hm, hf]
    rfl

theorem liteDumpCount_countRequest (uid user : ℤ) (m : Memory) : liteDumpCount user (countRequest uid m) =
      if user=uid then (liteDumpCount uid m+1).bmod (2^32) else liteDumpCount user m := by
  rw [liteDumpCount, find_countRequest]
  by_cases hu : user=uid
  · rw [if_pos hu, if_pos hu]
    rfl
  · rw [if_neg hu, if_neg hu]
    rfl

theorem countRequest_map_ne_nil (uid : ℤ) (m : Memory) : (countRequest uid m).launchLiteDumpPipeMap≠[] := by
  intro hn
  have hf := find_countRequest uid uid m
  rw [hn, if_pos rfl] at hf
  cases hf

theorem bmod_succ {count : ℤ} (hn : 0≤ count) (hc : count<2^31-1) : (count+1).bmod (2^32)=count+1 := by
  rw [Int.bmod_eq_of_le] <;> omega

/-! ## Windows along a run -/

def isClearing (e : Entry Task) : Bool :=
  e.work == .clearCounters

/-- The counters are the numbers of requests since the last clearing, and a clearing is pending only while there are
such requests, a day after the first of them. -/
structure Windowed (m : Memory) (q : Queue Task) : Prop where
  windows : DailyWindows m.notes
  past : ∀ note ∈ m.notes, note.time ≤ q.now
  counts : ∀ uid, liteDumpCount uid m = (sinceCleared m.notes).countP (Note.isCountedFor uid)
  empty_iff : m.launchLiteDumpPipeMap = [] ↔ sinceCleared m.notes = []
  idle : sinceCleared m.notes = [] → q.delayTasks.countP isClearing = 0
  single : q.delayTasks.countP isClearing ≤ 1
  pending : ∀ e ∈ q.delayTasks, isClearing e = true → ∀ note ∈ (sinceCleared m.notes).getLast?,
    note.time+oneDaySec*1000*1000 ≤ e.executeTime

structure KeepsQuota (m : Memory) (q : Queue Task) (m' : Memory) (q' : Queue Task) : Prop where
  notes : m'.notes = m.notes
  map : m'.launchLiteDumpPipeMap = m.launchLiteDumpPipeMap
  now : q.now ≤ q'.now
  clearing : ∀ e ∈ q'.delayTasks, isClearing e = true → e ∈ q.delayTasks
  count : q'.delayTasks.countP isClearing ≤ q.delayTasks.countP isClearing

section Steps

variable {m m' : Memory} {q q' : Queue Task} {now : ℕ} {system : System} {conn : Connection}
  {req : LiteDumpFdRequestData}

theorem Windowed.keeps (h : Windowed m q) (hk : KeepsQuota m q m' q') : Windowed m' q' where
  windows := hk.notes ▸ h.windows
  past note hnote := (h.past note (hk.notes ▸ hnote)).trans hk.now
  counts uid := by
    rw [hk.notes, liteDumpCount, hk.map]
    exact h.counts uid
  empty_iff := by
    rw [hk.notes, hk.map]
    exact h.empty_iff
  idle hnone := by
    have hz := h.idle (hk.notes ▸ hnone)
    have hle := hk.count
    omega
  single := hk.count.trans h.single
  pending e he hclearing note hnote := h.pending e (hk.clearing e he hclearing) hclearing note (hk.notes ▸ hnote)

theorem KeepsQuota.refl (m : Memory) (q : Queue Task) : KeepsQuota m q m q :=
  ⟨rfl, rfl, le_refl _, fun _ he _ => he, le_refl _⟩

theorem keepsQuota_sendFd (hn : m'.notes=m.notes)
    (hm : m'.launchLiteDumpPipeMap=m.launchLiteDumpPipeMap) (pid fd : ℤ) :
    KeepsQuota m q ((sendFd now system pid fd m').exec q).1.2 ((sendFd now system pid fd m').exec q).2 := by
  unfold sendFd
  split
  · exact ⟨hn, hm, le_refl _, fun _ he _ => he, le_refl _⟩
  · refine ⟨hn, hm, ?_, ?_, ?_⟩
    · change q.now≤((q.wait system.elapsed system.taken).addDelayTask (.delPipePair pid now) 10).2.now
      rw [(Queue.addDelayTask_now_history ..).1]
      exact le_add_right _ _
    · intro e he hc
      obtain he | rfl := Queue.mem_addDelayTask he
      · exact he
      · cases hc
    · exact (q.wait system.elapsed system.taken).countP_addDelayTask_le isClearing (.delPipePair pid now) 10

theorem createPipePair_counters (pid : ℤ) (m : Memory) (now : ℕ) (pipe2 : Option (ℕ×ℕ)) :
    (createPipePair pid m now pipe2).2.notes=m.notes ∧
      (createPipePair pid m now pipe2).2.launchLiteDumpPipeMap=m.launchLiteDumpPipeMap := by
  unfold createPipePair
  split <;> exact ⟨rfl, rfl⟩

theorem keepsQuota_serve : KeepsQuota m q ((serve now system req m).exec q).1.2
    ((serve now system req m).exec q).2 := by
  unfold serve
  dsimp only
  split
  · exact ⟨rfl, rfl, le_refl _, fun _ he _ => he, le_refl _⟩
  · split
    · split
      · exact KeepsQuota.refl m q
      · obtain ⟨hn, hm⟩ := createPipePair_counters req.pid m now system.pipe2
        refine keepsQuota_sendFd ?_ ?_ _ _
        · exact hn
        · exact hm
    · split
      · exact KeepsQuota.refl m q
      · exact keepsQuota_sendFd rfl rfl _ _

theorem filter_counted (now : ℕ) (system : System) (m : Memory) {uid : ℤ}
    (hu : countedUid conn req=some uid) : ∃ passed, filter now system conn req m =
        (passed, {countRequest uid m with notes := .counted uid now passed::m.notes}) ∧
      (passed=true → liteDumpCount uid m<liteDumpLimitOneDay*3) := by
  unfold filter
  rw [hu]
  refine ⟨_, rfl, fun hp => ?_⟩
  by_contra hf
  rw [if_pos (not_lt.mp hf)] at hp
  cases hp

theorem Windowed.counted (h : Windowed m q) (system : System) {uid : ℤ}
    (hu1 : countedUid conn req=some uid) (hc2 : liteDumpCount uid m<2^31-1)
    (hr : q.now+oneDaySec*1000*1000<2^timestampBits) :
    Windowed (filter q.now system conn req m).2 (withClearing m q) := by
  have hn2 : 0≤liteDumpCount uid m := by
    rw [h.counts]
    exact Int.natCast_nonneg _
  have hn3 := bmod_succ hn2 hc2
  obtain ⟨passed, hf, hl⟩ := filter_counted q.now system m hu1
  rw [hf]
  refine ⟨?_, ?_, ?_, ?_, ?_, ?_, ?_⟩
  · refine h.windows.counted h.past fun hp => ?_
    rw [←h.counts]
    exact hl hp
  · intro note hn
    rw [withClearing_now]
    obtain rfl | hn := mem_cons.mp hn
    · exact le_refl _
    · exact h.past note hn
  · intro user
    have hc1 := h.counts user
    change liteDumpCount user (countRequest uid m)=_
    rw [liteDumpCount_countRequest, sinceCleared_counted, countP_cons]
    by_cases hu : user=uid
    · rw [hu] at hc1
      rw [if_pos hu, hu, if_pos (by simp [isCountedFor])]
      omega
    · rw [if_neg hu, if_neg (by simpa [isCountedFor] using Ne.symm hu)]
      omega
  · exact iff_of_false (countRequest_map_ne_nil uid m) (cons_ne_nil _ _)
  · intro hn1
    cases hn1
  · unfold withClearing
    split
    · rename_i he1
      have hi := h.idle (h.empty_iff.mp (isEmpty_iff.mp he1))
      have hle := q.countP_addDelayTask_le isClearing .clearCounters (BitVec.ofNat 32 oneDaySec)
      split at hle <;> omega
    · exact h.single
  · intro e he hc note hn
    by_cases he1 : m.launchLiteDumpPipeMap=[]
    · rw [sinceCleared_counted, h.empty_iff.mp he1] at hn
      cases hn
      rw [withClearing, if_pos (isEmpty_iff.mpr he1)] at he
      obtain he | rfl := Queue.mem_addDelayTask he
      · have hi := h.idle (h.empty_iff.mp he1)
        exact absurd hc (countP_eq_zero.mp hi e he)
      · have hb : 2^timestampBits<2^64 := by decide
        have hd : (BitVec.ofNat 32 oneDaySec).toNat=oneDaySec := by decide
        rw [Queue.newEntry_executeTime, hd, mod_eq_of_lt (hr.trans hb), mod_eq_of_lt hr]
        exact le_refl _
    · rw [withClearing, if_neg (by simpa using he1)] at he
      have hs : sinceCleared m.notes≠[] := fun hn1 => he1 (h.empty_iff.mpr hn1)
      rw [sinceCleared_counted, getLast?_cons_of_ne_nil hs] at hn
      exact h.pending e he hc note hn

theorem Windowed.cleared (h : Windowed m q) {front : Entry Task} (ht : q.delayTasks=front::q'.delayTasks)
    (hd : front.executeTime≤q.now) (hn1 : q'.now=q.now) (hf : front.work=.clearCounters) :
    Windowed (clearCounters q.now m) q' := by
  have hc : isClearing front=true := by
    rw [isClearing, hf]
    rfl
  have hr : q'.delayTasks.countP isClearing=0 := by
    have hs := h.single
    grind
  refine ⟨?_, ?_, ?_, ?_, ?_, ?_, ?_⟩
  · refine h.windows.cleared h.past fun note hn => ?_
    exact (h.pending front (ht ▸ mem_cons_self) hc note hn).trans hd
  · intro note hn
    rw [hn1]
    obtain rfl | hn := mem_cons.mp hn
    · exact le_refl _
    · exact h.past note hn
  · exact fun _ => rfl
  · exact iff_of_true rfl rfl
  · exact fun _ => hr
  · omega
  · intro e _ _ note hn
    cases hn

end Steps

/-- A request that finds no counters is counted, the counter of a request that is counted can grow, and a clearing that
is started is due within 60 bits. -/
def OpensWindow (l : Loop Task Memory) : Input Request → Prop
  | .request request =>
    (l.memory.launchLiteDumpPipeMap=[] → (countedUid request.connection request.requestData).isSome=true) ∧
      (∀ uid, countedUid request.connection request.requestData=some uid → liteDumpCount uid l.memory<2^31-1) ∧
      l.queue.now+oneDaySec*1000*1000 < 2^timestampBits
  | _ => True

theorem Windowed.request {l : Loop Task Memory} (h : Windowed l.memory l.queue) {req : Request}
    (hc2 : OpensWindow l (.request req)) : Windowed (l.perform (service.handle req l.queue.now l.memory)).memory
      (l.perform (service.handle req l.queue.now l.memory)).queue := by
  obtain ⟨hf1, hc1, hr⟩ := hc2
  change Windowed ((snd <$> onRequest l.queue.now req.system req.connection req.requestData
      l.memory).exec l.queue).1 ((snd <$> onRequest l.queue.now req.system req.connection
      req.requestData l.memory).exec l.queue).2
  rw [Work.exec_map, onRequest_exec]
  cases hu : countedUid req.connection req.requestData with
  | none =>
    have hm : l.memory.launchLiteDumpPipeMap≠[] := fun hn => by
      have hs := hf1 hn
      rw [hu] at hs
      cases hs
    have hf : filter l.queue.now req.system req.connection req.requestData l.memory = (false, l.memory) := by
      unfold filter
      rw [hu]
    have hq : withClearing l.memory l.queue=l.queue := by rw [withClearing, if_neg (by simpa using hm)]
    rw [hf, hq]
    exact h
  | some uid =>
    have hc := h.counted req.system hu (hc1 uid hu) hr
    split
    · exact hc.keeps keepsQuota_serve
    · exact hc

theorem Windowed.step {l : Loop Task Memory} (h : Windowed l.memory l.queue) {input : Input Request}
    (hc : OpensWindow l input) : Windowed (service.step input l).memory (service.step input l).queue := by
  obtain ⟨us, taken, -, hs⟩ | ⟨req, rfl, -, hs⟩ | ⟨hm, ht, hn, -⟩ |
    ⟨-, front, ht, hd, hm, hn, -⟩ := service.step_cases input l
  · rw [hs]
    exact h.keeps ⟨rfl, rfl, le_add_right _ _, fun _ he _ => he, le_refl _⟩
  · rw [hs]
    exact h.request hc
  · rw [hm]
    exact h.keeps ⟨rfl, rfl, hn.ge, fun _ he _ => ht ▸ he, ht ▸ le_refl _⟩
  · rw [hm]
    cases hw : front.work with
    | clearCounters => exact h.cleared ht hd hn hw
    | delPipePair pid started =>
      refine h.keeps ⟨rfl, rfl, hn.ge, fun e he _ => ht ▸ mem_cons_of_mem front he, ?_⟩
      rw [ht, countP_cons]
      exact le_add_right _ _

/-- In every run in which each request that finds no counters is counted, the counters are cleared no earlier than a day
after the first request that was counted since they were cleared before. -/
theorem liteDumper_dailyWindows (now : ℕ) (grants : ℕ → Bool) (delaySequence : ℕ) (inputs : List (Input Request))
    (h : Every service.step OpensWindow inputs (.fresh now grants delaySequence .initial)) :
    DailyWindows (run service.step inputs (.fresh now grants delaySequence .initial)).memory.notes := by
  have hi : Windowed Memory.initial (Loop.fresh now grants delaySequence Memory.initial).queue := by
    refine ⟨?_, nofun, fun _ => rfl, iff_of_true rfl rfl, fun _ => rfl, zero_le _, nofun⟩
    intro later uid start passed earlier hn
    exact absurd hn.symm (append_ne_nil_of_right_ne_nil later (cons_ne_nil _ _))
  exact (run_invariant_of_every (fun l => Windowed l.memory l.queue) (fun _ _ h hc => h.step hc) hi
    h).windows

def userRequest (uid : ℤ) : Input Request :=
  .request ⟨⟨none, "", 0, 0⟩, ⟨"", 9, some ⟨7, uid⟩⟩, ⟨7, uid, pipeFdRead, ""⟩⟩

theorem liteDumper_dailyWindows_two_users :
    Every service.step OpensWindow [userRequest 100, .wait 86399000000 0, userRequest 200,
      .wait 1000000 0, .timer, .turn]
        (.fresh 1 (fun _ => true) 0 .initial) ∧ DailyWindows (run service.step
        [userRequest 100, .wait 86399000000 0, userRequest 200, .wait 1000000 0, .timer, .turn]
        (.fresh 1 (fun _ => true) 0 .initial)).memory.notes := by
  refine (and_iff_left_of_imp (liteDumper_dailyWindows _ _ _ _)).mpr ?_
  refine ⟨⟨fun _ => rfl, ?_, by decide⟩, trivial, ⟨fun _ => rfl, ?_, by decide⟩, trivial, trivial, trivial, trivial⟩
  · decide
  · decide

/-- A request that is turned away before it is counted starts a clearing as well, and that one hits the next window. -/
example : ¬DailyWindows (run service.step
    [.request ⟨⟨none, "", 0, 0⟩, ⟨"", 9, none⟩, ⟨7, 200, pipeFdRead, ""⟩⟩, .wait 86399000000 0, userRequest 200,
      .wait 1000000 0, .timer, .turn] (.fresh 1 (fun _ => true) 0 .initial)).memory.notes := by
  intro h
  obtain ⟨hreset, -⟩ := h [.cleared 86400000001] 200 86399000001 true [] (by decide +kernel) rfl
  exact absurd (hreset 86400000001 List.mem_cons_self) (by decide)

/-- The second user is counted for the first time a second before the counters are cleared, and then has requests left
again. -/
theorem liteDumper_reset_early : ¬UserWindows (run service.step
        [userRequest 100, .wait 86399000000 0, userRequest 200, .wait 1000000 0, .timer, .turn]
        (.fresh 1 (fun _ => true) 0 .initial)).memory.notes ∧
      ¬UserWindows (run service.step ([userRequest 100, .wait 86399000000 0] ++
          List.replicate 180 (userRequest 200)++[.wait 1000000 0, .timer, .turn, .turn, userRequest 200])
        (.fresh 1 (fun _ => true) 0 .initial)).memory.notes := by
  refine ⟨fun h => ?_, fun h => ?_⟩
  · obtain ⟨hr, -⟩ := h [.cleared 86400000001] 200 86399000001 true [.counted 100 1 true] (by decide +kernel) rfl
    exact absurd (hr 86400000001 mem_cons_self) (by decide)
  · obtain ⟨-, hp⟩ := h ([.counted 200 86400000001 true, .cleared 86400000001] ++
      replicate 179 (.counted 200 86399000001 true)) 200 86399000001 true [.counted 100 1 true]
      (by decide +kernel) rfl
    exact absurd hp (by decide +kernel)

end Faultloggerd.PipeService.LiteDumper
