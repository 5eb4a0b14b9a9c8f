import Faultloggerd.PipeService.LitePerfLimits

/-! # Every LitePerf session ends

A pair goes when a delay task finds that it has expired, so each live pair needs a task that is due late enough. There
is none for a timeout of zero, and the limit on the number of pairs lets one more in than it says.
-/
namespace Faultloggerd.PipeService.LitePerf
open Foundations Foundations.EventRuns EventLoop List Nat BitVec
open Coredump (Ucred Connection)

/-- The pairs are within the limit, one for a user, and each has a pending task that is not due before it has expired.
-/
structure SessionLaw (l : Loop Task Memory) : Prop where
  bounded : l.memory.pipes.length ≤ maxLitePerfPipeSize
  one_per_uid : (l.memory.pipes.map LitePerfPipePair.uid).Nodup
  cleared : ∀ pair ∈ l.memory.pipes, ∃ e ∈ l.queue.delayTasks,
    e.work = .clearTimeOutPairs ∧ pair.timeOutTime ≤ e.executeTime

/-- A request that makes a pair finds fewer pairs than the limit and has a timeout, and its task is taken and is due
within 60 bits. -/
def Scheduled (l : Loop Task Memory) : Input Request → Prop
  | .request (.pipe system connection requestData) =>
    filter connection requestData = true → requestData.pipeType = pipeFdRead → WithinLimits requestData l.memory →
      0 ≤ requestData.timeout →
        l.memory.pipes.length < maxLitePerfPipeSize ∧ requestData.timeout ≠ 0 ∧
          (l.queue.executor≠none ∨ l.queue.grants 0=true) ∧ l.queue.now+system.elapsed ≠ 0 ∧
          l.queue.now+system.elapsed+(delayTime requestData).toNat*1000*1000 < 2^timestampBits
  | _ => True

section Steps

variable {l : Loop Task Memory}

theorem SessionLaw.sublist (h : SessionLaw l) {m : Memory} {q : Queue Task} (hs : m.pipes.Sublist l.memory.pipes)
    (ht1 : ∀ pair∈m.pipes, ∀ e∈l.queue.delayTasks, pair.timeOutTime≤e.executeTime → e∈q.delayTasks)
    (draining : Bool) : SessionLaw ⟨q, m, draining⟩ where
  bounded := hs.length_le.trans h.bounded
  one_per_uid := (hs.map _).nodup h.one_per_uid
  cleared pair hp := by
    obtain ⟨e, he, hw, ht⟩ := h.cleared pair (hs.subset hp)
    exact ⟨e, ht1 pair hp e he ht, hw, ht⟩

theorem SessionLaw.congr (h : SessionLaw l) {m : Memory} {q : Queue Task}
    (hp : m.pipes.map (fun pair => (pair.uid, pair.timeOutTime)) =
      l.memory.pipes.map fun pair => (pair.uid, pair.timeOutTime))
    (ht : ∀ e∈l.queue.delayTasks, e∈q.delayTasks) (draining : Bool) : SessionLaw ⟨q, m, draining⟩ where
  bounded := by
    have hl := congrArg length hp
    rw [length_map, length_map] at hl
    exact hl.le.trans h.bounded
  one_per_uid := by
    have hu := congrArg (map Prod.fst) hp
    rw [map_map, map_map] at hu
    exact hu.symm ▸ h.one_per_uid
  cleared pair hpair := by
    have hm : (pair.uid, pair.timeOutTime)∈l.memory.pipes.map fun pair => (pair.uid, pair.timeOutTime) :=
      hp ▸ mem_map_of_mem hpair
    obtain ⟨old, ho, heq⟩ := mem_map.mp hm
    obtain ⟨e, he, hw, ht1⟩ := h.cleared old ho
    exact ⟨e, ht e he, hw, (Prod.mk.inj heq).2 ▸ ht1⟩

theorem SessionLaw.quiet (h : SessionLaw l) {l' : Loop Task Memory} (hq : ClockedService.Quiet l l') :
    SessionLaw l' := by
  obtain ⟨hm, ht, -, -⟩ := hq
  exact ⟨hm ▸ h.bounded, hm ▸ h.one_per_uid, by rw [hm, ht]; exact h.cleared⟩

theorem SessionLaw.ranFront (h : SessionLaw l) {l' : Loop Task Memory} {front : Entry Task}
    (hr : service.RanFront l l' front) : SessionLaw l' := by
  obtain ⟨ht, hd, hm, -, -⟩ := hr
  have hp : l'.memory.pipes=l.memory.pipes.filter fun pair => decide (l.queue.now<pair.timeOutTime) := by
    rw [hm]
    rfl
  refine h.sublist (m := l'.memory) (q := l'.queue) (hp ▸ filter_sublist) ?_ l'.draining
  intro pair hp1 e he ht1
  rw [hp] at hp1
  have ha : l.queue.now<pair.timeOutTime := by simpa using (mem_filter.mp hp1).2
  rw [ht] at he
  obtain rfl | he := mem_cons.mp he
  · omega
  · exact he

variable {req : LitePerfFdRequestData}

theorem delay_toNat (hp : 0≤req.timeout) :
    (BitVec.ofInt 32 (delayTime req)).toNat=(delayTime req).toNat := by
  have hm : maxPerfTimeout=15 := rfl
  have hl : 0≤delayTime req := by
    rw [delayTime]
    omega
  have hh : delayTime req≤15 := by
    rw [delayTime]
    omega
  grind

theorem SessionLaw.create (h : SessionLaw l) {system : System} (hw : WithinLimits req l.memory)
    (hp1 : 0≤req.timeout) (hr1 : l.memory.pipes.length< maxLitePerfPipeSize)
    (ht3 : req.timeout≠0) (he1 : l.queue.executor≠none ∨ l.queue.grants 0=true)
    (hc : l.queue.now+system.elapsed≠0)
    (hr : l.queue.now+system.elapsed+(delayTime req).toNat*1000*1000<2^timestampBits) :
    SessionLaw ⟨((l.queue.wait system.elapsed system.taken).addDelayTask .clearTimeOutPairs
        (BitVec.ofInt 32 (delayTime req))).2,
      { pipes := l.memory.pipes++
          [⟨req.uid, timeOutTime l.queue.now req, .create system.pipe2, l.memory.created⟩]
        limiter := counted req l.memory.limiter
        created := l.memory.created+1}, l.draining⟩ := by
  have hd := delay_toNat hp1
  have hn : BitVec.ofInt 32 (delayTime req)≠0#32 := by
    intro hz
    rw [hz] at hd
    have hm : maxPerfTimeout=15 := rfl
    rw [delayTime, toNat_ofNat] at hd
    omega
  have ht : ¬(l.queue.wait system.elapsed system.taken).Refuses (BitVec.ofInt 32 (delayTime req)) := by
    rintro (hz | ⟨hn1, hg1⟩ | hn3)
    · exact hn hz
    · obtain hs | hg := he1
      · exact hs hn1
      · rw [show l.queue.grants 0=false from hg1] at hg
        cases hg
    · exact hc hn3
  have hb : 2^timestampBits<2^64 := by decide
  obtain ⟨ht1, -⟩ := Queue.addDelayTask_of_takes Task.clearTimeOutPairs ht
  refine ⟨?_, ?_, ?_⟩
  · rw [length_append]
    exact hr1
  · have hu : KeyedList.Unique LitePerfPipePair.uid l.memory.pipes := h.one_per_uid
    exact hu.append_new hw.single
  · intro pair hp
    rw [ht1]
    obtain hp | hn2 := mem_append.mp hp
    · obtain ⟨e, he, hw1, ht2⟩ := h.cleared pair hp
      exact ⟨e, (mem_orderedInsert _).mpr (.inr he), hw1, ht2⟩
    · refine ⟨_, (mem_orderedInsert _).mpr (.inl rfl), rfl, ?_⟩
      rw [mem_singleton.mp hn2, Queue.newEntry_executeTime, hd]
      change timeOutTime l.queue.now req ≤
        (l.queue.now+system.elapsed+(delayTime req).toNat*1000*1000) % 2^64 % 2^timestampBits
      rw [mod_eq_of_lt (hr.trans hb), mod_eq_of_lt hr, timeOutTime]
      omega

theorem SessionLaw.perform (h : SessionLaw l) {system : System} {conn : Connection}
    (hc1 : Scheduled l (.request (.pipe system conn req))) :
    SessionLaw (l.perform (handle (.pipe system conn req) l.queue.now l.memory)) := by
  rw [Loop.perform, handle, Work.exec_map]
  unfold onRequest
  by_cases hp : filter conn req
  · rw [if_neg (by simp [hp])]
    by_cases hd : req.pipeType=pipeFdDelete
    · rw [if_pos hd]
      exact h.sublist filter_sublist (fun _ _ _ he _ => he) l.draining
    · rw [if_neg hd]
      by_cases hr : req.pipeType=pipeFdRead
      · rw [if_pos hr]
        obtain ⟨-, hs, hq, -⟩ | ⟨-, -, he1⟩ | ⟨hw, hp1, he1⟩ :=
          giveReadEnds_exec l.queue.now system req l.memory l.queue
        · rw [hs, hq]
          exact h
        · rw [he1]
          exact ⟨h.bounded, h.one_per_uid, h.cleared⟩
        · obtain ⟨hr2, ht, he2, hc, hr1⟩ := hc1 hp hr hw hp1
          rw [he1]
          exact h.create hw hp1 hr2 ht he2 hc hr1
      · rw [if_neg hr]
        refine h.congr ?_ (fun _ he => he) l.draining
        unfold giveWriteEnds
        cases getPipePair req.uid l.memory with
        | none => rfl
        | some pair => exact KeyedList.map_modify fun _ => rfl
  · rw [if_pos (by simp [hp])]
    exact h

theorem SessionLaw.step (h : SessionLaw l) {input : Input Request} (hc : Scheduled l input) :
    SessionLaw (service.step input l) := by
  obtain ⟨us, taken, -, hs⟩ | ⟨request, rfl, -, hs⟩ | hq | ⟨-, front, hr⟩ := service.step_cases input l
  · rw [hs]
    exact ⟨h.bounded, h.one_per_uid, h.cleared⟩
  · rw [hs]
    cases request with
    | pipe system conn req => exact h.perform hc
    | resetLimits => exact ⟨h.bounded, h.one_per_uid, h.cleared⟩
  · exact h.quiet hq
  · exact h.ranFront hr

end Steps

/-- In every run whose requests get their tasks, there are no more pairs than the limit, one for a user, and each of
them has a task that will find it expired. -/
theorem litePerf_sessions (now : ℕ) (grants : ℕ → Bool) (delaySequence : ℕ) (inputs : List (Input Request))
    (h : Every service.step Scheduled inputs (.fresh now grants delaySequence .initial)) :
    SessionLaw (run service.step inputs (.fresh now grants delaySequence .initial)) :=
  run_invariant_of_every SessionLaw (fun _ _ h hc => h.step hc) ⟨zero_le _, nodup_nil, nofun⟩ h

def readRequest (uid timeout : ℤ) : Input Request :=
  .request (.pipe ⟨fun _ => some (3, 4), 0, 0⟩ ⟨"", 9, some ⟨7, uid⟩⟩ ⟨7, uid, pipeFdRead, timeout, false⟩)

/-- Two users with a pair each, of which the first has gone and the second is still there. -/
def fiveAndTen : List (Input Request) :=
  [readRequest 100 5, readRequest 101 10, .wait 5000000 0, .timer, .turn, .wait 2000000 0]

theorem litePerf_sessions_two_users : SessionLaw (run service.step fiveAndTen (.fresh 1 (fun _ => true) 0 .initial)) ∧
    (run service.step fiveAndTen (.fresh 1 (fun _ => true) 0 .initial)).memory.pipes.map
      LitePerfPipePair.uid = [101] := by
  refine ⟨litePerf_sessions 1 (fun _ => true) 0 fiveAndTen ⟨?_, ?_, trivial, trivial, trivial, trivial, trivial⟩,
    by decide +kernel⟩
  · exact fun _ _ _ _ => ⟨by decide, by decide, .inr rfl, by decide, by decide⟩
  · exact fun _ _ _ _ => ⟨by decide, by decide, .inr rfl, by decide, by decide⟩

/-- With a timeout of zero the pair has no task, and 101 users have a pair each. -/
theorem litePerf_pair_stays : ¬SessionLaw (run service.step [readRequest 100 0] (.fresh 1 (fun _ => true) 0 .initial)) ∧
      ¬SessionLaw (run service.step ((List.range 101).map fun i => readRequest i 10)
        (.fresh 1 (fun _ => true) 0 .initial)) := by
  refine ⟨fun h => ?_, fun h => ?_⟩
  · obtain ⟨e, he, -⟩ := h.cleared ⟨100, 1, .create fun _ => some (3, 4), 0⟩ (by decide)
    cases he
  · exact absurd h.bounded (by decide +kernel)

end Faultloggerd.PipeService.LitePerf
