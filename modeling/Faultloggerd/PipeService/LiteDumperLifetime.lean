import Faultloggerd.PipeService.LiteDumper

/-! # How long the pipe of a lite dump stays

Every successful request starts a task that removes the pipe of the process ten seconds later, and no task is taken
back. A task of an earlier request therefore removes a pipe that was used since.
-/
namespace Faultloggerd.PipeService.LiteDumper
open Foundations Foundations.EventRuns EventLoop LimitedPipePair List KeyedList
open Coredump (Ucred Connection)

def withClearing (m : Memory) (q : Queue Task) : Queue Task :=
  if m.launchLiteDumpPipeMap.isEmpty then (q.addDelayTask .clearCounters (BitVec.ofNat 32 oneDaySec)).2 else q

section Requests

variable {now : ℕ} {system : System} {conn : Connection} {req : LiteDumpFdRequestData} {m : Memory}
  {q : Queue Task} {pair : LimitedPipePair}

theorem onRequest_exec (now : ℕ) (system : System) (conn : Connection) (req : LiteDumpFdRequestData)
    (m : Memory) (q : Queue Task) : (onRequest now system conn req m).exec q = if (filter now system conn req m).1 then
        (serve now system req (filter now system conn req m).2).exec (withClearing m q)
      else ((.requestReject, (filter now system conn req m).2), withClearing m q) := by
  unfold onRequest withClearing
  cases m.launchLiteDumpPipeMap.isEmpty <;> cases hp : (filter now system conn req m).1 <;> simp [hp, Work.exec]

theorem countRequest_pipes (uid : ℤ) (m : Memory) : (countRequest uid m).pipes=m.pipes := by
  unfold countRequest
  split <;> rfl

theorem filter_pipes (now : ℕ) (system : System) (conn : Connection) (req : LiteDumpFdRequestData)
    (m : Memory) : (filter now system conn req m).2.pipes=m.pipes := by
  unfold filter
  cases countedUid conn req with
  | none => rfl
  | some uid => exact countRequest_pipes uid m

theorem serials_changePair {pid : ℤ} {change : LimitedPipePair → LimitedPipePair}
    (hc : ∀ pair, (change pair).serial=pair.serial) : (changePair pid m change).pipes.map serial=m.pipes.map serial :=
  map_modify hc

theorem sendFd_removes {pid fd : ℤ} (hp : pair∈m.pipes)
    (hg : pair.serial∉((sendFd now system pid fd m).exec q).1.2.pipes.map serial) :
    pair.pid=pid ∧ ((sendFd now system pid fd m).exec q).1.1=.abnormalService := by
  unfold sendFd at hg ⊢
  by_cases hfd : fd<0
  · rw [if_pos hfd] at hg ⊢
    refine ⟨?_, rfl⟩
    by_contra hp1
    exact hg (mem_map_of_mem (mem_remove.mpr ⟨hp, hp1⟩))
  · rw [if_neg hfd] at hg
    have hs : (changePair pid m fun pair => {pair with lastUse := now}).pipes.map serial =
        m.pipes.map serial := serials_changePair fun _ => rfl
    refine absurd ?_ hg
    change pair.serial∈(changePair pid m _).pipes.map serial
    rw [hs]
    exact mem_map_of_mem hp

theorem serve_removes (hp : pair∈m.pipes) (hg : pair.serial∉((serve now system req m).exec q).1.2.pipes.map serial) :
    pair.pid=req.pid ∧ (req.pipeType=pipeFdDelete ∨ ((serve now system req m).exec q).1.1=.abnormalService) := by
  have hs : pair.serial∈m.pipes.map serial := mem_map_of_mem hp
  unfold serve at hg ⊢
  by_cases hd : req.pipeType=pipeFdDelete
  · rw [if_pos hd] at hg
    refine ⟨?_, .inl hd⟩
    by_contra hp1
    exact hg (mem_map_of_mem (mem_remove.mpr ⟨hp, hp1⟩))
  rw [if_neg hd] at hg ⊢
  by_cases hw : req.pipeType=pipeFdWrite
  · rw [if_pos hw] at hg ⊢
    by_cases hr : checkDumpRecord req.pid m
    · rw [if_pos hr] at hg
      exact absurd hs hg
    · rw [if_neg hr] at hg ⊢
      have hn : getPipePair req.pid m=none := by simpa [checkDumpRecord] using hr
      rw [createPipePair, hn] at hg ⊢
      have hne : pair.pid≠req.pid := find_eq_none_iff.mp hn pair hp
      obtain ⟨hp1, -⟩ := sendFd_removes (mem_modify_of_ne (mem_append_left _ hp) hne) hg
      exact absurd hp1 hne
  · rw [if_neg hw] at hg ⊢
    cases hf : getPipePair req.pid m with
    | none =>
      rw [hf] at hg
      exact absurd hs hg
    | some found =>
      rw [hf] at hg
      obtain ⟨hp1, hc⟩ := sendFd_removes hp hg
      exact ⟨hp1, .inr hc⟩

theorem onRequest_removes (hp1 : pair∈m.pipes) (hg : pair.serial ∉
      ((onRequest now system conn req m).exec q).1.2.pipes.map serial) :
    pair.pid=req.pid ∧ (req.pipeType=pipeFdDelete ∨
      ((onRequest now system conn req m).exec q).1.1=.abnormalService) := by
  rw [onRequest_exec] at hg ⊢
  rw [←filter_pipes now system conn req m] at hp1
  by_cases hp : (filter now system conn req m).1
  · rw [if_pos hp] at hg ⊢
    exact serve_removes hp1 hg
  · rw [if_neg hp] at hg
    exact absurd (mem_map_of_mem hp1) hg

end Requests

/-- Every pending removal is due ten seconds after the request that started it, or later. -/
def RemovalsInTenSeconds (q : Queue Task) : Prop :=
  ∀ e ∈ q.delayTasks, ∀ pid started, e.work = .delPipePair pid started → started+10*1000*1000 ≤ e.executeTime

/-- The removal that a request starts is due within 60 bits. -/
def InRange (l : Loop Task Memory) : Input Request → Prop
  | .request request => l.queue.now+request.system.elapsed+10*1000*1000 < 2^timestampBits
  | _ => True

section Removals

variable {q : Queue Task} {system : System} {m : Memory}

theorem RemovalsInTenSeconds.withClearing (h : RemovalsInTenSeconds q) (m : Memory) :
    RemovalsInTenSeconds (withClearing m q) := by
  unfold LiteDumper.withClearing
  split
  · intro e he pid started hw
    obtain he | rfl := Queue.mem_addDelayTask he
    · exact h e he pid started hw
    · cases hw
  · exact h

theorem withClearing_now (m : Memory) (q : Queue Task) : (withClearing m q).now=q.now := by
  unfold withClearing
  split
  · exact (Queue.addDelayTask_now_history ..).1
  · rfl

theorem RemovalsInTenSeconds.sendFd (h : RemovalsInTenSeconds q) {pid fd : ℤ}
    (hr : q.now+system.elapsed+10*1000*1000<2^timestampBits) :
    RemovalsInTenSeconds ((sendFd q.now system pid fd m).exec q).2 := by
  unfold LiteDumper.sendFd
  split
  · exact h
  · intro e he pid started hw
    obtain he | rfl := Queue.mem_addDelayTask he
    · exact h e he pid started hw
    · have hb : 2^timestampBits<2^64 := by decide
      cases hw
      rw [Queue.newEntry_executeTime]
      change q.now+10*1000*1000 ≤ (q.now+system.elapsed+10*1000*1000) % 2^64 % 2^timestampBits
      rw [Nat.mod_eq_of_lt (hr.trans hb), Nat.mod_eq_of_lt hr]
      omega

theorem RemovalsInTenSeconds.serve (h : RemovalsInTenSeconds q) {req : LiteDumpFdRequestData}
    (hr : q.now+system.elapsed+10*1000*1000<2^timestampBits) :
    RemovalsInTenSeconds ((serve q.now system req m).exec q).2 := by
  unfold LiteDumper.serve
  dsimp only
  split
  · exact h
  · split
    · split
      · exact h
      · exact h.sendFd hr
    · split
      · exact h
      · exact h.sendFd hr

theorem RemovalsInTenSeconds.step {l : Loop Task Memory} (h : RemovalsInTenSeconds l.queue) {input : Input Request}
    (hr : InRange l input) : RemovalsInTenSeconds (service.step input l).queue := by
  obtain ⟨us, taken, -, hs⟩ | ⟨req, rfl, -, hs⟩ | ⟨-, ht, -, -⟩ | ⟨-, front, ht, -⟩ := service.step_cases input l
  · rw [hs]
    exact h
  · rw [hs]
    change RemovalsInTenSeconds ((Prod.snd <$> onRequest l.queue.now req.system req.connection
      req.requestData l.memory).exec l.queue).2
    rw [Work.exec_map, onRequest_exec, ←withClearing_now l.memory l.queue]
    have hc := h.withClearing l.memory
    split
    · apply hc.serve
      rw [withClearing_now]
      exact hr
    · exact hc
  · intro e he
    exact h e (ht ▸ he)
  · intro e he
    exact h e (ht ▸ mem_cons_of_mem front he)

end Removals

/-- A pipe goes by a request to delete it, by a failure to get its descriptor, or ten seconds after its last use. -/
def RemovedInTime (l : Loop Task Memory) (input : Input Request) : Prop :=
  ∀ pair ∈ l.memory.pipes, pair.serial ∉ (service.step input l).memory.pipes.map LimitedPipePair.serial →
    (∃ request, input = .request request ∧ request.requestData.pid=pair.pid ∧
      (request.requestData.pipeType=pipeFdDelete ∨
        ((onRequest l.queue.now request.system request.connection request.requestData l.memory).exec
          l.queue).1.1 = .abnormalService)) ∨
      input = .turn ∧ pair.lastUse+10*1000*1000 ≤ l.queue.now

/-- A removal that is up finds no pipe of its process that a request used after the one that started the removal. -/
def StartedByLastUse (l : Loop Task Memory) : Input Request → Prop
  | .turn => ∀ front ∈ l.queue.delayTasks.head?, ∀ pair ∈ l.memory.pipes, ∀ started,
      front.work = .delPipePair pair.pid started → pair.lastUse ≤ started
  | _ => True

theorem removedInTime_of_startedByLastUse {l : Loop Task Memory} {input : Input Request}
    (hr : RemovalsInTenSeconds l.queue) (h : StartedByLastUse l input) : RemovedInTime l input := by
  intro pair hp hg
  obtain ⟨us, taken, -, hs⟩ | ⟨req, rfl, -, hs⟩ | ⟨hm, -⟩ |
    ⟨rfl, front, ht, hd, hm, -, -⟩ := service.step_cases input l
  · rw [hs] at hg
    exact absurd (mem_map_of_mem hp) hg
  · refine .inl ⟨req, rfl, ?_⟩
    rw [hs] at hg
    change pair.serial ∉ ((Prod.snd <$> onRequest l.queue.now req.system req.connection req.requestData
      l.memory).exec l.queue).1.pipes.map serial at hg
    rw [Work.exec_map] at hg
    obtain ⟨hp1, hw1⟩ := onRequest_removes hp hg
    exact ⟨hp1.symm, hw1⟩
  · rw [hm] at hg
    exact absurd (mem_map_of_mem hp) hg
  · refine .inr ⟨rfl, ?_⟩
    rw [hm] at hg
    cases hw : front.work with
    | clearCounters =>
      rw [hw] at hg
      exact absurd (mem_map_of_mem hp) hg
    | delPipePair pid started =>
      rw [hw] at hg
      have hp1 : pair.pid=pid := by
        by_contra hne
        exact hg (mem_map_of_mem (mem_remove.mpr ⟨hp, hne⟩))
      have hs1 := h front (by rw [ht]; rfl) pair hp started (by rw [hw, hp1])
      have hl := hr front (ht ▸ mem_cons_self) pid started hw
      omega

def ownRequest (pipeType : ℤ) : Input Request :=
  .request ⟨⟨some (3, 4), "app", 0, 0⟩, ⟨"", 9, some ⟨7, 100⟩⟩, ⟨7, 100, pipeType, "app"⟩⟩

def ownPair (serial lastUse : ℕ) : LimitedPipePair :=
  ⟨7, ((FaultLoggerPipe.create (some (3, 4))).getPipeFd pipeFdWrite).2, serial, lastUse⟩

end Faultloggerd.PipeService.LiteDumper
