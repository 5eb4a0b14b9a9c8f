import Faultloggerd.PipeService.LitePerf

/-! # Failed LitePerf requests

What a request that fails leaves behind. The counters go up before the timeout is looked at, and the pair is made before
its descriptors are.
-/
namespace Faultloggerd.PipeService.LitePerf
open Foundations EventLoop PerfResourceLimiter FaultLoggerPipe
open Coredump (Ucred Connection)

/-- There is room for another pair of the user, and the user and the device are below their limits where these count. -/
structure WithinLimits (requestData : LitePerfFdRequestData) (m : Memory) : Prop where
  room : m.pipes.length ≤ maxLitePerfPipeSize
  single : getPipePair requestData.uid m = none
  device : requestData.checkLimit = true → m.limiter.devicePerfCount < deviceLimit
  user : requestData.checkLimit = true → m.limiter.perfCounts requestData.uid < uidPerfLimit

def counted (requestData : LitePerfFdRequestData) (limiter : PerfResourceLimiter) : PerfResourceLimiter :=
  if requestData.checkLimit then
    { perfCounts := Function.update limiter.perfCounts requestData.uid (limiter.perfCounts requestData.uid+1)
      devicePerfCount := limiter.devicePerfCount+1}
  else limiter

section Limits

variable {req : LitePerfFdRequestData} {m : Memory}

theorem checkPerfLimit_spec (req : LitePerfFdRequestData) (m : Memory) :
    (WithinLimits req m ∧ checkPerfLimit req.uid req.checkLimit m =
        (.requestSuccess, {m with limiter := counted req m.limiter})) ∨
      ¬WithinLimits req m ∧ (checkPerfLimit req.uid req.checkLimit m).1≠.requestSuccess ∧
        (checkPerfLimit req.uid req.checkLimit m).2=m := by
  unfold checkPerfLimit checkDumpMax checkDumpRecord
  by_cases hr : maxLitePerfPipeSize< m.pipes.length
  · refine .inr ⟨fun h => absurd h.room (by omega), ?_⟩
    rw [if_pos (by simpa using hr)]
    exact ⟨nofun, rfl⟩
  rw [if_neg (by simpa using hr)]
  cases hs : getPipePair req.uid m with
  | some pair =>
    refine .inr ⟨fun h => absurd h.single (by rw [hs]; nofun), ?_⟩
    exact ⟨nofun, rfl⟩
  | none =>
    cases hc : req.checkLimit with
    | false =>
      refine .inl ⟨⟨by omega, hs, by simp [hc], by simp [hc]⟩, ?_⟩
      rw [counted, hc]
      rfl
    | true =>
      unfold PerfResourceLimiter.checkPerfLimit
      by_cases hd : m.limiter.devicePerfCount ≥ deviceLimit
      · refine .inr ⟨fun h => absurd (h.device hc) (by omega), ?_⟩
        simp [hd]
      by_cases hu : m.limiter.perfCounts req.uid ≥ uidPerfLimit
      · refine .inr ⟨fun h => absurd (h.user hc) (by omega), ?_⟩
        simp [hu]
      · refine .inl ⟨⟨by omega, hs, fun _ => by omega, fun _ => by omega⟩, ?_⟩
        rw [counted, hc]
        simp [hd, hu]

end Limits

/-- The counters are the same, and the pairs up to their pipes. -/
def SameUse (m m' : Memory) : Prop :=
  m'.limiter = m.limiter ∧
    m'.pipes.map (fun pair => (pair.uid, pair.timeOutTime, pair.serial)) =
      m.pipes.map fun pair => (pair.uid, pair.timeOutTime, pair.serial)

/-- A request for read ends within the limits, that counts and has a negative timeout, or whose pipes cannot be made. -/
structure Leaks (system : System) (connection : Connection) (requestData : LitePerfFdRequestData)
    (m : Memory) : Prop where
  passes : filter connection requestData = true
  read : requestData.pipeType = pipeFdRead
  within : WithinLimits requestData m
  fails : requestData.timeout < 0 ∧ requestData.checkLimit = true ∨
    0 ≤ requestData.timeout ∧ (system.pipe2 .bufferFd=none ∨ system.pipe2 .resultFd=none)

section Requests

variable {system : System} {conn : Connection} {req : LitePerfFdRequestData} {m : Memory}
  {q : Queue Task} {currentTime : ℕ}

theorem sendFds_read (pipe2 : PipeFdUsage → Option (ℕ×ℕ)) :
    sendFds ((PipePair.create pipe2).getFds pipeFdRead).1=.requestSuccess ↔
      ¬(pipe2 .bufferFd=none ∨ pipe2 .resultFd=none) := by
  rw [PipePair.getFds_read, sendFds, PipePair.create]
  cases pipe2 .bufferFd with
  | none => simp [create]
  | some buf =>
    cases pipe2 .resultFd with
    | none => simp [create]
    | some res =>
      have hf : ¬((buf.1 : ℤ)<0 ∨ (res.1 : ℤ)<0) := by omega
      simp [create, hf]

theorem giveReadEnds_exec (currentTime : ℕ) (system : System) (req : LitePerfFdRequestData) (m : Memory)
    (q : Queue Task) : (¬WithinLimits req m ∧ ((giveReadEnds currentTime system req m).exec q).1.2=m ∧
        ((giveReadEnds currentTime system req m).exec q).2=q ∧
        ((giveReadEnds currentTime system req m).exec q).1.1≠.requestSuccess) ∨
      (WithinLimits req m ∧ req.timeout<0 ∧ (giveReadEnds currentTime system req m).exec q =
          ((.abnormalService, {m with limiter := counted req m.limiter}), q)) ∨
      (WithinLimits req m ∧ 0≤ req.timeout ∧ (giveReadEnds currentTime system req m).exec q =
          ((sendFds ((PipePair.create system.pipe2).getFds pipeFdRead).1,
            { pipes := m.pipes++[⟨req.uid, timeOutTime currentTime req, .create system.pipe2, m.created⟩]
              limiter := counted req m.limiter
              created := m.created+1}), ((q.wait system.elapsed system.taken).addDelayTask .clearTimeOutPairs
            (BitVec.ofInt 32 (delayTime req))).2)) := by
  unfold giveReadEnds
  obtain ⟨hw, hc⟩ | ⟨hn1, hf, hs⟩ := checkPerfLimit_spec req m
  · refine .inr ?_
    rw [hc]
    rw [if_neg (by simp)]
    by_cases ht : req.timeout<0
    · refine .inl ⟨hw, ht, ?_⟩
      rw [if_pos ht]
      rfl
    · refine .inr ⟨hw, by omega, ?_⟩
      have hn : getPipePair req.uid {m with limiter := counted req m.limiter} = none := hw.single
      rw [if_neg ht, createPipePair, hn]
      rfl
  · refine .inl ⟨hn1, ?_⟩
    rw [if_pos hf]
    exact ⟨hs, rfl, hf⟩

theorem counted_ne (h : req.checkLimit=true) (limiter : PerfResourceLimiter) : counted req limiter≠limiter := by
  rw [counted]
  intro heq
  grind

theorem sameUse_giveReadEnds_iff (hp : filter conn req=true) (hr : req.pipeType=pipeFdRead) :
    (((giveReadEnds currentTime system req m).exec q).1.1≠.requestSuccess →
        SameUse m ((giveReadEnds currentTime system req m).exec q).1.2) ↔ ¬Leaks system conn req m := by
  obtain ⟨hn1, hs, -, -⟩ | ⟨hw, ht, he⟩ | ⟨hw, ht, he⟩ := giveReadEnds_exec currentTime system req m q
  · rw [hs]
    exact ⟨fun _ hl => hn1 hl.within, fun _ _ => ⟨rfl, rfl⟩⟩
  · rw [he]
    constructor
    · rintro hs ⟨-, -, -, ⟨-, hc⟩ | ⟨hp3, -⟩⟩
      · exact counted_ne hc m.limiter (hs nofun).1
      · omega
    · intro hl _
      refine ⟨?_, rfl⟩
      rw [counted, if_neg fun hc => hl ⟨hp, hr, hw, .inl ⟨ht, hc⟩⟩]
  · rw [he]
    constructor
    · rintro hs ⟨-, -, -, ⟨hn, -⟩ | ⟨-, hp1⟩⟩
      · omega
      · have hp2 := (hs fun hs1 => (sendFds_read system.pipe2).mp hs1 hp1).2
        have hl1 := congrArg List.length hp2
        simp at hl1
    · intro hl hf
      refine absurd ((sendFds_read system.pipe2).mpr fun hp1 => ?_) hf
      exact hl ⟨hp, hr, hw, .inr ⟨ht, hp1⟩⟩

theorem sameUse_giveWriteEnds (req : LitePerfFdRequestData) (m : Memory) : SameUse m (giveWriteEnds req m).2 := by
  unfold giveWriteEnds
  cases getPipePair req.uid m with
  | none => exact ⟨rfl, rfl⟩
  | some pair => exact ⟨rfl, KeyedList.map_modify fun _ => rfl⟩

end Requests

/-- A failed request leaves the counters and the pairs exactly if it is not one that counts before it fails or makes a
pair before it fails. -/
theorem failed_sameUse_iff (currentTime : ℕ) (system : System) (connection : Connection)
    (requestData : LitePerfFdRequestData) (m : Memory) (q : Queue Task) :
    (((onRequest currentTime system connection requestData m).exec q).1.1 ≠ .requestSuccess →
        SameUse m ((onRequest currentTime system connection requestData m).exec q).1.2) ↔
      ¬Leaks system connection requestData m := by
  unfold onRequest
  by_cases hp : filter connection requestData
  · rw [if_neg (by simp [hp])]
    by_cases hd : requestData.pipeType=pipeFdDelete
    · rw [if_pos hd]
      refine ⟨fun _ hl => ?_, fun _ hf => absurd rfl hf⟩
      have hr := hl.read
      rw [hd] at hr
      cases hr
    · rw [if_neg hd]
      by_cases hr : requestData.pipeType=pipeFdRead
      · rw [if_pos hr]
        exact sameUse_giveReadEnds_iff hp hr
      · rw [if_neg hr]
        exact ⟨fun _ hl => hr hl.read, fun _ _ => sameUse_giveWriteEnds requestData m⟩
  · rw [if_pos (by simp [hp])]
    exact ⟨fun _ hl => hp hl.passes, fun _ _ => ⟨rfl, rfl⟩⟩

def negativeTimeout : LitePerfFdRequestData :=
  ⟨7, 100, pipeFdRead, -1, true⟩

/-- The request fails and has used up one of the user's and one of the device's samplings. -/
theorem failed_request_counts :
    ((onRequest 1 ⟨fun _ => some (3, 4), 0, 0⟩ ⟨"", 9, some ⟨7, 100⟩⟩ negativeTimeout .initial).exec
        (.fresh 1 (fun _ => true) 0)).1.1 = .abnormalService ∧
      ¬SameUse .initial ((onRequest 1 ⟨fun _ => some (3, 4), 0, 0⟩ ⟨"", 9, some ⟨7, 100⟩⟩ negativeTimeout
        .initial).exec (.fresh 1 (fun _ => true) 0)).1.2 := by
  refine ⟨rfl, fun h => ?_⟩
  have hc := congrArg devicePerfCount h.1
  exact absurd hc (by decide)

end Faultloggerd.PipeService.LitePerf
