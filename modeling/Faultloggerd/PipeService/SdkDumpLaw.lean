import Faultloggerd.PipeService.SdkDump

/-! # One session per process

There is one pair of pipes for a process at a time, its write ends go out once, and they are those of the latest
accepted dump request.
-/
namespace Faultloggerd.PipeService.SdkDump
open Foundations Foundations.EventRuns KeyedList List FaultLoggerPipePair Function Nat
open Coredump (Ucred Connection)

/-- One pair for a process, each write end handed out once, and only that of the latest request. -/
structure SessionLaw (s : Sessions) : Prop where
  one_per_pid : (s.sdkDumpPipes.map FaultLoggerPipePair.pid).Nodup
  once : (s.handed.map fun h => (h.serial, h.usage)).Nodup
  latest : ∀ h ∈ s.handed, h.latest = some h.serial

/-- No dump request is accepted while a valid pair is there. -/
def NotWhileValid (s : Sessions) : Request → Prop
  | .sdkDump system connection requestData =>
    (onSdkDumpRequest system connection requestData s).1 = .requestSuccess →
      ∀ pair ∈ s.sdkDumpPipes, pair.pid = requestData.pid → pair.isValid requestData.time = false
  | .pipe _ _ => True

structure Consistent (s : Sessions) : Prop where
  law : SessionLaw s
  numbered : ∀ pair ∈ s.sdkDumpPipes, pair.serial < s.created
  accepted : ∀ pair ∈ s.sdkDumpPipes, s.accepted pair.pid = some pair.serial
  serials : (s.sdkDumpPipes.map FaultLoggerPipePair.serial).Nodup
  given : ∀ h ∈ s.handed, h.serial < s.created ∧
    ∀ pair ∈ s.sdkDumpPipes, pair.serial = h.serial → (pair.pipes.pipe h.usage).write = true

theorem consistent_initial : Consistent .initial where
  law := ⟨nodup_nil, nodup_nil, nofun⟩
  numbered := nofun
  accepted := nofun
  serials := nodup_nil
  given := nofun

section Steps

variable {s : Sessions} {pid : ℤ}

section

variable (h : Consistent s)
include h

theorem Consistent.sublist {pipes : List FaultLoggerPipePair} (hs : pipes.Sublist s.sdkDumpPipes) :
    Consistent {s with sdkDumpPipes := pipes} where
  law := ⟨(hs.map _).nodup h.law.one_per_pid, h.law.once, h.law.latest⟩
  numbered pair hp := h.numbered pair (hs.subset hp)
  accepted pair hp := h.accepted pair (hs.subset hp)
  serials := (hs.map _).nodup h.serials
  given g hg := ⟨(h.given g hg).1, fun pair hp => (h.given g hg).2 pair (hs.subset hp)⟩

theorem Consistent.del (pid : ℤ) : Consistent (delSdkDumpPipePair pid s) := h.sublist filter_sublist

theorem checkSdkDumpRecord_spec (pid : ℤ) (checkTime : BitVec 64) :
    Consistent (checkSdkDumpRecord pid s checkTime).2 ∧ ((checkSdkDumpRecord pid s checkTime).1=false →
      getSdkDumpPipePair pid (checkSdkDumpRecord pid s checkTime).2=none ∧
      ∀ pair∈s.sdkDumpPipes, pair.pid=pid → pair.isValid checkTime=false) := by
  unfold checkSdkDumpRecord
  cases hf : getSdkDumpPipePair pid s with
  | none =>
    refine ⟨h, fun _ => ⟨hf, fun pair hp hp1 => ?_⟩⟩
    exact absurd hp1 (find_eq_none_iff.mp hf pair hp)
  | some found =>
    dsimp only
    have hu : KeyedList.Unique FaultLoggerPipePair.pid s.sdkDumpPipes := h.law.one_per_pid
    by_cases hv : found.isValid checkTime
    · rw [if_pos hv]
      refine ⟨h, fun hf1 => ?_⟩
      cases hf1
    · rw [if_neg hv]
      refine ⟨h.sublist eraseP_sublist, fun _ => ⟨?_, fun pair hp hp1 => ?_⟩⟩
      · exact hu.find_eraseP pid
      · obtain rfl := hu.eq_of_key hp (mem_of_find hf)
          (hp1.trans (key_of_find hf).symm)
        simpa using hv

theorem Consistent.accept {pair : FaultLoggerPipePair} (hn1 : getSdkDumpPipePair pair.pid s=none)
    (hs : pair.serial=s.created) : Consistent {s with
      sdkDumpPipes := s.sdkDumpPipes++[pair]
      created := s.created+1
      accepted := update s.accepted pair.pid (some pair.serial)} where
  law := by
    have hu : KeyedList.Unique pid s.sdkDumpPipes := h.law.one_per_pid
    exact ⟨hu.append_new hn1, h.law.once, h.law.latest⟩
  numbered other ho := by
    obtain ho | hn := mem_append.mp ho
    · exact lt_succ_of_lt (h.numbered other ho)
    · rw [mem_singleton.mp hn, hs]
      exact lt_succ_self _
  accepted other ho := by
    obtain ho | hn := mem_append.mp ho
    · have hne := find_eq_none_iff.mp hn1 other ho
      dsimp only
      rw [update_of_ne hne]
      exact h.accepted other ho
    · rw [mem_singleton.mp hn]
      exact update_self ..
  serials := by
    rw [map_append, map_singleton]
    refine nodup_append.mpr ⟨h.serials, nodup_singleton _, ?_⟩
    rintro _ hm1 _ hl rfl
    obtain ⟨other, ho, heq⟩ := mem_map.mp hm1
    rw [mem_singleton] at hl
    have hlt := h.numbered other ho
    omega
  given g hg := by
    obtain ⟨hlt, hm⟩ := h.given g hg
    refine ⟨lt_succ_of_lt hlt, fun other ho heq => ?_⟩
    obtain ho | hn := mem_append.mp ho
    · exact hm other ho heq
    · grind

theorem Consistent.drop (pair : FaultLoggerPipePair) : Consistent (delSdkDumpPipePair pair.pid {s with
      sdkDumpPipes := s.sdkDumpPipes++[pair]
      created := s.created+1}) := by
  have hs : (remove pid pair.pid (s.sdkDumpPipes++[pair])).Sublist
      s.sdkDumpPipes := by
    simp [remove]
  have hl := h.sublist hs
  exact ⟨⟨hl.law.one_per_pid, h.law.once, h.law.latest⟩,
    fun other ho => lt_succ_of_lt (hl.numbered other ho), hl.accepted, hl.serials,
    fun g hg => ⟨lt_succ_of_lt (hl.given g hg).1, (hl.given g hg).2⟩⟩

theorem startDump_spec (system : System) (creds : Ucred) (req : SdkDumpRequestData)
    (hn : getSdkDumpPipePair req.pid s=none) : Consistent (startDump system creds req s).2 := by
  unfold startDump createSdkDumpPipePair
  rw [hn]
  dsimp only
  split
  · exact h.drop ⟨req.pid, req.time, .create system.pipe2, s.created⟩
  · split
    · exact h.drop ⟨req.pid, req.time, .create system.pipe2, s.created⟩
    · exact h.accept hn rfl

end

theorem markPair_keys (pid : ℤ) (s : Sessions) :
    (markPair pid s).sdkDumpPipes.map FaultLoggerPipePair.pid=s.sdkDumpPipes.map FaultLoggerPipePair.pid ∧
      (markPair pid s).sdkDumpPipes.map FaultLoggerPipePair.serial=s.sdkDumpPipes.map FaultLoggerPipePair.serial :=
  ⟨map_modify fun _ => rfl, map_modify fun _ => rfl⟩

section

variable (h : Consistent s)
include h

theorem Consistent.mem_markPair {pair : FaultLoggerPipePair} (hp : pair∈(markPair pid s).sdkDumpPipes) :
    ∃ old∈s.sdkDumpPipes, old.pid=pair.pid ∧ old.serial=pair.serial ∧
      ∀ usage, old.pid=pid ∨ (old.pipes.pipe usage).write=true → (pair.pipes.pipe usage).write=true := by
  have hu : KeyedList.Unique FaultLoggerPipePair.pid s.sdkDumpPipes := h.law.one_per_pid
  obtain ⟨ho, hne⟩ | ⟨old, hf, rfl⟩ := hu.mem_modify hp
  · exact ⟨pair, ho, rfl, rfl, fun usage hor => hor.resolve_left hne⟩
  · exact ⟨old, mem_of_find hf, rfl, rfl, fun usage _ => (old.pipes.getFds_write usage).1⟩

theorem Consistent.mark (pid : ℤ) : Consistent (markPair pid s) where
  law := by
    refine ⟨?_, h.law.once, h.law.latest⟩
    rw [(markPair_keys pid s).1]
    exact h.law.one_per_pid
  numbered pair hp := by
    obtain ⟨old, ho, -, hs, -⟩ := h.mem_markPair hp
    rw [←hs]
    exact h.numbered old ho
  accepted pair hp := by
    obtain ⟨old, ho, hp1, hs, -⟩ := h.mem_markPair hp
    rw [←hs, ←hp1]
    exact h.accepted old ho
  serials := by
    rw [(markPair_keys pid s).2]
    exact h.serials
  given g hg := by
    obtain ⟨hlt, hm⟩ := h.given g hg
    refine ⟨hlt, fun pair hp heq => ?_⟩
    obtain ⟨old, ho, -, hs, hk⟩ := h.mem_markPair hp
    exact hk g.usage (.inr (hm old ho (hs.trans heq)))

theorem giveWriteEnds_spec (pid : ℤ) : Consistent (giveWriteEnds pid s).2 := by
  unfold giveWriteEnds
  cases hf : getSdkDumpPipePair pid s with
  | none => exact h
  | some pair =>
    have hm := h.mark pid
    dsimp only
    split
    · exact hm
    · have hp : pair∈s.sdkDumpPipes := mem_of_find hf
      have hn : ∀ usage, (pair.serial, usage) ∉ s.handed.map fun h => (h.serial, h.usage) := by
        intro usage hm1
        obtain ⟨g, hg, heq⟩ := mem_map.mp hm1
        obtain ⟨hs, rfl⟩ := Prod.mk.inj heq
        have hw := (h.given g hg).2 pair hp hs.symm
        have hf1 := (pair.pipes.getFds_write g.usage).2 (by omega) (by omega)
        rw [hf1] at hw
        cases hw
      have hg1 : ∀ g∈(handOut pair (markPair pid s)).handed, g∈s.handed ∨
          g.serial=pair.serial ∧ g.latest=s.accepted pair.pid := by
        intro g hg
        obtain rfl | hg := mem_cons.mp hg
        · exact .inr ⟨rfl, rfl⟩
        obtain rfl | hg := mem_cons.mp hg
        · exact .inr ⟨rfl, rfl⟩
        · exact .inl hg
      refine ⟨⟨hm.law.one_per_pid, ?_, ?_⟩, hm.numbered, hm.accepted, hm.serials, ?_⟩
      · refine nodup_cons.mpr ⟨?_, nodup_cons.mpr ⟨hn .resultFd, h.law.once⟩⟩
        intro hm1
        obtain heq | hm1 := mem_cons.mp hm1
        · cases heq
        · exact hn .bufferFd hm1
      · intro g hg
        obtain hg | ⟨hs, hl⟩ := hg1 g hg
        · exact h.law.latest g hg
        · rw [hl, hs]
          exact h.accepted pair hp
      · intro g hg
        obtain hg | ⟨hs, -⟩ := hg1 g hg
        · exact hm.given g hg
        · refine ⟨hs ▸ h.numbered pair hp, fun other ho heq => ?_⟩
          obtain ⟨old, ho1, -, hs2, hk⟩ := h.mem_markPair ho
          have hs1 : KeyedList.Unique serial s.sdkDumpPipes := h.serials
          obtain rfl := hs1.eq_of_key ho1 hp (hs2.trans (heq.trans hs))
          exact hk g.usage (.inl (key_of_find hf))

theorem filterSdkDump_spec (system : System) (socketName : String)
    (req : SdkDumpRequestData) (uid : ℤ) : Consistent (filterSdkDump system socketName req uid s).2 ∧
      ((filterSdkDump system socketName req uid s).1=.requestSuccess →
        getSdkDumpPipePair req.pid (filterSdkDump system socketName req uid s).2=none ∧
        ∀ pair∈s.sdkDumpPipes, pair.pid=req.pid → pair.isValid req.time=false) := by
  obtain ⟨hc, hf⟩ := checkSdkDumpRecord_spec h req.pid req.time
  unfold filterSdkDump
  split
  · exact ⟨h, nofun⟩
  · split
    · exact ⟨h, nofun⟩
    · dsimp only
      split
      · exact ⟨hc, nofun⟩
      · rename_i hn
        exact ⟨hc, fun _ => hf (by simpa using hn)⟩

theorem onSdkDumpRequest_spec (system : System) (conn : Connection)
    (req : SdkDumpRequestData) : Consistent (onSdkDumpRequest system conn req s).2 ∧
      ((onSdkDumpRequest system conn req s).1=.requestSuccess →
        ∀ pair∈s.sdkDumpPipes, pair.pid=req.pid → pair.isValid req.time=false) := by
  unfold onSdkDumpRequest
  cases conn.peer with
  | none => exact ⟨h, nofun⟩
  | some creds =>
    obtain ⟨hf, hp⟩ := filterSdkDump_spec h system conn.socketName req creds.uid
    dsimp only
    split
    · rename_i hs1
      exact ⟨hf, fun hs => absurd hs hs1⟩
    · rename_i hgo
      obtain ⟨hn, hi⟩ := hp (by simpa using hgo)
      exact ⟨startDump_spec hf system creds req hn, fun _ => hi⟩

theorem onPipeRequest_spec (conn : Connection) (req : PipFdRequestData) : Consistent (onPipeRequest conn req s).2 := by
  unfold onPipeRequest
  cases conn.peer with
  | none => exact h
  | some creds =>
    dsimp only
    split
    · exact h
    · split
      · exact h.del req.pid
      · exact giveWriteEnds_spec h req.pid

theorem step_spec (rq : Request) : Consistent (step rq s) ∧ NotWhileValid s rq := by
  cases rq with
  | sdkDump system conn req => exact onSdkDumpRequest_spec h system conn req
  | pipe conn req => exact ⟨onPipeRequest_spec h conn req, trivial⟩

end

end Steps

/-- Whatever is asked for, the sessions keep the law, and no dump request was accepted while a valid pair was there. -/
theorem sdkDump_sessions (requests : List Request) :
    SessionLaw (run step requests .initial) ∧ Every step NotWhileValid requests .initial := by
  refine ⟨(run_invariant Consistent (fun _ request h => (step_spec h request).1) consistent_initial requests).law, ?_⟩
  apply every_iff.mpr
  intro before request after _
  have h := run_invariant Consistent (fun _ request h => (step_spec h request).1) consistent_initial before
  exact (step_spec h request).2

end Faultloggerd.PipeService.SdkDump
