import Faultloggerd.Foundations.EventRuns
import Mathlib.Data.Int.Notation
import Mathlib.Data.List.Nodup

/-! # Minidump settings of processes (`minidump_manager_service.cpp`)

A process can have minidumps switched on, and can have them kept out of its crash log. Switching them on opens a pidfd
of the process and listens on it; when the process exits the listener clears both settings. So a process without a
listener leaves the second setting behind. `pidfd_open` and `AddEpollEvent` may fail at every call. `DelEpollEvent` is
assumed to succeed: it is asked only for the descriptor of a listener, which is open and registered.
-/
namespace Faultloggerd.MinidumpService
open List Foundations.EventRuns

structure PidFdListener where
  fd : ℕ
  pid : ℤ

structure MinidumpManagerService where
  pFd : Bool
  listeners : List PidFdListener
  enableMinidumpConfigs : List (ℤ×ℕ)
  disableMinidumpToCrashLogConfigs : List ℤ

/-- What `pidfd_open` and `AddEpollEvent` answer. -/
structure Kernel where
  pidfd : Option ℕ
  added : Bool

inductive WorkAction where
  | cancel
  | launch (enableMinidump enableMinidumpToCrashLog : Bool)

namespace MinidumpManagerService

def initial (pFd : Bool) : MinidumpManagerService := ⟨pFd, [], [], []⟩

/-- `EpollManager::RemoveListener` of a registered descriptor. -/
def removeListener (fd : ℕ) (s : MinidumpManagerService) : MinidumpManagerService :=
  {s with listeners := s.listeners.filter fun l => l.fd≠fd}

def isEnableMinidump (pid : ℤ) (s : MinidumpManagerService) : Bool :=
  s.enableMinidumpConfigs.any fun c => c.1 = pid

def isDisableMinidumpToCrashLog (pid : ℤ) (s : MinidumpManagerService) : Bool :=
  s.disableMinidumpToCrashLogConfigs.contains pid

/-- The kernel never hands out a descriptor that is open. -/
def openPidfd (k : Kernel) (s : MinidumpManagerService) : Option ℕ :=
  k.pidfd.filter fun fd => s.listeners.all fun l => l.fd ≠ fd

def setEnableMinidump (pid : ℤ) (enableMinidump clearListener : Bool) (k : Kernel) (s : MinidumpManagerService) :
    Bool × MinidumpManagerService :=
  if enableMinidump then
    match s.openPidfd k with
    | none => (false, s)
    | some pfd =>
      if !k.added then (false, s)
      else (true, {s with
        listeners := s.listeners++[⟨pfd, pid⟩]
        enableMinidumpConfigs := s.enableMinidumpConfigs++[(pid, pfd)]})
  else
    match s.enableMinidumpConfigs.find? fun c => c.1 = pid with
    | none => (true, s)
    | some c =>
      let s := if clearListener then s.removeListener c.2 else s
      (true, {s with enableMinidumpConfigs := s.enableMinidumpConfigs.filter fun c => c.1≠pid})

def setDisableMinidumpToCrashLog (pid : ℤ) (disable : Bool) (s : MinidumpManagerService) : MinidumpManagerService :=
  if disable then
    {s with disableMinidumpToCrashLogConfigs := s.disableMinidumpToCrashLogConfigs.insert pid}
  else {s with disableMinidumpToCrashLogConfigs := s.disableMinidumpToCrashLogConfigs.filter fun p => p≠pid}

def setCrashLogSwitch (pid enableMinidumpToCrashLog : ℤ) (s : MinidumpManagerService) : MinidumpManagerService :=
  if enableMinidumpToCrashLog = 0 then s.setDisableMinidumpToCrashLog pid true
  else if enableMinidumpToCrashLog = 1 then s.setDisableMinidumpToCrashLog pid false
  else s

def setMiniDump (pid enableMinidump enableMinidumpToCrashLog : ℤ) (k : Kernel) (s : MinidumpManagerService) :
    ℤ × MinidumpManagerService :=
  if !s.pFd then (-1, s)
  else if enableMinidump = 1 ∧ s.isEnableMinidump pid = false then
    match s.setEnableMinidump pid true true k with
    | (false, s) => (-1, s)
    | (true, s) => (0, s.setCrashLogSwitch pid enableMinidumpToCrashLog)
  else if enableMinidump = 0 then
    (0, (s.setEnableMinidump pid false true k).2.setCrashLogSwitch pid enableMinidumpToCrashLog)
  else (0, s.setCrashLogSwitch pid enableMinidumpToCrashLog)

/-- `allowed` is what `IsProcessMinidumpAllowed` says. -/
def processWorkStart (pid : ℤ) (allowed : Bool) (s : MinidumpManagerService) : WorkAction × MinidumpManagerService :=
  let enableMinidump := s.isEnableMinidump pid
  let enableMinidumpToCrashLog := !s.isDisableMinidumpToCrashLog pid
  let s := s.setDisableMinidumpToCrashLog pid false
  if (!enableMinidump && !enableMinidumpToCrashLog) || !allowed then (.cancel, s)
  else (.launch enableMinidump enableMinidumpToCrashLog, s)

/-- `PidFdListener::OnEventPoll`, after which the epoll manager drops the listener. -/
def onEventPoll (s : MinidumpManagerService) (l : PidFdListener) : MinidumpManagerService :=
  ((s.setEnableMinidump l.pid false false ⟨none, false⟩).2.setDisableMinidumpToCrashLog l.pid false).removeListener l.fd

def exit (pid : ℤ) (s : MinidumpManagerService) : MinidumpManagerService :=
  (s.listeners.filter fun l => l.pid=pid).foldl onEventPoll s

end MinidumpManagerService

inductive Event where
  | setMiniDump (pid enableMinidump enableMinidumpToCrashLog : ℤ) (k : Kernel)
  | workStart (pid : ℤ) (allowed : Bool)
  | exit (pid : ℤ)

def step : Event → MinidumpManagerService → MinidumpManagerService
  | .setMiniDump pid enableMinidump enableMinidumpToCrashLog k, s =>
    (s.setMiniDump pid enableMinidump enableMinidumpToCrashLog k).2
  | .workStart pid allowed, s => (s.processWorkStart pid allowed).2
  | .exit pid, s => s.exit pid

open MinidumpManagerService

/-- Nothing that a later process with the same pid would find. -/
def Cleared (pid : ℤ) (s : MinidumpManagerService) : Prop :=
  s.isEnableMinidump pid = false ∧ s.isDisableMinidumpToCrashLog pid = false

/-- The processes with minidumps switched on are those that are listened to, each once. -/
structure Inv (s : MinidumpManagerService) : Prop where
  paired : s.enableMinidumpConfigs = s.listeners.map fun l => (l.pid, l.fd)
  pids : (s.listeners.map PidFdListener.pid).Nodup
  fds : (s.listeners.map PidFdListener.fd).Nodup

theorem inv_initial (pFd : Bool) : Inv (initial pFd) := ⟨rfl, nodup_nil, nodup_nil⟩

section Steps
variable {s : MinidumpManagerService} {pid : ℤ}

section

variable (h : Inv s)
include h

theorem isEnableMinidump_iff : s.isEnableMinidump pid=true ↔ ∃ l∈s.listeners, l.pid=pid := by
  simp [isEnableMinidump, h.paired]

theorem filter_fd_eq {l : PidFdListener} (hl : l∈s.listeners) :
    s.listeners.filter (fun m => m.fd≠l.fd)=s.listeners.filter fun m => m.pid≠l.pid := by
  apply filter_congr
  intro m hm
  have hi : m.fd=l.fd ↔ m.pid=l.pid :=
    ⟨fun e => by rw [inj_on_of_nodup_map h.fds hm hl e], fun e => by rw [inj_on_of_nodup_map h.pids hm hl e]⟩
  simp [hi]

theorem Inv.drop (pid : ℤ) : Inv {s with
    listeners := s.listeners.filter fun l => l.pid≠pid
    enableMinidumpConfigs := s.enableMinidumpConfigs.filter fun c => c.1≠pid} where
  paired := by
    rw [h.paired, filter_map]
    rfl
  pids := h.pids.sublist (filter_sublist.map _)
  fds := h.fds.sublist (filter_sublist.map _)

theorem Inv.disable (l : List ℤ) : Inv {s with disableMinidumpToCrashLogConfigs := l} := ⟨h.paired, h.pids, h.fds⟩

theorem Inv.setDisable (pid : ℤ) (disable : Bool) : Inv (s.setDisableMinidumpToCrashLog pid disable) := by
  rw [setDisableMinidumpToCrashLog]
  split_ifs <;> exact h.disable _

theorem Inv.setCrashLogSwitch (pid switch : ℤ) : Inv (s.setCrashLogSwitch pid switch) := by
  rw [MinidumpManagerService.setCrashLogSwitch]
  split_ifs
  · exact h.setDisable pid true
  · exact h.setDisable pid false
  · exact h

theorem find_eq_some {c : ℤ×ℕ} (hc : s.enableMinidumpConfigs.find? (fun c => c.1=pid)=some c) :
    c.1=pid ∧ (⟨c.2, pid⟩ : PidFdListener)∈s.listeners := by
  have hp : c.1=pid := by simpa using find?_some hc
  have hm := mem_of_find?_eq_some hc
  rw [h.paired] at hm
  obtain ⟨l, hl, rfl⟩ := mem_map.mp hm
  exact ⟨hp, by rw [←hp]; exact hl⟩

theorem Inv.setEnable_true (ho : s.isEnableMinidump pid=false) (k : Kernel) :
    Inv (s.setEnableMinidump pid true true k).2 := by
  rw [setEnableMinidump, if_pos rfl]
  split
  · exact h
  rename_i pfd hp
  split_ifs
  · exact h
  have hf : ∀ l∈s.listeners, l.fd≠pfd := by
    have := (Option.filter_eq_some_iff.mp hp).2
    simpa using this
  have hn : ∀ l∈s.listeners, l.pid≠pid := by
    intro l hl e
    rw [(isEnableMinidump_iff h).mpr ⟨l, hl, e⟩] at ho
    cases ho
  refine ⟨by rw [h.paired, map_append]; rfl, ?_, ?_⟩
  · rw [map_append, nodup_append]
    refine ⟨h.pids, nodup_singleton _, fun a ha b hb => ?_⟩
    obtain ⟨l, hl, rfl⟩ := mem_map.mp ha
    rw [mem_singleton.mp hb]
    exact hn l hl
  · rw [map_append, nodup_append]
    refine ⟨h.fds, nodup_singleton _, fun a ha b hb => ?_⟩
    obtain ⟨l, hl, rfl⟩ := mem_map.mp ha
    rw [mem_singleton.mp hb]
    exact hf l hl

theorem Inv.setEnable_false (pid : ℤ) (k : Kernel) : Inv (s.setEnableMinidump pid false true k).2 := by
  rw [setEnableMinidump, if_neg (by simp)]
  split
  · exact h
  · rename_i c hc
    obtain ⟨rfl, hl⟩ := find_eq_some h hc
    have hd := h.drop c.1
    rw [←filter_fd_eq h hl] at hd
    exact hd

theorem Inv.setMiniDump (pid enable switch : ℤ) (k : Kernel) : Inv (s.setMiniDump pid enable switch k).2 := by
  rw [MinidumpManagerService.setMiniDump]
  split_ifs with hp hon
  · exact h
  · have hs := h.setEnable_true hon.2 k
    split
    · rename_i hf
      rwa [hf] at hs
    · rename_i hok
      rw [hok] at hs
      exact hs.setCrashLogSwitch pid switch
  · exact (h.setEnable_false pid k).setCrashLogSwitch pid switch
  · exact h.setCrashLogSwitch pid switch

theorem Inv.processWorkStart (pid : ℤ) (allowed : Bool) : Inv (s.processWorkStart pid allowed).2 := by
  rw [MinidumpManagerService.processWorkStart]
  split_ifs <;> exact h.setDisable pid false

theorem onEventPoll_eq {l : PidFdListener} (hl : l∈s.listeners) : onEventPoll s l={s with
    listeners := s.listeners.filter fun m => m.pid≠l.pid
    enableMinidumpConfigs := s.enableMinidumpConfigs.filter fun c => c.1≠l.pid
    disableMinidumpToCrashLogConfigs := s.disableMinidumpToCrashLogConfigs.filter fun p => p≠l.pid} := by
  have hf : ∃ c, s.enableMinidumpConfigs.find? (fun c => c.1=l.pid)=some c := by
    rw [←Option.isSome_iff_exists, find?_isSome]
    exact ⟨(l.pid, l.fd), by rw [h.paired]; exact mem_map_of_mem hl, by simp⟩
  obtain ⟨c, hc⟩ := hf
  rw [←filter_fd_eq h hl, onEventPoll, setEnableMinidump, hc]
  rfl

theorem listeners_of (pid : ℤ) : (s.listeners.filter fun l => l.pid=pid)=[] ∨
    ∃ l∈s.listeners, l.pid=pid ∧ (s.listeners.filter fun l => l.pid=pid)=[l] := by
  have hm1 : ∀ l∈s.listeners.filter (fun l => l.pid=pid), l∈s.listeners ∧ l.pid=pid := by grind
  cases hl1 : s.listeners.filter fun l => l.pid=pid with
  | nil => exact .inl rfl
  | cons l rest =>
    rw [hl1] at hm1
    obtain ⟨hl, hp⟩ := hm1 l mem_cons_self
    cases rest with
    | nil => exact .inr ⟨l, hl, hp, rfl⟩
    | cons m rest =>
      have hn : ((s.listeners.filter fun l => l.pid=pid).map PidFdListener.pid).Nodup :=
        h.pids.sublist (filter_sublist.map _)
      rw [hl1] at hn
      have hm := (hm1 m (by simp)).2
      simp [hp, hm] at hn

end

theorem exit_eq_self (h : ¬ ∃ l∈s.listeners, l.pid=pid) : s.exit pid=s := by
  have hn : (s.listeners.filter fun l => l.pid=pid)=[] := by
    rw [filter_eq_nil_iff]
    intro l hl hp
    exact h ⟨l, hl, by simpa using hp⟩
  rw [exit, hn]
  rfl

theorem exit_eq (h : Inv s) (hl : ∃ l∈s.listeners, l.pid=pid) : s.exit pid={s with
    listeners := s.listeners.filter fun m => m.pid≠pid
    enableMinidumpConfigs := s.enableMinidumpConfigs.filter fun c => c.1≠pid
    disableMinidumpToCrashLogConfigs := s.disableMinidumpToCrashLogConfigs.filter fun p => p≠pid} := by
  rcases listeners_of h pid with hn | ⟨l, hm, rfl, ho⟩
  · obtain ⟨l, hl, hp⟩ := hl
    exact absurd (by simpa using hp) (filter_eq_nil_iff.mp hn l hl)
  · rw [exit, ho]
    exact onEventPoll_eq h hm

theorem Inv.exit (h : Inv s) (pid : ℤ) : Inv (s.exit pid) := by
  by_cases hl : ∃ l∈s.listeners, l.pid=pid
  · rw [exit_eq h hl]
    exact (h.drop pid).disable _
  · rw [exit_eq_self hl]
    exact h

end Steps

theorem inv_step (s : MinidumpManagerService) (e : Event) (h : Inv s) : Inv (step e s) := by
  cases e with
  | setMiniDump pid enable switch k => exact h.setMiniDump pid enable switch k
  | workStart pid allowed => exact h.processWorkStart pid allowed
  | exit pid => exact h.exit pid

/-- Whatever is asked for, and whatever the kernel answers, switches and listeners agree. -/
theorem settings_listened (pFd : Bool) (events : List Event) : Inv (run step events (initial pFd)) :=
  run_invariant Inv inv_step (inv_initial pFd) events

/-- What is left when a process exits: nothing if it was listened to, else its second setting. -/
theorem settings_cleared_iff (pFd : Bool) (events : List Event) (pid : ℤ) :
    Cleared pid (run step (events++[Event.exit pid]) (initial pFd)) ↔
      (run step events (initial pFd)).isEnableMinidump pid = true ∨
        (run step events (initial pFd)).isDisableMinidumpToCrashLog pid = false := by
  have h : Inv (run step events (initial pFd)) := run_invariant Inv inv_step (inv_initial pFd) events
  rw [run_append]
  generalize run step events (initial pFd)=s at h
  change Cleared pid (s.exit pid) ↔ _
  by_cases hl : ∃ l∈s.listeners, l.pid=pid
  · have hon := (isEnableMinidump_iff h).mpr hl
    rw [exit_eq h hl]
    refine ⟨fun _ => .inl hon, fun _ => ⟨?_, ?_⟩⟩
    · simp [isEnableMinidump]
    · simp [isDisableMinidumpToCrashLog]
  · have ho : s.isEnableMinidump pid=false := by
      rw [←Bool.not_eq_true, isEnableMinidump_iff h]
      exact hl
    rw [exit_eq_self hl, Cleared, ho]
    simp

/-- A process that only keeps its minidump out of the crash log is not listened to. -/
theorem crash_log_setting_left : ¬ ∀ (pFd : Bool) (events : List Event) (pid : ℤ),
    Cleared pid (run step (events++[Event.exit pid]) (initial pFd)) := by
  intro h
  have := (h true [.setMiniDump 5 0 0 ⟨none, false⟩] 5).2
  exact absurd this (by decide)

end Faultloggerd.MinidumpService
