import Faultloggerd.Foundations.EventRuns
import Faultloggerd.ServerLoop.Listeners

/-! # The connections of a user

Every way in which a connection is made or ends keeps the number of the user equal to the number of the user's
listeners.
-/
namespace Faultloggerd.ServerLoop
open Foundations Foundations.EventRuns KeyedList EpollListener List Server Prod

namespace Server

variable {s : Server} {uid user num : ℕ}

@[simp] theorem touch_listeners : (s.touch uid).listeners=s.listeners := by
  unfold touch
  split <;> rfl

theorem find_touch : find fst user (s.touch uid).connectionNums =
    (find fst user s.connectionNums).or (if user=uid then some (uid, 0) else none) := by
  unfold touch
  cases hf : find fst uid s.connectionNums with
  | some entry =>
    by_cases hu : user=uid
    · rw [hu, hf]
      rfl
    · rw [if_neg hu, Option.or_none]
  | none =>
    rw [find_append_singleton]
    simp [eq_comm]

@[simp] theorem connectionNum_touch : (s.touch uid).connectionNum user=s.connectionNum user := by
  rw [connectionNum, find_touch, connectionNum]
  cases find fst user s.connectionNums with
  | some entry => rfl
  | none =>
    by_cases hu : user=uid
    · rw [if_pos hu]
      rfl
    · rw [if_neg hu]
      rfl

@[simp] theorem setConnectionNum_listeners : (s.setConnectionNum uid num).listeners=s.listeners := rfl

@[simp] theorem erase_listeners : (s.erase uid).listeners=s.listeners := rfl

theorem find_setConnectionNum : find fst user (s.setConnectionNum uid num).connectionNums =
    if user=uid then (find fst uid s.connectionNums).map fun _ => (uid, num)
    else find fst user s.connectionNums := find_modify (k := uid) (fun _ _ => rfl) user

theorem connectionNum_setConnectionNum : ((s.touch uid).setConnectionNum uid num).connectionNum user =
    if user=uid then num else s.connectionNum user := by
  rw [connectionNum, find_setConnectionNum]
  by_cases hu : user=uid
  · rw [if_pos hu, if_pos hu, find_touch, if_pos rfl]
    cases find fst uid s.connectionNums <;> rfl
  · rw [if_neg hu, if_neg hu]
    exact connectionNum_touch

theorem connectionNum_erase : (s.erase uid).connectionNum user=if user=uid then 0 else s.connectionNum user := by
  rw [connectionNum, erase, find_remove]
  by_cases hu : user=uid
  · rw [if_pos hu, if_pos hu]
    rfl
  · rw [if_neg hu, if_neg hu]
    rfl

@[simp] theorem destroy_listeners (listener : EpollListener) : (s.destroy listener).listeners=s.listeners := by
  unfold destroy
  split
  · dsimp only
    split
    · rw [erase_listeners, setConnectionNum_listeners, touch_listeners]
    · rw [setConnectionNum_listeners, touch_listeners]
  · rfl

variable {listener : EpollListener}

theorem connectionNum_destroy (h : ∀ user, listener.isClientOf user=true → 0<s.connectionNum user) :
    s.connectionNum user=(s.destroy listener).connectionNum user+if listener.isClientOf user then 1 else 0 := by
  unfold destroy
  cases hr : listener.role with
  | socketServer | other => simp [isClientOf, hr]
  | clientRequest addr uid =>
    have hc : ∀ user, listener.isClientOf user=true ↔ uid=user := by
      simp [isClientOf, hr]
    have hp := h uid ((hc uid).mpr rfl)
    have hn : decrement (s.connectionNum uid)=s.connectionNum uid-1 := if_neg hp.ne'
    dsimp only
    rw [connectionNum_touch]
    by_cases hu : user=uid
    · rw [if_pos ((hc user).mpr hu.symm)]
      split
      · rw [connectionNum_erase, if_pos hu, hu]
        omega
      · rw [connectionNum_setConnectionNum, if_pos hu, hu]
        omega
    · rw [if_neg (mt (hc user).mp (Ne.symm hu))]
      split
      · rw [connectionNum_erase, if_neg hu, connectionNum_setConnectionNum, if_neg hu]
        rfl
      · rw [connectionNum_setConnectionNum, if_neg hu]
        rfl

theorem foldl_destroy_listeners (gone : List EpollListener) : (gone.foldl destroy s).listeners=s.listeners := by
  induction gone generalizing s with
  | nil => rfl
  | cons listener gone ih => rw [foldl_cons, ih, destroy_listeners]

theorem connectionNum_foldl_destroy {gone : List EpollListener}
    (h : ∀ user, gone.countP (isClientOf user)≤ s.connectionNum user) : s.connectionNum user =
      (gone.foldl destroy s).connectionNum user+gone.countP (isClientOf user) := by
  induction gone generalizing s with
  | nil => rfl
  | cons listener gone ih =>
    have ho : ∀ user, s.connectionNum user =
        (s.destroy listener).connectionNum user+if listener.isClientOf user then 1 else 0 := by
      intro user
      refine connectionNum_destroy fun user hc => ?_
      grind
    have hr : ∀ user, gone.countP (isClientOf user)≤(s.destroy listener).connectionNum user := by grind
    have hf := ih hr
    grind

def Counted (s : Server) : Prop :=
  ∀ uid, s.connectionNum uid = s.listeners.countP (EpollListener.isClientOf uid) ∧ s.connectionNum uid ≤ connectionLimit

theorem Counted.touch (h : Counted s) (uid : ℕ) : Counted (s.touch uid) := by
  intro user
  rw [connectionNum_touch, touch_listeners]
  exact h user

theorem counted_addListener {registered : Bool}
    (h : ∀ user, s.connectionNum user=s.listeners.countP (isClientOf user)+(if listener.isClientOf user then 1 else 0) ∧
      s.connectionNum user≤ connectionLimit)
    : Counted (addListener listener registered s).2 := by
  intro user
  obtain ⟨hn, hle⟩ := h user
  unfold addListener
  split
  · have hd : s.connectionNum user =
        (s.destroy listener).connectionNum user+if listener.isClientOf user then 1 else 0 := by
      refine connectionNum_destroy fun user hc => ?_
      grind
    dsimp only
    rw [destroy_listeners]
    omega
  · rw [(perm_orderedInsert _ _ _).countP_eq, countP_cons]
    exact ⟨hn, hle⟩

section

variable (h : Counted s)
include h

theorem Counted.removeListener (fd : ℤ) (deleted : Bool) : Counted (s.removeListener fd deleted).2 := by
  unfold Server.removeListener
  split
  · exact h
  · intro user
    let kept : Server := {s with listeners := s.listeners.filter fun listener => !decide (listener.fd=fd)}
    let gone := s.listeners.filter fun listener => decide (listener.fd=fd)
    have hs : ∀ user, s.listeners.countP (isClientOf user) =
        gone.countP (isClientOf user)+kept.listeners.countP (isClientOf user) :=
      fun user => countP_eq_countP_filter_add ..
    have hg : ∀ user, gone.countP (isClientOf user)≤kept.connectionNum user := by
      intro user
      obtain ⟨hn, hle⟩ := h user
      have hk : kept.connectionNum user=s.connectionNum user := rfl
      have hp := hs user
      omega
    have hf : kept.connectionNum user=(gone.foldl destroy kept).connectionNum user +
        gone.countP (isClientOf user) := connectionNum_foldl_destroy hg
    obtain ⟨hn, hle⟩ := h user
    have hk : kept.connectionNum user=s.connectionNum user := rfl
    have hp := hs user
    change (gone.foldl destroy kept).connectionNum user =
      (gone.foldl destroy kept).listeners.countP (isClientOf user) ∧
        (gone.foldl destroy kept).connectionNum user≤ connectionLimit
    rw [foldl_destroy_listeners]
    omega

theorem Counted.addListener (hr : ∀ user, listener.isClientOf user=false) (registered : Bool)
    : Counted (addListener listener registered s).2 := by
  refine counted_addListener fun user => ?_
  rw [hr user]
  exact h user

theorem Counted.addOthers (added : List Added) : Counted (added.foldl addOther s) := by
  induction added generalizing s with
  | nil => exact h
  | cons listener added ih =>
    have hn : Counted {s with next := s.next+1} := h
    exact ih (hn.addListener (fun _ => rfl) _)

theorem Counted.accept (now socketServerListener : ℕ) (conn : Accepted) :
    Counted (s.accept now socketServerListener conn) := by
  unfold Server.accept
  cases conn.credentials with
  | none => exact h
  | some uid =>
    dsimp only
    split
    · exact h.touch uid
    · split
      · exact h.touch uid
      · rename_i hb _
        refine counted_addListener fun user => ?_
        obtain ⟨hn, hle⟩ := h user
        have hl : connectionLimit=5 := rfl
        rw [connectionNum_touch] at hb
        change ((s.touch uid).setConnectionNum uid (((s.touch uid).connectionNum uid+1) % 2^32)).connectionNum user =
          (s.touch uid).listeners.countP (isClientOf user)+(if uid == user then 1 else 0) ∧
          ((s.touch uid).setConnectionNum uid (((s.touch uid).connectionNum uid+1) % 2^32)).connectionNum user ≤
            connectionLimit
        rw [connectionNum_setConnectionNum, connectionNum_touch, touch_listeners]
        by_cases hu : user=uid
        · rw [if_pos hu, if_pos (by simp [hu]), ←hn, hu]
          omega
        · rw [if_neg hu, if_neg (by simpa using Ne.symm hu)]
          exact ⟨hn, hle⟩

theorem Counted.onEventPoll (now : ℕ) (listener : EpollListener) (event : Polled) :
    Counted (s.onEventPoll now listener event).2 := by
  unfold Server.onEventPoll
  cases listener.role with
  | socketServer =>
    cases event.accepted with
    | none => exact h
    | some conn => exact h.accept now listener.address conn
  | clientRequest address clientUid | other => exact h.addOthers event.added

theorem Counted.handleEvent (now : ℕ) (event : Polled) : Counted (s.handleEvent now event) := by
  unfold Server.handleEvent
  split
  · exact h.removeListener event.fd event.deleted
  · cases s.getTargetListener event.fd with
    | none => exact h
    | some listener =>
      have hh := h.onEventPoll now listener event
      dsimp only
      split
      · exact hh.removeListener event.fd event.deleted
      · exact hh

theorem Counted.step (event : LoopEvent) : Counted (step event s) := by
  cases event with
  | listen fd registered =>
    have hn : Counted {s with next := s.next+1} := h
    exact hn.addListener (fun _ => rfl) registered
  | expired now deleted =>
    change Counted (s.handleTimeOut now deleted)
    unfold handleTimeOut
    split
    · exact h
    · split
      · exact h.removeListener _ deleted
      · exact h
  | polled now event => exact h.handleEvent now event

end

/-- In every reachable state the number of each user is the number of the user's connections and within the limit. -/
theorem connections_counted (events : List LoopEvent) (uid : ℕ) : (run step events initial).connectionNum uid =
        (run step events initial).listeners.countP (EpollListener.isClientOf uid) ∧
      (run step events initial).connectionNum uid ≤ connectionLimit :=
  run_invariant Counted (fun _ event h => h.step event) (fun _ => ⟨rfl, Nat.zero_le _⟩) events uid

def Fresh (fd : ℤ) (s : Server) : Prop :=
  ∀ listener ∈ s.listeners, listener.fd ≠ fd

/-- What the system calls promise: a descriptor that is handed out is none of those in use, a listening socket is
reported as readable or not at all, and the clock stays behind the time that stands for no timeout. -/
def Promised (s : Server) : LoopEvent → Prop
  | .listen fd _ => s.Fresh fd
  | .expired now _ => (now : ℤ) < 2^63-1
  | .polled _ event =>
    (event.readable=false → ∀ listener∈s.listeners, listener.role = .socketServer → listener.fd≠event.fd) ∧
      (∀ connection, event.accepted=some connection → s.Fresh connection.fd) ∧
      Every (fun added s => addOther s added) (fun s added => s.Fresh added.fd) event.added s

structure Referenced (s : Server) : Prop where
  fds : KeyedList.Unique EpollListener.fd s.listeners
  permanent : ∀ listener ∈ s.listeners, listener.role = .socketServer → listener.timeoutTime = 2^63-1
  accepting : ∀ listener ∈ s.listeners, ∀ address clientUid, listener.role = .clientRequest address clientUid →
    ∃ server ∈ s.listeners, server.role = .socketServer ∧ server.address = address

theorem Referenced.congr {s' : Server} (h : Referenced s) (hs : s'.listeners=s.listeners) : Referenced s' :=
  ⟨hs ▸ h.fds, hs ▸ h.permanent, hs ▸ h.accepting⟩

theorem addListener_listeners (listener : EpollListener) (registered : Bool) (s : Server) :
    (addListener listener registered s).2.listeners=s.listeners ∨
      (addListener listener registered s).2.listeners.Perm (listener::s.listeners) := by
  unfold addListener
  split
  · exact .inl (destroy_listeners listener)
  · exact .inr (perm_orderedInsert _ _ _)

theorem Referenced.addListener (h : Referenced s) (hf1 : s.Fresh listener.fd)
    (hp1 : listener.role=.socketServer → listener.timeoutTime=2^63-1)
    (ha : ∀ addr uid, listener.role=.clientRequest addr uid →
      ∃ server∈s.listeners, server.role=.socketServer ∧ server.address=addr)
    (registered : Bool) : Referenced (addListener listener registered s).2 := by
  obtain hs1 | hp := addListener_listeners listener registered s
  · exact h.congr hs1
  · refine ⟨?_, ?_, ?_⟩
    · refine (hp.map fd).nodup_iff.mpr (nodup_cons.mpr ⟨fun hm => ?_, h.fds⟩)
      obtain ⟨old, ho, hfd⟩ := mem_map.mp hm
      exact hf1 old ho hfd
    · intro other ho1 hr
      obtain rfl | ho := mem_cons.mp (hp.mem_iff.mp ho1)
      · exact hp1 hr
      · exact h.permanent other ho hr
    · intro other ho1 addr uid hr
      have hf : ∃ server∈s.listeners, server.role=.socketServer ∧ server.address=addr := by
        obtain rfl | ho := mem_cons.mp (hp.mem_iff.mp ho1)
        · exact ha addr uid hr
        · exact h.accepting other ho addr uid hr
      obtain ⟨server, hs, hr1⟩ := hf
      exact ⟨server, hp.mem_iff.mpr (mem_cons_of_mem _ hs), hr1⟩

theorem removeListener_listeners (fd : ℤ) (deleted : Bool) (s : Server) :
    (s.removeListener fd deleted).2.listeners=s.listeners ∨
      (s.removeListener fd deleted).2.listeners=s.listeners.filter fun listener => !decide (listener.fd=fd) := by
  unfold removeListener
  split
  · exact .inl rfl
  · exact .inr (foldl_destroy_listeners _)

theorem Referenced.removeListener (h : Referenced s) {fd : ℤ}
    (hs1 : ∀ listener∈s.listeners, listener.role=.socketServer → listener.fd≠fd) (deleted : Bool) :
    Referenced (s.removeListener fd deleted).2 := by
  obtain hs2 | hk := removeListener_listeners fd deleted s
  · exact h.congr hs2
  · have hs : (s.removeListener fd deleted).2.listeners.Sublist s.listeners := hk ▸ filter_sublist
    refine ⟨(hs.map _).nodup h.fds, fun listener hm => h.permanent listener (hs.subset hm), ?_⟩
    intro listener hm addr uid hr1
    obtain ⟨server, hm, hr⟩ := h.accepting listener (hs.subset hm) addr uid hr1
    refine ⟨server, ?_, hr⟩
    rw [hk]
    exact mem_filter.mpr ⟨hm, by simpa using hs1 server hm hr.1⟩

theorem mem_addOthers (added : List Added) (h : listener∈s.listeners) :
    listener∈(added.foldl addOther s).listeners := by
  induction added generalizing s with
  | nil => exact h
  | cons new added ih =>
    apply ih
    obtain hs | hp := addListener_listeners ⟨s.next, new.fd, new.timeoutTime, .other⟩ new.registered
      {s with next := s.next+1}
    · exact hs.symm ▸ h
    · exact hp.mem_iff.mpr (mem_cons_of_mem _ h)

theorem Referenced.addOthers (h : Referenced s) {added : List Added}
    (hf : Every (fun added s => addOther s added) (fun s added => s.Fresh added.fd) added s) :
    Referenced (added.foldl addOther s) := by
  refine run_invariant_of_every Referenced (fun s new h hn1 => ?_) h hf
  have hn : Referenced {s with next := s.next+1} := h.congr rfl
  refine hn.addListener ?_ ?_ ?_ _
  · exact hn1
  · exact nofun
  · exact nofun

theorem Referenced.accept (h : Referenced s) {now : ℕ} {server : EpollListener} {conn : Accepted}
    (hs : server∈s.listeners) (hr : server.role=.socketServer) (hf : s.Fresh conn.fd) :
    Referenced (s.accept now server.address conn) := by
  unfold Server.accept
  cases conn.credentials with
  | none => exact h
  | some uid =>
    dsimp only
    split
    · exact h.congr touch_listeners
    · split
      · exact h.congr touch_listeners
      · let counted : Server := setConnectionNum uid (((s.touch uid).connectionNum uid+1) % 2^32)
          {s.touch uid with next := (s.touch uid).next+1}
        have hl : counted.listeners=s.listeners := touch_listeners
        have hc : Referenced counted := h.congr hl
        refine hc.addListener ?_ ?_ ?_ _
        · exact fun listener hm => hf listener (hl ▸ hm)
        · exact nofun
        · rintro address clientUid ⟨⟩
          exact ⟨server, hl ▸ hs, hr, rfl⟩

theorem Referenced.handleEvent (h : Referenced s) {now : ℕ} {event : Polled}
    (hp : Promised s (.polled now event)) : Referenced (s.handleEvent now event) := by
  obtain ⟨hl, ha, ha1⟩ := hp
  unfold Server.handleEvent
  split
  · rename_i hr1
    exact h.removeListener (hl (by simpa using hr1)) event.deleted
  · cases hf : s.getTargetListener event.fd with
    | none => exact h
    | some listener =>
      have hm : listener∈s.listeners := mem_of_find?_eq_some hf
      have hfd : listener.fd=event.fd := by simpa using List.find?_some hf
      -- a service adds listeners of its own, and the event was for no listening socket
      have hs : listener.role≠.socketServer → ∀ deleted,
          Referenced ((event.added.foldl addOther s).removeListener event.fd deleted).2 := by
        intro hr deleted
        have ho := h.addOthers ha1
        refine ho.removeListener (fun server hs2 hs1 hs3 => hr ?_) deleted
        rw [ho.fds.eq_of_key (mem_addOthers event.added hm) hs2 (hfd.trans hs3.symm)]
        exact hs1
      dsimp only
      cases hr : listener.role with
      | socketServer =>
        cases hc : event.accepted with
        | none =>
          rw [onEventPoll, hr, hc]
          exact h
        | some conn =>
          rw [onEventPoll, hr, hc]
          exact h.accept hm hr (ha conn hc)
      | clientRequest addr uid =>
        rw [onEventPoll, hr]
        exact hs (by rw [hr]; exact nofun) event.deleted
      | other =>
        rw [onEventPoll, hr]
        dsimp only
        split
        · exact hs (by rw [hr]; exact nofun) event.deleted
        · exact h.addOthers ha1

theorem Referenced.step (h : Referenced s) {event : LoopEvent} (hp : Promised s event) :
    Referenced (step event s) := by
  cases event with
  | listen fd registered =>
    have hn : Referenced {s with next := s.next+1} := h.congr rfl
    refine hn.addListener ?_ ?_ ?_ registered
    · exact hp
    · exact fun _ => rfl
    · exact nofun
  | expired now deleted =>
    change Referenced (s.handleTimeOut now deleted)
    unfold handleTimeOut
    cases hl : s.listeners with
    | nil => exact h
    | cons front rest =>
      have hf : front∈s.listeners := hl ▸ mem_cons_self
      dsimp only
      split
      · refine h.removeListener (fun server hs hr hfd => ?_) deleted
        have hs1 := h.fds.eq_of_key hs hf hfd
        have ht := h.permanent server hs hr
        rw [hs1] at ht
        change (now : ℤ)<2^63-1 at hp
        omega
      · exact h
  | polled now event => exact h.handleEvent hp

/-- As long as the system calls keep their promises, the listener that accepted a connection lives as long as it does.
-/
theorem accepting_listener_lives {events : List LoopEvent} (h : Every step Promised events initial)
    (hm : listener∈(run step events initial).listeners) {addr uid : ℕ} (hr : listener.role=.clientRequest addr uid) :
    ∃ server∈(run step events initial).listeners, server.role=.socketServer ∧ server.address=addr := by
  have hi : Referenced initial := ⟨nodup_nil, nofun, nofun⟩
  exact (run_invariant_of_every Referenced (fun _ _ h hp => h.step hp) hi h).accepting listener hm
    addr uid hr

theorem accepting_listener_of_one : ∃ server ∈ (run step [.listen 3 true,
    .polled 0 ⟨3, true, some ⟨4, some 100, true, true⟩, [], .keep, true⟩] initial).listeners,
    server.role = .socketServer ∧ server.address = 0 := by
  refine @accepting_listener_lives ⟨1, 4, 20000000, .clientRequest 0 100⟩ _ ?_ (by decide) 0 100 rfl
  simp [Every, Promised, Fresh, step, addServerListener, addListener, initial]

end Server

end Faultloggerd.ServerLoop
