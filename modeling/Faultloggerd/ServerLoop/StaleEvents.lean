import Faultloggerd.ServerLoop.ConnectionQuota

/-! # The events of one wait

`StartEpoll` looks for the listener of an event by its descriptor, after the handlers of the events before it. Such a
handler may have closed the descriptor and opened another with the same number.
-/
namespace Faultloggerd.ServerLoop
open List Server

/-- What a handler asks of the manager: `AddListener` with a new object, or `RemoveListener`. -/
inductive Request where
  | add (fd timeoutTime : ℤ) (role : Role) (registered : Bool)
  | remove (fd : ℤ) (deleted : Bool)

def Request.adds (fd : ℤ) : Request → Bool
  | .add new _ _ registered => registered && new == fd
  | .remove _ _ => false

/-- An event that `epoll_wait` returned, with what its handler asks for and returns. -/
structure Delivered where
  fd : ℤ
  readable : Bool
  requests : List Request
  result : EventResult
  deleted : Bool

/-- What a wait returns; one that fails changes nothing. -/
inductive Wait where
  | expired (now : ℕ) (requests : List Request) (deleted : Bool)
  | delivered (events : List Delivered)

namespace Server

def request (s : Server) : Request → Server
  | .add fd timeoutTime role registered =>
    (addListener ⟨s.next, fd, timeoutTime, role⟩ registered {s with next := s.next+1}).2
  | .remove fd deleted => (s.removeListener fd deleted).2

/-- One round of the loop over the events, with the listener whose `OnEventPoll` is called. -/
def deliver (event : Delivered) (s : Server) : Option EpollListener × Server :=
  if !event.readable then (none, (s.removeListener event.fd event.deleted).2)
  else
    match s.getTargetListener event.fd with
    | none => (none, s)
    | some listener =>
      let s := event.requests.foldl request s
      (some listener, if event.result = .remove then (s.removeListener event.fd event.deleted).2 else s)

def deliverAll : List Delivered → Server → List EpollListener × Server
  | [], s => ([], s)
  | event :: events, s =>
    let delivered := s.deliver event
    let rest := deliverAll events delivered.2
    (delivered.1.toList ++ rest.1, rest.2)

/-- `HandleTimeOut`, with what `OnTimeOut` of the first listener asks for. -/
def expire (now : ℕ) (requests : List Request) (deleted : Bool) (s : Server) : Server :=
  match s.listeners with
  | [] => s
  | front :: _ =>
    if front.timeoutTime ≤ now then ((requests.foldl request s).removeListener front.fd deleted).2 else s

/-- The calls of `OnEventPoll`, each with the listeners that were registered when its wait returned. -/
def startEpoll : List Wait → Server → List (List EpollListener × EpollListener)
  | [], _ => []
  | .expired now requests deleted :: waits, s => startEpoll waits (s.expire now requests deleted)
  | .delivered events :: waits, s =>
    (deliverAll events s).1.map (s.listeners, ·) ++ startEpoll waits (deliverAll events s).2

variable {s : Server} {listener : EpollListener}

theorem mem_removeListener {fd : ℤ} {deleted : Bool} (h : listener∈(s.removeListener fd deleted).2.listeners) :
    listener∈s.listeners := by
  obtain hr | hr := removeListener_listeners fd deleted s
  · rwa [hr] at h
  · rw [hr] at h
    exact mem_of_mem_filter h

theorem mem_request {req : Request} (h : listener∈(s.request req).listeners) :
    listener∈s.listeners ∨ req.adds listener.fd := by
  cases req with
  | remove fd deleted => exact .inl (mem_removeListener h)
  | add fd timeoutTime role registered =>
    rw [request, addListener] at h
    split at h
    · rw [destroy_listeners] at h
      exact .inl h
    · rename_i hr
      obtain rfl | hm := (mem_orderedInsert _).mp h
      · right
        simp only [not_or, Bool.not_eq_true, Bool.not_eq_false'] at hr
        simp [Request.adds, hr.2]
      · exact .inl hm

theorem mem_foldl_request {reqs : List Request} (h : listener∈(reqs.foldl request s).listeners) :
    listener∈s.listeners ∨ ∃ req∈reqs, req.adds listener.fd := by
  induction reqs generalizing s with
  | nil => exact .inl h
  | cons req reqs ih =>
    obtain hs | ⟨new, hm, ha⟩ := ih h
    · exact (mem_request hs).imp_right fun ha => ⟨req, mem_cons_self, ha⟩
    · exact .inr ⟨new, mem_cons_of_mem _ hm, ha⟩

theorem mem_deliver {event : Delivered} (h : listener∈(s.deliver event).2.listeners) :
    listener∈s.listeners ∨ ∃ req∈event.requests, req.adds listener.fd := by
  unfold deliver at h
  split at h
  · exact .inl (mem_removeListener h)
  · split at h
    · exact .inl h
    · dsimp only at h
      split at h
      · exact mem_foldl_request (mem_removeListener h)
      · exact mem_foldl_request h

theorem deliver_called {event : Delivered} (h : (s.deliver event).1=some listener) :
    event.readable ∧ listener∈s.listeners ∧ listener.fd=event.fd := by
  unfold deliver at h
  split at h
  · cases h
  · rename_i hr
    split at h
    · cases h
    · rename_i target ht
      obtain rfl : target=listener := Option.some.inj h
      exact ⟨by simpa using hr, mem_of_find?_eq_some ht, by simpa using find?_some ht⟩

end Server

/-- No handler adds a listener whose descriptor a later event of the batch reports as readable. -/
def Separate (events : List Delivered) : Prop :=
  events.Pairwise fun event later => later.readable → ∀ req ∈ event.requests, ¬req.adds later.fd

namespace Server

-- For the events that are left, the listeners with their descriptors are those the wait found.
theorem mem_deliverAll {events : List Delivered} (he : Separate events) {known : List EpollListener} {s : Server}
    (hk : ∀ event∈events, event.readable → ∀ listener∈s.listeners, listener.fd=event.fd → listener∈known) :
    ∀ listener∈(deliverAll events s).1, listener∈known := by
  induction events generalizing s with
  | nil => exact fun _ h => absurd h not_mem_nil
  | cons event events ih =>
    intro listener hl
    obtain ⟨hf, he⟩ := pairwise_cons.mp he
    obtain hl | hl := mem_append.mp hl
    · obtain ⟨hr, hm, hd⟩ := deliver_called (Option.mem_toList.mp hl)
      exact hk event mem_cons_self hr listener hm hd
    · refine ih he (fun later hm hr l hl hd => ?_) listener hl
      obtain hs | ⟨req, hq, ha⟩ := mem_deliver hl
      · exact hk later (mem_cons_of_mem _ hm) hr l hs hd
      · exact absurd (hd ▸ ha) (hf later hm hr req hq)

/-- If no handler adds what a later event of the batch reports, only listeners that the wait found are called. -/
theorem startEpoll_registered (s : Server) (waits : List Wait)
    (h : ∀ events, .delivered events ∈ waits → Separate events) :
    ∀ call ∈ startEpoll waits s, call.2 ∈ call.1 := by
  induction waits generalizing s with
  | nil => exact fun _ hc => absurd hc not_mem_nil
  | cons wait waits ih =>
    have hw := fun events he => h events (mem_cons_of_mem _ he)
    cases wait with
    | expired now requests deleted => exact ih _ hw
    | delivered events =>
      intro call hc
      obtain hc | hc := mem_append.mp hc
      · obtain ⟨listener, hl, rfl⟩ := mem_map.mp hc
        exact mem_deliverAll (h events mem_cons_self) (fun _ _ _ _ hl _ => hl) listener hl
      · exact ih _ hw call hc

def twoTimers : Server :=
  ⟨[⟨0, 5, 2^63-1, .other⟩, ⟨1, 6, 2^63-1, .other⟩], [], 2⟩

-- Both timers are due. In the second run the handler of the first closes the other, and its number is used again.
theorem startEpoll_two_timers :
    (startEpoll [.delivered [⟨5, true, [.add 7 0 .other true], .keep, true⟩, ⟨6, true, [], .keep, true⟩]]
      twoTimers).length = 2 ∧
      ∀ call ∈ startEpoll [.delivered [⟨5, true, [.add 7 0 .other true], .keep, true⟩, ⟨6, true, [], .keep, true⟩]]
        twoTimers,
        call.2 ∈ call.1 := ⟨by decide, startEpoll_registered _ _ (by simp [Separate, Request.adds])⟩

/-- A handler removes the other timer and adds a listener with its descriptor. -/
theorem reused_descriptor_dispatched :
    ∃ call ∈ startEpoll [.delivered [⟨5, true, [.remove 6 true, .add 6 (2^63-1) .other true], .keep, true⟩,
      ⟨6, true, [], .keep, true⟩]] twoTimers, call.2 ∉ call.1 := by
  decide

end Server

end Faultloggerd.ServerLoop
