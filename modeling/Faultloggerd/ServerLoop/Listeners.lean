import Faultloggerd.Foundations.KeyedList
import Mathlib.Algebra.Group.Int.Defs
import Mathlib.Algebra.Group.Nat.Defs
import Mathlib.Data.List.Sort

/-! # Listeners of the server loop

`EpollManager` owns the listeners of a thread, and `SocketServer` counts the connections of each user. A connection is a
`ClientRequestListener`: it is counted where it is accepted and taken off the count by its destructor.
-/
namespace Faultloggerd.ServerLoop
open Foundations

/-- The classes of listeners; `other` stands for the timers and file watchers of the services. -/
inductive Role where
  | socketServer
  | clientRequest (socketServerListener : ℕ) (clientUid : ℕ)
  | other
deriving DecidableEq

structure EpollListener where
  address : ℕ
  fd : ℤ
  timeoutTime : ℤ
  role : Role
deriving DecidableEq

/-- `listeners_` of the manager, `connectionNums_` of the server, and the next address. -/
structure Server where
  listeners : List EpollListener
  connectionNums : List (ℕ×ℕ)
  next : ℕ

def Server.initial : Server :=
  ⟨[], [], 0⟩

def EpollListener.isClientOf (uid : ℕ) (listener : EpollListener) : Bool :=
  match listener.role with
  | .clientRequest _ clientUid => clientUid == uid
  | _ => false

def timeoutTime (now : ℕ) (timeoutInMs : ℤ) : ℤ :=
  if timeoutInMs ≥ 0 then now+timeoutInMs*1000 else 2^63-1

namespace Server

def connectionNum (uid : ℕ) (s : Server) : ℕ :=
  ((KeyedList.find Prod.fst uid s.connectionNums).map Prod.snd).getD 0

def touch (uid : ℕ) (s : Server) : Server :=
  match KeyedList.find Prod.fst uid s.connectionNums with
  | some _ => s
  | none => {s with connectionNums := s.connectionNums ++ [(uid, 0)]}

def setConnectionNum (uid num : ℕ) (s : Server) : Server :=
  {s with connectionNums := KeyedList.modify Prod.fst uid (fun _ => (uid, num)) s.connectionNums}

def erase (uid : ℕ) (s : Server) : Server :=
  {s with connectionNums := KeyedList.remove Prod.fst uid s.connectionNums}

def decrement (num : ℕ) : ℕ :=
  if num = 0 then 2^32-1 else num-1

/-- `ClientRequestListener::~ClientRequestListener`; the other classes have nothing to do with the connections. -/
def destroy (s : Server) (listener : EpollListener) : Server :=
  match listener.role with
  | .clientRequest _ clientUid =>
    let s := s.touch clientUid
    let num := decrement (s.connectionNum clientUid)
    let s := s.setConnectionNum clientUid num
    if num = 0 then s.erase clientUid else s
  | _ => s

/-- `AddListener`; `registered` is what `AddEpollEvent` returns. A listener that is not taken is destroyed on the way
back. -/
def addListener (listener : EpollListener) (registered : Bool) (s : Server) : Bool × Server :=
  if listener.fd < 0 ∨ !registered then (false, s.destroy listener)
  else (true, {s with
    listeners := s.listeners.orderedInsert (fun new old => new.timeoutTime<old.timeoutTime) listener})

/-- `RemoveListener`; `deleted` is what `DelEpollEvent` returns. -/
def removeListener (fd : ℤ) (deleted : Bool) (s : Server) : Bool × Server :=
  if fd < 0 ∨ !deleted then (false, s)
  else (true, (s.listeners.filter fun listener => decide (listener.fd=fd)).foldl destroy
    {s with listeners := s.listeners.filter fun listener => !decide (listener.fd=fd)})

def getTargetListener (fd : ℤ) (s : Server) : Option EpollListener :=
  s.listeners.find? fun listener => decide (listener.fd=fd)

def handleTimeOut (now : ℕ) (deleted : Bool) (s : Server) : Server :=
  match s.listeners with
  | [] => s
  | front :: _ => if front.timeoutTime ≤ now then (s.removeListener front.fd deleted).2 else s

end Server

inductive EventResult where
  | keep
  | remove
deriving DecidableEq

/-- A connection that `accept` returned: the user that `getsockopt` names, whether there is memory for its listener, and
whether the listener can be registered. -/
structure Accepted where
  fd : ℤ
  credentials : Option ℕ
  allocated : Bool
  registered : Bool

structure Added where
  fd : ℤ
  timeoutTime : ℤ
  registered : Bool

structure Polled where
  fd : ℤ
  /-- `EPOLLIN` is among the events -/
  readable : Bool
  accepted : Option Accepted
  added : List Added
  result : EventResult
  deleted : Bool

def epollTimeoutInMilliseconds : ℤ := 20*1000

def connectionLimit : ℕ := 5

namespace Server

def addOther (s : Server) (added : Added) : Server :=
  (addListener ⟨s.next, added.fd, added.timeoutTime, .other⟩ added.registered {s with next := s.next+1}).2

def accept (now socketServerListener : ℕ) (connection : Accepted) (s : Server) : Server :=
  match connection.credentials with
  | none => s
  | some uid =>
    let s := s.touch uid
    let connectionNum := s.connectionNum uid
    if connectionNum ≥ connectionLimit then s
    else if !connection.allocated then s
    else
      let listener := ⟨s.next, connection.fd, timeoutTime now epollTimeoutInMilliseconds,
        .clientRequest socketServerListener uid⟩
      let s := {s with next := s.next+1}
      (addListener listener connection.registered (s.setConnectionNum uid ((connectionNum+1) % 2^32))).2

/-- `OnEventPoll` of the three classes; while a request is handled, its service may add listeners. -/
def onEventPoll (now : ℕ) (listener : EpollListener) (event : Polled) (s : Server) : EventResult × Server :=
  match listener.role with
  | .socketServer =>
    match event.accepted with
    | none => (.keep, s)
    | some connection => (.keep, s.accept now listener.address connection)
  | .clientRequest _ _ => (.remove, event.added.foldl addOther s)
  | .other => (event.result, event.added.foldl addOther s)

def handleEvent (now : ℕ) (event : Polled) (s : Server) : Server :=
  if !event.readable then (s.removeListener event.fd event.deleted).2
  else
    match s.getTargetListener event.fd with
    | none => s
    | some listener =>
      let handled := s.onEventPoll now listener event
      if handled.1 = .remove then (handled.2.removeListener event.fd event.deleted).2 else handled.2

def addServerListener (fd : ℤ) (registered : Bool) (s : Server) : Server :=
  (addListener ⟨s.next, fd, timeoutTime 0 (-1), .socketServer⟩ registered {s with next := s.next+1}).2

end Server

/-- What happens to the listeners of the thread: a socket is opened, the wait expires, or an event is reported. -/
inductive LoopEvent where
  | listen (fd : ℤ) (registered : Bool)
  | expired (now : ℕ) (deleted : Bool)
  | polled (now : ℕ) (event : Polled)

def Server.step : LoopEvent → Server → Server
  | .listen fd registered, s => s.addServerListener fd registered
  | .expired now deleted, s => s.handleTimeOut now deleted
  | .polled now event, s => s.handleEvent now event

end Faultloggerd.ServerLoop
