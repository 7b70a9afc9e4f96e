import Mathlib.Algebra.Order.Ring.Unbundled.Rat
import KisAutotrader.Interleaving

/-!
# The websocket manager

Every call of the manager, and every receive loop, is a task that runs up to its
next await. An event makes a call, or resumes a task from an await that has
ended well or with an exception.
-/
namespace KisAutotrader.WebSocketManager

def subscribeDebounceInterval : ℚ := 1

def maxSubscriptions : ℕ := 41

abbrev StockCode := String

inductive ConnectionState
  | disconnected
  | connecting
  | connected
  | subscribing
  | active
deriving DecidableEq

/-- The awaits of `subscribe` and `unsubscribe`: the sleep of `_debounce`, and a send. -/
inductive Await
  | debounce (wake : ℚ)
  | send (ws : ℕ)
deriving DecidableEq

/-- Where a task is suspended. -/
inductive Task
  /-- `connect`: the handshake -/
  | connecting
  /-- `disconnect`: the send of one code, with the codes after it -/
  | unsubscribingAll (codes : List StockCode)
  /-- `disconnect`: the end of the receive task -/
  | cancelling
  /-- `disconnect`: the closing handshake -/
  | closing
  | subscribing (code : StockCode) (await : Await)
  | unsubscribing (code : StockCode) (await : Await)
  /-- a receive loop before its condition -/
  | looping
  | receiving
  /-- a receive loop in its message handlers -/
  | handling
  /-- `_handle_disconnect`: the delay before an attempt -/
  | sleeping (saved : List StockCode) (wake : ℚ)
  /-- `_handle_disconnect`: the handshake of an attempt -/
  | reconnecting (saved : List StockCode)
  /-- `_handle_disconnect`: inside `subscribe`, with the codes after this one -/
  | resubscribing (saved rest : List StockCode) (code : StockCode) (await : Await)
  | finished
deriving DecidableEq

inductive Caller
  | user
  | reconnect
deriving DecidableEq

/-- `subscribe` was called by the user, a code was added to the set, a call of `unsubscribe`
completed. -/
inductive Entry
  | called (code : StockCode)
  | subscribed (caller : Caller) (code : StockCode)
  | unsubscribed (code : StockCode)
deriving DecidableEq

/-- The manager with its tasks; connections are numbered, and `sent` lists the subscribe
messages sent on each. -/
structure Manager where
  maxReconnect : ℕ
  baseDelay : ℚ
  state : ConnectionState := .disconnected
  ws : Option ℕ := none
  subscriptions : List StockCode := []
  reconnectCount : ℕ := 0
  lastSubscribeTime : ℚ := 0
  receiveTask : Option ℕ := none
  running : Bool := false
  clock : ℚ
  tasks : List Task := []
  connections : ℕ := 0
  sent : List (ℕ × StockCode) := []
  log : List Entry := []

/-- How a call ends, or what it waits for. -/
inductive Outcome
  | returned
  | raised
  | waits (await : Await)
deriving DecidableEq

namespace Manager

def put (i : ℕ) (t : Task) (m : Manager) : Manager := { m with tasks := m.tasks.set i t }

def note (entry : Entry) (m : Manager) : Manager := { m with log := m.log ++ [entry] }

/-- A new task, numbered, runs up to its first await. -/
def call (f : ℕ → Manager → Manager) (m : Manager) : Manager :=
  f m.tasks.length { m with tasks := m.tasks ++ [.finished] }

def startReceiving (m : Manager) : Manager :=
  { m with receiveTask := some m.tasks.length, tasks := m.tasks ++ [.looping] }

def debounced (m : Manager) : Bool :=
  decide (m.clock - m.lastSubscribeTime < subscribeDebounceInterval)

/-- The connection is gone, or an attempt to connect has failed. -/
def lose (m : Manager) : Manager := { m with state := .disconnected, ws := none }

def establish (m : Manager) : Manager :=
  { m with state := .connected, ws := some m.connections, connections := m.connections + 1,
           running := true }

/-- The end of `subscribe`. -/
def subscribed (caller : Caller) (code : StockCode) (m : Manager) : Manager :=
  { m with subscriptions := if code ∈ m.subscriptions then m.subscriptions else m.subscriptions ++ [code],
           state := .active, lastSubscribeTime := m.clock, log := m.log ++ [.subscribed caller code] }

/-- `subscribe` after its debounce; without a connection `_send_subscribe` sends nothing. -/
def sendSubscribe (caller : Caller) (code : StockCode) (m : Manager) : Manager × Outcome :=
  match m.ws with
  | some ws => ({ m with state := .subscribing }, .waits (.send ws))
  | none => (m.subscribed caller code, .returned)

def subscribe (caller : Caller) (code : StockCode) (m : Manager) : Manager × Outcome :=
  if ¬ (m.state = .connected ∨ m.state = .active) then (m, .raised)
  else if code ∈ m.subscriptions then (m, .returned)
  else if m.subscriptions.length ≥ maxSubscriptions then (m, .returned)
  else if m.debounced then (m, .waits (.debounce (m.lastSubscribeTime + subscribeDebounceInterval)))
  else m.sendSubscribe caller code

/-- `subscribe` resumed from an await. -/
def resumeSubscribe (caller : Caller) (code : StockCode) (await : Await) (ok : Bool) (m : Manager) :
    Manager × Outcome :=
  match await with
  | .debounce wake => if m.clock < wake then (m, .waits await) else m.sendSubscribe caller code
  | .send ws =>
      if ok then ({ m with sent := (ws, code)::m.sent }.subscribed caller code, .returned)
      else (m, .raised)

/-- The end of `unsubscribe`. -/
def unsubscribed (code : StockCode) (m : Manager) : Manager :=
  { m with subscriptions := m.subscriptions.erase code,
           state := if m.subscriptions.erase code = [] then .connected else m.state,
           log := m.log ++ [.unsubscribed code] }

def sendUnsubscribe (code : StockCode) (m : Manager) : Manager × Outcome :=
  match m.ws with
  | some ws => (m, .waits (.send ws))
  | none => (m.unsubscribed code, .returned)

def unsubscribe (code : StockCode) (m : Manager) : Manager × Outcome :=
  if code ∉ m.subscriptions then (m.note (.unsubscribed code), .returned)
  else if m.debounced then (m, .waits (.debounce (m.lastSubscribeTime + subscribeDebounceInterval)))
  else m.sendUnsubscribe code

def resumeUnsubscribe (code : StockCode) (await : Await) (ok : Bool) (m : Manager) :
    Manager × Outcome :=
  match await with
  | .debounce wake => if m.clock < wake then (m, .waits await) else m.sendUnsubscribe code
  | .send _ => if ok then (m.unsubscribed code, .returned) else (m, .raised)

/-- A task goes on as its call does. -/
def settle (i : ℕ) (waiting : Await → Task) : Manager × Outcome → Manager
  | (m, .waits await) => m.put i (waiting await)
  | (m, _) => m.put i .finished

def connect (i : ℕ) (m : Manager) : Manager :=
  if m.state ≠ .disconnected then m.put i .finished
  else { m with state := .connecting }.put i .connecting

/-- The handshake of `connect` has ended. -/
def connected (i : ℕ) (ok : Bool) (m : Manager) : Manager :=
  if ok then ({ m.establish with reconnectCount := 0 }.startReceiving).put i .finished
  else { m with state := .disconnected }.put i .finished

def close (i : ℕ) (m : Manager) : Manager :=
  match m.ws with
  | some _ => m.put i .closing
  | none => m.lose.put i .finished

/-- `disconnect` after its sends: a receive task that is not done is cancelled, which ends it
at its await. -/
def cancelReceive (i : ℕ) (m : Manager) : Manager :=
  match m.receiveTask with
  | some j => if m.tasks[j]? = some .finished then m.close i else (m.put j .finished).put i .cancelling
  | none => m.close i

def unsubscribeAll (i : ℕ) (codes : List StockCode) (m : Manager) : Manager :=
  match codes, m.ws with
  | _::rest, some _ => m.put i (.unsubscribingAll rest)
  | _, _ => { m with subscriptions := [] }.cancelReceive i

def disconnect (i : ℕ) (m : Manager) : Manager :=
  if m.state = .disconnected then m.put i .finished
  else { m with running := false }.unsubscribeAll i m.subscriptions

def receiveLoop (i : ℕ) (m : Manager) : Manager :=
  if m.running ∧ m.ws ≠ none then m.put i .receiving else m.put i .finished

/-- The head of the reconnect loop, which raises after its last attempt. -/
def reconnectLoop (i : ℕ) (saved : List StockCode) (m : Manager) : Manager :=
  if m.reconnectCount < m.maxReconnect then
    { m with reconnectCount := m.reconnectCount + 1 }.put i
      (.sleeping saved (m.clock + min (m.baseDelay * 2 ^ m.reconnectCount) 60))
  else m.put i .finished

def handleDisconnect (i : ℕ) (m : Manager) : Manager := m.lose.reconnectLoop i m.subscriptions

/-- The saved subscriptions are restored one after the other, then the receive loop is. -/
def restore (i : ℕ) (saved : List StockCode) : List StockCode → Manager → Manager
  | [], m => { m.startReceiving with reconnectCount := 0 }.put i .finished
  | code::rest, m =>
      match m.subscribe .reconnect code with
      | (m, .returned) => restore i saved rest m
      | (m, .raised) => m.lose.reconnectLoop i saved
      | (m, .waits await) => m.put i (.resubscribing saved rest code await)

def reconnected (i : ℕ) (saved : List StockCode) (ok : Bool) (m : Manager) : Manager :=
  if ok then { m.establish with subscriptions := [] }.restore i saved saved
  else m.lose.reconnectLoop i saved

/-- The reconnect loop after an await inside `subscribe`. -/
def resubscribed (i : ℕ) (saved rest : List StockCode) (code : StockCode) :
    Manager × Outcome → Manager
  | (m, .returned) => m.restore i saved rest
  | (m, .raised) => m.lose.reconnectLoop i saved
  | (m, .waits await) => m.put i (.resubscribing saved rest code await)

/-- A task resumes; `ok` says whether its await ended without an exception. -/
def resume (i : ℕ) (ok : Bool) : Task → Manager → Manager
  | .connecting, m => m.connected i ok
  | .unsubscribingAll codes, m => if ok then m.unsubscribeAll i codes else m.put i .finished
  | .cancelling, m => m.close i
  | .closing, m => if ok then m.lose.put i .finished else m.put i .finished
  | .subscribing code await, m =>
      settle i (.subscribing code) (m.resumeSubscribe .user code await ok)
  | .unsubscribing code await, m => settle i (.unsubscribing code) (m.resumeUnsubscribe code await ok)
  | .looping, m => m.receiveLoop i
  | .receiving, m => if ok then m.put i .handling else m.handleDisconnect i
  | .handling, m => m.receiveLoop i
  | .sleeping saved wake, m =>
      if m.clock < wake then m else { m with state := .connecting }.put i (.reconnecting saved)
  | .reconnecting saved, m => m.reconnected i saved ok
  | .resubscribing saved rest code await, m =>
      resubscribed i saved rest code (m.resumeSubscribe .reconnect code await ok)
  | .finished, m => m

end Manager

/-- What can happen: time passes, a method is called, a task resumes. The set has no order, so
its list may be rearranged at any time. -/
inductive Event
  | tick (now : ℚ)
  | connect
  | disconnect
  | subscribe (code : StockCode)
  | unsubscribe (code : StockCode)
  | resume (i : ℕ) (ok : Bool)
  | reorder (codes : List StockCode)

open Manager in
def step (m : Manager) : Event → Manager
  | .tick now => { m with clock := max m.clock now }
  | .connect => m.call Manager.connect
  | .disconnect => m.call Manager.disconnect
  | .subscribe code =>
      (m.note (.called code)).call fun i m => settle i (.subscribing code) (m.subscribe .user code)
  | .unsubscribe code => m.call fun i m => settle i (.unsubscribing code) (m.unsubscribe code)
  | .resume i ok =>
      match m.tasks[i]? with
      | some t => m.resume i ok t
      | none => m
  | .reorder codes => if codes.Perm m.subscriptions then { m with subscriptions := codes } else m

end KisAutotrader.WebSocketManager
