import Mathlib.Algebra.Ring.Nat
import Raicoin.Lib.Machine

-- `rai::WebsocketClient`: a queue of messages that is written to one connection after another.
namespace Raicoin

open Lib

inductive WebsocketStatus where
  | DISCONNECTED
  | CONNECTING
  | CONNECTED
  deriving DecidableEq

inductive ClientMessage where
  | given (text : String)
  | keeplive (timestamp : UInt64)
  deriving DecidableEq

-- An entry of `send_queue_`. The number tells it from other entries of the same text, which
-- the code has no need to do.
structure QueuedMessage where
  content : ClientMessage
  number : Nat
  deriving DecidableEq

def QueuedMessage.isGiven (m : QueuedMessage) : Bool :=
  match m.content with
  | .given _ => true
  | .keeplive _ => false

-- An `async_write` that has not completed.
structure Writing where
  stream : Nat
  sessionId : UInt32
  message : QueuedMessage
  deriving DecidableEq

inductive ConnectStage where
  | resolve
  | connect
  | sslHandshake
  | websocketHandshake
  deriving DecidableEq

-- The operation that takes a new connection on, before it has completed.
structure Connecting where
  stream : Nat
  sessionId : UInt32
  stage : ConnectStage
  deriving DecidableEq

inductive WebsocketEvent where
  | accepted (message : QueuedMessage)
  | written (stream : Nat) (message : QueuedMessage)
  -- `OnSend` was told that the write succeeded, and did not turn it away
  | succeeded (message : QueuedMessage)
  | left (message : QueuedMessage)
  deriving DecidableEq

-- Times are in nanoseconds; 0 is `time_point()`.
structure WebsocketClient where
  ssl : Bool
  keeplive : Bool
  stopped : Bool
  status : WebsocketStatus
  sessionId : UInt32
  stream : Option Nat
  sending : Bool
  sendQueue : List QueuedMessage
  connectAt : Nat
  keepliveSentAt : Nat
  keepliveReceivedAt : Nat
  -- The number of streams made so far, which is the name of the last one.
  streams : Nat
  -- The operations of the streams that are in progress.
  connects : List Connecting
  writes : List Writing
  -- How many entries the queue has had, and what happened.
  queued : Nat
  log : List WebsocketEvent
  deriving DecidableEq

inductive WebsocketAction where
  | send (message : String)
  | run (now : Nat) (timestamp : UInt64)
  -- the operation at an index completes
  | connected (index : Nat) (failed nameFailed : Bool)
  | sent (index : Nat) (failed : Bool) (size : Nat)
  | received (sessionId : UInt32) (failed : Bool) (size : Nat) (keepliveAck : Bool) (now : Nat)
  | close

def seconds (n : Nat) : Nat := n * 10 ^ 9

def MAX_QUEUE_SIZE : Nat := 2048

namespace WebsocketClient

def fresh (ssl keeplive : Bool) : WebsocketClient where
  ssl
  keeplive
  stopped := false
  status := .DISCONNECTED
  sessionId := 0
  stream := none
  sending := false
  sendQueue := []
  connectAt := 0
  keepliveSentAt := 0
  keepliveReceivedAt := 0
  streams := 0
  connects := []
  writes := []
  queued := 0
  log := []

variable (c : WebsocketClient)

def note (event : WebsocketEvent) : WebsocketClient := { c with log := c.log ++ [event] }

-- `ChangeStatus_` followed by `CloseStream_`.
def disconnect : WebsocketClient := { c with status := .DISCONNECTED, stream := none }

def send_ : WebsocketClient :=
  match c.sendQueue, c.stream with
  | message :: _, some stream =>
      if c.status = .CONNECTED then
        note { c with writes := c.writes ++ [⟨stream, c.sessionId, message⟩] }
          (.written stream message)
      else { c with sending := false }
  | _, _ => { c with sending := false }

def trySend_ : WebsocketClient :=
  if c.sending then c else { c with sending := true }.send_

def pushBack (content : ClientMessage) : WebsocketClient :=
  note { c with sendQueue := c.sendQueue ++ [⟨content, c.queued⟩], queued := c.queued + 1 }
    (.accepted ⟨content, c.queued⟩)

def pushFront (content : ClientMessage) : WebsocketClient :=
  { c with sendQueue := ⟨content, c.queued⟩ :: c.sendQueue, queued := c.queued + 1 }

def popFront : WebsocketClient :=
  match c.sendQueue with
  | [] => c
  | message :: rest => note { c with sendQueue := rest } (.left message)

def send (message : String) : WebsocketClient :=
  if c.stopped ∨ message.isEmpty then c
  else if c.sendQueue.length ≥ MAX_QUEUE_SIZE then c
  else (c.pushBack (.given message)).trySend_

def sendKeeplive_ (timestamp : UInt64) : WebsocketClient :=
  (c.pushFront (.keeplive timestamp)).trySend_

def keepliveDue (now : Nat) : Prop :=
  c.keepliveSentAt = 0 ∨ c.keepliveSentAt + seconds 60 < now

instance (now : Nat) : Decidable (c.keepliveDue now) := inferInstanceAs (Decidable (_ ∨ _))

-- What `Run` does about keeplives on a connection.
def checkKeeplive (now : Nat) (timestamp : UInt64) : WebsocketClient :=
  let c := if c.keepliveDue now then { c.sendKeeplive_ timestamp with keepliveSentAt := now } else c
  if c.keepliveReceivedAt = 0 then { c with keepliveReceivedAt := now } else c

-- What `Run` does to start a new session.
def reconnect (now : Nat) : WebsocketClient :=
  { c with
    connectAt := now
    status := .CONNECTING
    stream := some (c.streams + 1)
    streams := c.streams + 1
    sessionId := c.sessionId + 1
    sending := false
    connects := c.connects ++ [⟨c.streams + 1, c.sessionId + 1, .resolve⟩] }

def retry (now : Nat) : WebsocketClient :=
  if c.status = .CONNECTING ∧ c.connectAt + seconds 10 ≥ now then c else c.reconnect now

def run (now : Nat) (timestamp : UInt64) : WebsocketClient :=
  if c.stopped then c
  else if c.status = .CONNECTED then
    if c.keeplive = false then c
    else
      let c := c.checkKeeplive now timestamp
      if c.keepliveReceivedAt + seconds 300 ≥ now then c else c.retry now
  else c.retry now

-- The next operation of a new connection.
def proceed (done : Connecting) (stage : ConnectStage) : WebsocketClient :=
  { c with connects := c.connects ++ [⟨done.stream, done.sessionId, stage⟩] }

def onResolve (done : Connecting) (failed : Bool) : WebsocketClient :=
  if c.stopped ∨ done.sessionId ≠ c.sessionId then c
  else if failed then c.disconnect
  else c.proceed done .connect

-- `nameFailed` says that the name of the host could not be set for TLS.
def onConnect (done : Connecting) (failed nameFailed : Bool) : WebsocketClient :=
  if c.stopped ∨ done.sessionId ≠ c.sessionId then c
  else if failed then c.disconnect
  else if c.ssl then
    if nameFailed then c.disconnect else c.proceed done .sslHandshake
  else c.proceed done .websocketHandshake

def onSslHandshake (done : Connecting) (failed : Bool) : WebsocketClient :=
  if c.stopped ∨ done.sessionId ≠ c.sessionId then c
  else if failed then c.disconnect
  else c.proceed done .websocketHandshake

def onWebsocketHandshake (done : Connecting) (failed : Bool) : WebsocketClient :=
  if c.stopped ∨ done.sessionId ≠ c.sessionId then c
  else if failed then c.disconnect
  else
    let c := { c with status := .CONNECTED }
    let c := if c.keeplive then { c with keepliveSentAt := 0, keepliveReceivedAt := 0 } else c
    c.trySend_

def onSend (done : Writing) (failed : Bool) (size : Nat) : WebsocketClient :=
  if c.stopped ∨ done.sessionId ≠ c.sessionId ∨ c.status ≠ .CONNECTED then c
  else if failed ∨ size = 0 then c.disconnect
  else (c.note (.succeeded done.message)).popFront.send_

-- What follows, the message's processor and the next read, leaves the client as it is; what the
-- processor sends is sent by actions of its own.
def onReceive (sessionId : UInt32) (failed : Bool) (size : Nat) (keepliveAck : Bool) (now : Nat) :
    WebsocketClient :=
  if c.stopped ∨ sessionId ≠ c.sessionId ∨ c.status ≠ .CONNECTED then c
  else if failed ∨ size = 0 then c.disconnect
  else if keepliveAck then { c with keepliveReceivedAt := now }
  else c

def close : WebsocketClient :=
  if c.stopped then c
  else if c.stream = none ∨ c.status = .DISCONNECTED then { c with stopped := true }
  else { c with stopped := true }.disconnect

def onConnected (done : Connecting) (failed nameFailed : Bool) : WebsocketClient :=
  match done.stage with
  | .resolve => c.onResolve done failed
  | .connect => c.onConnect done failed nameFailed
  | .sslHandshake => c.onSslHandshake done failed
  | .websocketHandshake => c.onWebsocketHandshake done failed

def take : WebsocketAction → WebsocketClient
  | .send message => c.send message
  | .run now timestamp => c.run now timestamp
  | .connected index failed nameFailed =>
      match c.connects[index]? with
      | none => c
      | some done =>
          { c with connects := c.connects.eraseIdx index }.onConnected done failed nameFailed
  | .sent index failed size =>
      match c.writes[index]? with
      | none => c
      | some done => { c with writes := c.writes.eraseIdx index }.onSend done failed size
  | .received sessionId failed size keepliveAck now =>
      c.onReceive sessionId failed size keepliveAck now
  | .close => c.close

-- An operation completes that is in progress.
def Fits : WebsocketAction → Prop
  | .connected index _ _ => index < c.connects.length
  | .sent index _ _ => index < c.writes.length
  | .send _ | .run _ _ | .received _ _ _ _ _ | .close => True

instance (action : WebsocketAction) : Decidable (c.Fits action) :=
  match action with
  | .connected index _ _ => inferInstanceAs (Decidable (index < c.connects.length))
  | .sent index _ _ => inferInstanceAs (Decidable (index < c.writes.length))
  | .send _ | .run _ _ | .received _ _ _ _ _ | .close => isTrue trivial

end WebsocketClient

def websocketMachine : Machine WebsocketClient WebsocketAction where
  start c := ∃ ssl keeplive, c = .fresh ssl keeplive
  fits := WebsocketClient.Fits
  step := WebsocketClient.take

end Raicoin
