import Mqtt.Client.Basic

/-! The loop that reads packets and hands them on. -/
namespace Mqtt.Client

def toReceiver (c : Client) (receiver : Receiver) : Client :=
  c.onConnection fun k => { k with receiver }

def awaitPacket (c : Client) : Client :=
  c.toReceiver (.reading none 0)

def receiverSent (c : Client) (outcome : Except ClientError Unit) : Client :=
  match c.connection.receiver, outcome with
  | .answering, .ok _ => c.awaitPacket
  | .answering, .error e => c.toReceiver (.failing e)
  | _, _ => c

/-- An acknowledgment is kept for the worker, or answered here if it answers nothing. -/
def routeAck (c : Client) (ack : Packet) : Client :=
  if c.connection.queue.awaits ack then
    c.onConnection fun k => { k with acks := k.acks ++ [ack], receiver := .waking }
  else
    match ack with
    | .pubRel id =>
      let c := c.toReceiver .answering
      match c.post .receiver (.pubComp id) with
      | .ok c => c
      | .error e => c.receiverSent (.error e)
    | _ => c.awaitPacket

def route (c : Client) (packet : Packet) : Client :=
  let k := c.connection
  let violation (text : String) := c.toReceiver (.failing (.violation text))
  match packet with
  | .connAck ack =>
    if k.connack = .awaited then
      c.onConnection fun k => { k with connack := .answered ack, receiver := .resuming }
    else violation "CONNACK received on an established connection"
  | _ =>
    if k.connack = .awaited then violation s!"broker sent {packet.type.name} before CONNACK"
    else
      match packet with
      | .pingResp =>
        if k.pong = .awaited then
          c.onConnection fun k => { k with pong := .answered (), receiver := .reading none 0 }
        else c.awaitPacket
      | .publish p =>
        c.onConnection fun k => { k with queue := (k.queue.accept p).2, receiver := .waking }
      | .pubAck _ | .pubRec _ | .pubRel _ | .pubComp _ | .subAck _ | .unsubAck _ =>
        c.routeAck packet
      | _ => violation s!"broker sent {packet.type.name}, which only a client may send"

/-- The line has bytes, has ended, or is silent for too long. -/
def runReading (c : Client) (frame : Option FrameReader) (deadline : Nat) : Option Client :=
  let line := c.connection.line
  let fail (e : ClientError) := some (c.toReceiver (.failing e))
  match frame with
  | none =>
    match line.inbox with
    | first :: rest =>
      some (c.onConnection fun k => { k with
        line := { line with inbox := rest }
        receiver := .reading (some (.start first)) (c.now + c.settings.responseTimeout) })
    | [] => if line.ended then fail (.lost "connection closed by broker") else none
  | some reader =>
    if reader.isDone then
      match Packet.ofFrame reader.frame with
      | .ok packet => some (c.toReceiver (.routing packet))
      | .error e => fail (.ofFrame e reader.frame)
    else if line.inbox ≠ [] then
      match reader.read line.inbox with
      | .error e => fail (.ofPacket e)
      | .ok (reader, rest) =>
        some (c.onConnection fun k => { k with
          line := { line with inbox := rest }
          receiver := .reading (some reader) (c.now + c.settings.responseTimeout) })
    else if line.ended then fail (.ofPacket .connectionClosed)
    else if deadline ≤ c.now then fail (.ofPacket .timedOut)
    else none

/-- Nothing can answer CONNECT or PINGREQ any more. -/
def stopReceiver (c : Client) : Client :=
  c.onConnection fun k => { k with
    connack := k.connack.abandon, pong := k.pong.abandon, receiver := .stopped }

def runReceiver (c : Client) : Option Client :=
  let k := c.connection
  match k.receiver with
  | .reading frame deadline => c.runReading frame deadline
  | .routing packet => some (c.route packet)
  | .resuming =>
    if k.resumed then
      some (c.onConnection fun k => { k with resumed := false, receiver := .reading none 0 })
    else none
  | .waking =>
    some (c.onConnection fun k => { k with queueWake := true, receiver := .reading none 0 })
  | .answering =>
    if k.closing then some ((c.withdraw .receiver).receiverSent (.error .tooLate)) else none
  | .failing _ => some c.beginClose.stopReceiver
  | .stopped => none

/-- Stops where the loop waits, once the connection is to be taken down. -/
def breakReceiver (c : Client) : Option Client :=
  if !c.connection.closing then none
  else
    match c.connection.receiver with
    | .reading _ _ | .resuming => some c.stopReceiver
    | .answering => some (c.withdraw .receiver).stopReceiver
    | _ => none

end Mqtt.Client
