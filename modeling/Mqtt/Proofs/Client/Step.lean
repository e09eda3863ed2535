import Mqtt.Proofs.Client.Milestone

/-! What each task does to a client, one case for each way in which its next step can come out. -/
namespace Mqtt.Client

def Action.isOwn : Action → Bool
  | .run _ | .stop _ | .expire => true
  | _ => false

def isSending (c : Client) : Task → Bool
  | .caller => match c.caller with | .greeting _ | .parting => true | _ => false
  | .receiver => match c.connection.receiver with | .answering => true | _ => false
  | .worker => match c.connection.worker with | .sending _ _ => true | _ => false
  | .keeper => match c.connection.keeper with | .sending _ => true | _ => false
  | .dispatcher => false

/-- What the client says once the connection is to be taken down. -/
def closingStatus (c : Client) : Status :=
  if c.connection.closing = false ∧ c.status = .connected then .closing else c.status

/-- What the fate of a task's packet makes of the task. -/
inductive Heeds (c : Client) : Except ClientError Unit → Task → Client → Prop where
  | greeted {options : ConnectOptions} (hcaller : c.caller = .greeting options) :
      Heeds c (.ok ()) .caller
        { c with caller := .awaitingAck options (c.now + c.settings.responseTimeout) }
  | ungreeted {options : ConnectOptions} {e : ClientError}
      (hcaller : c.caller = .greeting options) :
      Heeds c (.error e) .caller
        { c with status := c.closingStatus, caller := .aborting e
                 connection := { c.connection with closing := true } }
  | parted {outcome : Except ClientError Unit} (hcaller : c.caller = .parting) :
      Heeds c outcome .caller { c with caller := .leaving }
  | answered (hreceiver : c.connection.receiver = .answering) :
      Heeds c (.ok ()) .receiver (c.toReceiver (.reading none 0))
  | unanswered {e : ClientError} (hreceiver : c.connection.receiver = .answering) :
      Heeds c (.error e) .receiver (c.toReceiver (.failing e))
  | delivered {rest : List Packet} {events : List Event}
      (hworker : c.connection.worker = .sending rest events) :
      Heeds c (.ok ()) .worker (c.toWorker (.writing rest events))
  | undelivered {rest : List Packet} {events : List Event} {e : ClientError}
      (hworker : c.connection.worker = .sending rest events) :
      Heeds c (.error e) .worker (c.toWorker (.publishing events (.error e)))
  | pinged {period : Nat} (hkeeper : c.connection.keeper = .sending period) :
      Heeds c (.ok ()) .keeper (c.toKeeper (.awaiting period (c.now + period)))
  | unpinged {period : Nat} {e : ClientError} (hkeeper : c.connection.keeper = .sending period) :
      Heeds c (.error e) .keeper (c.toKeeper (.failing e))
  | unheeded {outcome : Except ClientError Unit} {task : Task} (hidle : c.isSending task = false) :
      Heeds c outcome task c

/-! The call that opens or ends a connection. -/

/-- A new connection on a line, with CONNECT on its way if it has bytes. -/
inductive Greets (c : Client) (options : ConnectOptions) (line : Line) : Client → Prop where
  | posted {bytes : Octets} (hbytes : options.packet.encode = .ok bytes) :
      Greets c options line { c with
        status := .connecting, caller := .greeting options
        connection := {
          line, queue := .ofSettings c.settings, connack := .awaited, lastSent := c.now
          receiver := .reading none 0, writes := [⟨.caller, options.packet, bytes⟩] } }
  | unsendable {e : PacketError} (herror : options.packet.encode = .error e) :
      Greets c options line { c with
        status := .connecting, caller := .aborting (.ofPacket e)
        connection := {
          line, closing := true, queue := .ofSettings c.settings, connack := .awaited
          lastSent := c.now, receiver := .reading none 0 } }

inductive CallerStep (c : Client) : Action → Client → Prop where
  | joined {options : ConnectOptions} {line : Line} {d : Client}
      (hcaller : c.caller = .joining options line)
      (hended : c.connection.dispatcher = .stopped) (hgreets : c.Greets options line d) :
      CallerStep c (.run .caller) d
  | asked {options : ConnectOptions} {line : Line} {d : Client} (hcaller : c.caller = .idle)
      (hvalid : options.check = .ok ()) (hfree : c.established = false)
      (hgreets : c.Greets options line d) : CallerStep c (.connect options line) d
  | replaced {options : ConnectOptions} {line : Line} (hcaller : c.caller = .idle)
      (hvalid : options.check = .ok ()) (hestablished : c.established = true)
      (hinactive : c.isActive = false) :
      CallerStep c (.connect options line)
        { c with established := false, caller := .joining options line }
  | declined {a : Action} {e : ClientError} (hcaller : c.caller = .idle)
      (hasked : a.isOwn = false) (hline : ∀ count, a ≠ .write count)
      (hmilestone : c.milestone a = none) : CallerStep c a { c with caller := .done (.error e) }
  | departed {bytes : Octets} (hcaller : c.caller = .idle) (hactive : c.isActive = true)
      (hbytes : Packet.disconnect.encode = .ok bytes) :
      CallerStep c .disconnect { c with
        established := false, status := .closing, caller := .parting
        connection := { c.connection with
          writes := c.connection.writes ++ [⟨.caller, .disconnect, bytes⟩] } }
  | dismissed (hcaller : c.caller = .idle) (hestablished : c.established = true)
      (hinactive : c.isActive = false) :
      CallerStep c .disconnect { c with
        established := false, status := c.closingStatus
        caller := .awaitingEnd c.connection.closing
        connection := { c.connection with closing := true } }
  | finished {outcome : Except ClientError (Option ConnAck)} (hcaller : c.caller = .done outcome) :
      CallerStep c .finish { c with caller := .idle }
  | accepted {options : ConnectOptions} {deadline : Nat} {ack : ConnAck}
      (hcaller : c.caller = .awaitingAck options deadline)
      (hconnack : c.connection.connack = .answered ack) (haccepted : ack.isAccepted = true) :
      CallerStep c (.run .caller) { c with
        caller := .resuming options ack, connection := { c.connection with connack := .idle } }
  | refused {options : ConnectOptions} {deadline : Nat} {ack : ConnAck}
      (hcaller : c.caller = .awaitingAck options deadline)
      (hconnack : c.connection.connack = .answered ack) :
      CallerStep c (.run .caller) { c with
        status := c.closingStatus, caller := .aborting (.ofRefusal ack.returnCode)
        connection := { c.connection with connack := .idle, closing := true } }
  | unanswered {options : ConnectOptions} {deadline : Nat} {e : ClientError}
      (hcaller : c.caller = .awaitingAck options deadline)
      (hconnack : ∀ ack, c.connection.connack ≠ .answered ack)
      (hlate : e = .lost "connection closed before CONNACK" ∨
        e = .timedOut "CONNECT" c.settings.responseTimeout) :
      CallerStep c (.run .caller) { c with
        status := c.closingStatus, caller := .aborting e
        connection := { c.connection with closing := true } }
  | resumed {options : ConnectOptions} {ack : ConnAck} {loaded : Nat} {q : DeliveryQueue}
      {s : Session} (hcaller : c.caller = .resuming options ack)
      (hresume : c.connection.queue.resume c.session options.clientId options.cleanSession =
        (loaded, q, s)) :
      CallerStep c (.run .caller) { c with
        session := s, caller := .releasing options ack loaded
        connection := { c.connection with queue := q } }
  | released {options : ConnectOptions} {ack : ConnAck} {loaded : Nat}
      (hcaller : c.caller = .releasing options ack loaded) :
      CallerStep c (.run .caller) { c with
        caller := .opening options ack loaded
        connection := { c.connection with resumed := true } }
  | opened {options : ConnectOptions} {ack : ConnAck} {loaded : Nat}
      (hcaller : c.caller = .opening options ack loaded) :
      CallerStep c (.run .caller) (c.runOpen options ack loaded)
  | cleared {e : ClientError} (hcaller : c.caller = .aborting e)
      (hreceiver : c.connection.receiver = .stopped) :
      CallerStep c (.run .caller) { c with caller := .clearing e }
  | failed {e : ClientError} (hcaller : c.caller = .clearing e)
      (hwrites : c.connection.writes = []) :
      CallerStep c (.run .caller) { c with
        status := .disconnected, caller := .done (.error e)
        connection := { c.connection with line := c.connection.line.close c.now } }
  | left (hcaller : c.caller = .leaving) :
      CallerStep c (.run .caller) { c with
        status := c.closingStatus, caller := .awaitingEnd false
        connection := { c.connection with closing := true } }
  | ended {wasClosing : Bool} (hcaller : c.caller = .awaitingEnd wasClosing)
      (hended : c.connection.dispatcher = .stopped) :
      CallerStep c (.run .caller) { c with
        caller := .done (if wasClosing then .error .notConnected else .ok none) }
  | issued {a : Action} {call : Call} {r : Request} {id : UInt16} {q : DeliveryQueue} {s : Session}
      (hcaller : c.caller = .idle) (hactive : c.isActive = true)
      (hissue : c.connection.queue.issue c.session r.delivery = .ok (id, q, s))
      (hasked : a.isOwn = false) (hline : ∀ count, a ≠ .write count)
      (hcall : call.request = .ok r) (hmilestone : c.milestone a = some (.issued r id)) :
      CallerStep c a { c with
        session := s
        connection := { c.connection with
          queue := q, unsignalled := c.connection.unsignalled + 1 } }
  | unissued {a : Action} (hcaller : c.caller = .idle) (hasked : a.isOwn = false)
      (hline : ∀ count, a ≠ .write count) (hmilestone : c.milestone a = none) : CallerStep c a c
  | signalled {n : Nat} (hpending : c.connection.unsignalled = n + 1) :
      CallerStep c .signal { c with
        connection := { c.connection with queueWake := true, unsignalled := n } }

variable {c d : Client} {a : Action}

/-! The loop that reads packets. -/

inductive ReceiverStep (c : Client) : Action → Client → Prop where
  | read {frame frame' : Option FrameReader} {deadline deadline' : Nat} {rest : Octets}
      (hreceiver : c.connection.receiver = .reading frame deadline) :
      ReceiverStep c (.run .receiver) (c.onConnection fun k => { k with
        line := { k.line with inbox := rest }, receiver := .reading frame' deadline' })
  | received {reader : FrameReader} {deadline : Nat} {p : Packet}
      (hreceiver : c.connection.receiver = .reading (some reader) deadline)
      (hpacket : Packet.ofFrame reader.frame = .ok p) :
      ReceiverStep c (.run .receiver) (c.toReceiver (.routing p))
  | faulted {frame : Option FrameReader} {deadline : Nat} {e : ClientError}
      (hreceiver : c.connection.receiver = .reading frame deadline) :
      ReceiverStep c (.run .receiver) (c.toReceiver (.failing e))
  | acknowledged {ack : ConnAck} (hreceiver : c.connection.receiver = .routing (.connAck ack))
      (hconnack : c.connection.connack = .awaited) :
      ReceiverStep c (.run .receiver) (c.onConnection fun k => { k with
        connack := .answered ack, receiver := .resuming })
  | violated {p : Packet} {text : String} (hreceiver : c.connection.receiver = .routing p)
      (hconnack : ∀ ack, p = .connAck ack → c.connection.connack ≠ .awaited)
      (hearly : c.connection.connack = .awaited →
        text = s!"broker sent {p.type.name} before CONNACK")
      (hanswered : c.connection.connack ≠ .awaited → p ≠ .pingResp ∧ ∀ id, p ≠ .pubRel id) :
      ReceiverStep c (.run .receiver) (c.toReceiver (.failing (.violation text)))
  | answered (hreceiver : c.connection.receiver = .routing .pingResp)
      (hconnack : c.connection.connack ≠ .awaited) (hpong : c.connection.pong = .awaited) :
      ReceiverStep c (.run .receiver) (c.onConnection fun k => { k with
        pong := .answered (), receiver := .reading none 0 })
  | unsolicited (hreceiver : c.connection.receiver = .routing .pingResp)
      (hconnack : c.connection.connack ≠ .awaited) (hpong : c.connection.pong ≠ .awaited) :
      ReceiverStep c (.run .receiver) (c.toReceiver (.reading none 0))
  | taken {p : Publish} (hreceiver : c.connection.receiver = .routing (.publish p))
      (hconnack : c.connection.connack ≠ .awaited) :
      ReceiverStep c (.run .receiver) (c.onConnection fun k => { k with
        queue := (k.queue.accept p).2, receiver := .waking })
  | kept {ack : Packet} (hreceiver : c.connection.receiver = .routing ack)
      (hconnack : c.connection.connack ≠ .awaited)
      (hawaited : c.connection.queue.awaits ack = true) :
      ReceiverStep c (.run .receiver) (c.onConnection fun k => { k with
        acks := k.acks ++ [ack], receiver := .waking })
  | stale {ack : Packet} (hreceiver : c.connection.receiver = .routing ack)
      (hconnack : c.connection.connack ≠ .awaited)
      (hstale : c.connection.queue.awaits ack = false)
      (hanswered : ∀ id, ack ≠ .pubRel id) (hpong : ack ≠ .pingResp) :
      ReceiverStep c (.run .receiver) (c.toReceiver (.reading none 0))
  | released {id : UInt16} {bytes : Octets}
      (hreceiver : c.connection.receiver = .routing (.pubRel id))
      (hconnack : c.connection.connack ≠ .awaited)
      (hstale : c.connection.queue.awaits (.pubRel id) = false)
      (hbytes : (Packet.pubComp id).encode = .ok bytes) :
      ReceiverStep c (.run .receiver) (c.onConnection fun k => { k with
        receiver := .answering, writes := k.writes ++ [⟨.receiver, .pubComp id, bytes⟩] })
  | unreleased {id : UInt16} {e : PacketError}
      (hreceiver : c.connection.receiver = .routing (.pubRel id))
      (hconnack : c.connection.connack ≠ .awaited)
      (hstale : c.connection.queue.awaits (.pubRel id) = false)
      (herror : (Packet.pubComp id).encode = .error e) :
      ReceiverStep c (.run .receiver) (c.toReceiver (.failing (.ofPacket e)))
  | resumed (hreceiver : c.connection.receiver = .resuming)
      (hresumed : c.connection.resumed = true) :
      ReceiverStep c (.run .receiver) (c.onConnection fun k => { k with
        resumed := false, receiver := .reading none 0 })
  | woke (hreceiver : c.connection.receiver = .waking) :
      ReceiverStep c (.run .receiver) (c.onConnection fun k => { k with
        queueWake := true, receiver := .reading none 0 })
  | failed {e : ClientError} (hreceiver : c.connection.receiver = .failing e) :
      ReceiverStep c (.run .receiver) { c with
        status := c.closingStatus
        connection := { c.connection with
          closing := true, connack := c.connection.connack.abandon
          pong := c.connection.pong.abandon, receiver := .stopped } }
  | broken (hclosing : c.connection.closing = true)
      (hreceiver : c.connection.receiver = .resuming ∨
        ∃ frame deadline, c.connection.receiver = .reading frame deadline) :
      ReceiverStep c (.stop .receiver) c.stopReceiver
  | brokenOff (hclosing : c.connection.closing = true)
      (hreceiver : c.connection.receiver = .answering) :
      ReceiverStep c (.stop .receiver) (c.withdraw .receiver).stopReceiver

/-! The loop that works on the queue. -/

inductive WorkerStep (c : Client) : Action → Client → Prop where
  | rested (hworker : c.connection.worker = .resting) :
      WorkerStep c (.run .worker) (c.toWorker (.waiting c.connection.queue.nextDeadline))
  | woken {deadline : Option Nat} (hworker : c.connection.worker = .waiting deadline)
      (hwake : c.connection.queueWake = true) :
      WorkerStep c (.run .worker) (c.onConnection fun k => { k with
        queueWake := false, worker := .passing })
  | overdue {due : Nat} (hworker : c.connection.worker = .waiting (some due))
      (hdue : due ≤ c.now) : WorkerStep c (.run .worker) (c.toWorker .passing)
  | expired {due : Nat} (hworker : c.connection.worker = .waiting (some due))
      (hdue : due ≤ c.now) : WorkerStep c .expire (c.toWorker .passing)
  | passed {q : DeliveryQueue} {s : Session} {work : Work}
      (hworker : c.connection.worker = .passing)
      (hpass : c.connection.queue.pass c.session c.connection.acks c.now = (q, s, work)) :
      WorkerStep c (.run .worker) { c with
        session := s
        connection := { c.connection with
          queue := q, acks := [], worker := .writing work.outgoing work.events } }
  | finished {events : List Event} (hworker : c.connection.worker = .writing [] events) :
      WorkerStep c (.run .worker) (c.toWorker (.publishing events (.ok ())))
  | took {p : Packet} {rest : List Packet} {events : List Event} {bytes : Octets}
      (hworker : c.connection.worker = .writing (p :: rest) events)
      (hbytes : p.encode = .ok bytes) :
      WorkerStep c (.run .worker) (c.onConnection fun k => { k with
        worker := .sending rest events, writes := k.writes ++ [⟨.worker, p, bytes⟩] })
  | unsendable {p : Packet} {rest : List Packet} {events : List Event} {e : PacketError}
      (hworker : c.connection.worker = .writing (p :: rest) events)
      (herror : p.encode = .error e) :
      WorkerStep c (.run .worker) (c.toWorker (.publishing events (.error (.ofPacket e))))
  | unreported {outcome : Except ClientError Unit}
      (hworker : c.connection.worker = .publishing [] outcome) :
      WorkerStep c (.run .worker) (c.toWorker (.settling outcome))
  | reported {events : List Event} {outcome : Except ClientError Unit}
      (hworker : c.connection.worker = .publishing events outcome) :
      WorkerStep c (.run .worker) (c.onConnection fun k => { k with
        events := k.events ++ events, worker := .signalling outcome })
  | signalled {outcome : Except ClientError Unit}
      (hworker : c.connection.worker = .signalling outcome) :
      WorkerStep c (.run .worker) (c.onConnection fun k => { k with
        eventWake := true, worker := .settling outcome })
  | settled {u : Unit} (hworker : c.connection.worker = .settling (.ok u)) :
      WorkerStep c (.run .worker) (c.toWorker .resting)
  | failed {e : ClientError} (hworker : c.connection.worker = .settling (.error e)) :
      WorkerStep c (.run .worker) { c with
        status := c.closingStatus
        connection := { c.connection with closing := true, worker := .stopped } }
  | broken {deadline : Option Nat} (hclosing : c.connection.closing = true)
      (hworker : c.connection.worker = .waiting deadline) :
      WorkerStep c (.stop .worker) (c.toWorker .stopped)

/-! The loop that keeps the connection alive. -/

inductive KeeperStep (c : Client) : Action → Client → Prop where
  | rested {period : Nat} (hkeeper : c.connection.keeper = .resting period) :
      KeeperStep c (.run .keeper)
        (c.toKeeper (.sleeping period (c.connection.lastSent + period)))
  | woken {period due : Nat} (hkeeper : c.connection.keeper = .sleeping period due)
      (hdue : due ≤ c.now) : KeeperStep c (.run .keeper) (c.toKeeper (.checking period))
  | spared {period : Nat} (hkeeper : c.connection.keeper = .checking period)
      (hrecent : c.now < c.connection.lastSent + period) :
      KeeperStep c (.run .keeper) (c.toKeeper (.resting period))
  | asked {period : Nat} {bytes : Octets} (hkeeper : c.connection.keeper = .checking period)
      (hquiet : c.connection.lastSent + period ≤ c.now)
      (hbytes : Packet.pingReq.encode = .ok bytes) :
      KeeperStep c (.run .keeper) (c.onConnection fun k => { k with
        pong := .awaited, keeper := .sending period
        writes := k.writes ++ [⟨.keeper, .pingReq, bytes⟩] })
  | answered {period deadline : Nat} (hkeeper : c.connection.keeper = .awaiting period deadline)
      (hpong : c.connection.pong = .answered ()) :
      KeeperStep c (.run .keeper) (c.onConnection fun k => { k with
        pong := .idle, keeper := .resting period })
  | abandoned {period deadline : Nat} {e : ClientError}
      (hkeeper : c.connection.keeper = .awaiting period deadline)
      (hpong : c.connection.pong = .abandoned) :
      KeeperStep c (.run .keeper) (c.toKeeper (.failing e))
  | unanswered {period deadline : Nat}
      (hkeeper : c.connection.keeper = .awaiting period deadline)
      (hpong : c.connection.pong ≠ .answered ()) (hdue : deadline ≤ c.now) :
      KeeperStep c (.run .keeper) (c.toKeeper (.failing (.timedOut "PINGRESP" period)))
  | failed {e : ClientError} (hkeeper : c.connection.keeper = .failing e) :
      KeeperStep c (.run .keeper) { c with
        status := c.closingStatus
        connection := { c.connection with closing := true, keeper := .stopped } }
  | broken (hclosing : c.connection.closing = true)
      (hwaiting : (∃ period due, c.connection.keeper = .sleeping period due) ∨
        ∃ period deadline, c.connection.keeper = .awaiting period deadline) :
      KeeperStep c (.stop .keeper) (c.toKeeper .stopped)
  | brokenOff {period : Nat} (hclosing : c.connection.closing = true)
      (hkeeper : c.connection.keeper = .sending period) :
      KeeperStep c (.stop .keeper) ((c.withdraw .keeper).toKeeper .stopped)

/-! The loop that tells the application. -/

inductive DispatcherStep (c : Client) : Action → Client → Prop where
  | told {event : Event} {rest : List Event}
      (hdispatcher : c.connection.dispatcher = .delivering ∨ c.connection.dispatcher = .flushing)
      (hevents : c.connection.events = event :: rest) :
      DispatcherStep c (.run .dispatcher) { c with
        heard := c.heard ++ [(c.now, .event event)]
        connection := { c.connection with events := rest } }
  | drained (hdispatcher : c.connection.dispatcher = .delivering)
      (hevents : c.connection.events = []) :
      DispatcherStep c (.run .dispatcher) (c.toDispatcher .waiting)
  | woken (hdispatcher : c.connection.dispatcher = .waiting)
      (hwake : c.connection.eventWake = true) :
      DispatcherStep c (.run .dispatcher) (c.onConnection fun k => { k with
        eventWake := false, dispatcher := .delivering })
  | broken (hclosing : c.connection.closing = true)
      (hdispatcher : c.connection.dispatcher = .waiting) :
      DispatcherStep c (.stop .dispatcher) (c.toDispatcher .joining)
  | joined (hdispatcher : c.connection.dispatcher = .joining)
      (hreceiver : c.connection.receiver = .stopped) (hworker : c.connection.worker = .stopped)
      (hkeeper : c.connection.keeper = .stopped) :
      DispatcherStep c (.run .dispatcher) (c.toDispatcher .flushing)
  | flushed (hdispatcher : c.connection.dispatcher = .flushing)
      (hevents : c.connection.events = []) :
      DispatcherStep c (.run .dispatcher) (c.toDispatcher .shutting)
  | shut (hdispatcher : c.connection.dispatcher = .shutting)
      (hwrites : c.connection.writes = []) :
      DispatcherStep c (.run .dispatcher) (c.onConnection fun k => { k with
        line := k.line.close c.now, dispatcher := .resetting })
  | reset (hdispatcher : c.connection.dispatcher = .resetting) :
      DispatcherStep c (.run .dispatcher) { c with
        status := .disconnected
        connection := { c.connection with dispatcher := .notifying } }
  | notified (hdispatcher : c.connection.dispatcher = .notifying) :
      DispatcherStep c (.run .dispatcher) { c with
        heard := c.heard ++ [(c.now, .connectionClosed)]
        connection := { c.connection with dispatcher := .stopped } }

/-- Everything that an action can do to a client. -/
inductive Step (c : Client) : Action → Client → Prop where
  | caller {a : Action} {d : Client} (step : c.CallerStep a d) : Step c a d
  | receiver {a : Action} {d : Client} (step : c.ReceiverStep a d) : Step c a d
  | worker {a : Action} {d : Client} (step : c.WorkerStep a d) : Step c a d
  | keeper {a : Action} {d : Client} (step : c.KeeperStep a d) : Step c a d
  | dispatcher {a : Action} {d : Client} (step : c.DispatcherStep a d) : Step c a d
  | withdrawn {task : Task} {d : Client} (hclosing : c.connection.closing = true)
      (hsending : c.isSending task = true)
      (hheeds : (c.withdraw task).Heeds (.error .tooLate) task d) : Step c (.run task) d
  | written {count : Nat} {w : Write} {rest : List Write} {d : Client}
      (hwrites : c.connection.writes = w :: rest) (hopen : c.connection.closing = false)
      (hwhole : c.connection.line.broken = false) (hleft : w.left.drop count = [])
      (hheeds : (c.onConnection fun k => { k with
        line := k.line.write c.now w.left, writes := rest, lastSent := c.now }).Heeds
          (.ok ()) w.task d) :
      Step c (.write count) d
  | lost {count : Nat} {w : Write} {rest : List Write} {d : Client}
      (hwrites : c.connection.writes = w :: rest) (hopen : c.connection.closing = false)
      (hbroken : c.connection.line.broken = true)
      (hheeds : (c.onConnection fun k => { k with writes := rest }).Heeds
        (.error .pipeBroken) w.task d) :
      Step c (.write count) d
  | continued {count : Nat} {w : Write} {rest : List Write} {sent left : Octets}
      (hwrites : c.connection.writes = w :: rest) (hopen : c.connection.closing = false)
      (hwhole : c.connection.line.broken = false) (hleft : w.left = sent ++ left)
      (hmore : left ≠ []) (hrest : w.left.drop count = left) :
      Step c (.write count) (c.onConnection fun k => { k with
        line := k.line.write c.now sent, writes := { w with left } :: rest })
  | carried {a : Action} {line : Line} (hother : a.isOwn = false)
      (hwritten : line.outbox = c.connection.line.outbox)
      (hbroken : c.connection.line.broken = true → line.broken = true)
      (hline : ∀ count, a ≠ .write count) (hmilestone : c.milestone a = none) :
      Step c a (c.onConnection fun k => { k with line })
  | elapsed {milliseconds : Nat} :
      Step c (.elapse milliseconds) { c with now := c.now + milliseconds }

/-! A loop that has a step to take has not stopped. -/

theorem WorkerStep.running (step : c.WorkerStep a d) : c.connection.worker ≠ .stopped := by
  cases step with
  | broken _ hworker => simp [hworker]
  | rested hworker | woken hworker | overdue hworker | expired hworker | passed hworker
  | finished hworker | took hworker | unsendable hworker | unreported hworker | reported hworker
  | signalled hworker | settled hworker | failed hworker => simp [hworker]

theorem KeeperStep.running (step : c.KeeperStep a d) : c.connection.keeper ≠ .stopped := by
  cases step with
  | broken _ hwaiting => rcases hwaiting with ⟨_, _, hkeeper⟩ | ⟨_, _, hkeeper⟩ <;> simp [hkeeper]
  | rested hkeeper | woken hkeeper | spared hkeeper | asked hkeeper | answered hkeeper
  | abandoned hkeeper | unanswered hkeeper | failed hkeeper | brokenOff _ hkeeper =>
    simp [hkeeper]

theorem DispatcherStep.running (step : c.DispatcherStep a d) :
    c.connection.dispatcher ≠ .stopped := by
  cases step with
  | told hdispatcher => rcases hdispatcher with hdispatcher | hdispatcher <;> simp [hdispatcher]
  | drained hdispatcher | woken hdispatcher | broken _ hdispatcher | joined hdispatcher
  | flushed hdispatcher | shut hdispatcher | reset hdispatcher | notified hdispatcher =>
    simp [hdispatcher]

end Mqtt.Client
