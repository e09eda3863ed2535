import Mqtt.Client.Basic

/-! The calls of an application. -/
namespace Mqtt.Client

/-- A connection that failed before it was established. -/
def abort (c : Client) (error : ClientError) : Client :=
  { c.beginClose with caller := .aborting error }

/-- The fate of CONNECT or DISCONNECT; it does not matter whether the latter arrives. -/
def callerSent (c : Client) (outcome : Except ClientError Unit) : Client :=
  match c.caller, outcome with
  | .greeting options, .ok _ =>
    { c with caller := .awaitingAck options (c.now + c.settings.responseTimeout) }
  | .greeting _, .error e => c.abort e
  | .parting, _ => { c with caller := .leaving }
  | _, _ => c

/-- Puts a new connection on a line and greets the broker. -/
def greet (c : Client) (options : ConnectOptions) (line : Line) : Client :=
  let c := { c with
    status := .connecting
    caller := .greeting options
    connection := {
      line, queue := .ofSettings c.settings, connack := .awaited, lastSent := c.now
      receiver := .reading none 0 } }
  match c.post .caller options.packet with
  | .ok c => c
  | .error e => c.callerSent (.error e)

def isActive (c : Client) : Bool :=
  c.established && c.status == .connected && !c.connection.closing

def connect (c : Client) (options : ConnectOptions) (line : Line) : Client :=
  match options.check with
  | .error e => { c with caller := .done (.error e) }
  | .ok _ =>
    if c.isActive then { c with caller := .done (.error .alreadyConnected) }
    else if c.established then { c with established := false, caller := .joining options line }
    else c.greet options line

def disconnect (c : Client) : Client :=
  if !c.established then { c with caller := .done (.error .notConnected) }
  else
    let wasActive := c.isActive
    let wasClosing := c.connection.closing
    let c := { c with established := false }
    if wasActive then
      let c := { c with status := .closing, caller := .parting }
      match c.post .caller .disconnect with
      | .ok c => c
      | .error e => c.callerSent (.error e)
    else { c.beginClose with caller := .awaitingEnd wasClosing }

/-- Queues a delivery and leaves the worker to be told. -/
def enqueue (c : Client) (build : UInt16 → Delivery) : Except ClientError (UInt16 × Client) := do
  if !c.isActive then throw .notConnected
  let (id, queue, session) ← c.connection.queue.issue c.session build
  return (id, { c.onConnection fun k => { k with queue, unsignalled := k.unsignalled + 1 } with
    session })

def publish (c : Client) (topic : String) (payload : Octets) (qos : UInt8) (retain : Bool) :
    Except ClientError (UInt16 × Client) := do
  checkTopicArgument "topic" (Topic.checkName topic)
  checkQosArgument "qos" qos
  c.enqueue fun id => .publish id { dup := false, qos, retain, topic, id := none, payload }

def checkSubscriptions : List String → List UInt8 → Except ClientError (List Subscription)
  | topic :: topics, qos :: levels => do
    checkTopicArgument "topics" (Topic.checkFilter topic)
    checkQosArgument "qos_levels" qos
    return { filter := topic, qos } :: (← checkSubscriptions topics levels)
  | _, _ => .ok []

def noFilters : ClientError :=
  .invalidArgument "topics" "at least one topic filter is required"

def subscribe (c : Client) (topics : List String) (levels : List UInt8) :
    Except ClientError (UInt16 × Client) := do
  if topics = [] then throw noFilters
  if topics.length ≠ levels.length then
    throw (.invalidArgument "qos_levels"
      s!"{topics.length} topic filters but {levels.length} QoS levels")
  let subscriptions ← checkSubscriptions topics levels
  c.enqueue fun id => .subscribe { id, subscriptions }

def unsubscribe (c : Client) (topics : List String) : Except ClientError (UInt16 × Client) := do
  if topics = [] then throw noFilters
  for topic in topics do
    checkTopicArgument "topics" (Topic.checkFilter topic)
  c.enqueue fun id => .unsubscribe { id, filters := topics }

def signal (c : Client) : Option Client :=
  if c.connection.unsignalled = 0 then none
  else some (c.onConnection fun k => { k with
    queueWake := true, unsignalled := k.unsignalled - 1 })

/-- The answer to CONNECT, or its absence. -/
def runGreeting (c : Client) (options : ConnectOptions) (deadline : Nat) : Option Client :=
  match c.connection.connack with
  | .answered ack =>
    let c := c.onConnection fun k => { k with connack := .idle }
    if ack.isAccepted then some { c with caller := .resuming options ack }
    else some (c.abort (.ofRefusal ack.returnCode))
  | .abandoned => some (c.abort (.lost "connection closed before CONNACK"))
  | _ =>
    if deadline ≤ c.now then some (c.abort (.timedOut "CONNECT" c.settings.responseTimeout))
    else none

def runResume (c : Client) (options : ConnectOptions) (ack : ConnAck) : Client :=
  let (loaded, queue, session) :=
    c.connection.queue.resume c.session options.clientId options.cleanSession
  { c.onConnection fun k => { k with queue } with
    session, caller := .releasing options ack loaded }

def runOpen (c : Client) (options : ConnectOptions) (ack : ConnAck) (loaded : Nat) : Client :=
  let keeper := match options.keepAlivePeriod with
    | some period => .resting period
    | none => .stopped
  { c.onConnection fun k => { k with
      queueWake := k.queueWake || 0 < loaded
      worker := .resting, keeper, dispatcher := .delivering } with
    status := .connected, established := true, caller := .done (.ok (some ack)) }

def runCaller (c : Client) : Option Client :=
  let k := c.connection
  match c.caller with
  | .idle | .done _ => none
  | .joining options line => if k.dispatcher = .stopped then some (c.greet options line) else none
  | .greeting _ | .parting =>
    if k.closing then some ((c.withdraw .caller).callerSent (.error .tooLate)) else none
  | .awaitingAck options deadline => c.runGreeting options deadline
  | .resuming options ack => some (c.runResume options ack)
  | .releasing options ack loaded =>
    some { c.onConnection fun k => { k with resumed := true } with
      caller := .opening options ack loaded }
  | .opening options ack loaded => some (c.runOpen options ack loaded)
  | .aborting e => if k.receiver = .stopped then some { c with caller := .clearing e } else none
  | .clearing e =>
    if k.writes = [] then
      some { c.onConnection fun k => { k with line := k.line.close c.now } with
        status := .disconnected, caller := .done (.error e) }
    else none
  | .leaving => some { c.beginClose with caller := .awaitingEnd false }
  | .awaitingEnd wasClosing =>
    if k.dispatcher = .stopped then
      some { c with caller := .done (if wasClosing then .error .notConnected else .ok none) }
    else none

end Mqtt.Client
