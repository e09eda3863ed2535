import Mqtt.Rehearsal.Turn

/-! The steps of a script. -/
namespace Mqtt

/-- The characters with the property White_Space. -/
def isBlank (c : Char) : Bool :=
  let n := c.toNat
  (9 ≤ n && n ≤ 13) || n == 0x20 || n == 0x85 || n == 0xA0 || n == 0x1680 ||
    (0x2000 ≤ n && n ≤ 0x200A) || n == 0x2028 || n == 0x2029 || n == 0x202F || n == 0x205F ||
    n == 0x3000

namespace Rehearsal

def isRefused (r : Rehearsal) (options : ConnectOptions) : Bool :=
  match r.actors[r.current]? with
  | some a =>
    match (a.client.connect options {}).caller with
    | .done _ => true
    | _ => false
  | none => true

def connect (r : Rehearsal) (options : ConnectOptions) (plan : BrokerPlan) : Outcome × Rehearsal :=
  let number := r.asked + 1
  let isRefused := r.isRefused options
  let line : Line := if plan.gone then ({} : Line).vanish else {}
  let start (a : Actor) : Actor :=
    let a := a.take (.connect options line)
    if isRefused then a
    else { a with broker := { number, plan := some plan, gone := plan.gone } }
  let unused := if isRefused && !plan.gone then [Sight.ended number r.now] else []
  let (outcome, r) := { r with asked := number, sights := r.sights ++ unused }.call start
  match outcome with
  | .ok (some ack) => (.accepted ack, { r with target := some (r.current, number) })
  | .ok none => (.done, r)
  | .error e => (.failed e, r)

/-- A call that leaves a delivery in the queue, and the action that it is. -/
def queue (r : Rehearsal) (request : Client → Except ClientError (UInt16 × Client))
    (action : Client.Action) : Outcome × Rehearsal :=
  match r.actors[r.current]? with
  | none => (.done, r)
  | some a =>
    let session := (r.registry.at? a.place).getD a.client.session
    let outcome := match request { a.client with session } with
      | .ok (id, _) => .queued id
      | .error e => .failed e
    (outcome, (r.perform r.current fun a => (a.take action).take .signal).settle)

/-- The actor whose connection was established last, if its broker is still there. -/
def target? (r : Rehearsal) : Option Nat := do
  let (index, number) ← r.target
  let a ← r.actors[index]?
  if a.broker.number = number ∧ a.broker.gone = false then some index else none

def isOpen (r : Rehearsal) (index : Nat) : Bool :=
  match r.actors[index]? with
  | some a => a.client.connection.line.closedAt.isNone
  | none => false

def onLine (r : Rehearsal) (index : Nat) (action : Client.Action) : Rehearsal :=
  (r.perform index fun a => a.take action).settle

def renew (r : Rehearsal) (session : Option String) : Except ClientError Rehearsal := do
  let (place, registry) := match session with
    | some clientId => r.registry.find clientId
    | none => r.registry.add { clientId := "" }
  let client ← Client.ofSettings r.settings ((registry.at? place).getD { clientId := "" })
  return { r with
    registry, actors := r.actors ++ [{ client := { client with now := r.now }, place }] }

def ofSettings (settings : Settings) (session : Option String) : Except ClientError Rehearsal :=
  ({ settings } : Rehearsal).renew session

/-- Only what fails before a channel is opened can be rehearsed. -/
def checkAddress (address : String) (options : ConnectOptions) : Except ClientError Unit := do
  options.check
  if address.toList.all isBlank then throw (.ofTransport (.badAddress address))
  throw (.ofTransport (.connectFailed address))

def step (r : Rehearsal) : Step → Outcome × Rehearsal
  | .connect options plan => r.connect options plan
  | .connectTo address options =>
    match checkAddress address options with
    | .ok _ => (.done, r)
    | .error e => (.failed e, r)
  | .disconnect =>
    match r.call fun a => a.take .disconnect with
    | (.ok _, r) => (.done, r)
    | (.error e, r) => (.failed e, r)
  | .publish topic payload qos retain =>
    r.queue (fun c => c.publish topic payload qos retain) (.publish topic payload qos retain)
  | .subscribe topics levels =>
    r.queue (fun c => c.subscribe topics levels) (.subscribe topics levels)
  | .unsubscribe topics => r.queue (fun c => c.unsubscribe topics) (.unsubscribe topics)
  | .send bytes =>
    match r.target?.filter r.isOpen with
    | none => (.sent false, r)
    | some index =>
      match bytes with
      | .ok bytes => (.sent true, r.onLine index (.arrive bytes))
      | .error e => (.failed (.ofPacket e), r)
  | .hangUp =>
    match r.target? with
    | some index => (.done, r.onLine index .hangUp)
    | none => (.done, r)
  | .vanish =>
    match r.target? with
    | some index =>
      let leave (a : Actor) : Actor := { a with broker := { a.broker with gone := true } }
      (.done, (r.perform index leave).onLine index .vanish)
    | none => (.done, r)
  | .advance milliseconds => (.done, runTo (r.now + milliseconds) budget r)
  | .contains key =>
    let held := (r.actors[r.current]?.bind fun a => r.registry.at? a.place).any fun s =>
      s.contains key
    (.held held, r)
  | .renew session =>
    match r.renew session with
    | .ok r => (.done, r)
    | .error e => (.failed e, r)

def report (r : Rehearsal) (s : Step) : Option (Report × Rehearsal) :=
  let (outcome, r) := r.step s
  match r.actors[r.current]? with
  | none => none
  | some a =>
    let session := (r.registry.at? a.place).getD a.client.session
    some ({
      outcome, now := r.now, status := a.client.status, clientId := session.clientId
      sessionSize := session.deliveries.length, sights := r.sights, notices := r.notices },
      { r with sights := [], notices := [] })

end Rehearsal
end Mqtt
