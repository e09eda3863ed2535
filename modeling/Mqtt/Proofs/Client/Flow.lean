import Mqtt.Proofs.Client.Step.Actions

/-!
The way of a packet from a call to the line, and of an event from a pass to the application. Most of
what a client does leaves it alone; each step of a client comes to one of a few steps on the way.
-/
namespace Mqtt

def Line.written (l : Line) : Octets :=
  l.outbox.flatMap Prod.snd

theorem Line.written_write (l : Line) (now : Nat) (bytes : Octets) :
    (l.write now bytes).written = l.written ++ bytes := by
  simp [written, write]

def Notice.event? : Notice → Option Event
  | .event e => some e
  | .connectionClosed => none

/-- A call that opens a connection, before the loops of the connection start. -/
def Caller.isStarting : Caller → Bool
  | .greeting _ | .awaitingAck _ _ | .resuming _ _ | .releasing _ _ _ | .opening _ _ _ => true
  | _ => false

namespace Worker

def isIdle : Worker → Bool
  | .writing _ _ | .sending _ _ | .publishing _ _ => false
  | _ => true

/-- The worker after the fate of a task's packet; those of other tasks are nothing to it. -/
def sent (worker : Worker) (task : Task) (outcome : Except ClientError Unit) : Worker :=
  match task, worker, outcome with
  | .worker, .sending rest events, .ok _ => .writing rest events
  | .worker, .sending _ events, .error e => .publishing events (.error e)
  | _, worker, _ => worker

end Worker

namespace Client

def told (c : Client) : List Event :=
  c.heard.filterMap fun (_, notice) => notice.event?

/-- The part of a client that the way leads through. -/
structure Flow where
  queue : DeliveryQueue
  session : Session
  worker : Worker
  writes : List Write
  wire : Octets
  closing : Bool
  broken : Bool
  untold : List Event
  told : List Event
  starting : Bool

def flow (c : Client) : Flow :=
  { queue := c.connection.queue
    session := c.session
    worker := c.connection.worker
    writes := c.connection.writes
    wire := c.connection.line.written
    closing := c.connection.closing
    broken := c.connection.line.broken
    untold := c.connection.events
    told := c.told
    starting := c.caller.isStarting }

namespace Flow

/-- Nothing moves on; at most the connection comes nearer to its end. -/
structure Drift (f g : Flow) : Prop where
  rest : g = { f with closing := g.closing, broken := g.broken, starting := g.starting }
  closing : f.closing = true → g.closing = true
  broken : f.broken = true → g.broken = true
  starting : g.starting = true → f.starting = true

theorem Drift.refl (f : Flow) : f.Drift f :=
  ⟨rfl, id, id, id⟩

theorem Drift.trans {f g k : Flow} (h : f.Drift g) (h' : g.Drift k) : f.Drift k := by
  refine ⟨?_, h'.closing ∘ h.closing, h'.broken ∘ h.broken, h.starting ∘ h'.starting⟩
  rw [h'.rest, h.rest]

/-- All that an action can do to the way. -/
inductive Step (f : Flow) : Option Milestone → Flow → Prop where
  | quiet {g : Flow} (drift : f.Drift g) : Step f none g
  /-- The loops do not run yet; at most CONNECT is on its way. -/
  | opened {line : Line} (σ : Settings) {writes : List Write} {closing starting : Bool}
      (hwrites : ∀ w ∈ writes, w.task = .caller ∧ w.packet.encode = .ok w.left) :
      Step f (some (.opened line))
        { f with queue := .ofSettings σ, worker := .stopped, writes, wire := line.written
                 closing, broken := line.broken, untold := [], starting }
  | issued {call : Call} {r : Request} {id : UInt16} {q : DeliveryQueue} {s : Session}
      (hcall : call.request = .ok r)
      (hissue : f.queue.issue f.session r.delivery = .ok (id, q, s)) :
      Step f (some (.issued r id)) { f with queue := q, session := s }
  | accepted (p : Publish) : Step f none { f with queue := (f.queue.accept p).2 }
  | resumed {clientId : String} {clean : Bool} {loaded : Nat} {q : DeliveryQueue} {s : Session}
      (hstarting : f.starting = true)
      (hresume : f.queue.resume f.session clientId clean = (loaded, q, s)) :
      Step f none { f with queue := q, session := s }
  | started (hstarting : f.starting = true) :
      Step f none { f with worker := .resting, starting := false }
  | passed {acks : List Packet} {now : Nat} {q : DeliveryQueue} {s : Session} {work : Work}
      (hworker : f.worker = .passing) (hpass : f.queue.pass f.session acks now = (q, s, work)) :
      Step f (some (.passed f.queue f.session acks now))
        { f with queue := q, session := s, worker := .writing work.outgoing work.events }
  | taken {p : Packet} {rest : List Packet} {events : List Event} {bytes : Octets}
      (hworker : f.worker = .writing (p :: rest) events) (hbytes : p.encode = .ok bytes) :
      Step f (some (.taken p))
        { f with worker := .sending rest events, writes := f.writes ++ [⟨.worker, p, bytes⟩] }
  | unsendable {p : Packet} {rest : List Packet} {events : List Event} {e : PacketError}
      (hworker : f.worker = .writing (p :: rest) events) (herror : p.encode = .error e) :
      Step f (some (.taken p)) { f with worker := .publishing events (.error (.ofPacket e)) }
  | finished {events : List Event} (hworker : f.worker = .writing [] events) :
      Step f none { f with worker := .publishing events (.ok ()) }
  | reported {events : List Event} {outcome : Except ClientError Unit} {next : Worker}
      (hworker : f.worker = .publishing events outcome)
      (hnext : next = .signalling outcome ∨ next = .settling outcome) :
      Step f (some (.reported events outcome))
        { f with worker := next, untold := f.untold ++ events }
  | idled {w next : Worker} {g : Flow} (hworker : f.worker = w) (hidle : w.isIdle)
      (hrunning : w ≠ .stopped) (hnext : next.isIdle)
      (drift : { f with worker := next }.Drift g) : Step f none g
  | posted {p : Packet} {bytes : Octets} {task : Task} (htask : task ≠ .worker)
      (hbytes : p.encode = .ok bytes) :
      Step f none { f with writes := f.writes ++ [⟨task, p, bytes⟩] }
  | continued {w : Write} {rest : List Write} {sent left : Octets} (hwrites : f.writes = w :: rest)
      (hopen : f.closing = false) (hwhole : f.broken = false) (hleft : w.left = sent ++ left) :
      Step f none { f with wire := f.wire ++ sent, writes := { w with left } :: rest }
  | written {w : Write} {rest : List Write} (hwrites : f.writes = w :: rest)
      (hopen : f.closing = false) (hwhole : f.broken = false) :
      Step f (some (.written w.task w.packet))
        { f with wire := f.wire ++ w.left, writes := rest
                 worker := f.worker.sent w.task (.ok ()) }
  | failed {w : Write} {rest : List Write} {g : Flow} (e : ClientError)
      (hwrites : f.writes = w :: rest) (hbroken : f.broken = true)
      (drift : { f with
        writes := rest
        worker := f.worker.sent w.task (.error e) }.Drift g) :
      Step f none g
  | withdrawn {g : Flow} (task : Task) (e : ClientError) (hclosing : f.closing = true)
      (drift : { f with
        writes := f.writes.filter fun w => w.task ≠ task
        worker := f.worker.sent task (.error e) }.Drift g) :
      Step f none g
  | told {e : Event} {rest : List Event} (huntold : f.untold = e :: rest) :
      Step f none { f with untold := rest, told := f.told ++ [e] }

/-- The connection is to be taken down, and the call is past the start. -/
theorem Drift.closed (f : Flow) : f.Drift { f with closing := true, starting := false } :=
  ⟨rfl, fun _ => rfl, id, fun h => by cases h⟩

theorem Step.of_eq {f g : Flow} (h : g = f) : f.Step none g := by
  rw [h]
  exact .quiet (.refl f)

/-- The call is past the start, or was never there. -/
theorem Step.settled (f : Flow) : f.Step none { f with starting := false } :=
  .quiet ⟨rfl, id, id, fun h => by cases h⟩

end Flow

variable {c d : Client} {a : Action}

/-! What each step of a client does to the way. -/

theorem worker_sent_of_idle {task : Task} (h : c.isSending task = false)
    (outcome : Except ClientError Unit) :
    c.connection.worker.sent task outcome = c.connection.worker := by
  cases task with
  | worker => cases hworker : c.connection.worker <;> simp_all [isSending, Worker.sent]
  | _ => rfl

theorem Heeds.drift {task : Task} {outcome : Except ClientError Unit} (h : c.Heeds outcome task d) :
    { c.flow with worker := c.connection.worker.sent task outcome }.Drift d.flow := by
  cases h with
  | greeted hcaller => exact ⟨rfl, id, id, fun _ => congrArg Caller.isStarting hcaller⟩
  | ungreeted => exact .closed _
  | parted => exact ⟨rfl, id, id, fun h => by cases h⟩
  | answered | unanswered | pinged | unpinged => exact .refl _
  | delivered hworker | undelivered hworker =>
    rw [hworker]
    exact .refl _
  | unheeded hidle =>
    rw [worker_sent_of_idle hidle]
    exact .refl _

theorem Heeds.flow_eq {task : Task} (h : c.Heeds (.ok ()) task d) :
    d.flow = { c.flow with worker := c.connection.worker.sent task (.ok ()) } := by
  cases h with
  | greeted hcaller | parted hcaller =>
    simp [flow, told, hcaller, Caller.isStarting, Worker.sent]
  | answered | pinged => rfl
  | delivered hworker =>
    rw [hworker]
    rfl
  | unheeded hidle =>
    rw [worker_sent_of_idle hidle]
    rfl

theorem flow_put (c : Client) (bytes : Octets) (writes : List Write) (lastSent : Nat) :
    (c.onConnection fun k => { k with
      line := k.line.write c.now bytes, writes, lastSent }).flow =
      { c.flow with wire := c.flow.wire ++ bytes, writes } := by
  simp [flow, told, onConnection, Line.written, Line.write]

theorem Flow.Step.of_greets {options : ConnectOptions} {line : Line} (h : c.Greets options line d) :
    c.flow.Step (some (.opened line)) d.flow := by
  cases h with
  | posted hbytes =>
    refine .opened c.settings fun w hw => ?_
    obtain rfl := List.mem_singleton.mp hw
    exact ⟨rfl, hbytes⟩
  | unsendable => exact .opened c.settings (by simp)

theorem Flow.Step.of_callerStep (step : c.CallerStep a d) : c.flow.Step (c.milestone a) d.flow := by
  cases step with
  | joined hcaller _ hgreets =>
    rw [milestone_of_joining hcaller]
    exact .of_greets hgreets
  | asked _ hvalid hfree hgreets =>
    rw [milestone_of_connect hvalid hfree]
    exact .of_greets hgreets
  | replaced _ hvalid hestablished =>
    simp only [milestone, hvalid, hestablished, if_true]
    exact .settled c.flow
  | declined _ _ _ hmilestone =>
    rw [hmilestone]
    exact .settled c.flow
  | departed hcaller _ hbytes =>
    have hother : Task.caller ≠ .worker := by decide
    have hposted : c.flow.Step none _ := .posted hother hbytes
    simpa [milestone, flow, Client.told, hcaller, Caller.isStarting] using hposted
  | dismissed => exact .quiet (.closed _)
  | finished => exact .settled c.flow
  | accepted hcaller | released hcaller =>
    simp only [milestone, hcaller]
    exact .quiet ⟨rfl, id, id, fun _ => congrArg Caller.isStarting hcaller⟩
  | refused hcaller | unanswered hcaller | left hcaller =>
    simp only [milestone, hcaller]
    exact .quiet (.closed _)
  | resumed hcaller hresume =>
    have hstarting : c.flow.starting = true := by simp [flow, hcaller, Caller.isStarting]
    have hresumed : c.flow.Step none _ := .resumed hstarting hresume
    simpa [milestone, flow, Client.told, hcaller, Caller.isStarting] using hresumed
  | opened hcaller =>
    simp only [milestone, hcaller]
    exact .started (by simp [flow, hcaller, Caller.isStarting])
  | cleared hcaller | failed hcaller | ended hcaller =>
    simp only [milestone, hcaller]
    exact .settled c.flow
  | issued _ _ hissue _ _ hcall hmilestone =>
    rw [hmilestone]
    exact .issued hcall hissue
  | unissued _ _ _ hmilestone =>
    rw [hmilestone]
    exact .of_eq rfl
  | signalled => exact .of_eq rfl

theorem Flow.Step.of_receiverStep (step : c.ReceiverStep a d) : c.flow.Step (c.milestone a) d.flow := by
  cases step with
  | taken => exact .accepted _
  | released _ _ _ hbytes => exact .posted (by simp) hbytes
  | failed => exact .quiet ⟨rfl, fun _ => rfl, id, id⟩
  | brokenOff hclosing => exact .withdrawn .receiver .tooLate hclosing (.refl _)
  | _ => exact .of_eq rfl

theorem Flow.Step.of_workerStep (step : c.WorkerStep a d) : c.flow.Step (c.milestone a) d.flow := by
  cases step with
  | rested hworker | signalled hworker | settled hworker | woken hworker | overdue hworker =>
    simp only [milestone, workerMilestone, hworker]
    exact .idled hworker rfl (by simp) rfl (.refl _)
  | expired hworker | broken _ hworker => exact .idled hworker rfl (by simp) rfl (.refl _)
  | passed hworker hpass =>
    simp only [milestone, workerMilestone, hworker]
    exact .passed hworker hpass
  | finished hworker =>
    simp only [milestone, workerMilestone, hworker]
    exact .finished hworker
  | took hworker hbytes =>
    simp only [milestone, workerMilestone, hworker]
    exact .taken hworker hbytes
  | unsendable hworker herror =>
    simp only [milestone, workerMilestone, hworker]
    exact .unsendable hworker herror
  | unreported hworker =>
    have hreported : c.flow.Step (some (.reported [] _)) _ := .reported hworker (.inr rfl)
    rw [List.append_nil] at hreported
    simp only [milestone, workerMilestone, hworker]
    exact hreported
  | reported hworker =>
    simp only [milestone, workerMilestone, hworker]
    exact .reported hworker (.inl rfl)
  | failed hworker =>
    simp only [milestone, workerMilestone, hworker]
    exact .idled hworker rfl (by simp) rfl ⟨rfl, fun _ => rfl, id, id⟩

theorem Flow.Step.of_keeperStep (step : c.KeeperStep a d) : c.flow.Step (c.milestone a) d.flow := by
  cases step with
  | asked _ _ hbytes => exact .posted (by simp) hbytes
  | failed => exact .quiet ⟨rfl, fun _ => rfl, id, id⟩
  | brokenOff hclosing => exact .withdrawn .keeper .tooLate hclosing (.refl _)
  | _ => exact .of_eq rfl

theorem Flow.Step.of_dispatcherStep (step : c.DispatcherStep a d) :
    c.flow.Step (c.milestone a) d.flow := by
  cases step with
  | told _ hevents =>
    have htold : c.flow.Step none _ := .told hevents
    simpa [milestone, flow, Client.told, Notice.event?] using htold
  | notified => exact .of_eq (by simp [flow, Client.told, Notice.event?])
  | _ => exact .of_eq rfl

theorem milestone_of_isSending {task : Task} (h : c.isSending task = true) :
    c.milestone (.run task) = none := by
  cases task with
  | caller => cases hcaller : c.caller <;> simp_all [isSending, milestone]
  | worker => cases hworker : c.connection.worker <;> simp_all [isSending, milestone, workerMilestone]
  | _ => rfl

theorem Flow.Step.of_step (step : c.Step a d) : c.flow.Step (c.milestone a) d.flow := by
  cases step with
  | caller step => exact .of_callerStep step
  | receiver step => exact .of_receiverStep step
  | worker step => exact .of_workerStep step
  | keeper step => exact .of_keeperStep step
  | dispatcher step => exact .of_dispatcherStep step
  | @withdrawn task _ hclosing hsending hheeds =>
    rw [milestone_of_isSending hsending]
    exact .withdrawn task .tooLate hclosing hheeds.drift
  | written hwrites hopen hwhole hleft hheeds =>
    simp only [milestone, hwrites, hwhole, hleft, and_self, if_true]
    rw [hheeds.flow_eq, flow_put]
    exact .written hwrites hopen hwhole
  | lost hwrites hopen hbroken hheeds =>
    simp only [milestone, hwrites, hbroken]
    exact .failed .pipeBroken hwrites hbroken hheeds.drift
  | continued hwrites hopen hwhole hleft hmore hrest =>
    have hcontinued : c.flow.Step none _ := .continued hwrites hopen hwhole hleft
    rw [← flow_put c _ _ c.connection.lastSent] at hcontinued
    simp only [milestone, hwrites, hrest, hmore, and_false, if_false]
    exact hcontinued
  | carried _ hwritten hbroken _ hmilestone =>
    rw [hmilestone]
    refine .quiet ⟨?_, id, hbroken, id⟩
    simp [flow, Client.told, onConnection, Line.written, hwritten]
  | elapsed => exact .of_eq rfl

/-- Whatever a client does is one of these steps, under its milestone. -/
theorem step_act (h : c.act a = some d) : c.flow.Step (c.milestone a) d.flow :=
  Flow.Step.of_step (Step.of_act h)

/-- What holds at the start and is kept by each step holds after any actions, of the milestones so
far and the state that they led to. -/
theorem flow_induction {motive : List Milestone → Flow → Prop} {actions : List Action}
    (start : motive [] c.flow)
    (step : ∀ {t : List Milestone} {f g : Flow} {m : Option Milestone}, motive t f → f.Step m g →
      motive (t ++ m.toList) g)
    (h : c.acts actions = some d) : motive (c.milestones actions) d.flow :=
  acts_induction (motive := fun t d => motive t d.flow) start
    (fun ht hact => step ht (step_act hact)) h

end Client
end Mqtt
