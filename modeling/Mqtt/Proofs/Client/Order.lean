import Mqtt.Proofs.Client.Step.Actions

/-!
Who runs when. A connection is opened by its call and the receiver alone; the dispatcher ends last,
and the application hears of the end once.
-/
namespace Mqtt

/-- A connection is being opened, or given up before it is established. -/
def Caller.isOpening : Caller → Bool
  | .greeting _ | .awaitingAck _ _ | .resuming _ _ | .releasing _ _ _ | .opening _ _ _
  | .aborting _ | .clearing _ => true
  | _ => false

def Caller.isEnding : Caller → Bool
  | .joining _ _ | .parting | .leaving | .awaitingEnd _ => true
  | _ => false

/-- The other loops may still run. -/
def Dispatcher.isServing : Dispatcher → Bool
  | .delivering | .waiting | .joining => true
  | _ => false

namespace Client

/-- The order of the tasks of a connection. -/
structure Ordered (c : Client) : Prop where
  opening : c.caller.isOpening = true → c.established = false ∧ c.connection.dispatcher = .stopped
  free : c.established = true → c.caller.isOpening = false ∧ c.caller.isEnding = false
  running : c.connection.dispatcher ≠ .stopped → c.established = true ∨ c.caller.isEnding = true
  worker : c.connection.worker ≠ .stopped → c.connection.dispatcher.isServing = true
  keeper : c.connection.keeper ≠ .stopped → c.connection.dispatcher.isServing = true
  receiver : c.connection.receiver ≠ .stopped →
    c.connection.dispatcher.isServing = true ∨ c.caller.isOpening = true
  cleared : ∀ e, c.caller = .clearing e → c.connection.receiver = .stopped
  drained : c.connection.dispatcher.isServing = false → c.connection.dispatcher ≠ .flushing →
    c.connection.events = []
  reset : c.connection.dispatcher = .notifying → c.status = .disconnected

variable {c d : Client} {a : Action}

theorem Ordered.worker_stopped (h : c.Ordered) (hdispatcher : c.connection.dispatcher = .stopped) :
    c.connection.worker = .stopped := by
  by_contra hrunning
  simpa [hdispatcher, Dispatcher.isServing] using h.worker hrunning

theorem closingStatus_of_disconnected (h : c.status = .disconnected) :
    c.closingStatus = .disconnected := by
  simp [closingStatus, h]

theorem Ordered.closed (h : c.Ordered) (hdispatcher : c.connection.dispatcher = .notifying) :
    c.closingStatus = .disconnected :=
  closingStatus_of_disconnected (h.reset hdispatcher)

/-- The lines and the clock are nobody's turn. -/
theorem Ordered.beside (h : c.Ordered) (line : Line) (writes : List Write) (lastSent now : Nat) :
    Ordered { c with now, connection := { c.connection with line, writes, lastSent } } :=
  { h with }

theorem Ordered.heeds {outcome : Except ClientError Unit} {task : Task} (h : c.Ordered)
    (hheeds : c.Heeds outcome task d) : d.Ordered := by
  cases hheeds with
  | greeted hcaller =>
    have hopening := h.opening (by simp [hcaller, Caller.isOpening])
    exact { h with
      opening := fun _ => hopening
      free := fun hestablished => by simp [hopening.1] at hestablished
      running := fun hrunning => absurd hopening.2 hrunning
      receiver := fun hreceiver => .inr rfl
      cleared := fun _ hclearing => by cases hclearing }
  | ungreeted hcaller =>
    have hopening := h.opening (by simp [hcaller, Caller.isOpening])
    exact { h with
      opening := fun _ => hopening
      free := fun hestablished => by simp [hopening.1] at hestablished
      running := fun hrunning => absurd hopening.2 hrunning
      receiver := fun hreceiver => .inr rfl
      cleared := fun _ hclearing => by cases hclearing
      reset := h.closed }
  | parted hcaller =>
    have hbusy : c.established = false := by
      by_contra hestablished
      have hfree := h.free (by simpa using hestablished)
      simp [hcaller, Caller.isEnding] at hfree
    exact { h with
      opening := fun hopening => by cases hopening
      free := fun hestablished => by simp [hbusy] at hestablished
      running := fun _ => .inr rfl
      receiver := fun hreceiver => (h.receiver hreceiver).imp id fun hopening => by
        simp [hcaller, Caller.isOpening] at hopening
      cleared := fun _ hclearing => by cases hclearing }
  | answered hreceiver => exact { h with
      receiver := fun _ => h.receiver (by simp [hreceiver])
      cleared := fun e hcaller => by simp [h.cleared e hcaller] at hreceiver }
  | unanswered hreceiver => exact { h with
      receiver := fun _ => h.receiver (by simp [hreceiver])
      cleared := fun e hcaller => by simp [h.cleared e hcaller] at hreceiver }
  | delivered hworker => exact { h with worker := fun _ => h.worker (by simp [hworker]) }
  | undelivered hworker => exact { h with worker := fun _ => h.worker (by simp [hworker]) }
  | pinged hkeeper => exact { h with keeper := fun _ => h.keeper (by simp [hkeeper]) }
  | unpinged hkeeper => exact { h with keeper := fun _ => h.keeper (by simp [hkeeper]) }
  | unheeded => exact h

theorem Ordered.received (h : c.Ordered) {k : Connection}
    (hrunning : c.connection.receiver ≠ .stopped)
    (hkeep : k = { c.connection with
      line := k.line, closing := k.closing, queue := k.queue, acks := k.acks
      queueWake := k.queueWake, resumed := k.resumed, connack := k.connack, pong := k.pong
      writes := k.writes, receiver := k.receiver }) :
    Ordered { c with connection := k } := by
  rw [hkeep]
  exact { h with
    receiver := fun _ => h.receiver hrunning
    cleared := fun e hcaller => absurd (h.cleared e hcaller) hrunning }

theorem Ordered.receiverStep (h : c.Ordered) (step : c.ReceiverStep a d) : d.Ordered := by
  cases step with
  | read hreceiver | received hreceiver | faulted hreceiver | acknowledged hreceiver
  | violated hreceiver | answered hreceiver | unsolicited hreceiver | taken hreceiver
  | kept hreceiver | stale hreceiver | released hreceiver | unreleased hreceiver
  | resumed hreceiver | woke hreceiver =>
    exact h.received (by simp [hreceiver]) rfl
  | failed => exact { h with receiver := nofun, cleared := fun _ _ => rfl, reset := h.closed }
  | broken => exact { h with receiver := nofun, cleared := fun _ _ => rfl }
  | brokenOff => exact { h with receiver := nofun, cleared := fun _ _ => rfl }

theorem Ordered.workerStep (h : c.Ordered) (step : c.WorkerStep a d) : d.Ordered := by
  cases step with
  | rested hworker | woken hworker | overdue hworker | expired hworker | passed hworker
  | finished hworker | took hworker | unsendable hworker | unreported hworker | signalled hworker
  | settled hworker => exact { h with worker := fun _ => h.worker (by simp [hworker]) }
  | reported hworker =>
    have hserving := h.worker (by simp [hworker])
    exact { h with
      worker := fun _ => hserving
      drained := fun hover => absurd (hserving.symm.trans hover) (by decide) }
  | failed => exact { h with worker := nofun, reset := h.closed }
  | broken => exact { h with worker := nofun }

theorem Ordered.keeperStep (h : c.Ordered) (step : c.KeeperStep a d) : d.Ordered := by
  cases step with
  | rested hkeeper | woken hkeeper | spared hkeeper | asked hkeeper | answered hkeeper
  | abandoned hkeeper | unanswered hkeeper =>
    exact { h with keeper := fun _ => h.keeper (by simp [hkeeper]) }
  | failed => exact { h with keeper := nofun, reset := h.closed }
  | broken => exact { h with keeper := nofun }
  | brokenOff => exact { h with keeper := nofun }

theorem Ordered.not_opening (h : c.Ordered) (hrunning : c.connection.dispatcher ≠ .stopped) :
    c.caller.isOpening = false := by
  by_contra hopening
  exact hrunning (h.opening (by simpa using hopening)).2

theorem Ordered.stopped_of_opening (h : c.Ordered) (hopening : c.caller.isOpening = true) :
    c.connection.worker = .stopped := by
  by_contra hrunning
  simpa [(h.opening hopening).2, Dispatcher.isServing] using h.worker hrunning

/-- Once the dispatcher no longer serves, the other loops have stopped. -/
theorem Ordered.stopped (h : c.Ordered) (hrunning : c.connection.dispatcher ≠ .stopped)
    (hover : c.connection.dispatcher.isServing = false) :
    c.connection.receiver = .stopped ∧ c.connection.worker = .stopped ∧
      c.connection.keeper = .stopped := by
  have hcaller := h.not_opening hrunning
  refine ⟨?_, ?_, ?_⟩
  · by_contra hreceiver
    simpa [hover, hcaller] using h.receiver hreceiver
  · by_contra hworker
    simpa [hover] using h.worker hworker
  · by_contra hkeeper
    simpa [hover] using h.keeper hkeeper

/-- The dispatcher goes on, past the loops once they have stopped. -/
theorem Ordered.dispatched (h : c.Ordered) (hrunning : c.connection.dispatcher ≠ .stopped)
    (next : Dispatcher) (line : Line) (eventWake : Bool) {status : Status}
    (heard : List (Nat × Notice))
    (hserving : next.isServing = true ∨ c.connection.receiver = .stopped ∧
      c.connection.worker = .stopped ∧ c.connection.keeper = .stopped)
    (hdrained : next.isServing = false → next ≠ .flushing → c.connection.events = [])
    (hreset : next = .notifying → status = .disconnected) :
    Ordered { c with
      status, heard
      connection := { c.connection with line, eventWake, dispatcher := next } } := by
  have hcaller := h.not_opening hrunning
  exact { h with
    opening := fun hopening => absurd (hcaller.symm.trans hopening) (by decide)
    running := fun _ => h.running hrunning
    worker := fun hrun => hserving.resolve_right fun hstopped => hrun hstopped.2.1
    keeper := fun hrun => hserving.resolve_right fun hstopped => hrun hstopped.2.2
    receiver := fun hrun => .inl (hserving.resolve_right fun hstopped => hrun hstopped.1)
    drained := hdrained
    reset := hreset }

theorem Ordered.dispatched_on (h : c.Ordered) (hpast : c.connection.dispatcher.isServing = false)
    (hflushed : c.connection.dispatcher ≠ .flushing)
    (hrunning : c.connection.dispatcher ≠ .stopped) (next : Dispatcher) (line : Line)
    (eventWake : Bool) {status : Status} (heard : List (Nat × Notice))
    (hreset : next = .notifying → status = .disconnected) :
    Ordered { c with
      status, heard
      connection := { c.connection with line, eventWake, dispatcher := next } } := by
  have hstopped := h.stopped hrunning hpast
  have hdrained := h.drained hpast hflushed
  exact h.dispatched hrunning next line eventWake heard (.inr hstopped) (fun _ _ => hdrained) hreset

theorem Ordered.dispatcherStep (h : c.Ordered) (step : c.DispatcherStep a d) : d.Ordered := by
  cases step with
  | told hdispatcher =>
    refine { h with drained := fun hover hflushing => ?_ }
    rcases hdispatcher with hdispatcher | hdispatcher
    · simp [hdispatcher, Dispatcher.isServing] at hover
    · exact absurd hdispatcher hflushing
  | drained hdispatcher | woken hdispatcher | broken _ hdispatcher =>
    exact h.dispatched (by simp [hdispatcher]) _ _ _ _ (.inl rfl) (fun hover => by cases hover)
      (by simp)
  | joined hdispatcher hreceiver hworker hkeeper =>
    exact h.dispatched (by simp [hdispatcher]) _ _ _ _ (.inr ⟨hreceiver, hworker, hkeeper⟩)
      (fun _ hflushing => absurd rfl hflushing) (by simp)
  | flushed hdispatcher hevents =>
    have hrunning : c.connection.dispatcher ≠ .stopped := by simp [hdispatcher]
    have hstopped := h.stopped hrunning (by simp [hdispatcher, Dispatcher.isServing])
    exact h.dispatched hrunning _ _ _ _ (.inr hstopped) (fun _ _ => hevents) (by simp)
  | shut hdispatcher =>
    exact h.dispatched_on (by simp [hdispatcher, Dispatcher.isServing]) (by simp [hdispatcher])
      (by simp [hdispatcher]) _ _ _ _ (by simp)
  | reset hdispatcher =>
    exact h.dispatched_on (by simp [hdispatcher, Dispatcher.isServing]) (by simp [hdispatcher])
      (by simp [hdispatcher]) _ _ _ _ fun _ => rfl
  | notified hdispatcher =>
    exact h.dispatched_on (by simp [hdispatcher, Dispatcher.isServing]) (by simp [hdispatcher])
      (by simp [hdispatcher]) _ _ _ _ (by simp)

/-- A call that holds the connection has it to itself. -/
theorem Ordered.not_established (h : c.Ordered)
    (hcaller : c.caller.isOpening = true ∨ c.caller.isEnding = true) : c.established = false := by
  by_contra hestablished
  have hfree := h.free (by simpa using hestablished)
  rcases hcaller with hcaller | hcaller
  · simp [hcaller] at hfree
  · simp [hcaller] at hfree

theorem ordered_of_greets {options : ConnectOptions} {line : Line}
    (hestablished : c.established = false) (hgreets : c.Greets options line d) : d.Ordered := by
  cases hgreets with
  | posted | unsendable => exact {
      opening := fun _ => ⟨hestablished, rfl⟩
      free := fun h => by simp [hestablished] at h
      running := fun h => absurd rfl h
      worker := fun h => absurd rfl h
      keeper := fun h => absurd rfl h
      receiver := fun _ => .inr rfl
      cleared := nofun
      drained := fun _ _ => rfl
      reset := nofun }

/-- The opening of a connection goes on, or it is given up. -/
theorem Ordered.opens (h : c.Ordered) (hcaller : c.caller.isOpening = true) {next : Caller}
    (hnext : next.isOpening = true) (status : Status) (session : Session) {k : Connection}
    (hcleared : ∀ e, next = .clearing e → k.receiver = .stopped)
    (hkeep : k = { c.connection with
      closing := k.closing, queue := k.queue, connack := k.connack, resumed := k.resumed }) :
    Ordered { c with status, session, caller := next, connection := k } := by
  have hopening := h.opening hcaller
  rw [hkeep] at hcleared ⊢
  exact { h with
    opening := fun _ => hopening
    free := fun hestablished => absurd (hopening.1.symm.trans hestablished) (by decide)
    running := fun hrunning => absurd hopening.2 hrunning
    receiver := fun _ => .inr hnext
    cleared := hcleared
    reset := fun hnotifying => absurd (hopening.2.symm.trans hnotifying) (by decide) }

/-- A caller that opens no connection has seen the receiver stop, or there is a dispatcher. -/
theorem Ordered.calls (h : c.Ordered) {next : Caller} (hopening : next.isOpening = false)
    {established : Bool} {status : Status} {closing : Bool} {line : Line} {writes : List Write}
    (hfree : established = true → next.isEnding = false)
    (hrunning : c.connection.dispatcher ≠ .stopped → established = true ∨ next.isEnding = true)
    (hreceiver : c.caller.isOpening = true → c.connection.receiver = .stopped)
    (hreset : c.connection.dispatcher = .notifying → status = .disconnected) :
    Ordered { c with
      caller := next, established, status
      connection := { c.connection with closing, line, writes } } :=
  { h with
    opening := fun h => absurd (hopening.symm.trans h) (by decide)
    free := fun h => ⟨hopening, hfree h⟩
    running := hrunning
    receiver := fun hrun => (h.receiver hrun).imp id fun h => absurd (hreceiver h) hrun
    cleared := fun e hcaller => by
      obtain rfl : next = .clearing e := hcaller
      cases hopening
    reset := hreset }

theorem Ordered.callerStep (h : c.Ordered) (step : c.CallerStep a d) : d.Ordered := by
  cases step with
  | joined hcaller hended hgreets =>
    exact ordered_of_greets (h.not_established (.inr (by simp [hcaller, Caller.isEnding]))) hgreets
  | asked hcaller _ hfree hgreets => exact ordered_of_greets hfree hgreets
  | replaced hcaller =>
    exact h.calls rfl (fun hfree => by cases hfree) (fun _ => .inr rfl)
      (fun h => by simp [hcaller, Caller.isOpening] at h) h.reset
  | declined hcaller =>
    refine h.calls rfl (fun _ => rfl) (fun hrunning => ?_)
      (fun h => by simp [hcaller, Caller.isOpening] at h) h.reset
    simpa [hcaller, Caller.isEnding] using h.running hrunning
  | departed hcaller hactive =>
    refine h.calls rfl (fun hfree => by cases hfree) (fun _ => .inr rfl)
      (fun h => by simp [hcaller, Caller.isOpening] at h) fun hnotifying => ?_
    simp [isActive, h.reset hnotifying] at hactive
  | dismissed hcaller =>
    exact h.calls rfl (fun hfree => by cases hfree) (fun _ => .inr rfl)
      (fun h => by simp [hcaller, Caller.isOpening] at h) h.closed
  | finished hcaller =>
    refine h.calls rfl (fun _ => rfl) (fun hrunning => ?_)
      (fun h => by simp [hcaller, Caller.isOpening] at h) h.reset
    simpa [hcaller, Caller.isEnding] using h.running hrunning
  | accepted hcaller | refused hcaller | unanswered hcaller | resumed hcaller | released hcaller =>
    exact h.opens (by simp [hcaller, Caller.isOpening]) rfl _ _
      (fun _ hclearing => by cases hclearing) rfl
  | cleared hcaller hreceiver =>
    exact h.opens (by simp [hcaller, Caller.isOpening]) rfl _ _ (fun _ _ => hreceiver) rfl
  | opened hcaller =>
    have hopening := h.opening (by simp [hcaller, Caller.isOpening])
    exact { h with
      opening := fun hopening => by cases hopening
      free := fun _ => ⟨rfl, rfl⟩
      running := fun _ => .inl rfl
      worker := fun _ => rfl
      keeper := fun _ => rfl
      receiver := fun _ => .inl rfl
      cleared := fun _ hclearing => by cases hclearing
      drained := fun hserving => by cases hserving
      reset := fun hnotifying => by cases hnotifying }
  | @failed e hcaller =>
    have hopening := h.opening (by simp [hcaller, Caller.isOpening])
    exact h.calls rfl (fun _ => rfl) (fun hrunning => absurd hopening.2 hrunning)
      (fun _ => h.cleared e hcaller) fun _ => rfl
  | left hcaller =>
    have hbusy := h.not_established (.inr (by simp [hcaller, Caller.isEnding]))
    exact h.calls rfl (fun h => absurd (hbusy.symm.trans h) (by decide)) (fun _ => .inr rfl)
      (fun h => by simp [hcaller, Caller.isOpening] at h) h.closed
  | ended hcaller hended =>
    exact h.calls rfl (fun _ => rfl) (fun hrunning => absurd hended hrunning)
      (fun h => by simp [hcaller, Caller.isOpening] at h) h.reset
  | issued | unissued | signalled => exact { h with }

theorem Ordered.step (h : c.Ordered) (step : c.Step a d) : d.Ordered := by
  cases step with
  | caller step => exact h.callerStep step
  | receiver step => exact h.receiverStep step
  | worker step => exact h.workerStep step
  | keeper step => exact h.keeperStep step
  | dispatcher step => exact h.dispatcherStep step
  | withdrawn _ _ hheeds => exact (h.beside _ _ _ _).heeds hheeds
  | written _ _ _ _ hheeds => exact (h.beside _ _ _ _).heeds hheeds
  | lost _ _ _ hheeds => exact (h.beside _ _ _ _).heeds hheeds
  | continued | carried | elapsed => exact { h with }

theorem Ordered.acts {actions : List Action} (h : c.Ordered) (hacts : c.acts actions = some d) :
    d.Ordered :=
  acts_induction (motive := fun _ c => c.Ordered) h (fun h hact => h.step (Step.of_act hact)) hacts

theorem ordered_ofSettings {σ : Settings} {s : Session} (h : ofSettings σ s = .ok c) :
    c.Ordered := by
  obtain ⟨_, _, h⟩ := exists_of_bind_eq_ok h
  cases h
  exact {
    opening := nofun
    free := nofun
    running := fun h => absurd rfl h
    worker := fun h => absurd rfl h
    keeper := fun h => absurd rfl h
    receiver := fun h => absurd rfl h
    cleared := nofun
    drained := fun _ _ => rfl
    reset := nofun }

end Client
end Mqtt
