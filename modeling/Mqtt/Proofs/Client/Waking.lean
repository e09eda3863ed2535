import Mqtt.Proofs.Client.Flow
import Mqtt.Proofs.Client.Holdings
import Mqtt.Proofs.Client.Order

/-!
No task sleeps on what it has to do. While nobody is about to wake them, the worker waits only if
nothing in the queue can be moved before its deadline, and the dispatcher only if there is nothing
to tell.
-/
namespace Mqtt

namespace DeliveryQueue

/-- Nothing can be moved before some answer is overdue: our own deliveries wait for one, and the
broker's messages for their release. -/
structure AtRest (q : DeliveryQueue) : Prop where
  outgoing : ∀ d ∈ q.deliveries, d.direction = .outgoing →
    d.stage.isWaiting = true ∧ ∃ due, d.dueAt q.retryDelay = some due
  incoming : ∀ d ∈ q.deliveries, d.direction = .incoming → d.stage = .awaitPubrel

variable {q : DeliveryQueue}

theorem atRest_ofSettings (σ : Settings) : (ofSettings σ).AtRest :=
  ⟨fun _ hd => absurd hd List.not_mem_nil, fun _ hd => absurd hd List.not_mem_nil⟩

theorem load_eq_of_zero {ds : List Delivery} (h : (q.load ds).1 = 0) : (q.load ds).2 = q := by
  induction ds with
  | nil => rfl
  | cons d ds ih =>
    unfold load at h ⊢
    split at h
    next hheld =>
      rw [if_pos hheld]
      exact ih h
    next hfree =>
      rw [if_neg hfree]
      split at h
      next => exact ih h
      next => cases h

theorem resume_eq_of_zero {s : Session} {clientId : String} {clean : Bool} {q' : DeliveryQueue}
    {s' : Session} (h : q.resume s clientId clean = (0, q', s')) : q' = q := by
  simp only [resume, Prod.mk.injEq] at h
  obtain ⟨hcount, rfl, -⟩ := h
  exact load_eq_of_zero hcount

end DeliveryQueue

theorem Exchange.Regular.atRest_pass {σ : Settings} {latest : Nat} {x : Exchange}
    (h : x.Regular σ latest) (hsound : x.queue.Sound σ) (acks : List Packet) (now : Nat) :
    (x.queue.pass x.session acks now).1.AtRest := by
  refine ⟨fun e he hout => ?_, hsound.awaitPubrel_of_mem_pass x.session acks now⟩
  obtain ⟨hwait, t, ht, -⟩ := h.sent_of_mem_pass he hout
  exact ⟨hwait, _, Delivery.dueAt_of_sentAt hout hwait ht _⟩

/-- How many deliveries a call has taken up before the loops start. -/
def Caller.loaded : Caller → Nat
  | .releasing _ _ loaded | .opening _ _ loaded => loaded
  | _ => 0

theorem Caller.isOpening_of_isStarting {caller : Caller} (h : caller.isStarting = true) :
    caller.isOpening = true := by
  cases caller <;> first | rfl | cases h

namespace Client

/-- The worker has been told of something to do, or somebody is about to tell it. -/
def Roused (c : Client) : Prop :=
  c.connection.queueWake = true ∨ 0 < c.connection.unsignalled ∨ c.connection.receiver = .waking

/-- There is nothing for a pass to do, except for what a call has just taken up. -/
def Attended (c : Client) : Prop :=
  c.connection.acks = [] ∧ (c.caller.loaded = 0 → c.connection.queue.AtRest)

/-- Whatever there is to do is known to the loop that has to do it. -/
structure Wakeful (c : Client) : Prop where
  work : c.connection.worker = .stopped ∧ c.caller.isStarting = false ∨
    c.connection.worker = .passing ∨ c.Roused ∨ c.Attended
  deadline : ∀ deadline, c.connection.worker = .waiting deadline →
    c.Roused ∨ deadline = c.connection.queue.nextDeadline
  report : c.connection.dispatcher = .waiting → c.connection.eventWake = true ∨
    (∃ outcome, c.connection.worker = .signalling outcome) ∨ c.connection.events = []

variable {c d : Client} {a : Action}

/-- Where the worker is told, only the dispatcher has to be looked after. -/
theorem Roused.wakeful (h : c.Roused) (hreport : c.connection.dispatcher = .waiting →
    c.connection.eventWake = true ∨ (∃ outcome, c.connection.worker = .signalling outcome) ∨
      c.connection.events = []) : c.Wakeful :=
  ⟨.inr (.inr (.inl h)), fun _ _ => .inl h, hreport⟩

/-- Between two passes of a connection. -/
theorem Wakeful.attended (h : c.Wakeful)
    (hrunning : c.connection.worker ≠ .stopped ∨ c.caller.isStarting = true)
    (hpassing : c.connection.worker ≠ .passing) : c.Roused ∨ c.Attended := by
  rcases h.work with ⟨hstopped, hsettled⟩ | hpass | hwork
  · rcases hrunning with hrunning | hrunning
    · exact absurd hstopped hrunning
    · exact absurd (hrunning.symm.trans hsettled) (by decide)
  · exact absurd hpass hpassing
  · exact hwork

theorem Wakeful.beside (h : c.Wakeful) (line : Line) (writes : List Write) (lastSent : Nat) :
    Wakeful { c with connection := { c.connection with line, writes, lastSent } } :=
  { h with }

theorem Wakeful.calls (h : c.Wakeful) {next : Caller} (status : Status) (established : Bool)
    {k : Connection} (hstarting : c.caller.isStarting = false → next.isStarting = false)
    (hloaded : next.loaded = 0 → c.caller.loaded = 0)
    (hkeep : k = { c.connection with
      line := k.line, closing := k.closing, resumed := k.resumed, connack := k.connack
      writes := k.writes }) :
    Wakeful { c with status, established, caller := next, connection := k } := by
  rw [hkeep]
  refine { h with work := ?_ }
  rcases h.work with ⟨hstopped, hsettled⟩ | hpass | hroused | ⟨hacks, hrest⟩
  · exact .inl ⟨hstopped, hstarting hsettled⟩
  · exact .inr (.inl hpass)
  · exact .inr (.inr (.inl hroused))
  · exact .inr (.inr (.inr ⟨hacks, fun hnone => hrest (hloaded hnone)⟩))

theorem Wakeful.received (h : c.Wakeful) {status : Status} {k : Connection}
    (hreceiver : c.connection.receiver ≠ .waking)
    (hkeep : k = { c.connection with
      line := k.line, closing := k.closing, resumed := k.resumed, connack := k.connack
      pong := k.pong, writes := k.writes, receiver := k.receiver }) :
    Wakeful { c with status, connection := k } := by
  rw [hkeep]
  have hrouse : c.Roused → Roused { c with status, connection := { c.connection with
      line := k.line, closing := k.closing, resumed := k.resumed, connack := k.connack
      pong := k.pong, writes := k.writes, receiver := k.receiver } } :=
    Or.imp id fun h => .inl (h.resolve_right hreceiver)
  exact { h with
    work := h.work.imp id (Or.imp id (Or.imp hrouse id))
    deadline := fun deadline hworker => (h.deadline deadline hworker).imp hrouse id }

theorem Wakeful.works (h : c.Wakeful) {next : Worker} (hrunning : c.connection.worker ≠ .stopped)
    (hpassing : c.connection.worker ≠ .passing)
    (hdeadline : ∀ deadline, next = .waiting deadline →
      deadline = c.connection.queue.nextDeadline)
    (hsignalling : ∀ outcome, c.connection.worker ≠ .signalling outcome) :
    (c.toWorker next).Wakeful where
  work := .inr (.inr (h.attended (.inl hrunning) hpassing))
  deadline deadline hnext := .inr (hdeadline deadline hnext)
  report hwaiting := (h.report hwaiting).imp id fun hrest =>
    .inr (hrest.resolve_left fun ⟨outcome, hworker⟩ => hsignalling outcome hworker)

theorem wakeful_of_greets {options : ConnectOptions} {line : Line}
    (hgreets : c.Greets options line d) : d.Wakeful := by
  cases hgreets with
  | posted | unsendable => exact {
      work := .inr (.inr (.inr ⟨rfl, fun _ => DeliveryQueue.atRest_ofSettings c.settings⟩))
      deadline := nofun
      report := nofun }

theorem Wakeful.heeds {outcome : Except ClientError Unit} {task : Task} (h : c.Wakeful)
    (hheeds : c.Heeds outcome task d) : d.Wakeful := by
  cases hheeds with
  | greeted hcaller | ungreeted hcaller =>
    exact h.calls _ _ (fun hsettled => by simp [hcaller, Caller.isStarting] at hsettled)
      (fun _ => by rw [hcaller]; rfl) rfl
  | parted hcaller => exact h.calls _ _ (fun _ => rfl) (fun _ => by rw [hcaller]; rfl) rfl
  | answered hreceiver | unanswered hreceiver => exact h.received (by simp [hreceiver]) rfl
  | delivered hworker | undelivered hworker =>
    exact h.works (by simp [hworker]) (by simp [hworker]) (fun _ hwaiting => by cases hwaiting)
      (by simp [hworker])
  | pinged | unpinged => exact { h with }
  | unheeded => exact h

theorem Wakeful.callerStep (h : c.Wakeful) (hordered : c.Ordered) (step : c.CallerStep a d) :
    d.Wakeful := by
  cases step with
  | joined _ _ hgreets => exact wakeful_of_greets hgreets
  | asked _ _ _ hgreets => exact wakeful_of_greets hgreets
  | replaced hcaller | declined hcaller | departed hcaller | dismissed hcaller | finished hcaller
  | refused hcaller | unanswered hcaller | cleared hcaller | failed hcaller | left hcaller
  | ended hcaller =>
    exact h.calls _ _ (fun _ => rfl) (fun _ => by rw [hcaller]; rfl) rfl
  | accepted hcaller =>
    exact h.calls _ _ (fun hsettled => by simp [hcaller, Caller.isStarting] at hsettled)
      (fun _ => by rw [hcaller]; rfl) rfl
  | released hcaller =>
    exact h.calls _ _ (fun hsettled => by simp [hcaller, Caller.isStarting] at hsettled)
      (fun hnone => by rw [hcaller]; exact hnone) rfl
  | @resumed options ack loaded q s hcaller hresume =>
    have hopening : c.caller.isStarting = true := by simp [hcaller, Caller.isStarting]
    have hstopped := hordered.stopped_of_opening (Caller.isOpening_of_isStarting hopening)
    have hwork := h.attended (.inr hopening) (by simp [hstopped])
    refine ⟨.inr (.inr (hwork.imp id fun hrest => ⟨hrest.1, fun hnone => ?_⟩)),
      fun _ hworker => by simp [hstopped] at hworker, h.report⟩
    obtain rfl : loaded = 0 := hnone
    obtain rfl := DeliveryQueue.resume_eq_of_zero hresume
    exact hrest.2 (by rw [hcaller]; rfl)
  | @opened options ack loaded hcaller =>
    have hopening : c.caller.isStarting = true := by simp [hcaller, Caller.isStarting]
    have hstopped := hordered.stopped_of_opening (Caller.isOpening_of_isStarting hopening)
    refine ⟨.inr (.inr ?_), fun _ hwaiting => (by cases hwaiting),
      fun hwaiting => (by cases hwaiting)⟩
    rcases h.attended (.inr hopening) (by simp [hstopped]) with
      (hwake | hrest) | ⟨hacks, hrest⟩
    · exact .inl (.inl (by simp [runOpen, onConnection, hwake]))
    · exact .inl (.inr hrest)
    · -- what was taken up is announced together with the start
      cases loaded with
      | zero => exact .inr ⟨hacks, fun _ => hrest (by rw [hcaller]; rfl)⟩
      | succ n => exact .inl (.inl (by simp [runOpen, onConnection]))
  | issued => exact Roused.wakeful (.inr (.inl (Nat.succ_pos _))) h.report
  | unissued => exact h
  | signalled => exact Roused.wakeful (.inl rfl) h.report

theorem Wakeful.receiverStep (h : c.Wakeful) (step : c.ReceiverStep a d) : d.Wakeful := by
  cases step with
  | read hreceiver | received hreceiver | faulted hreceiver | acknowledged hreceiver
  | violated hreceiver | answered hreceiver | unsolicited hreceiver | stale hreceiver
  | released hreceiver | unreleased hreceiver | resumed hreceiver | failed hreceiver =>
    exact h.received (by simp [hreceiver]) rfl
  | taken | kept => exact Roused.wakeful (.inr (.inr rfl)) h.report
  | woke => exact Roused.wakeful (.inl rfl) h.report
  | broken _ hreceiver =>
    refine h.received ?_ rfl
    rcases hreceiver with hreceiver | ⟨_, _, hreceiver⟩ <;> simp [hreceiver]
  | brokenOff _ hreceiver => exact h.received (by simp [hreceiver]) rfl

theorem Wakeful.workerStep (h : c.Wakeful) (hordered : c.Ordered) (hkept : c.Kept)
    (step : c.WorkerStep a d) : d.Wakeful := by
  have hsettled (hrunning : c.connection.worker ≠ .stopped) : c.caller.isStarting = false := by
    by_contra hstarting
    have hopening := Caller.isOpening_of_isStarting (by simpa using hstarting)
    exact hrunning (hordered.stopped_of_opening hopening)
  cases step with
  | rested hworker =>
    refine h.works (by simp [hworker]) (by simp [hworker]) (fun _ hnext => ?_) (by simp [hworker])
    cases hnext
    rfl
  | finished hworker | unsendable hworker | unreported hworker | settled hworker =>
    exact h.works (by simp [hworker]) (by simp [hworker]) (fun _ hwaiting => by cases hwaiting)
      (by simp [hworker])
  | @took p rest events bytes hworker =>
    have hnext := h.beside c.connection.line (c.connection.writes ++ [⟨.worker, p, bytes⟩])
      c.connection.lastSent
    exact hnext.works (by simp [hworker]) (by simp [hworker]) nofun (by simp [hworker])
  | woken hworker | overdue hworker | expired hworker =>
    refine ⟨.inr (.inl rfl), nofun, fun hwaiting => (h.report hwaiting).imp id fun hrest => ?_⟩
    exact .inr (hrest.resolve_left fun ⟨_, hsignalling⟩ => by simp [hworker] at hsignalling)
  | passed hworker hpass =>
    obtain ⟨latest, hregular⟩ := hkept.regular
    have hrest := hregular.atRest_pass hkept.queue c.connection.acks c.now
    replace hpass : c.exchange.queue.pass c.exchange.session c.connection.acks c.now = _ := hpass
    rw [hpass] at hrest
    refine ⟨.inr (.inr (.inr ⟨rfl, fun _ => hrest⟩)), nofun,
      fun hwaiting => (h.report hwaiting).imp id fun hrest => ?_⟩
    exact .inr (hrest.resolve_left fun ⟨_, hsignalling⟩ => by simp [hworker] at hsignalling)
  | reported hworker =>
    exact ⟨.inr (.inr (h.attended (.inl (by simp [hworker])) (by simp [hworker]))), nofun,
      fun _ => .inr (.inl ⟨_, rfl⟩)⟩
  | signalled hworker =>
    exact ⟨.inr (.inr (h.attended (.inl (by simp [hworker])) (by simp [hworker]))), nofun,
      fun _ => .inl rfl⟩
  | failed hworker | broken _ hworker =>
    refine ⟨.inl ⟨rfl, hsettled (by simp [hworker])⟩, nofun,
      fun hwaiting => (h.report hwaiting).imp id fun hrest => ?_⟩
    exact .inr (hrest.resolve_left fun ⟨_, hsignalling⟩ => by simp [hworker] at hsignalling)

theorem Wakeful.dispatcherStep (h : c.Wakeful) (step : c.DispatcherStep a d) : d.Wakeful := by
  cases step with
  | told hdispatcher =>
    refine ⟨h.work, h.deadline, fun hwaiting => ?_⟩
    rcases hdispatcher with hdispatcher | hdispatcher <;>
      cases hdispatcher.symm.trans hwaiting
  | drained _ hevents => exact ⟨h.work, h.deadline, fun _ => .inr (.inr hevents)⟩
  | _ => exact ⟨h.work, h.deadline, nofun⟩

theorem Wakeful.step (h : c.Wakeful) (hordered : c.Ordered) (hkept : c.Kept)
    (step : c.Step a d) : d.Wakeful := by
  cases step with
  | caller step => exact h.callerStep hordered step
  | receiver step => exact h.receiverStep step
  | worker step => exact h.workerStep hordered hkept step
  | keeper step => cases step <;> exact { h with }
  | dispatcher step => exact h.dispatcherStep step
  | withdrawn _ _ hheeds => exact (h.beside _ _ _).heeds hheeds
  | written _ _ _ _ hheeds => exact (h.beside _ _ _).heeds hheeds
  | lost _ _ _ hheeds => exact (h.beside _ _ _).heeds hheeds
  | continued | carried | elapsed => exact { h with }

theorem wakeful_ofSettings {σ : Settings} {s : Session} (h : ofSettings σ s = .ok c) :
    c.Wakeful := by
  obtain ⟨_, _, h⟩ := exists_of_bind_eq_ok h
  cases h
  exact ⟨.inl ⟨rfl, rfl⟩, nofun, nofun⟩

/-- In whatever a client goes through, with whatever session it began: while the worker waits, has
not been told of anything and nobody is about to tell it, no acknowledgment waits for it, each of
our own deliveries waits for an answer that is not overdue before the worker's deadline, and each of
the broker's messages for its release; while the dispatcher waits likewise, there is nothing to
tell. -/
theorem no_wakeup_lost {σ τ : Settings} {x : Exchange} {c d : Client} {actions : List Action}
    (hleft : Exchange.Reachable τ x) (hnew : ofSettings σ x.session = .ok c)
    (hacts : c.acts actions = some d) :
    let k := d.connection
    (∀ deadline, k.worker = .waiting deadline → k.queueWake = false → k.unsignalled = 0 →
      k.receiver ≠ .waking → k.acks = [] ∧ ∀ e ∈ k.queue.deliveries,
        (e.direction = .outgoing ∧ e.stage.isWaiting = true ∧ ∃ first due,
          deadline = some first ∧ e.dueAt d.settings.retryDelay = some due ∧ first ≤ due) ∨
        (e.direction = .incoming ∧ e.stage = .awaitPubrel)) ∧
    (k.dispatcher = .waiting → k.eventWake = false → (∀ outcome, k.worker ≠ .signalling outcome) →
      k.events = []) := by
  intro k
  obtain ⟨hordered, hkept, hwakeful⟩ : d.Ordered ∧ d.Kept ∧ d.Wakeful :=
    acts_induction (motive := fun _ c => c.Ordered ∧ c.Kept ∧ c.Wakeful)
      ⟨ordered_ofSettings hnew, kept_ofSettings hleft hnew, wakeful_ofSettings hnew⟩
      (fun ⟨hordered, hkept, hwakeful⟩ hact =>
        have hstep := Step.of_act hact
        ⟨hordered.step hstep, hkept.step hstep, hwakeful.step hordered hkept hstep⟩) hacts
  constructor
  · intro deadline hwaiting hwake hpending hreceiver
    have hquiet : ¬ d.Roused := by
      rintro (h | h | h)
      · exact Bool.noConfusion (hwake.symm.trans h)
      · exact absurd hpending (Nat.ne_of_gt h)
      · exact hreceiver h
    have hworker : d.connection.worker = .waiting deadline := hwaiting
    have hrunning : d.connection.worker ≠ .stopped := by simp [hworker]
    obtain ⟨hacks, hrest⟩ :=
      (hwakeful.attended (.inl hrunning) (by simp [hworker])).resolve_left hquiet
    have hdeadline := (hwakeful.deadline deadline hworker).resolve_left hquiet
    -- a worker that runs has no call beside it that takes up a session
    have hloaded : d.caller.loaded = 0 := by
      by_contra hloading
      have hopening : d.caller.isOpening = true := by
        cases hcaller : d.caller <;> simp [hcaller, Caller.loaded, Caller.isOpening] at hloading ⊢
      exact hrunning (hordered.stopped_of_opening hopening)
    obtain ⟨houtgoing, hincoming⟩ := hrest hloaded
    refine ⟨hacks, fun e he => ?_⟩
    cases hdirection : e.direction with
    | outgoing =>
      obtain ⟨hwait, due, hdue⟩ := houtgoing e he hdirection
      obtain ⟨first, hfirst, hle⟩ := DeliveryQueue.nextDeadline_le he hdue
      rw [hkept.queue.retryDelay] at hdue
      exact .inl ⟨rfl, hwait, first, due, hdeadline.trans hfirst, hdue, hle⟩
    | incoming => exact .inr ⟨rfl, hincoming e he hdirection⟩
  · intro hwaiting hwake hsignalling
    have hpending := (hwakeful.report hwaiting).resolve_left fun h =>
      Bool.noConfusion (hwake.symm.trans h)
    exact hpending.resolve_left (not_exists.mpr hsignalling)

/-- One message each way is under way, and both loops sleep: the worker until the first one is
overdue. -/
theorem no_wakeup_lost_of_both :
    let options : ConnectOptions := { clientId := "c", keepAlive := 0 }
    let actions := Action.opening options ++ [.publish "a" [42] 2 false, .signal, .elapse 7] ++
      Action.working ++ [.write 100] ++ List.replicate 4 (.run .worker) ++
      [.elapse 50, .arrive [0x34, 5, 0, 1, 0x62, 0, 4]] ++ List.replicate 7 (.run .receiver) ++
      List.replicate 3 (.run .worker) ++ [.write 100] ++ List.replicate 4 (.run .worker) ++
      [.run .dispatcher]
    ∃ x d, Exchange.Reachable {} x ∧ ofSettings {} x.session = .ok newcomer ∧
      newcomer.acts actions = some d ∧ d.connection.worker = .waiting (some 10007) ∧
      d.connection.queueWake = false ∧ d.connection.unsignalled = 0 ∧
      d.connection.receiver = .reading none 0 ∧ d.connection.dispatcher = .waiting ∧
      d.connection.eventWake = false ∧
      d.connection.queue.deliveries.map Delivery.stage = [.awaitPubrec, .awaitPubrel] ∧
      d.connection.acks = [] ∧ d.connection.events = [] := by
  intro options actions
  have hleft : Exchange.Reachable {} (.start {} { clientId := "" }) := .start {} { clientId := "" }
  have hnew : ofSettings {} (Exchange.start {} { clientId := "" }).session = .ok newcomer := rfl
  obtain ⟨d, hacts, hshape⟩ : ∃ d, newcomer.acts actions = some d ∧
      (d.connection.worker, d.connection.queueWake, d.connection.unsignalled,
        d.connection.receiver, d.connection.dispatcher, d.connection.eventWake,
        d.connection.queue.deliveries.map Delivery.stage) =
      (.waiting (some 10007), false, 0, .reading none 0, .waiting, false,
        [.awaitPubrec, .awaitPubrel]) := by
    apply Option.map_eq_some_iff.mp
    dsimp only [actions, options]
    rfl
  simp only [Prod.mk.injEq] at hshape
  obtain ⟨hworker, hwake, hpending, hreceiver, hdispatcher, heventWake, hstages⟩ := hshape
  obtain ⟨hwork, hreport⟩ := no_wakeup_lost hleft hnew hacts
  have hacks := (hwork _ hworker hwake hpending (by simp [hreceiver])).1
  have hevents := hreport hdispatcher heventWake (by simp [hworker])
  exact ⟨_, d, hleft, hnew, hacts, hworker, hwake, hpending, hreceiver, hdispatcher, heventWake,
    hstages, hacks, hevents⟩

end Client
end Mqtt
