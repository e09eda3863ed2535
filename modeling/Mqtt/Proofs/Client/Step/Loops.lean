import Mqtt.Proofs.Client.Step

/-! The steps of the four loops of a connection, from what the loops do. -/
namespace Mqtt.Client

variable {c d : Client} {a : Action}

theorem beginClose_eq (c : Client) :
    c.beginClose = { c with
      status := c.closingStatus, connection := { c.connection with closing := true } } := by
  unfold beginClose closingStatus
  split
  next hclosing =>
    have hsame : { c.connection with closing := true } = c.connection := by rw [← hclosing]
    rw [hsame, if_neg (by simp [hclosing])]
  next hopen => simp [onConnection, hopen]

/-- Only a task that is sending heeds what became of a packet. -/
theorem sent_of_idle {task : Task} (h : c.isSending task = false)
    (outcome : Except ClientError Unit) : c.sent outcome task = c := by
  cases task with
  | caller => cases hcaller : c.caller <;> simp_all [sent, callerSent, isSending]
  | receiver => cases hreceiver : c.connection.receiver <;> simp_all [sent, receiverSent, isSending]
  | worker => cases hworker : c.connection.worker <;> simp_all [sent, workerSent, isSending]
  | keeper => cases hkeeper : c.connection.keeper <;> simp_all [sent, keeperSent, isSending]
  | dispatcher => rfl

theorem Heeds.of_sent (c : Client) (outcome : Except ClientError Unit) (task : Task) :
    c.Heeds outcome task (c.sent outcome task) := by
  cases hsending : c.isSending task with
  | false =>
    rw [sent_of_idle hsending]
    exact .unheeded hsending
  | true =>
    cases task with
    | caller =>
      cases hcaller : c.caller with
      | greeting options =>
        cases outcome with
        | ok u =>
          simp only [sent, callerSent, hcaller]
          exact .greeted hcaller
        | error e =>
          simp only [sent, callerSent, hcaller, abort, beginClose_eq]
          exact .ungreeted hcaller
      | parting =>
        simp only [sent, callerSent, hcaller]
        exact .parted hcaller
      | _ => simp [isSending, hcaller] at hsending
    | receiver =>
      cases hreceiver : c.connection.receiver with
      | answering =>
        cases outcome with
        | ok u =>
          simp only [sent, receiverSent, hreceiver]
          exact .answered hreceiver
        | error e =>
          simp only [sent, receiverSent, hreceiver]
          exact .unanswered hreceiver
      | _ => simp [isSending, hreceiver] at hsending
    | worker =>
      cases hworker : c.connection.worker with
      | sending rest events =>
        cases outcome with
        | ok u =>
          simp only [sent, workerSent, hworker]
          exact .delivered hworker
        | error e =>
          simp only [sent, workerSent, hworker]
          exact .undelivered hworker
      | _ => simp [isSending, hworker] at hsending
    | keeper =>
      cases hkeeper : c.connection.keeper with
      | sending period =>
        cases outcome with
        | ok u =>
          simp only [sent, keeperSent, hkeeper]
          exact .pinged hkeeper
        | error e =>
          simp only [sent, keeperSent, hkeeper]
          exact .unpinged hkeeper
      | _ => simp [isSending, hkeeper] at hsending
    | dispatcher => cases hsending

theorem ReceiverStep.of_routeAck {ack : Packet} (hreceiver : c.connection.receiver = .routing ack)
    (hconnack : c.connection.connack ≠ .awaited) (hpong : ack ≠ .pingResp) :
    c.ReceiverStep (.run .receiver) (c.routeAck ack) := by
  unfold routeAck
  split
  next hawaited => exact .kept hreceiver hconnack hawaited
  next hstale =>
    rw [Bool.not_eq_true] at hstale
    split
    next id =>
      unfold post
      dsimp only
      cases hencode : (Packet.pubComp id).encode with
      | ok bytes => exact .released hreceiver hconnack hstale hencode
      | error e => exact .unreleased hreceiver hconnack hstale hencode
    next hother => exact .stale hreceiver hconnack hstale hother hpong

theorem ReceiverStep.of_route {packet : Packet}
    (hreceiver : c.connection.receiver = .routing packet) :
    c.ReceiverStep (.run .receiver) (c.route packet) := by
  unfold route
  dsimp only
  split
  next ack =>
    split
    next hconnack => exact .acknowledged hreceiver hconnack
    next hconnack =>
      exact .violated hreceiver (fun _ _ => hconnack) (fun h => absurd h hconnack)
        fun _ => ⟨by simp, by simp⟩
  next hother =>
    have hnone : ∀ ack, packet = .connAck ack → c.connection.connack ≠ .awaited :=
      fun ack h => (hother ack h).elim
    split
    next hconnack =>
      exact .violated hreceiver hnone (fun _ => rfl) fun hanswered => absurd hconnack hanswered
    next hconnack =>
      split
      next =>
        split
        next hpong => exact .answered hreceiver hconnack hpong
        next hpong => exact .unsolicited hreceiver hconnack hpong
      next => exact .taken hreceiver hconnack
      next => exact ReceiverStep.of_routeAck hreceiver hconnack (by simp)
      next => exact ReceiverStep.of_routeAck hreceiver hconnack (by simp)
      next => exact ReceiverStep.of_routeAck hreceiver hconnack (by simp)
      next => exact ReceiverStep.of_routeAck hreceiver hconnack (by simp)
      next => exact ReceiverStep.of_routeAck hreceiver hconnack (by simp)
      next => exact ReceiverStep.of_routeAck hreceiver hconnack (by simp)
      next hpong _ _ _ hrelease _ _ _ =>
        exact .violated hreceiver hnone (fun h => absurd h hconnack) fun _ =>
          ⟨hpong, hrelease⟩

theorem ReceiverStep.of_runReading {frame : Option FrameReader} {deadline : Nat}
    (hreceiver : c.connection.receiver = .reading frame deadline)
    (h : c.runReading frame deadline = some d) : c.ReceiverStep (.run .receiver) d := by
  unfold runReading at h
  dsimp only at h
  split at h
  next =>
    split at h
    next =>
      cases h
      exact .read hreceiver
    next =>
      split at h
      next =>
        cases h
        exact .faulted hreceiver
      next => cases h
  next reader =>
    split at h
    next =>
      split at h
      next p hpacket =>
        cases h
        exact .received hreceiver hpacket
      next =>
        cases h
        exact .faulted hreceiver
    next =>
      split at h
      next =>
        split at h
        next =>
          cases h
          exact .faulted hreceiver
        next =>
          cases h
          exact .read hreceiver
      next =>
        split at h
        next =>
          cases h
          exact .faulted hreceiver
        next =>
          split at h
          next =>
            cases h
            exact .faulted hreceiver
          next => cases h

theorem Step.of_runReceiver (h : c.runReceiver = some d) : c.Step (.run .receiver) d := by
  unfold runReceiver at h
  dsimp only at h
  split at h
  next hreceiver => exact .receiver (ReceiverStep.of_runReading hreceiver h)
  next hreceiver =>
    cases h
    exact .receiver (ReceiverStep.of_route hreceiver)
  next hreceiver =>
    split at h
    next hresumed =>
      cases h
      exact .receiver (.resumed hreceiver hresumed)
    next => cases h
  next hreceiver =>
    cases h
    exact .receiver (.woke hreceiver)
  next hreceiver =>
    split at h
    next hclosing =>
      cases h
      exact .withdrawn hclosing (by simp [isSending, hreceiver]) (Heeds.of_sent _ _ .receiver)
    next => cases h
  next hreceiver =>
    cases h
    rw [beginClose_eq]
    exact .receiver (.failed hreceiver)
  next => cases h

theorem Step.of_breakReceiver (h : c.breakReceiver = some d) : c.Step (.stop .receiver) d := by
  unfold breakReceiver at h
  split at h
  next => cases h
  next hopen =>
    have hclosing : c.connection.closing = true := by simpa using hopen
    split at h
    next hreceiver =>
      cases h
      exact .receiver (.broken hclosing (.inr ⟨_, _, hreceiver⟩))
    next hreceiver =>
      cases h
      exact .receiver (.broken hclosing (.inl hreceiver))
    next hreceiver =>
      cases h
      exact .receiver (.brokenOff hclosing hreceiver)
    next => cases h

theorem expire_spec (h : c.expire = some d) : ∃ due, c.connection.worker = .waiting (some due) ∧
    due ≤ c.now ∧ d = c.toWorker .passing := by
  unfold expire at h
  split at h
  next due hworker =>
    split at h
    next hdue => exact ⟨due, hworker, hdue, (Option.some.inj h).symm⟩
    next => cases h
  next => cases h

theorem Step.of_runWorker (h : c.runWorker = some d) : c.Step (.run .worker) d := by
  unfold runWorker at h
  dsimp only at h
  split at h
  next hworker =>
    cases h
    exact .worker (.rested hworker)
  next hworker =>
    split at h
    next hwake =>
      cases h
      exact .worker (.woken hworker hwake)
    next =>
      obtain ⟨due, hworker, hdue, rfl⟩ := expire_spec h
      exact .worker (.overdue hworker hdue)
  next hworker =>
    cases h
    exact .worker (.passed hworker rfl)
  next hworker =>
    cases h
    exact .worker (.finished hworker)
  next p rest events hworker =>
    unfold post at h
    cases hencode : p.encode with
    | ok bytes =>
      rw [hencode] at h
      cases h
      exact .worker (.took hworker hencode)
    | error e =>
      rw [hencode] at h
      cases h
      exact .worker (.unsendable hworker hencode)
  next hworker =>
    split at h
    next hclosing =>
      cases h
      exact .withdrawn hclosing (by simp [isSending, hworker]) (Heeds.of_sent _ _ .worker)
    next => cases h
  next hworker =>
    cases h
    exact .worker (.unreported hworker)
  next hworker =>
    cases h
    exact .worker (.reported hworker)
  next hworker =>
    cases h
    exact .worker (.signalled hworker)
  next hworker =>
    cases h
    exact .worker (.settled hworker)
  next hworker =>
    cases h
    rw [beginClose_eq]
    exact .worker (.failed hworker)
  next => cases h

theorem Step.of_breakWorker (h : c.breakWorker = some d) : c.Step (.stop .worker) d := by
  unfold breakWorker at h
  split at h
  next hworker =>
    split at h
    next hclosing =>
      cases h
      exact .worker (.broken hclosing hworker)
    next => cases h
  next => cases h

theorem Step.of_runKeeper (h : c.runKeeper = some d) : c.Step (.run .keeper) d := by
  unfold runKeeper at h
  dsimp only at h
  split at h
  next hkeeper =>
    cases h
    exact .keeper (.rested hkeeper)
  next hkeeper =>
    split at h
    next hdue =>
      cases h
      exact .keeper (.woken hkeeper hdue)
    next => cases h
  next period hkeeper =>
    split at h
    next hrecent =>
      cases h
      exact .keeper (.spared hkeeper hrecent)
    next hquiet =>
      cases h
      have hbytes : Packet.pingReq.encode = .ok [192, 0] := by decide +kernel
      unfold ping post
      rw [hbytes]
      exact .keeper (.asked hkeeper (Nat.le_of_not_lt hquiet) hbytes)
  next hkeeper =>
    split at h
    next hclosing =>
      cases h
      exact .withdrawn hclosing (by simp [isSending, hkeeper]) (Heeds.of_sent _ _ .keeper)
    next => cases h
  next hkeeper =>
    split at h
    next hpong =>
      cases h
      exact .keeper (.answered hkeeper hpong)
    next hpong =>
      cases h
      exact .keeper (.abandoned hkeeper hpong)
    next hpong _ =>
      split at h
      next hdue =>
        cases h
        exact .keeper (.unanswered hkeeper (hpong ()) hdue)
      next => cases h
  next hkeeper =>
    cases h
    rw [beginClose_eq]
    exact .keeper (.failed hkeeper)
  next => cases h

theorem Step.of_breakKeeper (h : c.breakKeeper = some d) : c.Step (.stop .keeper) d := by
  unfold breakKeeper at h
  split at h
  next => cases h
  next hopen =>
    have hclosing : c.connection.closing = true := by simpa using hopen
    split at h
    next hkeeper =>
      cases h
      exact .keeper (.broken hclosing (.inl ⟨_, _, hkeeper⟩))
    next hkeeper =>
      cases h
      exact .keeper (.broken hclosing (.inr ⟨_, _, hkeeper⟩))
    next hkeeper =>
      cases h
      exact .keeper (.brokenOff hclosing hkeeper)
    next => cases h

theorem Step.of_runDispatcher (h : c.runDispatcher = some d) : c.Step (.run .dispatcher) d := by
  unfold runDispatcher deliver at h
  dsimp only at h
  split at h
  next hdispatcher =>
    split at h
    next hevents =>
      cases h
      exact .dispatcher (.drained hdispatcher hevents)
    next hevents =>
      cases h
      exact .dispatcher (.told (.inl hdispatcher) hevents)
  next hdispatcher =>
    split at h
    next hwake =>
      cases h
      exact .dispatcher (.woken hdispatcher hwake)
    next => cases h
  next hdispatcher =>
    split at h
    next hreceiver hworker hkeeper =>
      cases h
      exact .dispatcher (.joined hdispatcher hreceiver hworker hkeeper)
    next => cases h
  next hdispatcher =>
    split at h
    next hevents =>
      cases h
      exact .dispatcher (.flushed hdispatcher hevents)
    next hevents =>
      cases h
      exact .dispatcher (.told (.inr hdispatcher) hevents)
  next hdispatcher =>
    split at h
    next hwrites =>
      cases h
      exact .dispatcher (.shut hdispatcher hwrites)
    next => cases h
  next hdispatcher =>
    cases h
    exact .dispatcher (.reset hdispatcher)
  next hdispatcher =>
    cases h
    exact .dispatcher (.notified hdispatcher)
  next => cases h

theorem Step.of_breakDispatcher (h : c.breakDispatcher = some d) :
    c.Step (.stop .dispatcher) d := by
  unfold breakDispatcher at h
  split at h
  next hdispatcher =>
    split at h
    next hclosing =>
      cases h
      exact .dispatcher (.broken hclosing hdispatcher)
    next => cases h
  next => cases h

end Mqtt.Client
