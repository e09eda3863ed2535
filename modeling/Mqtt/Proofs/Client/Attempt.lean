import Mqtt.Client.Schedule
import Mqtt.Proofs.Client.Order

/-!
A call that asks for a connection and comes back with an error. Whatever has gone wrong, and however
far the handshake had come, nothing is left of it: no loop runs, the session is the one from before
the call, and the application has heard nothing.
-/
namespace Mqtt

/-- Options are refused for what they are, whether or not there is a connection. -/
theorem ConnectOptions.check_ne_alreadyConnected (options : ConnectOptions) :
    options.check ≠ .error .alreadyConnected := by
  have hqos (name : String) (qos : UInt8) :
      checkQosArgument name qos ≠ .error .alreadyConnected := by
    unfold checkQosArgument
    split <;> simp
  have htopic (name : String) (result : Except PacketError Unit) :
      checkTopicArgument name result ≠ .error .alreadyConnected := by
    cases result <;> simp [checkTopicArgument, Except.mapError]
  have hwill (w : Will) : checkWill w ≠ .error .alreadyConnected :=
    bind_ne_error (hqos _ _) fun _ => htopic _ _
  unfold check
  dsimp only
  by_cases hversion : options.version ≠ 3 ∧ options.version ≠ 4
  · rw [if_pos hversion]
    exact fun h => by cases h
  · rw [if_neg hversion]
    by_cases hpassword : options.password.isSome ∧ options.username.isNone
    · rw [if_pos hpassword]
      exact fun h => by cases h
    · rw [if_neg hpassword]
      cases options.will with
      | none =>
        dsimp only
        split <;> exact fun h => by cases h
      | some w =>
        apply bind_ne_error (hwill w)
        intro _
        split <;> exact fun h => by cases h

theorem ClientError.ofPacket_ne_alreadyConnected (e : PacketError) :
    ofPacket e ≠ .alreadyConnected := by
  intro h
  cases e <;> cases h

namespace Caller

/-- The session has been taken up, behind which nothing can fail any more. -/
def isGranted : Caller → Bool
  | .releasing _ _ _ | .opening _ _ _ | .done (.ok _) => true
  | _ => false

/-- A call that has set about a connection, or has failed at it. -/
def isAttempting : Caller → Bool
  | .joining _ _ | .greeting _ | .awaitingAck _ _ | .resuming _ _ => true
  | .aborting e | .clearing e | .done (.error e) => e ≠ .alreadyConnected
  | caller => caller.isGranted

end Caller

namespace Client

variable {b c d : Client} {a : Action} {actions : List Action}

/-! Where no dispatcher runs and no connection is being opened, the connection before has come to
its end. -/

/-- With neither a dispatcher nor a connection to be, the client says that it is disconnected. -/
def Dormant (c : Client) : Prop :=
  c.connection.dispatcher = .stopped → c.caller.isOpening = false → c.status = .disconnected

theorem Dormant.isActive (h : c.Dormant) (hdispatcher : c.connection.dispatcher = .stopped)
    (hcaller : c.caller.isOpening = false) : c.isActive = false := by
  have hstatus := h hdispatcher hcaller
  simp [Client.isActive, hstatus]

theorem Dormant.closing (h : c.Dormant) (hdispatcher : c.connection.dispatcher = .stopped)
    (hcaller : c.caller.isOpening = false) : c.closingStatus = .disconnected :=
  closingStatus_of_disconnected (h hdispatcher hcaller)

theorem Dormant.beside (h : c.Dormant) (line : Line) (writes : List Write) (lastSent now : Nat) :
    Dormant { c with now, connection := { c.connection with line, writes, lastSent } } :=
  h

theorem Dormant.heeds {outcome : Except ClientError Unit} {task : Task} (h : c.Dormant)
    (hheeds : c.Heeds outcome task d) : d.Dormant := by
  cases hheeds with
  | greeted | ungreeted => exact fun _ hover => by cases hover
  | parted hcaller => exact fun hstopped _ => h hstopped (by rw [hcaller]; rfl)
  | _ => exact h

theorem Dormant.callerStep (h : c.Dormant) (step : c.CallerStep a d) : d.Dormant := by
  cases step with
  | joined _ _ hgreets => cases hgreets <;> exact fun _ hover => by cases hover
  | asked _ _ _ hgreets => cases hgreets <;> exact fun _ hover => by cases hover
  | accepted | refused | unanswered | resumed | released | cleared =>
    exact fun _ hover => by cases hover
  | replaced hcaller | declined hcaller | finished hcaller | ended hcaller =>
    exact fun hstopped _ => h hstopped (by rw [hcaller]; rfl)
  | departed hcaller hactive =>
    intro hstopped _
    have hover : c.caller.isOpening = false := by rw [hcaller]; rfl
    cases (h.isActive hstopped hover).symm.trans hactive
  | dismissed hcaller | left hcaller =>
    exact fun hstopped _ => h.closing hstopped (by rw [hcaller]; rfl)
  | opened => exact fun hstopped _ => by cases hstopped
  | failed => exact fun _ _ => rfl
  | issued | unissued | signalled => exact h

theorem Dormant.step (h : c.Dormant) (hordered : c.Ordered) (step : c.Step a d) : d.Dormant := by
  cases step with
  | caller step => exact h.callerStep step
  | receiver step =>
    cases step with
    | failed => exact fun hstopped hover => h.closing hstopped hover
    | _ => exact h
  | worker step =>
    cases step with
    | failed => exact fun hstopped hover => h.closing hstopped hover
    | _ => exact h
  | keeper step =>
    cases step with
    | failed => exact fun hstopped hover => h.closing hstopped hover
    | _ => exact h
  | dispatcher step =>
    cases step with
    | told => exact h
    | notified hnotifying => exact fun _ _ => hordered.reset hnotifying
    | _ => exact fun hstopped _ => by cases hstopped
  | withdrawn _ _ hheeds => exact (h.beside _ _ _ _).heeds hheeds
  | written _ _ _ _ hheeds => exact (h.beside _ _ _ _).heeds hheeds
  | lost _ _ _ hheeds => exact (h.beside _ _ _ _).heeds hheeds
  | continued | carried | elapsed => exact h

theorem dormant_ofSettings {σ : Settings} {s : Session} (h : ofSettings σ s = .ok c) :
    c.Dormant := by
  obtain ⟨_, _, h⟩ := exists_of_bind_eq_ok h
  cases h
  exact fun _ _ => rfl

theorem ordered_dormant {σ : Settings} {s : Session} (hstart : ofSettings σ s = .ok b)
    (hacts : b.acts actions = some c) : c.Ordered ∧ c.Dormant := by
  apply acts_induction (motive := fun _ c => c.Ordered ∧ c.Dormant) _ _ hacts
  · exact ⟨ordered_ofSettings hstart, dormant_ofSettings hstart⟩
  · intro _ c d a ⟨hordered, hdormant⟩ hact
    have hstep := Step.of_act hact
    exact ⟨hordered.step hstep, hdormant.step hordered hstep⟩

theorem Ordered.isStopped (h : c.Ordered) (hdispatcher : c.connection.dispatcher = .stopped)
    (hcaller : c.caller.isOpening = false) : ∀ task ∈ loops, c.isStopped task = true := by
  have hover : c.connection.dispatcher.isServing = false := by rw [hdispatcher]; rfl
  have hreceiver : c.connection.receiver = .stopped := by
    by_contra hrunning
    simpa [hover, hcaller] using h.receiver hrunning
  have hworker := h.worker_stopped hdispatcher
  have hkeeper : c.connection.keeper = .stopped := by
    by_contra hrunning
    simpa [hover] using h.keeper hrunning
  simp [loops, Client.isStopped, hreceiver, hworker, hkeeper, hdispatcher]

/-! The call leaves everything else as it is, up to the point where it takes up the session. -/

/-- No loop but the receiver runs, and what the call is not about is as it was. -/
structure Spares (b c : Client) : Prop where
  dispatcher : c.connection.dispatcher = .stopped
  session : c.session = b.session
  heard : c.heard = b.heard

/-- Where a call that asks for a connection has come to, from the client that it began with. -/
structure Attempts (b c : Client) : Prop where
  attempting : c.caller.isAttempting = true
  spares : b.connection.dispatcher = .stopped → c.caller.isGranted = false → b.Spares c

theorem Attempts.beside (h : b.Attempts c) (line : Line) (writes : List Write)
    (lastSent now : Nat) :
    b.Attempts { c with now, connection := { c.connection with line, writes, lastSent } } :=
  ⟨h.attempting, fun hclosed hpending => { h.spares hclosed hpending with }⟩

/-- A call that has not got its session yet goes on, or fails. -/
theorem Attempts.calls (h : b.Attempts c) (hpending : c.caller.isGranted = false) {next : Caller}
    (hnext : next.isAttempting = true) (status : Status) (established : Bool) {k : Connection}
    (hdispatcher : c.connection.dispatcher = .stopped → k.dispatcher = .stopped) :
    b.Attempts { c with status, established, caller := next, connection := k } := by
  refine ⟨hnext, fun hclosed _ => ?_⟩
  have hspares := h.spares hclosed hpending
  exact ⟨hdispatcher hspares.dispatcher, hspares.session, hspares.heard⟩

theorem Attempts.loops (h : b.Attempts c) (status : Status) {k : Connection}
    (hdispatcher : k.dispatcher = c.connection.dispatcher) :
    b.Attempts { c with status, connection := k } := by
  refine ⟨h.attempting, fun hclosed hpending => ?_⟩
  have hspares := h.spares hclosed hpending
  exact ⟨hdispatcher.trans hspares.dispatcher, hspares.session, hspares.heard⟩

theorem Attempts.heeds {outcome : Except ClientError Unit} {task : Task} (h : b.Attempts c)
    (hheeds : c.Heeds outcome task d) (hnew : outcome ≠ .error .alreadyConnected) :
    b.Attempts d := by
  cases hheeds with
  | greeted hcaller => exact h.calls (by rw [hcaller]; rfl) rfl _ _ id
  | @ungreeted options e hcaller =>
    have hfailed : (Caller.aborting e).isAttempting = true := by
      simpa [Caller.isAttempting] using hnew
    exact h.calls (by rw [hcaller]; rfl) hfailed _ _ id
  | parted hcaller =>
    have hattempting := h.attempting
    rw [hcaller] at hattempting
    cases hattempting
  | answered | unanswered | delivered | undelivered | pinged | unpinged => exact h.loops _ rfl
  | unheeded => exact h

theorem attempts_of_greets {options : ConnectOptions} {line : Line}
    (hspares : b.connection.dispatcher = .stopped → b.Spares c)
    (hgreets : c.Greets options line d) : b.Attempts d := by
  have hnew {k : Connection} {caller : Caller} (hk : k.dispatcher = .stopped)
      (hcaller : caller.isAttempting = true) :
      b.Attempts { c with status := .connecting, caller, connection := k } := by
    refine ⟨hcaller, fun hclosed _ => ?_⟩
    exact ⟨hk, (hspares hclosed).session, (hspares hclosed).heard⟩
  cases hgreets with
  | posted => exact hnew rfl rfl
  | @unsendable e =>
    have hfailed : (Caller.aborting (.ofPacket e)).isAttempting = true := by
      simpa [Caller.isAttempting] using ClientError.ofPacket_ne_alreadyConnected e
    exact hnew rfl hfailed

theorem Attempts.callerStep (h : b.Attempts c) (step : c.CallerStep a d) (hgoing : a ≠ .finish) :
    b.Attempts d := by
  have hattempting := h.attempting
  cases step with
  | joined hcaller _ hgreets =>
    exact attempts_of_greets (fun hclosed => h.spares hclosed (by rw [hcaller]; rfl)) hgreets
  | asked hcaller | replaced hcaller | declined hcaller | departed hcaller | dismissed hcaller
  | issued hcaller | unissued hcaller | left hcaller | ended hcaller =>
    rw [hcaller] at hattempting
    cases hattempting
  | finished => exact absurd rfl hgoing
  | accepted hcaller => exact h.calls (by rw [hcaller]; rfl) rfl _ _ id
  | refused hcaller => exact h.calls (by rw [hcaller]; rfl) rfl _ _ id
  | @unanswered _ _ e hcaller _ hlate =>
    have hfailed : (Caller.aborting e).isAttempting = true := by
      rcases hlate with rfl | rfl <;> rfl
    exact h.calls (by rw [hcaller]; rfl) hfailed _ _ id
  | resumed | released | opened => exact ⟨rfl, fun _ hpending => by cases hpending⟩
  | @cleared e hcaller =>
    have hfailed : (Caller.clearing e).isAttempting = true := by
      rw [hcaller] at hattempting
      exact hattempting
    exact h.calls (by rw [hcaller]; rfl) hfailed _ _ id
  | @failed e hcaller =>
    have hfailed : (Caller.done (.error e)).isAttempting = true := by
      rw [hcaller] at hattempting
      exact hattempting
    exact h.calls (by rw [hcaller]; rfl) hfailed _ _ id
  | signalled => exact h.loops _ rfl

theorem Attempts.workerStep (h : b.Attempts c) (hordered : c.Ordered) (step : c.WorkerStep a d) :
    b.Attempts d := by
  cases step with
  | passed hworker =>
    -- only the worker of a connection that is established touches the session
    refine ⟨h.attempting, fun hclosed hpending => ?_⟩
    have hstopped := hordered.worker_stopped (h.spares hclosed hpending).dispatcher
    cases hworker.symm.trans hstopped
  | _ => exact h.loops _ rfl

theorem Attempts.dispatcherStep (h : b.Attempts c) (step : c.DispatcherStep a d) :
    b.Attempts d := by
  have hcaller : d.caller = c.caller := by cases step <;> rfl
  constructor
  · rw [hcaller]
    exact h.attempting
  · intro hclosed hpending
    rw [hcaller] at hpending
    exact absurd (h.spares hclosed hpending).dispatcher step.running

theorem Attempts.step (h : b.Attempts c) (hordered : c.Ordered) (step : c.Step a d)
    (hgoing : a ≠ .finish) : b.Attempts d := by
  cases step with
  | caller step => exact h.callerStep step hgoing
  | receiver step => cases step <;> exact h.loops _ rfl
  | worker step => exact h.workerStep hordered step
  | keeper step => cases step <;> exact h.loops _ rfl
  | dispatcher step => exact h.dispatcherStep step
  | withdrawn _ _ hheeds => exact (h.beside _ _ _ _).heeds hheeds nofun
  | written _ _ _ _ hheeds => exact (h.beside _ _ _ _).heeds hheeds nofun
  | lost _ _ _ hheeds => exact (h.beside _ _ _ _).heeds hheeds nofun
  | continued | carried => exact h.loops _ rfl
  | elapsed => exact h.beside _ _ _ _

theorem Attempts.acts (h : b.Attempts c) (hordered : c.Ordered) (hacts : c.acts actions = some d)
    (hcall : .finish ∉ actions) : b.Attempts d := by
  apply (acts_concat_induction (motive := fun u d => .finish ∉ u → d.Ordered ∧ b.Attempts d)
    (fun _ => ⟨hordered, h⟩) _ hacts hcall).2
  intro u d e a _ ih hact hcall
  rw [List.mem_append, not_or, List.mem_singleton] at hcall
  obtain ⟨hordered, hd⟩ := ih hcall.1
  have hstep := Step.of_act hact
  exact ⟨hordered.step hstep, hd.step hordered hstep (Ne.symm hcall.2)⟩

theorem attempts_of_connect {options : ConnectOptions} {line : Line}
    (hconnect : b.act (.connect options line) = some c) :
    b.Attempts c ∨
      b.isActive = true ∧ c = { b with caller := .done (.error .alreadyConnected) } := by
  obtain ⟨hcaller, rfl⟩ := free_spec hconnect
  unfold connect
  cases hcheck : options.check with
  | error e =>
    have hnew : e ≠ .alreadyConnected := by
      rintro rfl
      exact options.check_ne_alreadyConnected hcheck
    left
    exact ⟨by simpa [Caller.isAttempting] using hnew, fun hclosed _ => ⟨hclosed, rfl, rfl⟩⟩
  | ok u =>
    dsimp only
    split
    next hactive => exact .inr ⟨hactive, rfl⟩
    next =>
      left
      split
      next => exact ⟨rfl, fun hclosed _ => ⟨hclosed, rfl, rfl⟩⟩
      next =>
        have hspares (hclosed : b.connection.dispatcher = .stopped) : b.Spares b :=
          ⟨hclosed, rfl, rfl⟩
        exact attempts_of_greets hspares (.of_greet b options line)

/-! A client whose connection has come to its end can have another one. -/

theorem exists_active_of_greet (c : Client) {options : ConnectOptions} {bytes : Octets}
    (hbytes : options.packet.encode = .ok bytes) :
    ∃ later d, (c.greet options {}).acts later = some d ∧ d.isActive = true := by
  let e : Client := { c with
    status := .connecting
    caller := .awaitingAck options (c.now + c.settings.responseTimeout)
    connection := {
      line := Line.write {} c.now bytes, queue := .ofSettings c.settings, connack := .awaited
      lastSent := c.now, receiver := .reading none 0 } }
  have hsent : (c.greet options {}).act (.write (bytes.length + 1)) = some e := by
    have hdrop : bytes.drop (bytes.length + 1) = [] := List.drop_eq_nil_of_le (Nat.le_succ _)
    have htake : bytes.take (bytes.length + 1) = bytes := List.take_of_length_le (Nat.le_succ _)
    simp [greet, post, hbytes, act, write, onConnection, hdrop, htake, sent, callerSent, e]
  let answer : List Action := [.arrive [32, 2, 0, 0]] ++ List.replicate 5 (.run .receiver) ++
    List.replicate 4 (.run .caller)
  obtain ⟨d, hrest, hactive⟩ : ∃ d, e.acts answer = some d ∧ d.isActive = true := by
    apply Option.map_eq_some_iff.mp
    dsimp only [e, answer]
    rfl
  exact ⟨.write (bytes.length + 1) :: answer, d, acts_cons_of_eq hsent hrest, hactive⟩

/-- The next call that asks for a connection, on a new line and with options that can be sent, gets
one from a broker that accepts it. -/
def CanConnect (c : Client) : Prop :=
  ∀ options bytes, options.check = .ok () → options.packet.encode = .ok bytes →
    ∃ later d, c.acts (.finish :: .connect options {} :: later) = some d ∧ d.isActive = true

theorem canConnect {outcome : Except ClientError (Option ConnAck)}
    (hcaller : c.caller = .done outcome) (hclosed : c.connection.dispatcher = .stopped)
    (hinactive : c.isActive = false) : c.CanConnect := by
  intro options bytes hvalid hbytes
  let e : Client := { c with caller := .idle }
  have hfinish : c.act .finish = some e := by simp [act, hcaller, e]
  have hinactive : e.isActive = false := hinactive
  have hconnect : e.act (.connect options {}) = some (e.connect options {}) := rfl
  cases hestablished : e.established with
  | true =>
    -- nobody has joined the connection before
    let f : Client := { e with established := false, caller := .joining options {} }
    have hjoining : e.connect options {} = f := by
      simp [connect, hvalid, hinactive, hestablished, f]
    rw [hjoining] at hconnect
    have hgreet : f.act (.run .caller) = some (f.greet options {}) := if_pos hclosed
    obtain ⟨later, d, hlater, hactive⟩ := exists_active_of_greet f hbytes
    have hrest := acts_cons_of_eq hconnect (acts_cons_of_eq hgreet hlater)
    exact ⟨.run .caller :: later, d, acts_cons_of_eq hfinish hrest, hactive⟩
  | false =>
    have hgreet : e.connect options {} = e.greet options {} := by
      simp [connect, hvalid, hinactive, hestablished]
    rw [hgreet] at hconnect
    obtain ⟨later, d, hlater, hactive⟩ := exists_active_of_greet e hbytes
    have hrest := acts_cons_of_eq hconnect hlater
    exact ⟨later, d, acts_cons_of_eq hfinish hrest, hactive⟩

/-- Whatever makes a call for a connection fail, from a refusal to silence and at whatever byte, it
changes nothing: where the connection before has come to its end, the client is disconnected and can
connect again, none of its loops runs, the session is the one from before the call, and the
application has heard nothing. A call that fails because there is a connection does not touch it. -/
theorem failed_connect {σ : Settings} {s : Session} {start : Client} {before : List Action}
    {options : ConnectOptions} {line : Line} {e : ClientError}
    (hstart : ofSettings σ s = .ok start) (hbefore : start.acts before = some b)
    (hconnect : b.act (.connect options line) = some c) (hacts : c.acts actions = some d)
    (hcall : .finish ∉ actions) (hfailed : d.caller = .done (.error e)) :
    (b.connection.dispatcher = .stopped →
      d.status = .disconnected ∧ d.isActive = false ∧ (∀ task ∈ loops, d.isStopped task = true) ∧
        d.CanConnect ∧ d.session = b.session ∧ d.heard = b.heard) ∧
    (e = .alreadyConnected →
      b.isActive = true ∧ c = { b with caller := .done (.error .alreadyConnected) }) := by
  have hb := ordered_dormant hstart hbefore
  have hc := ordered_dormant hstart (acts_concat_of_eq hbefore hconnect)
  have hd : d.Ordered ∧ d.Dormant :=
    ordered_dormant hstart (acts_append_of_eq (acts_concat_of_eq hbefore hconnect) hacts)
  have hopening : d.caller.isOpening = false := by rw [hfailed]; rfl
  rcases attempts_of_connect hconnect with hattempts | ⟨hactive, hsame⟩
  · have hend := hattempts.acts hc.1 hacts hcall
    constructor
    · intro hclosed
      have hspares := hend.spares hclosed (by rw [hfailed]; rfl)
      have hstatus := hd.2 hspares.dispatcher hopening
      have hinactive := hd.2.isActive hspares.dispatcher hopening
      have hstopped := hd.1.isStopped hspares.dispatcher hopening
      exact ⟨hstatus, hinactive, hstopped, canConnect hfailed hspares.dispatcher hinactive,
        hspares.session, hspares.heard⟩
    · rintro rfl
      have hattempting := hend.attempting
      rw [hfailed] at hattempting
      cases hattempting
  · constructor
    · intro hclosed
      have hidle : b.caller.isOpening = false := by
        rw [(free_spec hconnect).1]
        rfl
      cases (hb.2.isActive hclosed hidle).symm.trans hactive
    · exact fun _ => ⟨hactive, hsame⟩

/-- A message of quality 1 is left behind by a connection that broke. A broker that refuses the next
connection leaves it in the session, and the application hears nothing of the call. -/
theorem failed_connect_of_refused :
    let options : ConnectOptions := { clientId := "c", cleanSession := false, keepAlive := 0 }
    let before := Action.opening options ++ [.publish "a" [42] 1 false, .signal] ++
      Action.working ++ Action.losing
    let actions := [.write 100, .arrive [32, 2, 0, 5]] ++ List.replicate 5 (.run .receiver) ++
      [.run .caller, .stop .receiver, .run .caller, .run .caller]
    ofSettings {} { clientId := "" } = .ok newcomer ∧
    ∃ b c d, newcomer.acts before = some b ∧ b.connection.dispatcher = .stopped ∧
      b.session.deliveries.map Delivery.id = [1] ∧
      b.act (.connect options {}) = some c ∧ c.acts actions = some d ∧ .finish ∉ actions ∧
      d.caller = .done (.error (.ofRefusal 5)) ∧ d.status = .disconnected ∧
      d.session = b.session ∧ d.heard = b.heard := by
  intro options before actions
  have hnew : ofSettings {} { clientId := "" } = .ok newcomer := rfl
  refine ⟨hnew, ?_⟩
  obtain ⟨b, hbefore, hshape⟩ : ∃ b, newcomer.acts before = some b ∧
      (b.connection.dispatcher, b.session.deliveries.map Delivery.id) = (.stopped, [1]) := by
    apply Option.map_eq_some_iff.mp
    dsimp only [before, options]
    rfl
  obtain ⟨hclosed, hleft⟩ := Prod.mk.inj hshape
  obtain ⟨d, hall, hfailed⟩ : ∃ d,
      newcomer.acts (before ++ .connect options {} :: actions) = some d ∧
        d.caller = .done (.error (.ofRefusal 5)) := by
    apply Option.map_eq_some_iff.mp
    dsimp only [before, actions, options]
    rfl
  rw [acts_append, hbefore, Option.bind_some] at hall
  obtain ⟨c, hconnect, hacts⟩ := Option.bind_eq_some_iff.mp hall
  have hcall : .finish ∉ actions := by simp [actions]
  obtain ⟨hstatus, -, -, -, hsession, hheard⟩ :=
    (failed_connect hnew hbefore hconnect hacts hcall hfailed).1 hclosed
  exact ⟨b, c, d, hbefore, hclosed, hleft, hconnect, hacts, hcall, hfailed, hstatus, hsession,
    hheard⟩

end Client
end Mqtt
