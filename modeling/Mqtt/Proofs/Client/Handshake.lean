import Mqtt.Proofs.Client.Teardown

/-!
How a connection comes to its session. Until the call has put back what the session owes, the
receiver hands on one packet at most: a CONNACK, behind which it waits for that, or one that has
come too early, behind which it fails.
-/
namespace Mqtt

namespace Caller

/-- A call that waits for a CONNACK, or one that has failed. -/
def isWaiting : Caller → Bool
  | .idle | .greeting _ | .awaitingAck _ _ | .aborting _ | .clearing _ | .done (.error _) => true
  | _ => false

def options? : Caller → Option ConnectOptions
  | .greeting options | .awaitingAck options _ | .resuming options _ => some options
  | _ => none

/-- How many steps a call that fails is away from its end, at most. -/
def rank : Caller → Nat
  | .greeting _ | .awaitingAck _ _ => 3
  | .aborting _ => 2
  | .clearing _ => 1
  | _ => 0

/-- What has failed and is over comes back with an error. -/
theorem failed_of_isWaiting {caller : Caller} (h : caller.isWaiting = true)
    (hover : caller.isOpening = false) (hbusy : caller ≠ .idle) :
    ∃ e, caller = .done (.error e) := by
  cases caller with
  | done outcome =>
    cases outcome with
    | error e => exact ⟨e, rfl⟩
    | ok ack => cases h
  | idle => exact absurd rfl hbusy
  | greeting | awaitingAck | aborting | clearing => cases hover
  | joining | resuming | releasing | opening | parting | leaving | awaitingEnd => cases h

end Caller

/-- The receiver has handed on nothing yet. -/
def Receiver.isEarly : Receiver → Bool
  | .reading _ _ | .routing _ | .failing _ => true
  | _ => false

namespace Client

/-- The packet that an action hands on. -/
def routedBy (c : Client) : Action → Option Packet
  | .run .receiver =>
    match c.connection.receiver with
    | .routing p => some p
    | _ => none
  | _ => none

def routed (c : Client) : List Action → List Packet
  | [] => []
  | a :: rest =>
    match c.act a with
    | none => []
    | some c' => (c.routedBy a).toList ++ c'.routed rest

/-- What has been handed on before the session is in the queue, and who waits for whom. -/
inductive Gate (t : List Packet) (caller : Caller) (connack : Reply ConnAck) (receiver : Receiver) :
    Prop where
  | shut (hnone : t = []) (hcaller : caller.isWaiting = true) (hconnack : connack = .awaited)
      (hreceiver : receiver.isEarly = true)
  | refused {p : Packet} {e : ClientError} (hone : t = [p]) (hearly : ∀ ack, p ≠ .connAck ack)
      (hcaller : caller.isWaiting = true) (hconnack : connack = .awaited)
      (hreceiver : receiver = .failing e)
  | lost (hnone : ∀ ack, .connAck ack ∉ t) (hlength : t.length ≤ 1)
      (hcaller : caller.isWaiting = true) (hconnack : connack = .abandoned)
      (hreceiver : receiver = .stopped)
  | answered {ack : ConnAck} (hone : t = [.connAck ack]) (hcaller : caller.isWaiting = true)
      (hconnack : connack = .answered ack ∨ connack = .idle)
      (hreceiver : receiver = .resuming ∨ receiver = .stopped)
  | accepted {options : ConnectOptions} {ack : ConnAck} (hone : t = [.connAck ack])
      (hcaller : caller = .resuming options ack) (haccepted : ack.isAccepted = true)
      (hconnack : connack = .idle) (hreceiver : receiver = .resuming ∨ receiver = .stopped)

/-- A connection whose session is not in the queue yet. -/
structure Unresumed (s : Session) (asked : Option ConnectOptions) (t : List Packet) (c : Client) :
    Prop where
  session : c.session = s
  established : c.established = false
  asked : ∀ options, c.caller.options? = some options → asked = some options
  queue : c.connection.queue = .ofSettings c.settings
  acks : c.connection.acks = []
  worker : c.connection.worker = .stopped
  resumed : c.connection.resumed = false
  closing : c.connection.receiver = .stopped → c.connection.closing = true
  gate : Gate t c.caller c.connection.connack c.connection.receiver

variable {c d : Client} {a : Action} {u v actions : List Action} {s : Session}
  {asked : Option ConnectOptions} {t : List Packet} {caller : Caller} {connack : Reply ConnAck}
  {receiver : Receiver}

theorem routedBy_of_receiver {p : Packet} (h : c.connection.receiver = .routing p) :
    c.routedBy (.run .receiver) = some p := by
  simp [routedBy, h]

theorem routedBy_eq_none (h : ∀ p, c.connection.receiver ≠ .routing p) : c.routedBy a = none := by
  unfold routedBy
  split
  next =>
    split
    next p hp => exact absurd hp (h p)
    next => rfl
  next => rfl

theorem routedBy_of_asked (h : a.isOwn = false) : c.routedBy a = none := by
  cases a <;> first | rfl | cases h

theorem routed_append (h : c.acts u = some d) : c.routed (u ++ v) = c.routed u ++ d.routed v := by
  induction u generalizing c with
  | nil =>
    cases h
    rfl
  | cons a u ih =>
    obtain ⟨e, hact, hrest⟩ := Option.bind_eq_some_iff.mp h
    simp only [List.cons_append, routed, hact, ih hrest, List.append_assoc]

theorem routed_concat {e : Client} (hu : c.acts u = some d) (h : d.act a = some e) :
    c.routed (u ++ [a]) = c.routed u ++ (d.routedBy a).toList := by
  simp only [routed_append hu, routed, h, List.append_nil]

/-! Who hands a packet on. -/

theorem CallerStep.routedBy_eq_none (step : c.CallerStep a d) : c.routedBy a = none := by
  cases step with
  | declined _ hasked | issued _ _ _ hasked | unissued _ hasked => exact routedBy_of_asked hasked
  | _ => rfl

theorem WorkerStep.routedBy_eq_none (step : c.WorkerStep a d) : c.routedBy a = none := by
  cases step <;> rfl

theorem KeeperStep.routedBy_eq_none (step : c.KeeperStep a d) : c.routedBy a = none := by
  cases step <;> rfl

theorem DispatcherStep.routedBy_eq_none (step : c.DispatcherStep a d) : c.routedBy a = none := by
  cases step <;> rfl

theorem routedBy_of_isSending {task : Task} (h : c.isSending task = true) :
    c.routedBy (.run task) = none := by
  cases task with
  | receiver =>
    refine routedBy_eq_none fun p hp => ?_
    simp [isSending, hp] at h
  | _ => rfl

/-! What each task does before the session is in the queue. -/

theorem Gate.isWaiting (h : Gate t caller connack receiver) :
    caller.isWaiting = true ∨ ∃ options ack, caller = .resuming options ack := by
  cases h with
  | shut _ hcaller | refused _ _ hcaller | lost _ _ hcaller | answered _ hcaller =>
    exact .inl hcaller
  | accepted _ hcaller => exact .inr ⟨_, _, hcaller⟩

theorem Gate.receiver_cases (h : Gate t caller connack receiver) :
    receiver.isEarly = true ∨ receiver = .resuming ∨ receiver = .stopped := by
  cases h with
  | shut _ _ _ hearly => exact .inl hearly
  | refused _ _ _ _ hfailing => exact .inl (by rw [hfailing]; rfl)
  | lost _ _ _ _ hstopped => exact .inr (.inr hstopped)
  | answered _ _ _ hreceiver | accepted _ _ _ _ hreceiver => exact .inr hreceiver

theorem Gate.length_le (h : Gate t caller connack receiver) : t.length ≤ 1 := by
  cases h with
  | shut hnone => simp [hnone]
  | lost _ hlength => exact hlength
  | refused hone | answered hone | accepted hone => simp [hone]

theorem Gate.of_refused {p : Packet} (h : Gate [p] caller connack receiver)
    (hearly : ∀ ack, p ≠ .connAck ack) :
    caller.isWaiting = true ∧ (connack = .awaited ∧ (∃ e, receiver = .failing e) ∨
      connack = .abandoned ∧ receiver = .stopped) := by
  cases h with
  | shut hnone => cases hnone
  | refused _ _ hcaller hconnack hreceiver => exact ⟨hcaller, .inl ⟨hconnack, _, hreceiver⟩⟩
  | lost _ _ hcaller hconnack hreceiver => exact ⟨hcaller, .inr ⟨hconnack, hreceiver⟩⟩
  | answered hone | accepted hone => exact absurd (List.singleton_inj.mp hone) (hearly _)

theorem Gate.calls (h : Gate t caller connack receiver) (hcaller : caller.isWaiting = true)
    {next : Caller} (hnext : next.isWaiting = true) : Gate t next connack receiver := by
  cases h with
  | shut hnone _ hconnack hreceiver => exact .shut hnone hnext hconnack hreceiver
  | refused hone hearly _ hconnack hreceiver => exact .refused hone hearly hnext hconnack hreceiver
  | lost hnone hlength _ hconnack hreceiver => exact .lost hnone hlength hnext hconnack hreceiver
  | answered hone _ hconnack hreceiver => exact .answered hone hnext hconnack hreceiver
  | accepted _ hresuming =>
    rw [hresuming] at hcaller
    cases hcaller

theorem Gate.of_answered {ack : ConnAck} (h : Gate t caller (.answered ack) receiver) :
    t = [.connAck ack] ∧ (receiver = .resuming ∨ receiver = .stopped) := by
  cases h with
  | answered hone _ hconnack hreceiver =>
    obtain ⟨rfl⟩ := Reply.answered.inj (hconnack.resolve_right nofun)
    exact ⟨hone, hreceiver⟩
  | shut _ _ hconnack | refused _ _ _ hconnack | lost _ _ _ hconnack | accepted _ _ _ hconnack =>
    cases hconnack

theorem Gate.of_early (h : Gate t caller connack receiver) (hearly : receiver.isEarly = true)
    (hgoing : ∀ e, receiver ≠ .failing e) :
    t = [] ∧ caller.isWaiting = true ∧ connack = .awaited := by
  cases h with
  | shut hnone hcaller hconnack => exact ⟨hnone, hcaller, hconnack⟩
  | refused _ _ _ _ hreceiver => exact absurd hreceiver (hgoing _)
  | lost _ _ _ _ hreceiver =>
    rw [hreceiver] at hearly
    cases hearly
  | answered _ _ _ hreceiver | accepted _ _ _ _ hreceiver =>
    rcases hreceiver with hreceiver | hreceiver <;> rw [hreceiver] at hearly <;> cases hearly

/-- The receiver fails, or is stopped where it waits. -/
theorem Gate.stop (h : Gate t caller connack receiver) :
    Gate t caller connack.abandon .stopped := by
  cases h with
  | shut hnone hcaller hconnack =>
    exact .lost (by simp [hnone]) (by simp [hnone]) hcaller (by rw [hconnack]; rfl) rfl
  | refused hone hearly hcaller hconnack =>
    refine .lost (fun ack hack => ?_) (by simp [hone]) hcaller (by rw [hconnack]; rfl) rfl
    rw [hone, List.mem_singleton] at hack
    exact hearly ack hack.symm
  | lost hnone hlength hcaller hconnack =>
    exact .lost hnone hlength hcaller (by rw [hconnack]; rfl) rfl
  | answered hone hcaller hconnack =>
    refine .answered hone hcaller ?_ (.inr rfl)
    rcases hconnack with hconnack | hconnack <;> rw [hconnack]
    · exact .inl rfl
    · exact .inr rfl
  | accepted hone hcaller haccepted hconnack =>
    exact .accepted hone hcaller haccepted (by rw [hconnack]; rfl) (.inr rfl)

theorem Unresumed.beside (h : Unresumed s asked t c) (line : Line) (writes : List Write)
    (lastSent : Nat) :
    Unresumed s asked t { c with connection := { c.connection with line, writes, lastSent } } :=
  { h with }

theorem Unresumed.calls (h : Unresumed s asked t c) (hcaller : c.caller.isWaiting = true)
    {next : Caller} (hnext : next.isWaiting = true) (hnone : next.options? = none)
    {status : Status} {closing : Bool} {line : Line}
    (hclosing : c.connection.closing = true → closing = true) :
    Unresumed s asked t { c with
      status, caller := next, connection := { c.connection with closing, line } } :=
  { h with
    asked := fun _ ho => by
      rw [hnone] at ho
      cases ho
    closing := fun hstopped => hclosing (h.closing hstopped)
    gate := h.gate.calls hcaller hnext }

theorem Unresumed.heeds {outcome : Except ClientError Unit} {task : Task}
    (h : Unresumed s asked t c) (hheeds : c.Heeds outcome task d) : Unresumed s asked t d := by
  cases hheeds with
  | greeted hcaller =>
    have hgreeting : c.caller.isWaiting = true := by rw [hcaller]; rfl
    exact { h with
      asked := fun options ho => h.asked options (by rw [hcaller]; exact ho)
      gate := h.gate.calls hgreeting rfl }
  | ungreeted hcaller => exact h.calls (by rw [hcaller]; rfl) rfl rfl fun _ => rfl
  | parted hcaller =>
    rcases h.gate.isWaiting with hwaiting | ⟨_, _, hresuming⟩
    · rw [hcaller] at hwaiting
      cases hwaiting
    · cases hcaller.symm.trans hresuming
  | answered hreceiver | unanswered hreceiver =>
    have hcases := h.gate.receiver_cases
    simp [hreceiver, Receiver.isEarly] at hcases
  | delivered hworker | undelivered hworker => cases h.worker.symm.trans hworker
  | pinged | unpinged => exact { h with }
  | unheeded => exact h

/-- The call goes on to its session, and only then does it leave the handshake. -/
theorem Unresumed.callerStep (h : Unresumed s asked t c) (step : c.CallerStep a d)
    (hsame : ∀ line, c.milestone a ≠ some (.opened line)) :
    (∃ options ack, c.caller = .resuming options ack ∧ a = .run .caller) ∨
      Unresumed s asked t d := by
  have hinactive : c.isActive = false := by simp [isActive, h.established]
  have hcalls := h.gate.isWaiting
  have hnone {caller : Caller} (hcaller : c.caller = caller) (hnot : caller.isWaiting = false)
      (hnot' : ∀ options ack, caller ≠ .resuming options ack) : False := by
    rcases hcalls with hwaiting | ⟨options, ack, hresuming⟩
    · rw [hcaller, hnot] at hwaiting
      cases hwaiting
    · exact hnot' options ack (hcaller.symm.trans hresuming)
  cases step with
  | joined hcaller => exact (hnone hcaller rfl (by simp)).elim
  | asked _ hvalid hfree => exact absurd (milestone_of_connect hvalid hfree) (hsame _)
  | replaced _ _ hestablished => cases h.established.symm.trans hestablished
  | declined hcaller => exact .inr (h.calls (by rw [hcaller]; rfl) rfl rfl id)
  | departed _ hactive => cases hinactive.symm.trans hactive
  | dismissed _ hestablished => cases h.established.symm.trans hestablished
  | @finished outcome hcaller =>
    have hdone : c.caller.isWaiting = true := by
      rcases hcalls with hwaiting | ⟨_, _, hresuming⟩
      · exact hwaiting
      · cases hcaller.symm.trans hresuming
    exact .inr (h.calls hdone rfl rfl id)
  | @accepted options deadline ack hcaller hconnack haccepted =>
    have hgate := h.gate
    rw [hconnack] at hgate
    obtain ⟨hone, hreceiver⟩ := hgate.of_answered
    exact .inr { h with
      asked := fun options' ho => h.asked options' (by rw [hcaller]; exact ho)
      gate := .accepted hone rfl haccepted rfl hreceiver }
  | @refused options deadline ack hcaller hconnack =>
    have hgate := h.gate
    rw [hconnack] at hgate
    obtain ⟨hone, hreceiver⟩ := hgate.of_answered
    exact .inr { h with
      asked := fun _ ho => (by cases ho)
      closing := fun _ => rfl
      gate := .answered hone rfl (.inr rfl) hreceiver }
  | unanswered hcaller => exact .inr (h.calls (by rw [hcaller]; rfl) rfl rfl fun _ => rfl)
  | resumed hcaller => exact .inl ⟨_, _, hcaller, rfl⟩
  | released hcaller => exact (hnone hcaller rfl (by simp)).elim
  | opened hcaller => exact (hnone hcaller rfl (by simp)).elim
  | cleared hcaller => exact .inr (h.calls (by rw [hcaller]; rfl) rfl rfl id)
  | failed hcaller => exact .inr (h.calls (by rw [hcaller]; rfl) rfl rfl id)
  | left hcaller => exact (hnone hcaller rfl (by simp)).elim
  | ended hcaller => exact (hnone hcaller rfl (by simp)).elim
  | issued _ hactive => cases hinactive.symm.trans hactive
  | unissued => exact .inr h
  | signalled => exact .inr { h with }

theorem Unresumed.receiverStep (h : Unresumed s asked t c) (step : c.ReceiverStep a d) :
    Unresumed s asked (t ++ (c.routedBy a).toList) d := by
  have hshut (hearly : c.connection.receiver.isEarly = true)
      (hgoing : ∀ e, c.connection.receiver ≠ .failing e) := h.gate.of_early hearly hgoing
  have hquiet (hreceiver : ∀ p, c.connection.receiver ≠ .routing p) :
      t ++ (c.routedBy a).toList = t := by
    rw [routedBy_eq_none hreceiver, Option.toList_none, List.append_nil]
  -- once CONNACK has come, nothing is handed on
  have hnone {p : Packet} (hreceiver : c.connection.receiver = .routing p)
      (hconnack : c.connection.connack ≠ .awaited) : False :=
    hconnack (hshut (by rw [hreceiver]; rfl) (by simp [hreceiver])).2.2
  cases step with
  | read hreceiver | received hreceiver | faulted hreceiver =>
    obtain ⟨hempty, hcaller, hconnack⟩ := hshut (by rw [hreceiver]; rfl) (by simp [hreceiver])
    rw [hquiet (by simp [hreceiver])]
    exact { h with closing := nofun, gate := .shut hempty hcaller hconnack rfl }
  | @acknowledged ack hreceiver =>
    obtain ⟨rfl, hcaller, -⟩ := hshut (by rw [hreceiver]; rfl) (by simp [hreceiver])
    rw [routedBy_of_receiver hreceiver]
    exact { h with closing := nofun, gate := .answered rfl hcaller (.inl rfl) (.inl rfl) }
  | @violated p text hreceiver hnot =>
    obtain ⟨rfl, hcaller, hconnack⟩ := hshut (by rw [hreceiver]; rfl) (by simp [hreceiver])
    rw [routedBy_of_receiver hreceiver]
    exact { h with
      closing := nofun
      gate := .refused rfl (fun ack hack => hnot ack hack hconnack) hcaller hconnack rfl }
  | answered hreceiver hconnack => exact (hnone hreceiver hconnack).elim
  | unsolicited hreceiver hconnack => exact (hnone hreceiver hconnack).elim
  | taken hreceiver hconnack => exact (hnone hreceiver hconnack).elim
  | kept hreceiver hconnack => exact (hnone hreceiver hconnack).elim
  | stale hreceiver hconnack => exact (hnone hreceiver hconnack).elim
  | released hreceiver hconnack => exact (hnone hreceiver hconnack).elim
  | unreleased hreceiver hconnack => exact (hnone hreceiver hconnack).elim
  | resumed _ hresumed => cases h.resumed.symm.trans hresumed
  | woke hreceiver | brokenOff _ hreceiver =>
    have hcases := h.gate.receiver_cases
    simp [hreceiver, Receiver.isEarly] at hcases
  | failed hreceiver =>
    rw [hquiet (by simp [hreceiver])]
    exact { h with closing := fun _ => rfl, gate := h.gate.stop }
  | broken hclosing =>
    have hnothing : t ++ (c.routedBy (.stop .receiver)).toList = t := List.append_nil t
    rw [hnothing]
    exact { h with closing := fun _ => hclosing, gate := h.gate.stop }

/-- The handshake goes on until the call puts the session into the queue. -/
theorem Unresumed.act (h : Unresumed s asked t c) (hact : c.act a = some d)
    (hsame : ∀ line, c.milestone a ≠ some (.opened line)) :
    (∃ options ack, c.caller = .resuming options ack ∧ a = .run .caller) ∨
      Unresumed s asked (t ++ (c.routedBy a).toList) d := by
  have hquiet (hnone : c.routedBy a = none) : t ++ (c.routedBy a).toList = t := by
    rw [hnone, Option.toList_none, List.append_nil]
  cases Step.of_act hact with
  | caller step =>
    rw [hquiet step.routedBy_eq_none]
    exact h.callerStep step hsame
  | receiver step => exact .inr (h.receiverStep step)
  | worker step =>
    -- the worker does not run yet
    exact absurd h.worker step.running
  | keeper step =>
    rw [hquiet step.routedBy_eq_none]
    right
    cases step with
    | failed => exact { h with closing := fun _ => rfl }
    | _ => exact { h with }
  | dispatcher step =>
    rw [hquiet step.routedBy_eq_none]
    right
    cases step <;> exact { h with }
  | withdrawn _ hsending hheeds =>
    rw [hquiet (routedBy_of_isSending hsending)]
    exact .inr ((h.beside _ _ _).heeds hheeds)
  | written _ _ _ _ hheeds =>
    rw [hquiet rfl]
    exact .inr ((h.beside _ _ _).heeds hheeds)
  | lost _ _ _ hheeds =>
    rw [hquiet rfl]
    exact .inr ((h.beside _ _ _).heeds hheeds)
  | continued | elapsed =>
    rw [hquiet rfl]
    exact .inr { h with }
  | carried hother =>
    rw [hquiet (routedBy_of_asked hother)]
    exact .inr { h with }

/-! A packet in front of the CONNACK fails the call. -/

/-- The call that opens the connection fails: its connection is never established, the call comes
back with nothing but an error, and its tasks can always bring it to that point. -/
def Fails (c : Client) : Prop :=
  ∀ actions d, c.acts actions = some d → (∀ line, .opened line ∉ c.milestones actions) →
    d.established = false ∧ (∀ outcome, d.caller = .done outcome → ∃ e, outcome = .error e) ∧
    (d.caller.isOpening = true → ∃ f e, d.Proceeds f ∧ f.caller = .done (.error e))

def Rejects (c : Client) (p : Packet) : Prop :=
  ∃ d, c.act (.run .receiver) = some d ∧ d.Fails ∧
    d.connection.receiver = .failing (.violation s!"broker sent {p.type.name} before CONNACK")

/-- The receiver has handed on a packet in front of the CONNACK. -/
structure Refused (s : Session) (asked : Option ConnectOptions) (p : Packet) (c : Client) : Prop
    extends Unresumed s asked [p] c where
  early : ∀ ack, p ≠ .connAck ack
  ordered : c.Ordered
  lined : c.Lined

variable {p : Packet}

theorem Refused.act (h : Refused s asked p c) (hact : c.act a = some d)
    (hsame : ∀ line, c.milestone a ≠ some (.opened line)) : Refused s asked p d := by
  have hstep := Step.of_act hact
  have hordered := h.ordered.step hstep
  have hlined := h.lined.step h.ordered hstep
  rcases h.toUnresumed.act hact hsame with ⟨options, ack, hcaller, -⟩ | hnext
  · have hwaiting := (h.gate.of_refused h.early).1
    rw [hcaller] at hwaiting
    cases hwaiting
  · have hlast : (c.routedBy a).toList = [] := by
      have hlength := hnext.gate.length_le
      rw [List.length_append, List.length_singleton] at hlength
      exact List.eq_nil_of_length_eq_zero (by omega)
    rw [hlast, List.append_nil] at hnext
    exact { hnext with early := h.early, ordered := hordered, lined := hlined }

theorem Refused.acts (h : Refused s asked p c) (hacts : c.acts actions = some d)
    (hsame : ∀ line, .opened line ∉ c.milestones actions) : Refused s asked p d := by
  refine connection_induction (motive := fun _ d => Refused s asked p d) h ?_ hacts hsame
  intro u c d a _ hc hact hquiet
  exact hc.act hact hquiet

/-- Where the receiver has stopped, no task but the caller has a packet on its way. -/
theorem Refused.writes_eq_nil (h : Refused s asked p c) {e : ClientError}
    (hcaller : c.caller = .clearing e) (hreceiver : c.connection.receiver = .stopped) :
    c.connection.writes = [] := by
  have hdispatcher := (h.ordered.opening (by rw [hcaller]; rfl)).2
  have hkeeper : c.connection.keeper = .stopped := by
    by_contra hrunning
    simpa [hdispatcher, Dispatcher.isServing] using h.ordered.keeper hrunning
  refine List.eq_nil_iff_forall_not_mem.mpr fun w hw => ?_
  have hsending := h.lined.sending w hw
  cases htask : w.task <;>
    simp [htask, isSending, hcaller, hreceiver, h.worker, hkeeper] at hsending

theorem Refused.caller_step (h : Refused s asked p c) (hbusy : c.caller ≠ .idle) :
    c.caller.isOpening = false ∨ c.Nears (fun d => Refused s asked p d ∧ d.caller ≠ .idle)
      fun c => c.caller.rank + c.connection.receiver.rank := by
  have hgo {task : Task} {d : Client} (hact : c.act (.run task) = some d)
      (hquiet : c.milestone (.run task) = none) (hbusy : d.caller ≠ .idle)
      (hless : d.caller.rank + d.connection.receiver.rank <
        c.caller.rank + c.connection.receiver.rank) :
      c.Nears (fun d => Refused s asked p d ∧ d.caller ≠ .idle)
        fun c => c.caller.rank + c.connection.receiver.rank := by
    have hsame : ∀ line, c.milestone (.run task) ≠ some (.opened line) := by simp [hquiet]
    exact ⟨d, proceeds_of_act hact rfl hsame, ⟨h.act hact hsame, hbusy⟩, hless⟩
  obtain ⟨hwaiting, ⟨-, e, hreceiver⟩ | ⟨hconnack, hreceiver⟩⟩ := h.gate.of_refused h.early
  · have hact : c.act (.run .receiver) = some c.beginClose.stopReceiver := by
      simp [Client.act, run, runReceiver, hreceiver]
    rw [beginClose_eq] at hact
    refine .inr (hgo hact rfl hbusy ?_)
    rw [hreceiver]
    exact Nat.lt_succ_self _
  · have hclosing := h.closing hreceiver
    cases hcaller : c.caller with
    | idle => exact absurd hcaller hbusy
    | done => exact .inl rfl
    | greeting options =>
      have hact : c.act (.run .caller) = some ((c.withdraw .caller).abort .tooLate) := by
        simp [Client.act, run, runCaller, hcaller, hclosing, callerSent, withdraw, onConnection]
      rw [abort, beginClose_eq] at hact
      rw [hcaller] at hgo
      exact .inr (hgo hact (by simp [milestone, hcaller]) (by simp)
        (Nat.add_lt_add_right (Nat.lt_succ_self 2) _))
    | awaitingAck options deadline =>
      have hact : c.act (.run .caller) =
          some (c.abort (.lost "connection closed before CONNACK")) := by
        simp [Client.act, run, runCaller, hcaller, runGreeting, hconnack]
      rw [abort, beginClose_eq] at hact
      rw [hcaller] at hgo
      exact .inr (hgo hact (by simp [milestone, hcaller]) (by simp)
        (Nat.add_lt_add_right (Nat.lt_succ_self 2) _))
    | aborting e =>
      have hact : c.act (.run .caller) = some { c with caller := .clearing e } := by
        simp [Client.act, run, runCaller, hcaller, hreceiver]
      rw [hcaller] at hgo
      exact .inr (hgo hact (by simp [milestone, hcaller]) (by simp)
        (Nat.add_lt_add_right (Nat.lt_succ_self 1) _))
    | clearing e =>
      have hwrites := h.writes_eq_nil hcaller hreceiver
      have hact : c.act (.run .caller) = some
          { c.onConnection fun k => { k with line := k.line.close c.now } with
            status := .disconnected, caller := .done (.error e) } := by
        simp [Client.act, run, runCaller, hcaller, hwrites]
      rw [hcaller] at hgo
      exact .inr (hgo hact (by simp [milestone, hcaller]) (by simp)
        (Nat.add_lt_add_right (Nat.lt_succ_self 0) _))
    | joining | resuming | releasing | opening | parting | leaving | awaitingEnd =>
      rw [hcaller] at hwaiting
      cases hwaiting

/-- A call behind a packet that came in front of the CONNACK can come back, and then with an error. -/
theorem Refused.exists_failed (h : Refused s asked p c) (hbusy : c.caller ≠ .idle) :
    ∃ d e, c.Proceeds d ∧ d.caller = .done (.error e) := by
  have hend : ∃ d, c.Proceeds d ∧ (Refused s asked p d ∧ d.caller ≠ .idle) ∧
      d.caller.isOpening = false :=
    exists_proceeds (fun c => c.caller.rank + c.connection.receiver.rank)
      (fun _ h => h.1.caller_step h.2) ⟨h, hbusy⟩
  obtain ⟨d, hproceeds, ⟨hd, hbusy⟩, hover⟩ := hend
  have hwaiting := (hd.gate.of_refused hd.early).1
  obtain ⟨e, hfailed⟩ := Caller.failed_of_isWaiting hwaiting hover hbusy
  exact ⟨d, e, hproceeds, hfailed⟩

theorem Refused.fails (h : Refused s asked p c) : c.Fails := by
  intro actions d hacts hsame
  have hd := h.acts hacts hsame
  refine ⟨hd.established, fun outcome hdone => ?_, fun hopening => hd.exists_failed ?_⟩
  · have hwaiting := (hd.gate.of_refused hd.early).1
    rw [hdone] at hwaiting
    cases outcome with
    | error e => exact ⟨e, rfl⟩
    | ok ack => cases hwaiting
  · intro hidle
    rw [hidle] at hopening
    cases hopening

theorem milestone_receiver_ne (line : Line) :
    c.milestone (.run .receiver) ≠ some (.opened line) :=
  nofun

theorem Unresumed.unopened (h : Unresumed s asked t c) :
    c.established = false ∧ ∀ ack, c.caller ≠ .done (.ok ack) := by
  refine ⟨h.established, fun ack hdone => ?_⟩
  rcases h.gate.isWaiting with hwaiting | ⟨_, _, hresuming⟩
  · rw [hdone] at hwaiting
    cases hwaiting
  · cases hdone.symm.trans hresuming

/-- What is handed on in a handshake is the CONNACK, or fails the call. -/
theorem Unresumed.rejects {s : Session} {asked : Option ConnectOptions} {t : List Packet}
    (h : Unresumed s asked t c) (hordered : c.Ordered) (hlined : c.Lined)
    (hrouting : c.connection.receiver = .routing p) :
    t = [] ∧ ((∃ ack, p = .connAck ack) ∨ c.Rejects p) := by
  obtain ⟨rfl, -, hconnack⟩ := h.gate.of_early (by rw [hrouting]; rfl) (by simp [hrouting])
  refine ⟨rfl, ?_⟩
  by_cases hack : ∃ ack, p = .connAck ack
  · exact .inl hack
  right
  have hearly : ∀ ack, p ≠ .connAck ack := not_exists.mp hack
  have hact := act_of_routing hrouting
  have hroute : c.route p = c.toReceiver
      (.failing (.violation s!"broker sent {p.type.name} before CONNACK")) := by
    cases p with
    | connAck ack => exact absurd rfl (hearly ack)
    | _ => simp [route, hconnack]
  have hstep := Step.of_act hact
  have hnext := (h.act hact milestone_receiver_ne).resolve_left (by simp)
  rw [routedBy_of_receiver hrouting] at hnext
  have hrefused : Refused s asked p (c.route p) := { hnext with
    early := hearly, ordered := hordered.step hstep, lined := hlined.step hordered hstep }
  exact ⟨_, hact, hrefused.fails, by rw [hroute]; rfl⟩

end Client
end Mqtt
