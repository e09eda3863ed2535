import Mqtt.Proofs.Client.Pinging
import Mqtt.Proofs.Client.Resumption
import Mqtt.Proofs.Client.Wire

/-!
What the keeper has to do with. Of an established connection it knows the clock, when the last
packet was written, whether its own is on the way, and what became of the answer; here is said once
what each action does to that.
-/
namespace Mqtt.Client

structure Writing where
  time : Nat
  task : Task
  packet : Packet

def finishes (c : Client) (a : Action) : List Writing :=
  match c.milestone a with
  | some (.written task packet) => [⟨c.now, task, packet⟩]
  | _ => []

/-- The packets that actions taken one after another write whole, in order. -/
def writings : Client → List Action → List Writing :=
  trace finishes

/-- What the keeper has to do with. -/
structure Pulse where
  now : Nat
  lastSent : Nat
  keeper : Keeper
  pong : Reply Unit
  asking : Bool
  closing : Bool
  broken : Bool

def pulse (c : Client) : Pulse :=
  { now := c.now
    lastSent := c.connection.lastSent
    keeper := c.connection.keeper
    pong := c.connection.pong
    asking := c.connection.writes.any fun w => w.task = .keeper
    closing := c.connection.closing
    broken := c.connection.line.broken }

/-- A connection past its handshake. -/
structure Going (c : Client) : Prop where
  ordered : c.Ordered
  kept : c.Kept
  lined : c.Lined
  resumed : c.Resumed
  calling : c.caller.isOpening = false
  pinging : c.Pinging

/-- What an action does to the keeper and to what it has to do with. -/
inductive Beat (c : Client) (a : Action) (d : Client) : Prop where
  | closed (hclosing : d.connection.closing = true) (hnow : d.now = c.now)
      (hsent : d.connection.lastSent = c.connection.lastSent) (hsilent : c.finishes a = [])
  | quiet (hpulse : d.pulse = { c.pulse with broken := d.connection.line.broken })
      (hbroken : c.connection.line.broken = true → d.connection.line.broken = true)
      (hsilent : c.finishes a = [])
      (hunanswered : c.connection.pong = .awaited → c.routedBy a ≠ some .pingResp)
  | elapsed {milliseconds : Nat} (htime : a = .elapse milliseconds)
      (hpulse : d.pulse = { c.pulse with now := c.now + milliseconds })
  | wrote {task : Task} {packet : Packet} (htask : task ≠ .keeper) (hpacket : packet ≠ .pingReq)
      (hwritten : c.finishes a = [⟨c.now, task, packet⟩])
      (hpulse : d.pulse = { c.pulse with lastSent := c.now })
      (hunanswered : c.routedBy a = none)
  | pinged {period : Nat} (hkeeper : c.connection.keeper = .sending period)
      (hopen : c.connection.closing = false)
      (hwritten : c.finishes a = [⟨c.now, .keeper, .pingReq⟩])
      (hpulse : d.pulse = { c.pulse with
        lastSent := c.now, keeper := .awaiting period (c.now + period), asking := false })
      (hunanswered : c.routedBy a = none)
  | lost {period : Nat} {e : ClientError} (hkeeper : c.connection.keeper = .sending period)
      (hbroken : c.connection.line.broken = true) (hsilent : c.finishes a = [])
      (hpulse : d.pulse = { c.pulse with keeper := .failing e, asking := false })
  | ponged (hpong : c.connection.pong = .awaited) (hrouted : c.routedBy a = some .pingResp)
      (hsilent : c.finishes a = []) (hpulse : d.pulse = { c.pulse with pong := .answered () })
  | rested {period : Nat} (hturn : a = .run .keeper)
      (hkeeper : c.connection.keeper = .resting period)
      (hpulse : d.pulse = { c.pulse with
        keeper := .sleeping period (c.connection.lastSent + period) })
  | woken {period due : Nat} (hturn : a = .run .keeper)
      (hkeeper : c.connection.keeper = .sleeping period due)
      (hpulse : d.pulse = { c.pulse with keeper := .checking period })
  | spared {period : Nat} (hturn : a = .run .keeper)
      (hkeeper : c.connection.keeper = .checking period)
      (hpulse : d.pulse = { c.pulse with keeper := .resting period })
  | asked {period : Nat} (hturn : a = .run .keeper)
      (hkeeper : c.connection.keeper = .checking period)
      (hquiet : c.connection.lastSent + period ≤ c.now)
      (hasked : c.submits a = some .pingReq)
      (hpulse : d.pulse = { c.pulse with
        pong := .awaited, keeper := .sending period, asking := true })
  | answered {period deadline : Nat} (hturn : a = .run .keeper)
      (hkeeper : c.connection.keeper = .awaiting period deadline)
      (hpong : c.connection.pong = .answered ())
      (hpulse : d.pulse = { c.pulse with pong := .idle, keeper := .resting period })
  | abandoned {period deadline : Nat} {e : ClientError} (hturn : a = .run .keeper)
      (hkeeper : c.connection.keeper = .awaiting period deadline)
      (hpong : c.connection.pong = .abandoned)
      (hpulse : d.pulse = { c.pulse with keeper := .failing e })
  | unanswered {period deadline : Nat} {e : ClientError} (hturn : a = .run .keeper)
      (hkeeper : c.connection.keeper = .awaiting period deadline)
      (hpong : c.connection.pong ≠ .answered ()) (hdue : deadline ≤ c.now)
      (hpulse : d.pulse = { c.pulse with keeper := .failing e })

variable {c d : Client} {a : Action} {task : Task}

theorem finishes_eq_nil (h : ∀ count, a ≠ .write count) : c.finishes a = [] := by
  have hnone : ∀ task packet, c.milestone a ≠ some (.written task packet) := by
    intro task packet hwritten
    unfold milestone at hwritten
    split at hwritten
    next => split at hwritten <;> cases hwritten
    next =>
      unfold workerMilestone at hwritten
      split at hwritten <;> cases hwritten
    next count => exact h count rfl
    next =>
      split at hwritten
      next => split at hwritten <;> cases hwritten
      next => cases hwritten
    next =>
      unfold issuedBy at hwritten
      split at hwritten <;> cases hwritten
    next =>
      unfold issuedBy at hwritten
      split at hwritten <;> cases hwritten
    next =>
      unfold issuedBy at hwritten
      split at hwritten <;> cases hwritten
    next => cases hwritten
  unfold finishes
  split
  next hwritten => exact absurd hwritten (hnone _ _)
  next => rfl

theorem finishes_of_whole {count : Nat} {w : Write} {rest : List Write}
    (hwrites : c.connection.writes = w :: rest) (hwhole : c.connection.line.broken = false)
    (hleft : w.left.drop count = []) :
    c.finishes (.write count) = [⟨c.now, w.task, w.packet⟩] := by
  simp [finishes, milestone, hwrites, hwhole, hleft]

theorem finishes_of_broken {count : Nat} (hbroken : c.connection.line.broken = true) :
    c.finishes (.write count) = [] := by
  cases hwrites : c.connection.writes <;> simp [finishes, milestone, hwrites, hbroken]

theorem finishes_of_more {count : Nat} {w : Write} {rest : List Write}
    (hwrites : c.connection.writes = w :: rest) (hmore : w.left.drop count ≠ []) :
    c.finishes (.write count) = [] := by
  simp [finishes, milestone, hwrites, hmore]

theorem Beat.of_pulse (hpulse : d.pulse = c.pulse) (hsilent : c.finishes a = [])
    (hunanswered : c.connection.pong = .awaited → c.routedBy a ≠ some .pingResp) :
    c.Beat a d := by
  have hline : d.connection.line.broken = c.connection.line.broken := congrArg Pulse.broken hpulse
  refine .quiet ?_ (fun hbroken => hline.trans hbroken) hsilent hunanswered
  rw [hpulse, hline]
  rfl

/-! One task after another. -/

theorem CallerStep.beat (h : c.Going) (step : c.CallerStep a d)
    (hsame : ∀ line, c.milestone a ≠ some (.opened line)) : c.Beat a d := by
  have hcalling := h.calling
  have hroute := step.routedBy_eq_none
  have hquiet (hpulse : d.pulse = c.pulse) (hline : ∀ count, a ≠ .write count) : c.Beat a d :=
    .of_pulse hpulse (finishes_eq_nil hline) fun _ => by simp [hroute]
  cases step with
  | joined hcaller => exact absurd (milestone_of_joining hcaller) (hsame _)
  | asked _ hvalid hfree => exact absurd (milestone_of_connect hvalid hfree) (hsame _)
  | accepted hcaller | refused hcaller | unanswered hcaller | resumed hcaller | released hcaller
  | opened hcaller | cleared hcaller | failed hcaller =>
    rw [hcaller] at hcalling
    cases hcalling
  | replaced | finished | signalled | ended => exact hquiet rfl (by simp)
  | declined _ _ hline | issued _ _ _ _ hline | unissued _ _ hline => exact hquiet rfl hline
  | departed => exact hquiet (by simp [pulse]) (by simp)
  | dismissed => exact .closed rfl rfl rfl rfl
  | left => exact .closed rfl rfl rfl (finishes_eq_nil (by simp))

theorem routedBy_ne_of_routing {p : Packet} (h : c.connection.receiver = .routing p)
    (hp : p ≠ .pingResp) : c.routedBy (.run .receiver) ≠ some .pingResp := by
  rw [routedBy_of_receiver h]
  exact fun heq => hp (Option.some.inj heq)

theorem ReceiverStep.beat (h : c.Going) (step : c.ReceiverStep a d) : c.Beat a d := by
  have hconnack := h.resumed.connack
  cases step with
  | read hreceiver | received hreceiver | faulted hreceiver | resumed hreceiver
  | woke hreceiver =>
    have hroute : c.routedBy (.run .receiver) = none := routedBy_eq_none (by simp [hreceiver])
    exact .of_pulse rfl (finishes_eq_nil (by simp)) fun _ => by simp [hroute]
  | acknowledged _ hawaited => exact absurd hawaited hconnack
  | violated hreceiver _ _ hanswered =>
    have hroute := routedBy_ne_of_routing hreceiver (hanswered hconnack).1
    exact .of_pulse rfl (finishes_eq_nil (by simp)) fun _ => hroute
  | answered hreceiver _ hpong =>
    exact .ponged hpong (routedBy_of_receiver hreceiver) (finishes_eq_nil (by simp)) rfl
  | unsolicited _ _ hpong =>
    exact .of_pulse rfl (finishes_eq_nil (by simp)) fun hawaited => absurd hawaited hpong
  | taken hreceiver =>
    have hroute := routedBy_ne_of_routing hreceiver (by simp)
    exact .of_pulse rfl (finishes_eq_nil (by simp)) fun _ => hroute
  | @kept ack hreceiver _ hawaited =>
    have hack : ack ≠ .pingResp := by
      rintro rfl
      cases hawaited
    have hroute := routedBy_ne_of_routing hreceiver hack
    exact .of_pulse rfl (finishes_eq_nil (by simp)) fun _ => hroute
  | stale hreceiver _ _ _ hack =>
    have hroute := routedBy_ne_of_routing hreceiver hack
    exact .of_pulse rfl (finishes_eq_nil (by simp)) fun _ => hroute
  | released hreceiver =>
    have hroute := routedBy_ne_of_routing hreceiver (by simp)
    exact .of_pulse (by simp [pulse, onConnection]) (finishes_eq_nil (by simp)) fun _ => hroute
  | unreleased hreceiver =>
    have hroute := routedBy_ne_of_routing hreceiver (by simp)
    exact .of_pulse rfl (finishes_eq_nil (by simp)) fun _ => hroute
  | failed => exact .closed rfl rfl rfl (finishes_eq_nil (by simp))
  | broken hclosing => exact .closed hclosing rfl rfl (finishes_eq_nil (by simp))
  | brokenOff hclosing => exact .closed hclosing rfl rfl (finishes_eq_nil (by simp))

theorem WorkerStep.beat (step : c.WorkerStep a d) : c.Beat a d := by
  have hroute := step.routedBy_eq_none
  have hquiet (hpulse : d.pulse = c.pulse) (hline : ∀ count, a ≠ .write count) : c.Beat a d :=
    .of_pulse hpulse (finishes_eq_nil hline) fun _ => by simp [hroute]
  cases step with
  | failed => exact .closed rfl rfl rfl (finishes_eq_nil (by simp))
  | took => exact hquiet (by simp [pulse, onConnection]) (by simp)
  | _ => exact hquiet rfl (by simp)

theorem KeeperStep.beat (step : c.KeeperStep a d) : c.Beat a d := by
  cases step with
  | rested hkeeper => exact .rested rfl hkeeper rfl
  | woken hkeeper => exact .woken rfl hkeeper rfl
  | spared hkeeper => exact .spared rfl hkeeper rfl
  | @asked period bytes hkeeper hquiet =>
    have hasked : c.submits (.run .keeper) = some .pingReq := by
      simp [submits, hkeeper, Nat.not_lt.mpr hquiet]
    exact .asked rfl hkeeper hquiet hasked (by simp [pulse, onConnection])
  | answered hkeeper hpong => exact .answered rfl hkeeper hpong rfl
  | abandoned hkeeper hpong => exact .abandoned rfl hkeeper hpong rfl
  | unanswered hkeeper hpong hdue => exact .unanswered rfl hkeeper hpong hdue rfl
  | failed => exact .closed rfl rfl rfl (finishes_eq_nil (by simp))
  | broken hclosing => exact .closed hclosing rfl rfl (finishes_eq_nil (by simp))
  | brokenOff hclosing => exact .closed hclosing rfl rfl (finishes_eq_nil (by simp))

theorem DispatcherStep.beat (step : c.DispatcherStep a d) : c.Beat a d := by
  have hroute := step.routedBy_eq_none
  cases step <;> exact .of_pulse rfl (finishes_eq_nil (by simp)) fun _ => by simp [hroute]

/-- What becomes of another task's packet is no matter of the keeper, unless it ends the
connection. -/
theorem Heeds.pulse {outcome : Except ClientError Unit} (h : c.Heeds outcome task d)
    (hother : task ≠ .keeper) : d.pulse = c.pulse ∨
      outcome ≠ .ok () ∧ d.connection.closing = true ∧ d.now = c.now ∧
        d.connection.lastSent = c.connection.lastSent := by
  cases h with
  | ungreeted => exact .inr ⟨by simp, rfl, rfl, rfl⟩
  | pinged | unpinged => exact absurd rfl hother
  | _ => exact .inl rfl

/-- Nobody's packet stops the clock, is an answer or undoes the end. -/
theorem Heeds.clock {outcome : Except ClientError Unit} (h : c.Heeds outcome task d) :
    d.now = c.now ∧ d.connection.lastSent = c.connection.lastSent ∧
      d.connection.pong = c.connection.pong ∧
        (c.connection.closing = true → d.connection.closing = true) := by
  cases h with
  | ungreeted => exact ⟨rfl, rfl, rfl, fun _ => rfl⟩
  | _ => exact ⟨rfl, rfl, rfl, id⟩

theorem Going.sending_of_mem (h : c.Going) {w : Write} (hw : w ∈ c.connection.writes)
    (htask : w.task = .keeper) : ∃ period, c.connection.keeper = .sending period := by
  have hsending := h.lined.sending w hw
  rw [htask] at hsending
  cases hkeeper : c.connection.keeper <;> simp [isSending, hkeeper] at hsending ⊢

theorem Going.written (h : c.Going) {count : Nat} {w : Write} {rest : List Write}
    (hwrites : c.connection.writes = w :: rest) (hopen : c.connection.closing = false)
    (hwhole : c.connection.line.broken = false) (hleft : w.left.drop count = [])
    (hheeds : (c.onConnection fun k => { k with
      line := k.line.write c.now w.left, writes := rest, lastSent := c.now }).Heeds
        (.ok ()) w.task d) : c.Beat (.write count) d := by
  have hwritten := finishes_of_whole hwrites hwhole hleft
  have hfirst : w ∈ c.connection.writes := by simp [hwrites]
  by_cases htask : w.task = .keeper
  · obtain ⟨period, hkeeper⟩ := h.sending_of_mem hfirst htask
    have hpacket := (h.pinging.own w hfirst).mp htask
    -- no other packet of the keeper is on its way
    have hnone := (h.lined.tail hwrites c.connection.line c.connection.lastSent).2
    have hasking : (rest.any fun v => v.task = .keeper) = false := by
      simpa [htask] using hnone
    rw [htask, hpacket] at hwritten
    rw [htask] at hheeds
    cases hheeds with
    | @pinged period' hsending =>
      obtain rfl : period = period' := Keeper.sending.inj (hkeeper.symm.trans hsending)
      refine .pinged hkeeper hopen hwritten ?_ rfl
      simp [pulse, onConnection, toKeeper, hasking, Line.write]
    | unheeded hidle => simp [isSending, onConnection, hkeeper] at hidle
  · have hpulse := (hheeds.pulse htask).resolve_right fun hfailed => hfailed.1 rfl
    have hpacket : w.packet ≠ .pingReq := mt (h.pinging.own w hfirst).mpr htask
    refine .wrote htask hpacket hwritten ?_ rfl
    rw [hpulse]
    simp [pulse, onConnection, hwrites, htask, Line.write]

theorem Going.lost (h : c.Going) {count : Nat} {w : Write} {rest : List Write}
    (hwrites : c.connection.writes = w :: rest) (hbroken : c.connection.line.broken = true)
    (hheeds : (c.onConnection fun k => { k with writes := rest }).Heeds
      (.error .pipeBroken) w.task d) : c.Beat (.write count) d := by
  have hsilent : c.finishes (.write count) = [] := finishes_of_broken hbroken
  have hfirst : w ∈ c.connection.writes := by simp [hwrites]
  by_cases htask : w.task = .keeper
  · obtain ⟨period, hkeeper⟩ := h.sending_of_mem hfirst htask
    have hnone := (h.lined.tail hwrites c.connection.line c.connection.lastSent).2
    have hasking : (rest.any fun v => v.task = .keeper) = false := by
      simpa [htask] using hnone
    rw [htask] at hheeds
    cases hheeds with
    | unpinged =>
      apply Beat.lost hkeeper hbroken hsilent (e := .pipeBroken)
      simp [pulse, onConnection, toKeeper, hasking]
    | unheeded hidle => simp [isSending, onConnection, hkeeper] at hidle
  · rcases hheeds.pulse htask with hpulse | ⟨-, hclosing, hnow, hsent⟩
    · refine .of_pulse ?_ hsilent fun _ => by simp [routedBy]
      rw [hpulse]
      simp [pulse, onConnection, hwrites, htask]
    · exact .closed hclosing hnow hsent hsilent

theorem Going.beat (h : c.Going) (hact : c.act a = some d)
    (hsame : ∀ line, c.milestone a ≠ some (.opened line)) : c.Beat a d := by
  cases Step.of_act hact with
  | caller step => exact step.beat h hsame
  | receiver step => exact step.beat h
  | worker step => exact step.beat
  | keeper step => exact step.beat
  | dispatcher step => exact step.beat
  | withdrawn hclosing _ hheeds =>
    obtain ⟨hnow, hsent, -, hclosed⟩ := hheeds.clock
    exact .closed (hclosed hclosing) hnow hsent (finishes_eq_nil (by simp))
  | written hwrites hopen hwhole hleft hheeds => exact h.written hwrites hopen hwhole hleft hheeds
  | lost hwrites _ hbroken hheeds => exact h.lost hwrites hbroken hheeds
  | @continued count w rest sent left hwrites hopen hwhole hleft hmore hrest =>
    have hsilent : c.finishes (.write count) = [] := finishes_of_more hwrites (hrest ▸ hmore)
    refine .of_pulse ?_ hsilent fun _ => by simp [routedBy]
    simp [pulse, onConnection, hwrites, Line.write]
  | carried hother hwritten hbroken hline =>
    have hroute := routedBy_of_asked (c := c) hother
    exact .quiet rfl hbroken (finishes_eq_nil hline) fun _ => by simp [hroute]
  | elapsed => exact .elapsed rfl rfl

/-! A connection that is past its handshake stays so. -/

theorem Hears.not_opening (h : c.Hears d) (hordered : d.Ordered)
    (hcalling : c.caller.isOpening = false) : d.caller.isOpening = false := by
  cases h with
  | silent _ _ _ hopening =>
    by_contra hnext
    have hbefore := hopening (by simpa using hnext)
    cases hcalling.symm.trans hbefore
  | established hopening => cases hcalling.symm.trans hopening
  | event _ hgoing => exact hordered.not_opening hgoing
  | closed _ _ hopening => exact hopening

theorem Going.act (h : c.Going) (hact : c.act a = some d)
    (hsame : ∀ line, c.milestone a ≠ some (.opened line)) : d.Going := by
  have hstep := Step.of_act hact
  have hordered := h.ordered.step hstep
  exact {
    ordered := hordered
    kept := h.kept.step hstep
    lined := h.lined.step h.ordered hstep
    resumed := h.resumed.act hact hsame
    calling := (hstep.hears h.ordered hsame).not_opening hordered h.calling
    pinging := h.pinging.act h.kept hact }

theorem Going.acts {actions : List Action} (h : c.Going) (hacts : c.acts actions = some d)
    (hsame : ∀ line, .opened line ∉ c.milestones actions) : d.Going := by
  apply connection_induction (motive := fun _ d => d.Going) h _ hacts hsame
  intro _ _ _ _ _ hd hact hquiet
  exact hd.act hact hquiet

/-! While a connection is being opened the keeper has not started. -/

/-- No PINGREQ has been written, no PINGRESP is awaited, and nothing was written later than now. -/
structure Unasked (c : Client) (actions : List Action) (d : Client) : Prop where
  pong : d.connection.pong = .idle
  sent : d.connection.lastSent ≤ d.now
  past : ∀ w ∈ c.writings actions, w.time ≤ d.connection.lastSent
  other : ∀ w ∈ c.writings actions, w.packet ≠ .pingReq

section

variable {e : Client} {u : List Action}

theorem Unasked.silent (h : c.Unasked u d) (hu : c.acts u = some d) (hact : d.act a = some e)
    (hsilent : d.finishes a = []) (hpong : e.connection.pong = .idle)
    (hsent : e.connection.lastSent = d.connection.lastSent) (hnow : d.now ≤ e.now) :
    c.Unasked (u ++ [a]) e := by
  have hwritings : c.writings (u ++ [a]) = c.writings u := by
    rw [writings, trace_concat finishes hu hact, hsilent, List.append_nil]
  refine ⟨hpong, ?_, ?_, ?_⟩
  · rw [hsent]
    exact Nat.le_trans h.sent hnow
  · rw [hwritings, hsent]
    exact h.past
  · rw [hwritings]
    exact h.other

theorem Unasked.written (h : c.Unasked u d) (hu : c.acts u = some d) (hact : d.act a = some e)
    {w : Writing} (hwritten : d.finishes a = [w]) (htime : w.time = d.now)
    (hother : w.packet ≠ .pingReq) (hpong : e.connection.pong = .idle)
    (hsent : e.connection.lastSent = d.now) (hnow : e.now = d.now) : c.Unasked (u ++ [a]) e := by
  have hwritings : c.writings (u ++ [a]) = c.writings u ++ [w] := by
    rw [writings, trace_concat finishes hu hact, hwritten]
  refine ⟨hpong, ?_, ?_, ?_⟩
  · rw [hsent, hnow]
  · rw [hwritings, hsent]
    intro v hv
    rcases List.mem_append.mp hv with hv | hv
    · exact Nat.le_trans (h.past v hv) h.sent
    · rw [List.mem_singleton.mp hv, htime]
  · rw [hwritings]
    intro v hv
    rcases List.mem_append.mp hv with hv | hv
    · exact h.other v hv
    · rw [List.mem_singleton.mp hv]
      exact hother

theorem Unasked.act (h : c.Unasked u d) (hu : c.acts u = some d) (hact : d.act a = some e)
    (hsame : ∀ line, d.milestone a ≠ some (.opened line)) (hlined : d.Lined) (hpinging : d.Pinging)
    (hstopped : d.connection.keeper = .stopped) : c.Unasked (u ++ [a]) e := by
  have hpong := h.pong
  have hsilent := h.silent hu hact
  cases Step.of_act hact with
  | caller step =>
    cases step with
    | joined hcaller => exact absurd (milestone_of_joining hcaller) (hsame _)
    | asked _ hvalid hfree => exact absurd (milestone_of_connect hvalid hfree) (hsame _)
    | declined _ _ hline | issued _ _ _ _ hline | unissued _ _ hline =>
      exact hsilent (finishes_eq_nil hline) hpong rfl (Nat.le_refl _)
    | _ => exact hsilent (finishes_eq_nil (by simp)) hpong rfl (Nat.le_refl _)
  | receiver step =>
    cases step with
    | answered _ _ hawaited => cases hpong.symm.trans hawaited
    | failed | broken | brokenOff =>
      have habandoned : d.connection.pong.abandon = .idle := by rw [hpong]; rfl
      exact hsilent (finishes_eq_nil (by simp)) habandoned rfl (Nat.le_refl _)
    | _ => exact hsilent (finishes_eq_nil (by simp)) hpong rfl (Nat.le_refl _)
  | worker step =>
    cases step <;> exact hsilent (finishes_eq_nil (by simp)) hpong rfl (Nat.le_refl _)
  | keeper step => exact absurd hstopped step.running
  | dispatcher step =>
    cases step <;> exact hsilent (finishes_eq_nil (by simp)) hpong rfl (Nat.le_refl _)
  | withdrawn _ _ hheeds =>
    obtain ⟨hnow, hsent, hpong', -⟩ := hheeds.clock
    exact hsilent (finishes_eq_nil (by simp)) (hpong'.trans hpong) hsent hnow.ge
  | @written count w rest _ hwrites _ hwhole hleft hheeds =>
    obtain ⟨hnow, hsent, hpong', -⟩ := hheeds.clock
    have hfirst : w ∈ d.connection.writes := by simp [hwrites]
    have hother : w.packet ≠ .pingReq := by
      intro hping
      have hsending := hlined.sending w hfirst
      rw [(hpinging.own w hfirst).mpr hping] at hsending
      simp [isSending, hstopped] at hsending
    exact h.written hu hact (finishes_of_whole hwrites hwhole hleft) rfl hother
      (hpong'.trans hpong) hsent hnow
  | lost _ _ hbroken hheeds =>
    obtain ⟨hnow, hsent, hpong', -⟩ := hheeds.clock
    exact hsilent (finishes_of_broken hbroken) (hpong'.trans hpong) hsent hnow.ge
  | continued hwrites _ _ _ hmore hrest =>
    exact hsilent (finishes_of_more hwrites (hrest ▸ hmore)) hpong rfl (Nat.le_refl _)
  | carried _ _ _ hline => exact hsilent (finishes_eq_nil hline) hpong rfl (Nat.le_refl _)
  | elapsed => exact hsilent (finishes_eq_nil (by simp)) hpong rfl (Nat.le_add_right _ _)

/-- Up to the moment when the keeper starts. -/
theorem unasked_of_opened {b : Client} {line : Line} {up : List Action} (hordered : b.Ordered)
    (hkept : b.Kept) (hact : b.act a = some c) (hopened : b.milestone a = some (.opened line))
    (hup : c.acts up = some e) (hsame : ∀ l, .opened l ∉ c.milestones up)
    (hopening : e.caller.isOpening = true) : e.Lined ∧ e.Pinging ∧ c.Unasked up e := by
  obtain ⟨⟨options, hgreets⟩, -⟩ := greets_of_opened hact hopened
  have hc := hordered.step (Step.of_act hact)
  have hckept := hkept.step (Step.of_act hact)
  have hnone : ∀ w, w ∉ c.writings [] := fun _ => List.not_mem_nil
  have hstart : c.Unasked [] c := by
    refine ⟨?_, ?_, fun w hw => absurd hw (hnone w), fun w hw => absurd hw (hnone w)⟩
    · cases hgreets <;> rfl
    · cases hgreets <;> exact Nat.le_refl _
  have hall : e.Pinging ∧ (e.caller.isOpening = true → c.Unasked up e) := by
    apply connection_induction
      (motive := fun u d => d.Pinging ∧ (d.caller.isOpening = true → c.Unasked u d))
      ⟨pinging_of_greets hgreets, fun _ => hstart⟩ _ hup hsame
    rintro u d d' a hu ⟨hpinging, hunasked⟩ hact hquiet
    refine ⟨hpinging.act (hckept.acts hu) hact, fun hopening => ?_⟩
    have hd := hc.acts hu
    have hbefore : d.caller.isOpening = true := by
      by_contra hcalling
      have hstep := Step.of_act hact
      have hafter := (hstep.hears hd hquiet).not_opening (hd.step hstep) (by simpa using hcalling)
      cases hopening.symm.trans hafter
    have hstopped : d.connection.keeper = .stopped := by
      by_contra hrunning
      simpa [(hd.opening hbefore).2, Dispatcher.isServing] using hd.keeper hrunning
    have hlined : d.Lined := (lined_of_greets hgreets).acts hc hu
    exact (hunasked hbefore).act hu hact hquiet hlined hpinging hstopped
  exact ⟨(lined_of_greets hgreets).acts hc hup, hall.1, hall.2 hopening⟩

/-- The call has brought its connection past the handshake. -/
theorem going_of_opened {b f : Client} {line : Line} {up : List Action}
    {options : ConnectOptions} {ack : ConnAck} {loaded : Nat} (hordered : b.Ordered)
    (hkept : b.Kept) (hact : b.act a = some c) (hopened : b.milestone a = some (.opened line))
    (hup : c.acts up = some e) (hsame : ∀ l, .opened l ∉ c.milestones up)
    (hcaller : e.caller = .opening options ack loaded) (hopen : e.act (.run .caller) = some f) :
    f.Going := by
  obtain ⟨hlined, hpinging, -⟩ :=
    unasked_of_opened hordered hkept hact hopened hup hsame (by rw [hcaller]; rfl)
  have hresumed : e.Resumed := by
    rcases handshake hordered hact hopened hup hsame with
      hnone | ⟨options', ack', u, v, g, rfl, htakes, hresumed, hrest⟩
    · rcases hnone.gate.isWaiting with hwaiting | ⟨_, _, hresuming⟩
      · rw [hcaller] at hwaiting
        cases hwaiting
      · cases hcaller.symm.trans hresuming
    · exact hresumed.acts hrest (htakes.same hsame)
  have hquiet : ∀ l, e.milestone (.run .caller) ≠ some (.opened l) := by
    simp [milestone, hcaller]
  have hopens := Step.of_act hopen
  have he := (hordered.step (Step.of_act hact)).acts hup
  have hekept := (hkept.step (Step.of_act hact)).acts hup
  have hcalling : f.caller.isOpening = false := by
    rw [Option.some.inj (hopen.symm.trans (act_of_opening hcaller))]
    rfl
  exact {
    ordered := he.step hopens
    kept := hekept.step hopens
    lined := hlined.step he hopens
    resumed := hresumed.act hopen hquiet
    calling := hcalling
    pinging := hpinging.act hekept hopen }

end

end Mqtt.Client
