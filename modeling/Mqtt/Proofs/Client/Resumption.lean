import Mqtt.Proofs.Client.Handshake
import Mqtt.Proofs.Client.Hearing
import Mqtt.Proofs.Client.Holdings
import Mqtt.Proofs.Exchange.Reception

/-!
What a connection does with a session that it has taken up. No packet behind the CONNACK is handed
on before the session is in the queue, and what is handed on then finds there what was stored: a
delivery is held until a pass reports it, a message of quality 2 until its release.
-/
namespace Mqtt

theorem Delivery.packet_rewound_of_incoming {d : Delivery} (h : d.direction = .incoming) :
    d.rewound.packet = d.packet := by
  simp [rewound, h]

theorem Delivery.key_of_incoming {d : Delivery} (h : d.direction = .incoming) :
    d.key = ⟨d.id, .incoming⟩ := by
  rw [key, h]

theorem DeliveryQueue.session_resume (q : DeliveryQueue) (s : Session) :
    (q.resume s s.clientId false).2.2 = { s with
      deliveries := s.deliveries.map Delivery.rewound } := by
  simp [resume, Session.restore_kept]

/-- A client gets back what its session stores: each message of the broker, and all of our own where
the queue has room for them. -/
theorem DeliveryQueue.get?_resume {σ : Settings} {s : Session} (hs : s.Sound) {d : Delivery}
    (hd : d ∈ s.deliveries) (hroom : d.direction = .incoming ∨
      (s.deliveries.countP fun e => e.direction = .outgoing) ≤ σ.capacity) :
    ((ofSettings σ).resume s s.clientId false).2.1.get? d.key = some d.rewound := by
  have hrewound := hs.map_rewound
  have hcount : ((s.deliveries.map Delivery.rewound).countP fun e => e.direction = .outgoing) =
      s.deliveries.countP fun e => e.direction = .outgoing := by
    simp [List.countP_map, Function.comp_def]
  have hloaded := (tidy_ofSettings σ).get?_load hrewound.keyed hrewound.numbered
    (fun e _ => by simp [get?, contains, ofSettings]) (List.mem_map_of_mem hd) (by
      rw [hcount]
      simpa [outgoingCount, ofSettings] using hroom)
  rw [Delivery.key_rewound] at hloaded
  simpa [resume, Session.restore_kept] using hloaded

/-- A call that has not come to its session, or never will. -/
def Caller.isGreeting : Caller → Bool
  | .greeting _ | .awaitingAck _ _ | .resuming _ _ | .aborting _ | .clearing _ => true
  | _ => false

namespace Client

/-- A connection that has its session: no CONNACK is awaited any more, and a receiver that still
waits has been let go, or is about to be. -/
structure Resumed (c : Client) : Prop where
  connack : c.connection.connack ≠ .awaited
  calling : c.caller.isGreeting = false
  released : c.connection.receiver = .resuming →
    c.connection.resumed = true ∨ ∃ options ack loaded, c.caller = .releasing options ack loaded

variable {c d e f : Client} {a : Action} {u v actions : List Action}

theorem Resumed.beside (h : c.Resumed) (line : Line) (writes : List Write) (lastSent : Nat) :
    Resumed { c with connection := { c.connection with line, writes, lastSent } } :=
  { h with }

theorem Resumed.calls (h : c.Resumed) {next : Caller} (status : Status) (established : Bool)
    {k : Connection} (hnext : next.isGreeting = false)
    (hbefore : ∀ options ack loaded, c.caller ≠ .releasing options ack loaded)
    (hkeep : k = { c.connection with
      line := k.line, closing := k.closing, writes := k.writes, queueWake := k.queueWake
      worker := k.worker, keeper := k.keeper, dispatcher := k.dispatcher }) :
    Resumed { c with status, established, caller := next, connection := k } := by
  rw [hkeep]
  refine { h with calling := hnext, released := fun hreceiver => .inl ?_ }
  exact (h.released hreceiver).resolve_right fun ⟨_, _, _, hcaller⟩ => hbefore _ _ _ hcaller

theorem Resumed.received (h : c.Resumed) {status : Status} {k : Connection}
    (hreceiver : k.receiver ≠ .resuming) (hconnack : k.connack ≠ .awaited) :
    Resumed { c with status, connection := k } :=
  { h with connack := hconnack, released := fun hwaiting => absurd hwaiting hreceiver }

theorem Resumed.heeds {outcome : Except ClientError Unit} {task : Task} (h : c.Resumed)
    (hheeds : c.Heeds outcome task d) : d.Resumed := by
  have hcalling := h.calling
  cases hheeds with
  | greeted hcaller | ungreeted hcaller =>
    rw [hcaller] at hcalling
    cases hcalling
  | parted hcaller => exact h.calls _ _ rfl (by simp [hcaller]) rfl
  | answered | unanswered => exact h.received nofun h.connack
  | delivered | undelivered | pinged | unpinged => exact { h with }
  | unheeded => exact h

theorem Resumed.callerStep (h : c.Resumed) (step : c.CallerStep a d)
    (hsame : ∀ line, c.milestone a ≠ some (.opened line)) : d.Resumed := by
  have hcalling := h.calling
  cases step with
  | joined hcaller => exact absurd (milestone_of_joining hcaller) (hsame _)
  | asked _ hvalid hfree => exact absurd (milestone_of_connect hvalid hfree) (hsame _)
  | replaced hcaller | declined hcaller | departed hcaller | dismissed hcaller | finished hcaller
  | left hcaller | ended hcaller => exact h.calls _ _ rfl (by simp [hcaller]) rfl
  | accepted hcaller | refused hcaller | unanswered hcaller | resumed hcaller | cleared hcaller
  | failed hcaller =>
    rw [hcaller] at hcalling
    cases hcalling
  | released => exact { h with calling := rfl, released := fun _ => .inl rfl }
  | opened hcaller => exact h.calls _ _ rfl (by simp [hcaller]) rfl
  | issued | signalled => exact { h with }
  | unissued => exact h

theorem abandon_ne_awaited (r : Reply ConnAck) : r.abandon ≠ .awaited := by
  cases r <;> nofun

theorem Resumed.receiverStep (h : c.Resumed) (step : c.ReceiverStep a d) : d.Resumed := by
  cases step with
  | acknowledged _ hconnack => exact absurd hconnack h.connack
  | failed | broken | brokenOff => exact h.received nofun (abandon_ne_awaited _)
  | _ => exact h.received nofun h.connack

theorem Resumed.act (h : c.Resumed) (hact : c.act a = some d)
    (hsame : ∀ line, c.milestone a ≠ some (.opened line)) : d.Resumed := by
  cases Step.of_act hact with
  | caller step => exact h.callerStep step hsame
  | receiver step => exact h.receiverStep step
  | worker step => cases step <;> exact { h with }
  | keeper step => cases step <;> exact { h with }
  | dispatcher step => cases step <;> exact { h with }
  | withdrawn _ _ hheeds => exact (h.beside _ _ _).heeds hheeds
  | written _ _ _ _ hheeds => exact (h.beside _ _ _).heeds hheeds
  | lost _ _ _ hheeds => exact (h.beside _ _ _).heeds hheeds
  | continued | carried | elapsed => exact { h with }

theorem Resumed.acts (h : c.Resumed) (hacts : c.acts actions = some d)
    (hsame : ∀ line, .opened line ∉ c.milestones actions) : d.Resumed := by
  apply connection_induction (motive := fun _ d => d.Resumed) h _ hacts hsame
  intro _ _ _ _ _ hd hact hquiet
  exact hd.act hact hquiet

/-! The session is taken up once, and before anything behind the CONNACK is handed on. -/

/-- With one packet handed on, the accepting CONNACK, the call has put what the session owes into
the empty queue. -/
structure TakesUp (c : Client) (s : Session) (options : ConnectOptions) (ack : ConnAck)
    (u : List Action) (f : Client) : Prop where
  asked : c.caller = .greeting options
  accepted : ack.isAccepted = true
  routed : c.routed u = [.connAck ack]
  acts : c.acts (u ++ [.run .caller]) = some f
  acks : f.connection.acks = []
  resumed : ∃ loaded, (DeliveryQueue.ofSettings f.settings).resume s options.clientId
    options.cleanSession = (loaded, f.connection.queue, f.session)

theorem TakesUp.routed_eq {s : Session} {options : ConnectOptions} {ack : ConnAck}
    (h : c.TakesUp s options ack u f) (v : List Action) :
    c.routed (u ++ .run .caller :: v) = .connAck ack :: f.routed v := by
  have hacts := h.acts
  rw [acts_append] at hacts
  obtain ⟨e, hu, hlast⟩ := Option.bind_eq_some_iff.mp hacts
  obtain ⟨g, hact, hend⟩ := Option.bind_eq_some_iff.mp hlast
  cases hend
  rw [List.append_cons, routed_append h.acts, routed_concat hu hact, h.routed]
  rfl

theorem TakesUp.same {s : Session} {options : ConnectOptions} {ack : ConnAck}
    (h : c.TakesUp s options ack u f)
    (hsame : ∀ line, .opened line ∉ c.milestones (u ++ .run .caller :: v)) :
    ∀ line, .opened line ∉ f.milestones v := by
  intro line hline
  apply hsame line
  rw [List.append_cons, milestones_append h.acts]
  exact List.mem_append_right _ hline

theorem Unresumed.takesUp {s : Session}
    (h : Unresumed s c.caller.options? (c.routed u) d) (hu : c.acts u = some d)
    (hstart : ∀ options, c.caller.options? = some options → c.caller = .greeting options)
    {options : ConnectOptions} {ack : ConnAck} (hcaller : d.caller = .resuming options ack)
    (hact : d.act (.run .caller) = some e) : c.TakesUp s options ack u e ∧ e.Resumed := by
  have hresume : e = d.runResume options ack :=
    Option.some.inj (hact.symm.trans (act_of_resuming hcaller))
  subst hresume
  have hasked := h.asked options (by rw [hcaller]; rfl)
  have hqueue : d.connection.queue = .ofSettings d.settings := h.queue
  have hacts := acts_concat_of_eq hu hact
  cases h.gate with
  | accepted hone hresuming haccepted hconnack =>
    obtain ⟨rfl, rfl⟩ := Caller.resuming.inj (hcaller.symm.trans hresuming)
    have hresumed : ∃ loaded, (DeliveryQueue.ofSettings d.settings).resume s options.clientId
        options.cleanSession = (loaded, (d.runResume options ack).connection.queue,
          (d.runResume options ack).session) := by
      rw [← hqueue, ← h.session]
      exact ⟨_, rfl⟩
    have hidle : (d.runResume options ack).connection.connack ≠ .awaited := by
      simp [runResume, onConnection, hconnack]
    exact ⟨⟨hstart _ hasked, haccepted, hone, hacts, h.acks, hresumed⟩,
      hidle, rfl, fun _ => .inr ⟨_, _, _, rfl⟩⟩
  | shut _ hwaiting | refused _ _ hwaiting | lost _ _ hwaiting | answered _ hwaiting =>
    rw [hcaller] at hwaiting
    cases hwaiting

theorem unresumed_of_opened {b : Client} {line : Line} (hordered : b.Ordered)
    (hact : b.act a = some c) (hopened : b.milestone a = some (.opened line)) :
    Unresumed b.session c.caller.options? [] c := by
  obtain ⟨⟨options, hgreets⟩, -⟩ := greets_of_opened hact hopened
  have hestablished : c.established = false := by
    have hopening : c.caller.isOpening = true := by cases hgreets <;> rfl
    exact ((hordered.step (Step.of_act hact)).opening hopening).1
  cases hgreets with
  | posted | unsendable => exact {
      session := rfl, established := hestablished, asked := fun _ ho => ho, queue := rfl
      acks := rfl, worker := rfl, resumed := rfl, closing := nofun
      gate := .shut rfl rfl rfl rfl }

/-- The handshake goes on, or the session was taken up at one point of it. -/
theorem handshake {b : Client} {line : Line} (hordered : b.Ordered) (hact : b.act a = some c)
    (hopened : b.milestone a = some (.opened line)) (hacts : c.acts actions = some d)
    (hsame : ∀ l, .opened l ∉ c.milestones actions) :
    Unresumed b.session c.caller.options? (c.routed actions) d ∨
      ∃ options ack u v f, actions = u ++ .run .caller :: v ∧
        c.TakesUp b.session options ack u f ∧ f.Resumed ∧ f.acts v = some d := by
  obtain ⟨⟨options, hgreets⟩, -⟩ := greets_of_opened hact hopened
  have hstart : ∀ options, c.caller.options? = some options → c.caller = .greeting options := by
    intro options ho
    cases hgreets with
    | posted =>
      cases ho
      rfl
    | unsendable => cases ho
  have hbegin := unresumed_of_opened hordered hact hopened
  refine connection_induction (motive := fun actions d =>
    Unresumed b.session c.caller.options? (c.routed actions) d ∨
      ∃ options ack u v f, actions = u ++ .run .caller :: v ∧
        c.TakesUp b.session options ack u f ∧ f.Resumed ∧ f.acts v = some d)
    (.inl hbegin) ?_ hacts hsame
  intro u d e a hu hd hact hquiet
  rcases hd with hd | ⟨options, ack, u, v, f, rfl, htaken, hresumed, hv⟩
  · rcases hd.act hact hquiet with ⟨options, ack, hcaller, rfl⟩ | he
    · obtain ⟨htaken, hresumed⟩ := hd.takesUp hu hstart hcaller hact
      exact .inr ⟨options, ack, u, [], e, rfl, htaken, hresumed, rfl⟩
    · rw [routed_concat hu hact]
      exact .inl he
  · have hv' := acts_concat_of_eq hv hact
    exact .inr ⟨options, ack, u, v ++ [a], f, by simp, htaken, hresumed, hv'⟩

/-! What is handed on behind it meets what was taken up. -/

/-- What an action does to the queue, the session and the acknowledgments kept for the next pass,
once the session is in the queue. -/
inductive Handles (c : Client) (a : Action) (d : Client) : Prop where
  | rest (hexchange : d.exchange = c.exchange) (hacks : d.connection.acks = c.connection.acks)
  | keep {ack : Packet} (hrouted : c.routedBy a = some ack) (hexchange : d.exchange = c.exchange)
      (hacks : d.connection.acks = c.connection.acks ++ [ack])
  | change {entry : Entry} (hstep : c.exchange.Step c.settings entry d.exchange)
      (hsame : entry.isReconnect = false) (hnone : entry.acks = []) (hwork : entry.work = {})
      (hacks : d.connection.acks = c.connection.acks)
  | pass {answered : List (Packet × Delivery)} {work : Work}
      (hpassed : c.milestone a =
        some (.passed c.connection.queue c.session c.connection.acks c.now))
      (hwork : (c.connection.queue.pass c.session c.connection.acks c.now).2.2 = work)
      (hstep : c.exchange.Step c.settings (.passed c.connection.acks c.now answered work)
        d.exchange)
      (hacks : d.connection.acks = [])

theorem Heeds.exchange {outcome : Except ClientError Unit} {task : Task}
    (hheeds : c.Heeds outcome task d) : d.exchange = c.exchange := by
  cases hheeds <;> rfl

theorem Heeds.acks {outcome : Except ClientError Unit} {task : Task}
    (hheeds : c.Heeds outcome task d) : d.connection.acks = c.connection.acks := by
  cases hheeds <;> rfl

theorem CallerStep.handles
    (hcalling : ∀ options ack, c.caller = .resuming options ack → a ≠ .run .caller)
    (step : c.CallerStep a d) (hsame : ∀ line, c.milestone a ≠ some (.opened line)) :
    c.Handles a d := by
  cases step with
  | joined hcaller => exact absurd (milestone_of_joining hcaller) (hsame _)
  | asked _ hvalid hfree => exact absurd (milestone_of_connect hvalid hfree) (hsame _)
  | resumed hcaller => exact absurd rfl (hcalling _ _ hcaller)
  | issued _ _ hissue => exact .change (.issue hissue) rfl rfl rfl rfl
  | _ => exact .rest rfl rfl

theorem ReceiverStep.handles (hkept : c.Kept) (step : c.ReceiverStep a d) : c.Handles a d := by
  cases step with
  | @taken p hreceiver => exact .change (.accept (hkept.decoded p hreceiver) rfl) rfl rfl rfl rfl
  | kept hreceiver => exact .keep (routedBy_of_receiver hreceiver) rfl rfl
  | _ => exact .rest rfl rfl

theorem WorkerStep.handles (step : c.WorkerStep a d) : c.Handles a d := by
  cases step with
  | passed hworker hpass =>
    refine .pass ?_ rfl (by rw [hpass]; exact .pass hpass) rfl
    simp [milestone, workerMilestone, hworker]
  | _ => exact .rest rfl rfl

theorem handles_of_act
    (hcalling : ∀ options ack, c.caller = .resuming options ack → a ≠ .run .caller)
    (hkept : c.Kept) (hact : c.act a = some d)
    (hsame : ∀ line, c.milestone a ≠ some (.opened line)) : c.Handles a d := by
  cases Step.of_act hact with
  | caller step => exact step.handles hcalling hsame
  | receiver step => exact step.handles hkept
  | worker step => exact step.handles
  | keeper step => cases step <;> exact .rest rfl rfl
  | dispatcher step => cases step <;> exact .rest rfl rfl
  | withdrawn _ _ hheeds => exact .rest hheeds.exchange hheeds.acks
  | written _ _ _ _ hheeds => exact .rest hheeds.exchange hheeds.acks
  | lost _ _ _ hheeds => exact .rest hheeds.exchange hheeds.acks
  | continued | carried | elapsed => exact .rest rfl rfl

theorem Resumed.handles (h : c.Resumed) (hkept : c.Kept) (hact : c.act a = some d)
    (hsame : ∀ line, c.milestone a ≠ some (.opened line)) : c.Handles a d := by
  refine handles_of_act (fun options ack hcaller => ?_) hkept hact hsame
  have hcalling := h.calling
  rw [hcaller] at hcalling
  cases hcalling

/-- What is held stays held until a pass reports it. -/
theorem Handles.held (h : c.Handles a d) (hkept : c.Kept) {k : Key}
    (hheld : c.connection.queue.get? k ≠ none) : d.connection.queue.get? k ≠ none ∨
      ∃ event ∈ (c.milestone a).toList.flatMap Milestone.produced, event.origin = k := by
  obtain ⟨e, he⟩ := Option.ne_none_iff_exists'.mp hheld
  have hk := hkept.queue.id_ne_zero he
  have hturn {entry : Entry} (hstep : c.exchange.Step c.settings entry d.exchange)
      (hsame : entry.isReconnect = false) :
      d.connection.queue.get? k ≠ none ∨ entry.told k ≠ [] :=
    (hstep.turn_of_queue hkept.queue hk hsame).held (hkept.queue.owned _ _) hsame hheld
  cases h with
  | rest hexchange | keep _ hexchange =>
    have hqueue : d.connection.queue = c.connection.queue := congrArg Exchange.queue hexchange
    exact .inl (by rw [hqueue]; exact hheld)
  | change hstep hsame _ hwork =>
    refine .inl ((hturn hstep hsame).resolve_right fun htold => htold ?_)
    rw [Entry.told, hwork]
    rfl
  | pass hpassed hwork hstep =>
    refine (hturn hstep rfl).imp id fun htold => ?_
    obtain ⟨event, hevent⟩ := List.exists_mem_of_ne_nil _ htold
    obtain ⟨hmem, horigin⟩ := List.mem_filter.mp hevent
    refine ⟨event, ?_, by simpa using horigin⟩
    rw [hpassed, Option.toList_some, List.flatMap_singleton, Milestone.produced, hwork]
    exact hmem

/-- A message of quality 2 stays confirmed until a pass has a PUBREL for it. -/
theorem Handles.confirmed (h : c.Handles a d) (hkept : c.Kept) {id : UInt16} {m : Publish}
    (hq : m.qos = 2) (hc : (c.exchange.slot ⟨id, .incoming⟩).Confirmed m)
    (hrelease : .pubRel id ∉ c.connection.acks ∨
      ∀ q s acks now, c.milestone a ≠ some (.passed q s acks now)) :
    (d.exchange.slot ⟨id, .incoming⟩).Confirmed m := by
  have ⟨e, _, he, _⟩ := hc
  have hk : (Key.mk id .incoming).id ≠ 0 := hkept.queue.id_ne_zero he
  have hturn {entry : Entry} (hstep : c.exchange.Step c.settings entry d.exchange)
      (hsame : entry.isReconnect = false) (hacks : .pubRel id ∉ entry.acks) :
      (d.exchange.slot ⟨id, .incoming⟩).Confirmed m :=
    hc.turn hq (hstep.turn_of_queue hkept.queue hk hsame) (hkept.queue.owned _ _)
      (fun hreconnect => by cases hsame.symm.trans hreconnect) hacks
  cases h with
  | rest hexchange | keep _ hexchange =>
    rw [hexchange]
    exact hc
  | change hstep hsame hnone => exact hturn hstep hsame (by simp [hnone])
  | pass hpassed _ hstep =>
    exact hturn hstep rfl (hrelease.resolve_right fun hnone => hnone _ _ _ _ hpassed)

structure Serves (f : Client) (v : List Action) (d : Client) : Prop where
  kept : d.Kept
  resumed : d.Resumed
  acks : ∀ ack ∈ d.connection.acks, ack ∈ f.routed v
  held : ∀ k, f.connection.queue.get? k ≠ none → d.connection.queue.get? k ≠ none ∨
    ∃ event ∈ (f.milestones v).flatMap Milestone.produced, event.origin = k
  confirmed : ∀ id m, m.qos = 2 → (f.exchange.slot ⟨id, .incoming⟩).Confirmed m →
    .pubRel id ∉ f.routed v → (d.exchange.slot ⟨id, .incoming⟩).Confirmed m

theorem Serves.act (h : f.Serves v d) (hv : f.acts v = some d) (hact : d.act a = some e)
    (hsame : ∀ line, d.milestone a ≠ some (.opened line)) : f.Serves (v ++ [a]) e := by
  have hhandles := h.resumed.handles h.kept hact hsame
  have hrouted := routed_concat hv hact
  refine ⟨h.kept.step (Step.of_act hact), h.resumed.act hact hsame, fun ack hack => ?_,
    fun k hk => ?_, fun id m hq hc hrelease => ?_⟩
  · rw [hrouted]
    cases hhandles with
    | rest _ hacks | change _ _ _ _ hacks =>
      rw [hacks] at hack
      exact List.mem_append_left _ (h.acks ack hack)
    | keep hroute _ hacks =>
      rw [hacks] at hack
      refine (List.mem_append.mp hack).elim (fun hold => List.mem_append_left _ (h.acks ack hold))
        fun hnew => List.mem_append_right _ ?_
      rw [hroute]
      exact hnew
    | pass _ _ _ hacks =>
      rw [hacks] at hack
      cases hack
  · rw [milestones_concat hv hact, List.flatMap_append]
    have hlater {P : Event → Prop} (xs ys : List Event) :
        ((∃ x ∈ xs, P x) ∨ ∃ x ∈ ys, P x) → ∃ x ∈ xs ++ ys, P x := by
      rintro (⟨x, hx, hp⟩ | ⟨x, hx, hp⟩)
      · exact ⟨x, List.mem_append_left _ hx, hp⟩
      · exact ⟨x, List.mem_append_right _ hx, hp⟩
    rcases h.held k hk with hheld | htold
    · exact (hhandles.held h.kept hheld).imp id fun hnew => hlater _ _ (.inr hnew)
    · exact .inr (hlater _ _ (.inl htold))
  · rw [hrouted] at hrelease
    have hbefore : .pubRel id ∉ f.routed v := fun hmem => hrelease (List.mem_append_left _ hmem)
    exact hhandles.confirmed h.kept hq (h.confirmed id m hq hc hbefore)
      (.inl fun hmem => hbefore (h.acks _ hmem))

theorem Serves.acts (h : f.Serves [] f) (hv : f.acts v = some d)
    (hsame : ∀ line, .opened line ∉ f.milestones v) : f.Serves v d := by
  refine connection_induction (motive := fun v d => f.Serves v d) h ?_ hv hsame
  intro u d e a hu hd hact hquiet
  exact hd.act hu hact hquiet

theorem serves_of_resumed (hkept : f.Kept) (hresumed : f.Resumed) (hacks : f.connection.acks = []) :
    f.Serves [] f where
  kept := hkept
  resumed := hresumed
  acks := by simp [hacks]
  held := fun _ hk => .inl hk
  confirmed := fun _ _ _ hc _ => hc

structure UpToPass (c : Client) (actions : List Action) (d : Client) : Prop where
  acts : c.acts actions = some d
  same : ∀ line, .opened line ∉ c.milestones actions
  passless : ∀ q s acks now, .passed q s acks now ∉ c.milestones actions

/-- What is kept for the next pass is not lost. -/
structure Preserves (c d : Client) : Prop where
  kept : d.Kept
  resumed : d.Resumed
  acks : c.connection.acks <+: d.connection.acks
  held : ∀ k, c.connection.queue.get? k ≠ none → d.connection.queue.get? k ≠ none
  confirmed : ∀ id m, m.qos = 2 → (c.exchange.slot ⟨id, .incoming⟩).Confirmed m →
    (d.exchange.slot ⟨id, .incoming⟩).Confirmed m

theorem Preserves.act (h : c.Preserves d) (hact : d.act a = some e)
    (hsame : ∀ line, d.milestone a ≠ some (.opened line))
    (hpassless : ∀ q s acks now, d.milestone a ≠ some (.passed q s acks now)) :
    c.Preserves e := by
  have hhandles := h.resumed.handles h.kept hact hsame
  refine ⟨h.kept.step (Step.of_act hact), h.resumed.act hact hsame, ?_, fun k hk => ?_,
    fun id m hq hc => hhandles.confirmed h.kept hq (h.confirmed id m hq hc) (.inr hpassless)⟩
  · cases hhandles with
    | rest _ hacks | change _ _ _ _ hacks =>
      rw [hacks]
      exact h.acks
    | keep _ _ hmore =>
      rw [hmore]
      exact h.acks.trans (List.prefix_append _ _)
    | pass hpassed => exact absurd hpassed (hpassless _ _ _ _)
  · refine (hhandles.held h.kept (h.held k hk)).resolve_right fun ⟨event, hevent, _⟩ => ?_
    cases hmilestone : d.milestone a with
    | none => simp [hmilestone] at hevent
    | some milestone =>
      cases milestone with
      | passed q s acks now => exact hpassless q s acks now hmilestone
      | _ => simp [hmilestone, Milestone.produced] at hevent

theorem UpToPass.preserves (h : c.UpToPass actions d) (hkept : c.Kept) (hresumed : c.Resumed) :
    c.Preserves d := by
  refine connection_induction (motive := fun u d =>
    (∀ q s acks now, .passed q s acks now ∉ c.milestones u) → c.Preserves d)
    (fun _ => ⟨hkept, hresumed, List.prefix_rfl, fun _ hk => hk, fun _ _ _ hc => hc⟩) ?_
    h.acts h.same h.passless
  intro u d e a hu ih hact hquiet hnone
  rw [milestones_concat hu hact] at hnone
  have hd := ih fun q s acks now hpassed => hnone q s acks now (List.mem_append_left _ hpassed)
  exact hd.act hact hquiet fun q s acks now hpassed => hnone q s acks now (by simp [hpassed])

/-- An acknowledgment is kept for the next pass, of which the worker is about to be told, and no
answer is written; the delivery that it looks for is still held then. -/
def Keeps (c : Client) (p : Packet) : Prop :=
  ∃ d, c.act (.run .receiver) = some d ∧ d.connection.writes = c.connection.writes ∧
    d.connection.receiver = .waking ∧ ∀ more e, d.UpToPass more e →
      p ∈ e.connection.acks ∧ e.connection.queue.awaits p = true

variable {p : Packet}

theorem route_of_awaits (hconnack : c.connection.connack ≠ .awaited)
    (hawaits : c.connection.queue.awaits p = true) :
    c.route p = c.onConnection fun k => { k with acks := k.acks ++ [p], receiver := .waking } := by
  cases p with
  | pubAck | pubRec | pubRel | pubComp | subAck | unsubAck =>
    simp [route, hconnack, routeAck, hawaits]
  | _ => cases hawaits

theorem awaits_of_held {σ τ : Settings} {q q' : DeliveryQueue} (hq : q.Sound σ) (hq' : q'.Sound τ)
    (hheld : ∀ k, q.get? k ≠ none → q'.get? k ≠ none) (hawaits : q.awaits p = true) :
    q'.awaits p = true := by
  unfold DeliveryQueue.awaits at hawaits ⊢
  cases hanswers : p.answers with
  | none => simp [hanswers] at hawaits
  | some answer =>
    simp only [hanswers, hq.keyed.contains_eq_isSome, hq'.keyed.contains_eq_isSome,
      Option.isSome_iff_ne_none] at hawaits ⊢
    exact hheld _ hawaits

theorem Resumed.keeps (h : c.Resumed) (hkept : c.Kept)
    (hrouting : c.connection.receiver = .routing p)
    (hawaits : c.connection.queue.awaits p = true) : c.Keeps p := by
  have hact := act_of_routing hrouting
  have hnext := h.act hact milestone_receiver_ne
  have hkept' := hkept.step (Step.of_act hact)
  rw [route_of_awaits h.connack hawaits] at hact hnext hkept'
  refine ⟨_, hact, rfl, rfl, fun more e hmore => ?_⟩
  have he := hmore.preserves hkept' hnext
  refine ⟨he.acks.subset (List.mem_append_right _ (List.mem_singleton_self p)), ?_⟩
  exact awaits_of_held hkept.queue he.kept.queue he.held hawaits

def Releases (c : Client) (k : Key) (m : Publish) : Prop :=
  ∃ d, c.act (.run .receiver) = some d ∧ d.connection.writes = c.connection.writes ∧
    d.connection.receiver = .waking ∧ ∀ more e, d.UpToPass more e →
      let work := (e.connection.queue.pass e.session e.connection.acks e.now).2.2
      (work.of k).events = [.received m] ∧ .pubComp k.id ∈ work.outgoing

theorem Resumed.releases (h : c.Resumed) (hkept : c.Kept) {id : UInt16} {m : Publish}
    (hq : m.qos = 2) (hc : (c.exchange.slot ⟨id, .incoming⟩).Confirmed m)
    (hrouting : c.connection.receiver = .routing (.pubRel id)) :
    c.Releases ⟨id, .incoming⟩ m := by
  have ⟨x, _, hx, _⟩ := hc
  have hk : (Key.mk id .incoming).id ≠ 0 := hkept.queue.id_ne_zero hx
  have hawaits : c.connection.queue.awaits (.pubRel id) = true := by
    have hqueued : c.connection.queue.get? ⟨id, .incoming⟩ = some x := hx
    have hcontains := hkept.queue.keyed.contains_eq_isSome ⟨id, .incoming⟩
    rw [hqueued] at hcontains
    exact hcontains
  have hact := act_of_routing hrouting
  have hnext := h.act hact milestone_receiver_ne
  have hkept' := hkept.step (Step.of_act hact)
  rw [route_of_awaits h.connack hawaits] at hact hnext hkept'
  refine ⟨_, hact, rfl, rfl, fun more e hmore => ?_⟩
  have he := hmore.preserves hkept' hnext
  have hmem : .pubRel id ∈ e.connection.acks :=
    he.acks.subset (List.mem_append_right _ (List.mem_singleton_self _))
  have hsound := he.kept.queue
  obtain ⟨hevents, hpubComp⟩ := (he.confirmed id m hq hc).pass_of_mem hq (hsound.owned _ _)
    e.settings hmem e.now
  obtain ⟨-, hwork⟩ := hsound.slot_pass e.session e.connection.acks e.now hk
  replace hevents : _ = [Event.received m] := (congrArg Work.events hwork).trans hevents
  refine ⟨hevents, ?_⟩
  have hfiltered : .pubComp id ∈ (Work.of (e.connection.queue.pass e.session e.connection.acks
      e.now).2.2 ⟨id, .incoming⟩).outgoing := by
    rw [hwork]
    exact hpubComp
  exact List.mem_of_mem_filter hfiltered

/-- A PUBLISH is a duplicate: the queue gets no further delivery, and the held message stays. -/
def Collapses (c : Client) (k : Key) (m m' : Publish) : Prop :=
  (c.connection.queue.accept m').1 = .duplicate ∧ ∃ d, c.act (.run .receiver) = some d ∧
    d.connection.queue.deliveries.map Delivery.key =
      c.connection.queue.deliveries.map Delivery.key ∧
    ∃ y, d.connection.queue.get? k = some y ∧ y.packet = .publish m

theorem Resumed.collapses (h : c.Resumed) (hkept : c.Kept) {id : UInt16} {m m' : Publish}
    {x : Delivery} (hx : c.connection.queue.get? ⟨id, .incoming⟩ = some x)
    (hp : x.packet = .publish m) (hid : m'.id = some id)
    (hrouting : c.connection.receiver = .routing (.publish m')) :
    c.Collapses ⟨id, .incoming⟩ m m' := by
  have hkey := Slot.key_received hid
  have hkeyed := hkept.queue.keyed
  have hdecoded := hkept.decoded m' hrouting
  rcases hkeyed.accept_cases hdecoded.numbered with ⟨hfree, -⟩ | ⟨-, haccept⟩
  · rw [hkey, hx] at hfree
    cases hfree
  refine ⟨by rw [haccept], _, act_of_routing hrouting, ?_, x.reopened, ?_, by simpa using hp⟩
  · simp only [route, h.connack, if_false, onConnection, haccept]
    exact DeliveryQueue.map_modify Delivery.key (fun e _ => by simp) _
  · have hk : (Key.mk id .incoming).id ≠ 0 := hkept.queue.id_ne_zero hx
    simp only [route, h.connack, if_false, onConnection, haccept]
    rw [hkeyed.get?_modify (fun e he => by simpa using he) hk, hkey, if_pos rfl, hx]
    rfl

theorem confirmed_of_get? {id : UInt16} {m : Publish} {x y : Delivery}
    (hqueued : c.connection.queue.get? ⟨id, .incoming⟩ = some x) (hp : x.packet = .publish m)
    (hstored : c.session.get? ⟨id, .incoming⟩ = some y) :
    (c.exchange.slot ⟨id, .incoming⟩).Confirmed m :=
  ⟨x, y, hqueued, hp, hstored⟩

/-- What a stored delivery is on a connection that has taken its session up: it is held there until
a pass reports it, and a message of quality 2 waits for its first PUBREL. -/
structure Restored (s : Session) (f : Client) (v : List Action) (d : Client) (y : Delivery) :
    Prop where
  loaded : (y.direction = .incoming ∨
      (s.deliveries.countP fun e => e.direction = .outgoing) ≤ f.settings.capacity) →
    f.connection.queue.get? y.key = some y.rewound ∧ (d.connection.queue.contains y.key = true ∨
      ∃ event ∈ (f.milestones v).flatMap Milestone.produced, event.origin = y.key)
  released : ∀ m, y.direction = .incoming → y.packet = .publish m → m.qos = 2 →
    .pubRel y.id ∉ f.routed v →
    d.connection.receiver = .routing (.pubRel y.id) → d.Releases y.key m
  collapsed : ∀ m m', y.direction = .incoming → y.packet = .publish m → m.qos = 2 →
    .pubRel y.id ∉ f.routed v →
    d.connection.receiver = .routing (.publish m') → m'.id = some y.id → d.Collapses y.key m m'

theorem TakesUp.get? {s : Session} {options : ConnectOptions} {ack : ConnAck}
    (h : c.TakesUp s options ack u f) (hs : s.Sound) (hclean : options.cleanSession = false)
    (hid : s.clientId = options.clientId) {y : Delivery} (hy : y ∈ s.deliveries)
    (hroom : y.direction = .incoming ∨
      (s.deliveries.countP fun e => e.direction = .outgoing) ≤ f.settings.capacity) :
    f.connection.queue.get? y.key = some y.rewound := by
  obtain ⟨loaded, hresume⟩ := h.resumed
  rw [hclean, ← hid] at hresume
  have hget := DeliveryQueue.get?_resume hs hy hroom
  rwa [hresume] at hget

theorem TakesUp.session_get? {s : Session} {options : ConnectOptions} {ack : ConnAck}
    (h : c.TakesUp s options ack u f) (hs : s.Sound) (hclean : options.cleanSession = false)
    (hid : s.clientId = options.clientId) {y : Delivery} (hy : y ∈ s.deliveries) :
    f.session.get? y.key = some y.rewound := by
  obtain ⟨loaded, hresume⟩ := h.resumed
  rw [hclean, ← hid] at hresume
  have hsession : f.session = { s with deliveries := s.deliveries.map Delivery.rewound } := by
    have hresumed := DeliveryQueue.session_resume (.ofSettings f.settings) s
    rwa [hresume] at hresumed
  have hget : s.get? y.key = some y := hs.keyed.get?_eq_some_iff.mpr ⟨hy, rfl⟩
  rw [hsession, Session.get?_map_rewound, hget]
  rfl

/-- A stored message of quality 2 is confirmed until its first PUBREL is handed on. -/
theorem Serves.confirmed_of_mem {s : Session} {options : ConnectOptions} {ack : ConnAck}
    (h : f.Serves v d) (htaken : c.TakesUp s options ack u f) (hs : s.Sound)
    (hclean : options.cleanSession = false) (hid : s.clientId = options.clientId) {y : Delivery}
    (hy : y ∈ s.deliveries) {m : Publish} (hin : y.direction = .incoming)
    (hp : y.packet = .publish m) (hq : m.qos = 2) (hrelease : .pubRel y.id ∉ f.routed v) :
    (d.exchange.slot ⟨y.id, .incoming⟩).Confirmed m := by
  have hkey := Delivery.key_of_incoming hin
  have hqueued := htaken.get? hs hclean hid hy (.inl hin)
  have hstored := htaken.session_get? hs hclean hid hy
  have hpacket := (Delivery.packet_rewound_of_incoming hin).trans hp
  rw [hkey] at hqueued hstored
  exact h.confirmed y.id m hq (confirmed_of_get? hqueued hpacket hstored) hrelease

theorem Serves.restored {s : Session} {options : ConnectOptions} {ack : ConnAck}
    (h : f.Serves v d) (htaken : c.TakesUp s options ack u f) (hs : s.Sound)
    (hclean : options.cleanSession = false) (hid : s.clientId = options.clientId) {y : Delivery}
    (hy : y ∈ s.deliveries) : Restored s f v d y where
  loaded := by
    intro hroom
    have hloaded := htaken.get? hs hclean hid hy hroom
    refine ⟨hloaded, (h.held y.key (by simp [hloaded])).imp (fun hheld => ?_) id⟩
    rw [h.kept.queue.keyed.contains_eq_isSome]
    exact Option.isSome_iff_ne_none.mpr hheld
  released := by
    intro m hin hp hq hrelease hrouting
    have hconfirmed := h.confirmed_of_mem htaken hs hclean hid hy hin hp hq hrelease
    rw [Delivery.key_of_incoming hin]
    exact h.resumed.releases h.kept hq hconfirmed hrouting
  collapsed := by
    intro m m' hin hp hq hrelease hrouting hid'
    have hconfirmed := h.confirmed_of_mem htaken hs hclean hid hy hin hp hq hrelease
    obtain ⟨x, _, hx, hxp, _⟩ := hconfirmed
    rw [Delivery.key_of_incoming hin]
    exact h.resumed.collapses h.kept hx hxp hid' hrouting

/-- Nothing is handed on around a resume. Until the call has put what the session owes into the
queue, the receiver hands on nothing but a CONNACK; any other packet fails the call. Everything
else is handed on after that, by a receiver that the call has let go. An acknowledgment that the
queue awaits is then kept for the next pass, and what the session has stored is awaited: on a
connection of the same client without a clean start each message of the broker is in the queue, and
all of our own if there is room for them, until a pass reports them. A stored message of quality 2
stays as it is until the first PUBREL for it, which is never answered at once: the next pass hands
the message over and sends the PUBCOMP. A PUBLISH under its identifier is a duplicate until then. -/
theorem nothing_routed_around_resume {σ τ : Settings} {x : Exchange} {c₀ b c d : Client}
    {a : Action} {before actions : List Action} {line : Line} (hleft : Exchange.Reachable τ x)
    (hnew : ofSettings σ x.session = .ok c₀) (hbefore : c₀.acts before = some b)
    (hact : b.act a = some c) (hopened : b.milestone a = some (.opened line))
    (hacts : c.acts actions = some d) (hsame : ∀ l, .opened l ∉ c.milestones actions) :
    ((d.established = false ∧ ∀ ack, d.caller ≠ .done (.ok ack)) ∧
      ∀ p, d.connection.receiver = .routing p →
        c.routed actions = [] ∧ ((∃ ack, p = .connAck ack) ∨ d.Rejects p)) ∨
    ∃ options ack u v f, actions = u ++ .run .caller :: v ∧
      c.TakesUp b.session options ack u f ∧ f.acts v = some d ∧
      c.routed actions = .connAck ack :: f.routed v ∧
      (d.connection.receiver = .resuming → d.connection.resumed = true ∨
        ∃ options ack loaded, d.caller = .releasing options ack loaded) ∧
      (∀ p, d.connection.receiver = .routing p → d.connection.queue.awaits p = true → d.Keeps p) ∧
      (options.cleanSession = false → b.session.clientId = options.clientId →
        ∀ y ∈ b.session.deliveries, Restored b.session f v d y) := by
  have hordered : b.Ordered := (ordered_ofSettings hnew).acts hbefore
  have hlined : b.Lined := (lined_ofSettings hnew).acts (ordered_ofSettings hnew) hbefore
  have hkept : b.Kept := (kept_ofSettings hleft hnew).acts hbefore
  have hstep := Step.of_act hact
  have hordered' : c.Ordered := hordered.step hstep
  rcases handshake hordered hact hopened hacts hsame with
    hd | ⟨options, ack, u, v, f, rfl, htaken, hresumed, hv⟩
  · have hlined' : d.Lined := (hlined.step hordered hstep).acts hordered' hacts
    exact .inl ⟨hd.unopened, fun p => hd.rejects (hordered'.acts hacts) hlined'⟩
  right
  have hkept' : f.Kept := (hkept.step hstep).acts htaken.acts
  have hserves := (serves_of_resumed hkept' hresumed htaken.acks).acts hv (htaken.same hsame)
  refine ⟨options, ack, u, v, f, rfl, htaken, hv, htaken.routed_eq v, hserves.resumed.released,
    fun p hrouting hawaits => hserves.resumed.keeps hserves.kept hrouting hawaits,
    fun hclean hid y hy => hserves.restored htaken hkept.session hclean hid hy⟩

/-- A message of quality 2 is held when the connection ends. Its PUBREL comes in one piece with the
CONNACK of the next one, and is handed on before the other loops run. -/
theorem nothing_routed_around_resume_of_pubRel :
    let options : ConnectOptions := { clientId := "c", cleanSession := false, keepAlive := 0 }
    let m : Publish := ⟨false, 2, false, "b", some 4, []⟩
    let before := Action.opening options ++
      [.run .worker, .arrive [0x34, 5, 0, 1, 0x62, 0, 4]] ++ List.replicate 7 (.run .receiver) ++
      List.replicate 3 (.run .worker) ++ [.write 100] ++ List.replicate 4 (.run .worker) ++
      [.run .dispatcher, .hangUp] ++ List.replicate 2 (.run .receiver) ++
      [.stop .worker, .stop .dispatcher] ++ List.replicate 5 (.run .dispatcher) ++
      [.connect options {}]
    let actions := [.write 100, .arrive [32, 2, 1, 0, 0x62, 2, 0, 4]] ++
      List.replicate 5 (.run .receiver) ++ List.replicate 3 (.run .caller) ++
      List.replicate 5 (.run .receiver)
    ∃ x b c d, Exchange.Reachable {} x ∧ ofSettings {} x.session = .ok newcomer ∧
      newcomer.acts before = some b ∧ b.act (.run .caller) = some c ∧
      b.milestone (.run .caller) = some (.opened {}) ∧ c.acts actions = some d ∧
      (∀ l, .opened l ∉ c.milestones actions) ∧ d.connection.receiver = .routing (.pubRel 4) ∧
      c.routed actions = [.connAck ⟨true, 0⟩] ∧
      ∃ e, d.act (.run .receiver) = some e ∧ ∀ more g, e.UpToPass more g →
        ((g.connection.queue.pass g.session g.connection.acks g.now).2.2.of
          ⟨4, .incoming⟩).events = [.received m] := by
  intro options m before actions
  have hleft : Exchange.Reachable {} (.start {} { clientId := "" }) := .start {} { clientId := "" }
  have hnew : ofSettings {} (Exchange.start {} { clientId := "" }).session = .ok newcomer := rfl
  let held : Delivery := ⟨.publish m, .awaitPubrel, .incoming, 4, 1, some 0⟩
  obtain ⟨b, hbefore, hb⟩ : ∃ b, newcomer.acts before = some b ∧
      (b.milestone (.run .caller), b.session.clientId, b.session.deliveries,
        (b.act (.run .caller)).bind fun c => (c.acts actions).map fun d =>
          (c.caller, c.milestones actions, c.routed actions, d.connection.receiver)) =
      (some (.opened {}), "c", [held], some (.greeting options,
        [.written .caller options.packet], [.connAck ⟨true, 0⟩], .routing (.pubRel 4))) := by
    apply Option.map_eq_some_iff.mp
    dsimp only [before, actions, options, m, held]
    rfl
  simp only [Prod.mk.injEq] at hb
  obtain ⟨hopened, hid, hdeliveries, hrun⟩ := hb
  obtain ⟨c, hact, hc⟩ := Option.bind_eq_some_iff.mp hrun
  obtain ⟨d, hacts, hd⟩ := Option.map_eq_some_iff.mp hc
  simp only [Prod.mk.injEq] at hd
  obtain ⟨hcaller, hmilestones, hrouted, hrouting⟩ := hd
  have hsame : ∀ l, .opened l ∉ c.milestones actions := by simp [hmilestones]
  refine ⟨_, b, c, d, hleft, hnew, hbefore, hact, hopened, hacts, hsame, hrouting, hrouted, ?_⟩
  rcases nothing_routed_around_resume hleft hnew hbefore hact hopened hacts hsame with
    ⟨-, hearly⟩ | ⟨options', ack, u, v, f, -, htaken, -, hall, -, -, hrestored⟩
  · cases hrouted.symm.trans (hearly _ hrouting).1
  · obtain rfl : options' = options := Caller.greeting.inj (htaken.asked.symm.trans hcaller)
    have hnone : f.routed v = [] := (List.cons.inj (hall.symm.trans hrouted)).2
    have hheld := hrestored rfl hid held (by simp [hdeliveries])
    obtain ⟨e, he, -, -, hpass⟩ := hheld.released m rfl rfl rfl (by simp [hnone]) hrouting
    exact ⟨e, he, fun more g hmore => (hpass more g hmore).1⟩

end Client
end Mqtt
