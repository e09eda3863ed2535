import Mqtt.Proofs.Client.Resumption
import Mqtt.Proofs.Exchange.Content

/-!
Where the deliveries of a session come from. One session outlives all connections of a client; what
a connection takes up of it was stored by an earlier one of the same client identifier, and no other
client has been connected since.
-/
namespace Mqtt

namespace DeliveryQueue

theorem clientId_resume (q : DeliveryQueue) (s : Session) (clientId : String) (clean : Bool) :
    (q.resume s clientId clean).2.2.clientId = clientId := by
  have hsession : (if s.clientId = clientId then s else { clientId }).clientId = clientId := by
    split
    next heq => exact heq
    next => rfl
  cases clean with
  | true => exact hsession
  | false => exact hsession

/-- What is left in a session that is taken up was stored there for the same client. -/
theorem of_get?_resume {q : DeliveryQueue} {s : Session} {clientId : String} {clean : Bool}
    {k : Key} {y : Delivery} (h : (q.resume s clientId clean).2.2.get? k = some y) :
    s.clientId = clientId ∧ clean = false ∧ ∃ z, s.get? k = some z ∧ y = z.rewound := by
  cases clean with
  | true => cases h
  | false =>
    by_cases hsame : s.clientId = clientId
    · subst hsame
      rw [session_resume, Session.get?_map_rewound] at h
      obtain ⟨z, hz, rfl⟩ := Option.map_eq_some_iff.mp h
      exact ⟨rfl, rfl, z, hz, rfl⟩
    · simp [resume, hsame, Session.restore_kept, Session.get?] at h

/-- So was what a new queue holds after that. -/
theorem of_mem_resume {σ : Settings} {s : Session} {clientId : String} {clean : Bool}
    {y : Delivery} (h : y ∈ ((ofSettings σ).resume s clientId clean).2.1.deliveries) :
    s.clientId = clientId ∧ clean = false ∧ ∃ z ∈ s.deliveries, y = z.rewound := by
  have hempty (P : Delivery → Prop) : ∀ d ∈ (ofSettings σ).deliveries, P d :=
    fun _ hd => absurd hd List.not_mem_nil
  cases clean with
  | true => exact absurd h List.not_mem_nil
  | false =>
    by_cases hsame : s.clientId = clientId
    · subst hsame
      have hall : ∀ y ∈ s.deliveries.map Delivery.rewound, ∃ z ∈ s.deliveries, y = z.rewound := by
        intro y hy
        obtain ⟨z, hz, rfl⟩ := List.mem_map.mp hy
        exact ⟨z, hz, rfl⟩
      simp only [resume, if_true, Session.restore_kept] at h
      exact ⟨rfl, rfl, forall_load (hempty _) hall y h⟩
    · simp [resume, hsame, Session.restore_kept, load, ofSettings] at h

end DeliveryQueue

def Caller.isTaking : Caller → Bool
  | .releasing _ _ _ | .opening _ _ _ => true
  | _ => false

namespace Client

/-- A turning point in the life of a session. -/
inductive Phase where
  | opening
  /-- The call has been accepted and takes up the session; it cannot fail any more. -/
  | resumed (options : ConnectOptions)

def Phase.options? : Phase → Option ConnectOptions
  | .opening => none
  | .resumed options => some options

def phase (c : Client) (a : Action) : List Phase :=
  match c.milestone a with
  | some (.opened _) => [.opening]
  | _ =>
    match a, c.caller with
    | .run .caller, .resuming options _ => [.resumed options]
    | _, _ => []

def phases : Client → List Action → List Phase :=
  trace phase

def lastResumed (c : Client) (actions : List Action) : Option ConnectOptions :=
  ((c.phases actions).filterMap Phase.options?).getLast?

/-- A delivery was first stored under a key on a connection of a client, is stored there since, and
has carried the same message all the time; and each call that has been accepted since then was for
the same client and asked for its session. -/
def Stored (start : Client) (actions : List Action) (clientId : String) (k : Key) (p : Packet) :
    Prop :=
  ∃ u a v c d options, actions = u ++ a :: v ∧ start.acts u = some c ∧ c.act a = some d ∧
    c.session.get? k = none ∧
    (∀ w x e, v = w ++ x → d.acts w = some e → ∃ z, e.session.get? k = some z ∧ z.content = p) ∧
    (start.phases u).getLast? = some (.resumed options) ∧ options.clientId = clientId ∧
    ∀ later, .resumed later ∈ d.phases v →
      later.clientId = clientId ∧ later.cleanSession = false

variable {start b c d : Client} {a : Action} {u v actions : List Action} {k : Key} {p : Packet}
  {z : Delivery} {clientId : String}

theorem phase_of_opened {line : Line} (h : c.milestone a = some (.opened line)) :
    c.phase a = [.opening] := by
  simp [phase, h]

theorem phase_of_resuming {options : ConnectOptions} {ack : ConnAck}
    (h : c.caller = .resuming options ack) : c.phase (.run .caller) = [.resumed options] := by
  simp [phase, milestone, h]

/-- Every other action leaves the session with its client. -/
theorem phase_cases (hact : c.act a = some d) :
    (∃ line, c.milestone a = some (.opened line)) ∨
    (∃ options ack, a = .run .caller ∧ c.caller = .resuming options ack ∧
      d = c.runResume options ack) ∨
    c.phase a = [] ∧ (∀ line, c.milestone a ≠ some (.opened line)) ∧
      ∀ options ack, c.caller = .resuming options ack → a ≠ .run .caller := by
  by_cases hopened : ∃ line, c.milestone a = some (.opened line)
  · exact .inl hopened
  · have hsame : ∀ line, c.milestone a ≠ some (.opened line) :=
      fun line hline => hopened ⟨line, hline⟩
    by_cases hresuming : ∃ options ack, a = .run .caller ∧ c.caller = .resuming options ack
    · obtain ⟨options, ack, rfl, hcaller⟩ := hresuming
      have hresumed := Option.some.inj (hact.symm.trans (act_of_resuming hcaller))
      exact .inr (.inl ⟨options, ack, rfl, hcaller, hresumed⟩)
    · have hcalling : ∀ options ack, c.caller = .resuming options ack → a ≠ .run .caller :=
        fun options ack hcaller hturn => hresuming ⟨options, ack, hturn, hcaller⟩
      refine .inr (.inr ⟨?_, hsame, hcalling⟩)
      unfold phase
      split
      next line hline => exact absurd hline (hsame line)
      next =>
        split
        next hcaller _ => exact absurd rfl (hcalling _ _ hcaller)
        next => rfl

/-! What is stored goes on being stored. -/

theorem Stored.first (hu : start.acts u = some c) (hact : c.act a = some d)
    (hnone : c.session.get? k = none) (hz : d.session.get? k = some z) {options : ConnectOptions}
    (hlast : (start.phases u).getLast? = some (.resumed options)) :
    start.Stored (u ++ [a]) options.clientId k z.content := by
  refine ⟨u, a, [], c, d, options, rfl, hu, hact, hnone, ?_, hlast, rfl,
    fun later hlater => absurd hlater List.not_mem_nil⟩
  intro w x e hsplit he
  obtain ⟨rfl, rfl⟩ := List.append_eq_nil_iff.mp hsplit.symm
  cases he
  exact ⟨z, hz, rfl⟩

theorem Stored.act (h : start.Stored u clientId k p) (hu : start.acts u = some c)
    (hact : c.act a = some d) (hz : d.session.get? k = some z) (hsame : z.content = p)
    (hphase : ∀ later, .resumed later ∈ c.phase a →
      later.clientId = clientId ∧ later.cleanSession = false) :
    start.Stored (u ++ [a]) clientId k p := by
  obtain ⟨u, b, v, e, f, options, rfl, hbefore, hfirst, hnone, hkept, hlast, hid, hlater⟩ := h
  have hv : f.acts v = some c := by
    rw [acts_append, hbefore, Option.bind_some] at hu
    obtain ⟨f', hf, hrest⟩ := Option.bind_eq_some_iff.mp hu
    cases hfirst.symm.trans hf
    exact hrest
  refine ⟨u, b, v ++ [a], e, f, options, by simp, hbefore, hfirst, hnone, ?_, hlast, hid, ?_⟩
  · -- what follows the first storing now ends in this action, or was there before
    intro w x g hsplit hw
    rcases List.eq_nil_or_concat x with rfl | ⟨x, a', rfl⟩
    · rw [List.append_nil] at hsplit
      rw [← hsplit, acts_concat_of_eq hv hact] at hw
      cases hw
      exact ⟨z, hz, hsame⟩
    · rw [List.concat_eq_append, ← List.append_assoc] at hsplit
      exact hkept w x g (List.append_inj_left' hsplit rfl) hw
  · intro later hmem
    rw [phases, trace_concat phase hv hact] at hmem
    rcases List.mem_append.mp hmem with hmem | hmem
    · exact hlater later hmem
    · exact hphase later hmem

/-! On a connection whose call has not been accepted the session is not touched. -/

/-- A client whose connections are all over, but for one that has not been accepted yet. -/
structure Asleep (c : Client) : Prop where
  established : c.established = false
  dispatcher : c.connection.dispatcher = .stopped
  calling : c.caller.isTaking = false

theorem Asleep.beside (h : c.Asleep) (line : Line) (writes : List Write) (lastSent : Nat) :
    Asleep { c with connection := { c.connection with line, writes, lastSent } } :=
  { h with }

theorem Asleep.heeds {outcome : Except ClientError Unit} {task : Task} (h : c.Asleep)
    (hheeds : c.Heeds outcome task d) : d.Asleep := by
  cases hheeds with
  | greeted | ungreeted | parted => exact { h with calling := rfl }
  | answered | unanswered | delivered | undelivered | pinged | unpinged => exact { h with }
  | unheeded => exact h

theorem Asleep.callerStep (h : c.Asleep) (step : c.CallerStep a d)
    (hsame : ∀ line, c.milestone a ≠ some (.opened line))
    (hcalling : ∀ options ack, c.caller = .resuming options ack → a ≠ .run .caller) :
    d.session = c.session ∧ d.Asleep := by
  cases step with
  | joined hcaller => exact absurd (milestone_of_joining hcaller) (hsame _)
  | asked _ hvalid hfree => exact absurd (milestone_of_connect hvalid hfree) (hsame _)
  | resumed hcaller => exact absurd rfl (hcalling _ _ hcaller)
  | released hcaller | opened hcaller =>
    have htaking := h.calling
    rw [hcaller] at htaking
    cases htaking
  | replaced | departed | dismissed => exact ⟨rfl, rfl, h.dispatcher, rfl⟩
  | issued _ hactive =>
    rw [isActive, h.established] at hactive
    cases hactive
  | signalled => exact ⟨rfl, { h with }⟩
  | unissued => exact ⟨rfl, h⟩
  | _ => exact ⟨rfl, { h with calling := rfl }⟩

theorem Asleep.act (h : c.Asleep) (hordered : c.Ordered) (hact : c.act a = some d)
    (hsame : ∀ line, c.milestone a ≠ some (.opened line))
    (hcalling : ∀ options ack, c.caller = .resuming options ack → a ≠ .run .caller) :
    d.session = c.session ∧ d.Asleep := by
  cases Step.of_act hact with
  | caller step => exact h.callerStep step hsame hcalling
  | receiver step => cases step <;> exact ⟨rfl, { h with }⟩
  | worker step => exact absurd (hordered.worker_stopped h.dispatcher) step.running
  | keeper step => cases step <;> exact ⟨rfl, { h with }⟩
  | dispatcher step => exact absurd h.dispatcher step.running
  | withdrawn _ _ hheeds =>
    exact ⟨congrArg Exchange.session hheeds.exchange, (h.beside _ _ _).heeds hheeds⟩
  | written _ _ _ _ hheeds =>
    exact ⟨congrArg Exchange.session hheeds.exchange, (h.beside _ _ _).heeds hheeds⟩
  | lost _ _ _ hheeds =>
    exact ⟨congrArg Exchange.session hheeds.exchange, (h.beside _ _ _).heeds hheeds⟩
  | continued | carried | elapsed => exact ⟨rfl, { h with }⟩

theorem Heeds.settings {outcome : Except ClientError Unit} {task : Task}
    (hheeds : c.Heeds outcome task d) : d.settings = c.settings := by
  cases hheeds <;> rfl

theorem settings_of_act (hact : c.act a = some d) : d.settings = c.settings := by
  cases Step.of_act hact with
  | caller step =>
    cases step with
    | joined _ _ hgreets | asked _ _ _ hgreets => cases hgreets <;> rfl
    | _ => rfl
  | receiver step => cases step <;> rfl
  | worker step => cases step <;> rfl
  | keeper step => cases step <;> rfl
  | dispatcher step => cases step <;> rfl
  | withdrawn _ _ hheeds => exact hheeds.settings
  | written _ _ _ _ hheeds => exact hheeds.settings
  | lost _ _ _ hheeds => exact hheeds.settings
  | continued | carried | elapsed => rfl

theorem Heeds.isGreeting {outcome : Except ClientError Unit} {task : Task}
    (hheeds : c.Heeds outcome task d) (h : d.caller.isGreeting = true) :
    c.caller.isGreeting = true := by
  cases hheeds with
  | greeted hcaller | ungreeted hcaller =>
    rw [hcaller]
    rfl
  | parted => cases h
  | _ => exact h

/-- A call that has its session does not go back to look for it. -/
theorem isGreeting_of_act (hact : c.act a = some d)
    (hsame : ∀ line, c.milestone a ≠ some (.opened line)) (h : d.caller.isGreeting = true) :
    c.caller.isGreeting = true := by
  cases Step.of_act hact with
  | caller step =>
    cases step with
    | joined hcaller => exact absurd (milestone_of_joining hcaller) (hsame _)
    | asked _ hvalid hfree => exact absurd (milestone_of_connect hvalid hfree) (hsame _)
    | accepted hcaller | refused hcaller | unanswered hcaller | cleared hcaller =>
      rw [hcaller]
      rfl
    | issued | signalled | unissued => exact h
    | _ => cases h
  | receiver step => cases step <;> exact h
  | worker step => cases step <;> exact h
  | keeper step => cases step <;> exact h
  | dispatcher step => cases step <;> exact h
  | withdrawn _ _ hheeds => exact hheeds.isGreeting h
  | written _ _ _ _ hheeds => exact hheeds.isGreeting h
  | lost _ _ _ hheeds => exact hheeds.isGreeting h
  | continued | carried | elapsed => exact h

/-! The session over all connections. -/

/-- Between two connections, and on one that has not been accepted yet, the session rests; behind
that it mirrors the queue. -/
inductive Keeping (start : Client) (u : List Action) (c : Client) : Prop where
  | asleep (hasleep : c.Asleep) (hsound : ∃ q, Exchange.Sound c.settings ⟨q, c.session⟩)
  | awake {options : ConnectOptions}
      (hlast : (start.phases u).getLast? = some (.resumed options))
      (hsound : c.exchange.Sound c.settings)

/-- Whose the session is after some actions, and since when it has what it stores. -/
structure Attributed (start : Client) (u : List Action) (c : Client) : Prop where
  client : ∀ options, start.lastResumed u = some options → c.session.clientId = options.clientId
  stored : ∀ k z, c.session.get? k = some z → start.Stored u c.session.clientId k z.content

/-- What holds of the session on any connection and between them. -/
structure Archive (start : Client) (u : List Action) (c : Client) : Prop where
  greeting : c.caller.isGreeting = true → ∃ s asked t, Unresumed s asked t c
  keeping : start.Keeping u c
  attributed : start.Attributed u c

theorem lastResumed_of_getLast? {options : ConnectOptions}
    (h : (start.phases u).getLast? = some (.resumed options)) :
    start.lastResumed u = some options := by
  obtain ⟨before, hphases⟩ := List.getLast?_eq_some_iff.mp h
  simp [lastResumed, hphases, Phase.options?]

theorem Stored.resumed (h : start.Stored u clientId k p) :
    ∃ last, start.lastResumed u = some last := by
  obtain ⟨u, a, v, c, d, options, rfl, hu, -, -, -, hlast, -, -⟩ := h
  obtain ⟨before, hphases⟩ := List.getLast?_eq_some_iff.mp hlast
  refine Option.ne_none_iff_exists'.mp fun hnone => ?_
  rw [lastResumed, phases, trace_append phase hu, ← phases, hphases,
    List.getLast?_eq_none_iff] at hnone
  simp [Phase.options?] at hnone

theorem lastResumed_concat (hu : start.acts u = some c) (hact : c.act a = some d)
    (hphase : ∀ options, .resumed options ∉ c.phase a) :
    start.lastResumed (u ++ [a]) = start.lastResumed u := by
  have hnone : (c.phase a).filterMap Phase.options? = [] := by
    refine List.filterMap_eq_nil_iff.mpr fun x hx => ?_
    cases x with
    | opening => rfl
    | resumed options => exact absurd hx (hphase options)
  simp [lastResumed, phases, trace_concat phase hu hact, hnone]

theorem Keeping.sound (h : start.Keeping u c) :
    ∃ q, Exchange.Sound c.settings ⟨q, c.session⟩ := by
  cases h with
  | asleep _ hsound => exact hsound
  | awake _ hsound => exact ⟨_, hsound⟩

/-- A session that nobody touches keeps what it has. -/
theorem Attributed.rests (h : start.Attributed u c) (hu : start.acts u = some c)
    (hact : c.act a = some d) (hsession : d.session = c.session)
    (hphase : ∀ options, .resumed options ∉ c.phase a) : start.Attributed (u ++ [a]) d := by
  refine ⟨?_, fun k z hz => ?_⟩
  · rw [lastResumed_concat hu hact hphase, hsession]
    exact h.client
  · have hbefore : c.session.get? k = some z := by rw [← hsession]; exact hz
    rw [hsession]
    exact (h.stored k z hbefore).act hu hact hz rfl fun later hlater =>
      absurd hlater (hphase later)

theorem Attributed.turns {options : ConnectOptions} {entry : Entry} (h : start.Attributed u c)
    (hu : start.acts u = some c) (hact : c.act a = some d)
    (hlast : (start.phases u).getLast? = some (.resumed options))
    (hsound : c.exchange.Sound c.settings) (hstep : c.exchange.Step c.settings entry d.exchange)
    (hphase : ∀ options, .resumed options ∉ c.phase a) : start.Attributed (u ++ [a]) d := by
  have hid : d.session.clientId = c.session.clientId := hstep.clientId hsound
  refine ⟨?_, fun k z' hz' => ?_⟩
  · rw [lastResumed_concat hu hact hphase, hid]
    exact h.client
  · rw [hid]
    cases hz : c.session.get? k with
    | none =>
      rw [h.client options (lastResumed_of_getLast? hlast)]
      exact .first hu hact hz hz' hlast
    | some z =>
      have hcontent := hstep.content hsound hz hz'
      rw [hcontent]
      exact (h.stored k z hz).act hu hact hz' hcontent fun later hlater =>
        absurd hlater (hphase later)

theorem Archive.opens {line : Line} (h : start.Archive u c) (hordered : c.Ordered)
    (hu : start.acts u = some c) (hact : c.act a = some d)
    (hopened : c.milestone a = some (.opened line)) : start.Archive (u ++ [a]) d := by
  have hbegin := unresumed_of_opened hordered hact hopened
  have hordered' : d.Ordered := hordered.step (Step.of_act hact)
  obtain ⟨⟨options, hgreets⟩, -⟩ := greets_of_opened hact hopened
  have hopening : d.caller.isOpening = true ∧ d.caller.isTaking = false := by
    cases hgreets <;> exact ⟨rfl, rfl⟩
  obtain ⟨hestablished, hdispatcher⟩ := hordered'.opening hopening.1
  have hsound := h.keeping.sound
  rw [← hbegin.session, ← settings_of_act hact] at hsound
  exact ⟨fun _ => ⟨_, _, _, hbegin⟩, .asleep ⟨hestablished, hdispatcher, hopening.2⟩ hsound,
    h.attributed.rests hu hact hbegin.session (by simp [phase_of_opened hopened])⟩

theorem Archive.takes {options : ConnectOptions} {ack : ConnAck} (h : start.Archive u c)
    (hu : start.acts u = some c) (hcaller : c.caller = .resuming options ack)
    (hact : c.act (.run .caller) = some (c.runResume options ack)) :
    start.Archive (u ++ [.run .caller]) (c.runResume options ack) := by
  obtain ⟨s, asked, t, hwaiting⟩ := h.greeting (by rw [hcaller]; rfl)
  have hphases := trace_concat phase hu hact
  rw [phase_of_resuming hcaller] at hphases
  have hlast : (start.phases (u ++ [.run .caller])).getLast? = some (.resumed options) := by
    rw [phases, hphases, List.getLast?_concat]
  have hid : (c.runResume options ack).session.clientId = options.clientId :=
    c.connection.queue.clientId_resume c.session options.clientId options.cleanSession
  have hcalling : (c.runResume options ack).caller.isGreeting = false := rfl
  obtain ⟨q, hsound⟩ := h.keeping.sound
  refine ⟨fun hgreeting => absurd (hcalling.symm.trans hgreeting) Bool.false_ne_true,
    .awake hlast ?_, ⟨fun o ho => ?_, fun k y hy => ?_⟩⟩
  · have htaken := hsound.taken options.clientId options.cleanSession
    rw [← hwaiting.queue] at htaken
    exact htaken
  · rw [lastResumed_of_getLast? hlast] at ho
    cases ho
    exact hid
  · obtain ⟨hsame, hclean, z, hz, rfl⟩ := DeliveryQueue.of_get?_resume (q := c.connection.queue) hy
    rw [hid, ← hsame]
    have hcontent := Delivery.content_rewound z
    rw [hcontent]
    refine (h.attributed.stored k z hz).act hu hact hy hcontent fun later hlater => ?_
    rw [phase_of_resuming hcaller, List.mem_singleton] at hlater
    cases hlater
    exact ⟨hsame.symm, hclean⟩

theorem Archive.serves {options : ConnectOptions} (h : start.Archive u c) (hkept : c.Kept)
    (hu : start.acts u = some c) (hact : c.act a = some d)
    (hlast : (start.phases u).getLast? = some (.resumed options))
    (hsound : c.exchange.Sound c.settings) (hphase : c.phase a = [])
    (hsame : ∀ line, c.milestone a ≠ some (.opened line))
    (hcalling : ∀ options ack, c.caller = .resuming options ack → a ≠ .run .caller) :
    start.Keeping (u ++ [a]) d ∧ start.Attributed (u ++ [a]) d := by
  have hnone : ∀ options, .resumed options ∉ c.phase a := by simp [hphase]
  have hlast' : (start.phases (u ++ [a])).getLast? = some (.resumed options) := by
    rw [phases, trace_concat phase hu hact, hphase, List.append_nil]
    exact hlast
  have hsettings := settings_of_act hact
  cases handles_of_act hcalling hkept hact hsame with
  | rest hexchange | keep _ hexchange =>
    have hsession : d.session = c.session := congrArg Exchange.session hexchange
    rw [← hsettings, ← hexchange] at hsound
    exact ⟨.awake hlast' hsound, h.attributed.rests hu hact hsession hnone⟩
  | change hstep | pass _ _ hstep =>
    have hsound' := hstep.sound hsound
    rw [← hsettings] at hsound'
    exact ⟨.awake hlast' hsound', h.attributed.turns hu hact hlast hsound hstep hnone⟩

theorem Archive.act (h : start.Archive u c) (hordered : c.Ordered) (hkept : c.Kept)
    (hu : start.acts u = some c) (hact : c.act a = some d) : start.Archive (u ++ [a]) d := by
  rcases phase_cases hact with
    ⟨line, hopened⟩ | ⟨options, ack, rfl, hcaller, rfl⟩ | ⟨hphase, hsame, hcalling⟩
  · exact h.opens hordered hu hact hopened
  · exact h.takes hu hcaller hact
  have hgreeting : d.caller.isGreeting = true → ∃ s asked t, Unresumed s asked t d := by
    intro hcaller
    obtain ⟨s, asked, t, hwaiting⟩ := h.greeting (isGreeting_of_act hact hsame hcaller)
    rcases hwaiting.act hact hsame with ⟨options, ack, hresuming, hturn⟩ | hwaiting'
    · exact absurd hturn (hcalling options ack hresuming)
    · exact ⟨_, _, _, hwaiting'⟩
  cases h.keeping with
  | asleep hasleep hsound =>
    obtain ⟨hsession, hasleep'⟩ := hasleep.act hordered hact hsame hcalling
    rw [← hsession, ← settings_of_act hact] at hsound
    exact ⟨hgreeting, .asleep hasleep' hsound,
      h.attributed.rests hu hact hsession (by simp [hphase])⟩
  | awake hlast hsound =>
    obtain ⟨hkeeping, hattributed⟩ := h.serves hkept hu hact hlast hsound hphase hsame hcalling
    exact ⟨hgreeting, hkeeping, hattributed⟩

/-- Whatever the session of a new client stores has come there on one of its connections. -/
theorem archive_of_acts {σ : Settings} (hnew : ofSettings σ { clientId := "" } = .ok start)
    (hacts : start.acts actions = some c) : start.Archive actions c := by
  have hleft : Exchange.Reachable σ (.start σ { clientId := "" }) := .start σ { clientId := "" }
  have hbegin : start.Archive [] start := by
    obtain ⟨_, _, hstart⟩ := exists_of_bind_eq_ok hnew
    cases hstart
    have hsound := Exchange.sound_start σ { clientId := "" }
    exact ⟨nofun, .asleep ⟨rfl, rfl, rfl⟩ ⟨_, hsound⟩,
      ⟨fun _ hlast => (Option.not_mem_none _ hlast).elim,
        fun _ _ hz => (Option.not_mem_none _ hz).elim⟩⟩
  refine acts_concat_induction (motive := fun u c => start.Archive u c) hbegin ?_ hacts
  intro u c d a hu hc hact
  exact hc.act ((ordered_ofSettings hnew).acts hu) ((kept_ofSettings hleft hnew).acts hu) hu hact

/-- A call that is about to take up its session finds it as the connections before have left it,
and its own queue empty. -/
theorem session_queue_of_resuming {line : Line} {options : ConnectOptions} {ack : ConnAck}
    (hordered : b.Ordered) (hact : b.act a = some c) (hopened : b.milestone a = some (.opened line))
    (hacts : c.acts actions = some d) (hsame : ∀ l, .opened l ∉ c.milestones actions)
    (hcaller : d.caller = .resuming options ack) :
    d.session = b.session ∧ d.connection.queue = .ofSettings d.settings := by
  rcases handshake hordered hact hopened hacts hsame with
    hd | ⟨options, ack, u, v, f, rfl, htaken, hresumed, hv⟩
  · exact ⟨hd.session, hd.queue⟩
  · have hcalling := (hresumed.acts hv (htaken.same hsame)).calling
    rw [hcaller] at hcalling
    cases hcalling

/-- Sessions do not leak between clients. Whatever a call takes up of the session was first stored
on an earlier connection of the same client identifier, under the same key, and has been stored
there with the same message up to the beginning of this connection; no call of another client, and
none with a clean start, has been accepted in the meantime. With a clean start, or with another
client identifier than at the last call that was accepted, the queue starts empty. -/
theorem sessions_kept_apart {σ : Settings} {line : Line} {options : ConnectOptions} {ack : ConnAck}
    {before : List Action} {e : Client} (hnew : ofSettings σ { clientId := "" } = .ok start)
    (hbefore : start.acts before = some b) (hact : b.act a = some c)
    (hopened : b.milestone a = some (.opened line)) (hacts : c.acts actions = some d)
    (hsame : ∀ l, .opened l ∉ c.milestones actions) (hcaller : d.caller = .resuming options ack)
    (hresume : d.act (.run .caller) = some e) :
    (∀ y ∈ e.connection.queue.deliveries, options.cleanSession = false ∧
      start.Stored before options.clientId y.key y.content) ∧
    (options.cleanSession = true ∨ (∀ last, start.lastResumed before = some last →
      last.clientId ≠ options.clientId) → e.connection.queue.deliveries = []) := by
  have hattributed : start.Attributed before b := (archive_of_acts hnew hbefore).attributed
  obtain ⟨hsession, hqueue⟩ := session_queue_of_resuming ((ordered_ofSettings hnew).acts hbefore)
    hact hopened hacts hsame hcaller
  have hkept := (kept_ofSettings (.start σ { clientId := "" }) hnew).acts hbefore
  obtain rfl : e = d.runResume options ack :=
    Option.some.inj (hresume.symm.trans (act_of_resuming hcaller))
  have htaken : ∀ y ∈ (d.runResume options ack).connection.queue.deliveries,
      b.session.clientId = options.clientId ∧ options.cleanSession = false ∧
        start.Stored before options.clientId y.key y.content := by
    intro y hy
    obtain ⟨hid, hclean, z, hz, rfl⟩ : b.session.clientId = options.clientId ∧
        options.cleanSession = false ∧ ∃ z ∈ b.session.deliveries, y = z.rewound := by
      rw [← hsession]
      refine DeliveryQueue.of_mem_resume (σ := d.settings) ?_
      rw [← hqueue]
      exact hy
    have hstored := hattributed.stored z.key z (hkept.session.keyed.get?_eq_some_iff.mpr ⟨hz, rfl⟩)
    rw [hid] at hstored
    rw [Delivery.key_rewound, Delivery.content_rewound]
    exact ⟨hid, hclean, hstored⟩
  refine ⟨fun y hy => (htaken y hy).2, fun hfresh => ?_⟩
  -- what a queue starts with has an earlier call of this client behind it
  refine List.eq_nil_iff_forall_not_mem.mpr fun y hy => ?_
  obtain ⟨hid, hclean, hstored⟩ := htaken y hy
  obtain ⟨last, hlast⟩ := hstored.resumed
  rcases hfresh with hfresh | hother
  · exact absurd (hclean.symm.trans hfresh) Bool.false_ne_true
  · exact hother last hlast ((hattributed.client last hlast).symm.trans hid)

set_option maxRecDepth 1000 in
/-- A PUBLISH of quality 1 is lost with its connection, and taken up by the next call. -/
theorem sessions_kept_apart_of_lost :
    let options : ConnectOptions := { clientId := "c", keepAlive := 0, cleanSession := false }
    let before := Action.opening options ++ [.publish "a" [42] 1 false, .signal] ++
      Action.working ++ Action.losing
    let actions := [.write 100, .arrive [32, 2, 1, 0]] ++ List.replicate 5 (.run .receiver) ++
      [.run .caller]
    let packet : Packet := .publish ⟨false, 1, false, "a", some 1, [42]⟩
    ∃ b c d e, ofSettings {} { clientId := "" } = .ok newcomer ∧
      newcomer.acts before = some b ∧ b.act (.connect options {}) = some c ∧
      b.milestone (.connect options {}) = some (.opened {}) ∧ c.acts actions = some d ∧
      (∀ l, .opened l ∉ c.milestones actions) ∧ d.caller = .resuming options ⟨true, 0⟩ ∧
      d.act (.run .caller) = some e ∧
      (∃ y ∈ e.connection.queue.deliveries, y.key = ⟨1, .outgoing⟩ ∧ y.content = packet) ∧
      newcomer.Stored before "c" ⟨1, .outgoing⟩ packet := by
  intro options before actions packet
  have hnew : ofSettings {} { clientId := "" } = .ok newcomer := rfl
  let r : Request := .publish ⟨false, 1, false, "a", none, [42]⟩
  let y : Delivery := ((r.delivery 1).sent .awaitPuback 0).rewound
  obtain ⟨b, hbefore, hb⟩ : ∃ b, newcomer.acts before = some b ∧
      (b.milestone (.connect options {}), (b.act (.connect options {})).bind fun c =>
        (c.acts actions).bind fun d => (d.act (.run .caller)).map fun e =>
          (c.milestones actions, d.caller, e.connection.queue.deliveries)) =
      (some (.opened {}), some ([.written .caller options.packet], .resuming options ⟨true, 0⟩,
        [y])) := by
    apply Option.map_eq_some_iff.mp
    dsimp only [before, actions, options, r, y]
    rfl
  simp only [Prod.mk.injEq] at hb
  obtain ⟨hopened, hrun⟩ := hb
  obtain ⟨c, hact, hc⟩ := Option.bind_eq_some_iff.mp hrun
  obtain ⟨d, hacts, hd⟩ := Option.bind_eq_some_iff.mp hc
  obtain ⟨e, hresume, he⟩ := Option.map_eq_some_iff.mp hd
  simp only [Prod.mk.injEq] at he
  obtain ⟨hmilestones, hcaller, hqueue⟩ := he
  have hsame : ∀ l, .opened l ∉ c.milestones actions := by simp [hmilestones]
  have hy : y ∈ e.connection.queue.deliveries := by simp [hqueue]
  have hstored := ((sessions_kept_apart hnew hbefore hact hopened hacts hsame hcaller
    hresume).1 y hy).2
  exact ⟨b, c, d, e, hnew, hbefore, hact, hopened, hacts, hsame, hcaller, hresume,
    ⟨y, hy, rfl, rfl⟩, hstored⟩

end Client
end Mqtt
