import Mqtt.Proofs.Client.Reporting
import Mqtt.Proofs.Client.Teardown

/-!
What an application hears of a connection: the events of every pass, once each and in order, and
then, once, that the connection is closed.
-/
namespace Mqtt

/-- The events that the worker holds until its writing has come to some end. -/
def Worker.held : Worker → List Event
  | .writing _ events | .sending _ events | .publishing events _ => events
  | _ => []

theorem Worker.held_of_isIdle {worker : Worker} (h : worker.isIdle = true) : worker.held = [] := by
  cases worker with
  | writing | sending | publishing => cases h
  | _ => rfl

/-- Whatever becomes of a packet, the events of its pass are kept. -/
theorem Worker.held_sent (worker : Worker) (task : Task) (outcome : Except ClientError Unit) :
    (worker.sent task outcome).held = worker.held := by
  unfold sent
  split <;> rfl

namespace Client

def Milestone.produced : Milestone → List Event
  | .passed q s acks now => (q.pass s acks now).2.2.events
  | _ => []

def notices (c : Client) : List Notice :=
  c.heard.map Prod.snd

variable {t : List Milestone} {f g : Flow} {m : Option Milestone}

/-- What the passes have brought has been told, is yet to be told or is still held, in order. -/
def Accounted (earlier : List Event) (t : List Milestone) (f : Flow) : Prop :=
  ∃ told, f.told = earlier ++ told ∧
    t.flatMap Milestone.produced = told ++ f.untold ++ f.worker.held

theorem Accounted.step {earlier : List Event} (h : Accounted earlier t f) (hturns : Turns t f)
    (step : f.Step m g) (hopen : ∀ line, m ≠ some (.opened line)) :
    Accounted earlier (t ++ m.toList) g := by
  obtain ⟨told, htold, hproduced⟩ := h
  have hsame : g.told = f.told → g.untold = f.untold → g.worker.held = f.worker.held →
      m.toList.flatMap Milestone.produced = [] → Accounted earlier (t ++ m.toList) g := by
    intro hg hg' hheld hm
    refine ⟨told, hg.trans htold, ?_⟩
    rw [List.flatMap_append, hm, hg', hheld, List.append_nil, hproduced]
  cases step with
  | opened => exact absurd rfl (hopen _)
  | quiet drift =>
    exact hsame (by rw [drift.rest]) (by rw [drift.rest]) (by rw [drift.rest]) rfl
  | started hstarting =>
    exact hsame rfl rfl (by rw [hturns.starting hstarting]; rfl) rfl
  | @passed acks now q s work hworker hpass =>
    refine ⟨told, htold, ?_⟩
    rw [hworker] at hproduced
    simp only [Option.toList_some, List.flatMap_append, List.flatMap_singleton,
      Milestone.produced, hpass, hproduced, Worker.held, List.append_nil]
  | taken hworker | unsendable hworker | finished hworker =>
    exact hsame rfl rfl (by simp [hworker, Worker.held]) rfl
  | @reported events outcome next hworker hnext =>
    refine ⟨told, htold, ?_⟩
    rw [hworker] at hproduced
    rcases hnext with rfl | rfl <;>
      simp only [Option.toList_some, List.flatMap_append, List.flatMap_singleton,
        Milestone.produced, hproduced, Worker.held, List.append_nil, List.append_assoc]
  | idled hworker hidle _ hnext drift =>
    refine hsame (by rw [drift.rest]) (by rw [drift.rest]) ?_ rfl
    rw [drift.rest, hworker, Worker.held_of_isIdle hidle]
    exact Worker.held_of_isIdle hnext
  | written => exact hsame rfl rfl (Worker.held_sent ..) rfl
  | failed e _ _ drift | withdrawn _ e _ drift =>
    refine hsame (by rw [drift.rest]) (by rw [drift.rest]) ?_ rfl
    rw [drift.rest]
    exact Worker.held_sent ..
  | @told e rest huntold =>
    refine ⟨told ++ [e], by simp [htold], ?_⟩
    simp [hproduced, huntold]
  | _ => exact hsame rfl rfl rfl rfl

/-! The application hears of events while the dispatcher runs, and of the end as its last step. -/

variable {c d e : Client} {a : Action} {earlier : List Notice}

inductive Hears (c d : Client) : Prop where
  | silent (hheard : d.notices = c.notices)
      (hstopped : d.connection.dispatcher = .stopped ↔ c.connection.dispatcher = .stopped)
      (hestablished : d.established = true → c.established = true)
      (hopening : d.caller.isOpening = true → c.caller.isOpening = true)
  | established (hopening : c.caller.isOpening = true) (hheard : d.notices = c.notices)
      (hrunning : d.connection.dispatcher ≠ .stopped)
  | event {event : Event} (hrunning : c.connection.dispatcher ≠ .stopped)
      (hgoing : d.connection.dispatcher ≠ .stopped)
      (hheard : d.notices = c.notices ++ [.event event])
  | closed (hrunning : c.connection.dispatcher ≠ .stopped)
      (hended : d.connection.dispatcher = .stopped) (hopening : d.caller.isOpening = false)
      (hstatus : c.status = .disconnected) (hheard : d.notices = c.notices ++ [.connectionClosed])

theorem Greets.notices {options : ConnectOptions} {line : Line} (h : c.Greets options line d) :
    d.notices = c.notices := by
  cases h <;> rfl

theorem Heeds.silent {outcome : Except ClientError Unit} {task : Task}
    (h : c.Heeds outcome task d) : d.notices = c.notices ∧
      (d.connection.dispatcher = .stopped ↔ c.connection.dispatcher = .stopped) ∧
      (d.established = true → c.established = true) ∧
      (d.caller.isOpening = true → c.caller.isOpening = true) := by
  cases h with
  | greeted hcaller | ungreeted hcaller =>
    exact ⟨rfl, Iff.rfl, id, fun _ => by simp [hcaller, Caller.isOpening]⟩
  | parted => exact ⟨rfl, Iff.rfl, id, fun hopening => by cases hopening⟩
  | _ => exact ⟨rfl, Iff.rfl, id, id⟩

theorem CallerStep.hears (h : c.CallerStep a d)
    (hsame : ∀ line, c.milestone a ≠ some (.opened line)) : c.Hears d := by
  cases h with
  | joined hcaller => exact absurd (milestone_of_joining hcaller) (hsame _)
  | asked _ hvalid hfree => exact absurd (milestone_of_connect hvalid hfree) (hsame _)
  | replaced | departed | dismissed =>
    exact .silent rfl Iff.rfl (fun hestablished => by cases hestablished)
      fun hopening => by cases hopening
  | declined | finished | left | ended | failed =>
    exact .silent rfl Iff.rfl id fun hopening => by cases hopening
  | accepted hcaller | refused hcaller | unanswered hcaller | resumed hcaller | released hcaller
  | cleared hcaller => exact .silent rfl Iff.rfl id fun _ => by simp [hcaller, Caller.isOpening]
  | opened hcaller =>
    exact .established (by simp [hcaller, Caller.isOpening]) rfl fun hstopped => by cases hstopped
  | issued | unissued | signalled => exact .silent rfl Iff.rfl id id

theorem notices_tell (c : Client) (notice : Notice) (k : Connection) (status : Status) :
    notices { c with connection := k, status, heard := c.heard ++ [(c.now, notice)] } =
      c.notices ++ [notice] :=
  List.map_append

theorem DispatcherStep.hears (h : c.DispatcherStep a d) (hordered : c.Ordered) : c.Hears d := by
  cases h with
  | told hdispatcher =>
    have hrunning : c.connection.dispatcher ≠ .stopped := by
      rcases hdispatcher with hdispatcher | hdispatcher <;> simp [hdispatcher]
    exact .event hrunning hrunning (notices_tell ..)
  | drained hdispatcher | woken hdispatcher | broken _ hdispatcher | joined hdispatcher
  | flushed hdispatcher | shut hdispatcher | reset hdispatcher =>
    exact .silent rfl (by simp [hdispatcher, toDispatcher, onConnection]) id id
  | notified hdispatcher =>
    have hrunning : c.connection.dispatcher ≠ .stopped := by simp [hdispatcher]
    exact .closed hrunning rfl (hordered.not_opening hrunning) (hordered.reset hdispatcher)
      (notices_tell ..)

theorem Step.hears (h : c.Step a d) (hordered : c.Ordered)
    (hsame : ∀ line, c.milestone a ≠ some (.opened line)) : c.Hears d := by
  cases h with
  | caller step => exact step.hears hsame
  | receiver step => cases step <;> exact .silent rfl Iff.rfl id id
  | worker step => cases step <;> exact .silent rfl Iff.rfl id id
  | keeper step => cases step <;> exact .silent rfl Iff.rfl id id
  | dispatcher step => exact step.hears hordered
  | withdrawn _ _ hheeds | written _ _ _ _ hheeds | lost _ _ _ hheeds =>
    obtain ⟨hheard, hstopped, hestablished, hopening⟩ := hheeds.silent
    exact .silent hheard hstopped hestablished hopening
  | continued | carried | elapsed => exact .silent rfl Iff.rfl id id

/-- What the application has heard since a connection was established. -/
inductive Heard (earlier : List Notice) (c : Client) : Prop where
  | events {told : List Event} (hrunning : c.connection.dispatcher ≠ .stopped)
      (hheard : c.notices = earlier ++ told.map .event)
  | all {told : List Event} (hstopped : c.connection.dispatcher = .stopped)
      (hopening : c.caller.isOpening = false)
      (hheard : c.notices = earlier ++ told.map .event ++ [.connectionClosed])

/-- Before a connection is established the application hears nothing of it. -/
structure Unheard (earlier : List Notice) (c : Client) : Prop where
  stopped : c.connection.dispatcher = .stopped
  established : c.established = false
  heard : c.notices = earlier

theorem Heard.hears (h : Heard earlier c) (hordered : c.Ordered) (hears : c.Hears d) :
    Heard earlier d := by
  cases h with
  | @events told hrunning hheard =>
    cases hears with
    | silent hsame hstopped =>
      exact .events (fun h => hrunning (hstopped.mp h)) (hsame.trans hheard)
    | established hopening => exact absurd (hordered.opening hopening).2 hrunning
    | @event event _ hgoing hmore =>
      have hmore' : d.notices = earlier ++ (told ++ [event]).map .event := by
        rw [hmore, hheard, List.append_assoc, List.map_append]
        rfl
      exact .events hgoing hmore'
    | closed _ hended hopening _ hmore =>
      have hall : d.notices = earlier ++ told.map .event ++ [.connectionClosed] := by
        rw [hmore, hheard]
      exact .all hended hopening hall
  | all hstopped hopening hheard =>
    cases hears with
    | silent hsame hstopped' _ hopening' =>
      refine .all (hstopped'.mpr hstopped) ?_ (hsame.trans hheard)
      by_contra h
      simp [hopening' (by simpa using h)] at hopening
    | established hopening' => simp [hopening'] at hopening
    | event hrunning => exact absurd hstopped hrunning
    | closed hrunning => exact absurd hstopped hrunning

theorem Unheard.hears (h : Unheard earlier c) (hears : c.Hears d) :
    Unheard earlier d ∨ Heard earlier d := by
  cases hears with
  | silent hsame hstopped hestablished =>
    refine .inl ⟨hstopped.mpr h.stopped, ?_, hsame.trans h.heard⟩
    by_contra hd
    have hbefore := hestablished (by simpa using hd)
    simp [h.established] at hbefore
  | established _ hsame hrunning =>
    have hnone : d.notices = earlier ++ [].map .event := by
      rw [hsame, h.heard, List.map_nil, List.append_nil]
    exact .inr (.events hrunning hnone)
  | event hrunning => exact absurd h.stopped hrunning
  | closed hrunning => exact absurd h.stopped hrunning

/-! From the first step of a connection to its last. -/

variable {b : Client} {line : Line} {actions : List Action}

/-- Where the tasks stand, and what has been heard, in the course of a connection. -/
structure Along (earlier : List Notice) (t : List Milestone) (c : Client) : Prop where
  ordered : c.Ordered
  lined : c.Lined
  turns : Turns t c.flow
  accounted : Accounted (earlier.filterMap Notice.event?) t c.flow
  heard : Unheard earlier c ∨ Heard earlier c

theorem Along.act {t : List Milestone} (h : Along earlier t c) (hact : c.act a = some d)
    (hsame : ∀ line, c.milestone a ≠ some (.opened line)) :
    Along earlier (t ++ (c.milestone a).toList) d := by
  have hstep := Step.of_act hact
  have hears := hstep.hears h.ordered hsame
  exact {
    ordered := h.ordered.step hstep
    lined := h.lined.step h.ordered hstep
    turns := h.turns.step (step_act hact) hsame
    accounted := h.accounted.step h.turns (step_act hact) hsame
    heard := h.heard.elim (·.hears hears) fun hheard => .inr (hheard.hears h.ordered hears) }

theorem Along.acts {t : List Milestone} (h : Along earlier t c) (hacts : c.acts actions = some d)
    (hsame : ∀ line, .opened line ∉ c.milestones actions) :
    Along earlier (t ++ c.milestones actions) d := by
  refine connection_induction (motive := fun u d => Along earlier (t ++ c.milestones u) d)
    (by simpa [milestones] using h) ?_ hacts hsame
  intro u d e a hu hd hact hquiet
  rw [milestones_concat hu hact, ← List.append_assoc]
  exact hd.act hact hquiet

theorem Heard.acts {t : List Milestone} (h : Heard earlier c) (halong : Along earlier t c)
    (hacts : c.acts actions = some d) (hsame : ∀ line, .opened line ∉ c.milestones actions) :
    Heard earlier d := by
  refine (connection_induction (motive := fun _ d => Heard earlier d ∧ ∃ t, Along earlier t d)
    ⟨h, t, halong⟩ ?_ hacts hsame).1
  rintro u c d a - ⟨hheard, t, halong⟩ hact hquiet
  have hears := (Step.of_act hact).hears halong.ordered hquiet
  exact ⟨hheard.hears halong.ordered hears, _, halong.act hact hquiet⟩

end Client
end Mqtt
