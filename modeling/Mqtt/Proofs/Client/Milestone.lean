import Mqtt.Client.Action
import Mqtt.Proofs.Client.Call

/-!
Runs of a client and the milestones they pass: what is queued, passed over, written and reported on
the way.
-/
namespace Mqtt.Client

/-- A step on the way. -/
inductive Milestone where
  | opened (line : Line)
  | issued (request : Request) (id : UInt16)
  /-- The worker has made a pass over the queue, with the acknowledgments that had come. -/
  | passed (queue : DeliveryQueue) (session : Session) (acks : List Packet) (now : Nat)
  | taken (packet : Packet)
  | written (task : Task) (packet : Packet)
  /-- The worker hands events on to be told, after its writing has come to some end. -/
  | reported (events : List Event) (outcome : Except ClientError Unit)

def issuedBy (c : Client) (call : Call) : Option Milestone :=
  match call.request, c.call call with
  | .ok r, .ok (id, _) => some (.issued r id)
  | _, _ => none

def workerMilestone (c : Client) : Option Milestone :=
  match c.connection.worker with
  | .passing => some (.passed c.connection.queue c.session c.connection.acks c.now)
  | .writing (packet :: _) _ => some (.taken packet)
  | .publishing events outcome => some (.reported events outcome)
  | _ => none

/-- The step on the way that an action is, for an action that can be taken. -/
def milestone (c : Client) : Action → Option Milestone
  | .run .caller =>
    match c.caller with
    | .joining _ line => some (.opened line)
    | _ => none
  | .run .worker => c.workerMilestone
  | .write count =>
    match c.connection.writes with
    | w :: _ =>
      if c.connection.line.broken = false ∧ w.left.drop count = [] then
        some (.written w.task w.packet)
      else none
    | [] => none
  | .connect options line =>
    match options.check with
    | .ok _ => if c.established then none else some (.opened line)
    | .error _ => none
  | .publish topic payload qos retain => c.issuedBy (.publish topic payload qos retain)
  | .subscribe topics levels => c.issuedBy (.subscribe topics levels)
  | .unsubscribe topics => c.issuedBy (.unsubscribe topics)
  | _ => none

def milestones (c : Client) : List Action → List Milestone
  | [] => []
  | a :: rest =>
    match c.act a with
    | none => []
    | some c' => (c.milestone a).toList ++ c'.milestones rest

/-- What actions taken one after another leave behind, each by the client that it finds. -/
def trace {β : Type} (mark : Client → Action → List β) (c : Client) : List Action → List β
  | [] => []
  | a :: rest =>
    match c.act a with
    | none => []
    | some c' => mark c a ++ trace mark c' rest

section

variable {c d : Client} {a : Action} {u v actions : List Action}

theorem milestone_of_joining {options : ConnectOptions} {line : Line}
    (h : c.caller = .joining options line) :
    c.milestone (.run .caller) = some (.opened line) := by
  simp [milestone, h]

theorem milestone_of_connect {options : ConnectOptions} {line : Line}
    (hvalid : options.check = .ok ()) (hfree : c.established = false) :
    c.milestone (.connect options line) = some (.opened line) := by
  simp [milestone, hvalid, hfree]

theorem acts_append : c.acts (u ++ v) = (c.acts u).bind fun d => d.acts v :=
  List.foldlM_append

theorem acts_append_of_eq {e : Client} (hu : c.acts u = some d) (hv : d.acts v = some e) :
    c.acts (u ++ v) = some e := by
  rw [acts_append, hu]
  exact hv

theorem acts_cons_of_eq {e : Client} (h : c.act a = some d) (hv : d.acts v = some e) :
    c.acts (a :: v) = some e :=
  Option.bind_eq_some_iff.mpr ⟨d, h, hv⟩

theorem acts_concat_of_eq {e : Client} (hu : c.acts u = some d) (h : d.act a = some e) :
    c.acts (u ++ [a]) = some e := by
  have hlast : d.acts [a] = some e := Option.bind_eq_some_iff.mpr ⟨e, h, rfl⟩
  exact acts_append_of_eq hu hlast

theorem milestones_append (h : c.acts u = some d) :
    c.milestones (u ++ v) = c.milestones u ++ d.milestones v := by
  induction u generalizing c with
  | nil =>
    cases h
    rfl
  | cons a u ih =>
    obtain ⟨e, hact, hrest⟩ := Option.bind_eq_some_iff.mp h
    simp only [List.cons_append, milestones, hact, ih hrest, List.append_assoc]

theorem milestones_singleton (h : c.act a = some d) :
    c.milestones [a] = (c.milestone a).toList := by
  simp only [milestones, h, List.append_nil]

theorem milestones_concat {e : Client} (hu : c.acts u = some d) (h : d.act a = some e) :
    c.milestones (u ++ [a]) = c.milestones u ++ (d.milestone a).toList := by
  rw [milestones_append hu, milestones_singleton h]

theorem trace_append {β : Type} (mark : Client → Action → List β) (h : c.acts u = some d) :
    trace mark c (u ++ v) = trace mark c u ++ trace mark d v := by
  induction u generalizing c with
  | nil =>
    cases h
    rfl
  | cons a u ih =>
    obtain ⟨e, hact, hrest⟩ := Option.bind_eq_some_iff.mp h
    simp only [List.cons_append, trace, hact, ih hrest, List.append_assoc]

theorem trace_cons {β : Type} (mark : Client → Action → List β) (h : c.act a = some d) :
    trace mark c (a :: v) = mark c a ++ trace mark d v := by
  simp only [trace, h]

theorem trace_concat {β : Type} {e : Client} (mark : Client → Action → List β)
    (hu : c.acts u = some d) (h : d.act a = some e) :
    trace mark c (u ++ [a]) = trace mark c u ++ mark d a := by
  rw [trace_append mark hu, trace_cons mark h, trace, List.append_nil]

theorem acts_concat_induction {motive : List Action → Client → Prop} (start : motive [] c)
    (step : ∀ {u : List Action} {d e : Client} {a : Action}, c.acts u = some d → motive u d →
      d.act a = some e → motive (u ++ [a]) e)
    (h : c.acts actions = some d) : motive actions d := by
  induction actions using List.reverseRecOn generalizing d with
  | nil =>
    cases h
    exact start
  | append_singleton u a ih =>
    rw [acts_append] at h
    obtain ⟨e, hu, hlast⟩ := Option.bind_eq_some_iff.mp h
    obtain ⟨f, hact, hend⟩ := Option.bind_eq_some_iff.mp hlast
    cases hend
    exact step hu (ih hu) hact

/-- What holds at first and is kept by each action holds after any of them, of the milestones so far
and of the client that they led to. -/
theorem acts_induction {motive : List Milestone → Client → Prop} (start : motive [] c)
    (step : ∀ {t : List Milestone} {c d : Client} {a : Action}, motive t c → c.act a = some d →
      motive (t ++ (c.milestone a).toList) d)
    (h : c.acts actions = some d) : motive (c.milestones actions) d := by
  refine acts_concat_induction (motive := fun u d => motive (c.milestones u) d) start ?_ h
  intro u d e a hu ih hact
  rw [milestones_concat hu hact]
  exact step ih hact

/-- What each action of one connection keeps holds as long as no other connection begins. -/
theorem connection_induction {motive : List Action → Client → Prop} (start : motive [] c)
    (step : ∀ {u : List Action} {d e : Client} {a : Action}, c.acts u = some d → motive u d →
      d.act a = some e → (∀ line, d.milestone a ≠ some (.opened line)) → motive (u ++ [a]) e)
    (h : c.acts actions = some d) (hsame : ∀ line, .opened line ∉ c.milestones actions) :
    motive actions d := by
  refine acts_concat_induction
    (motive := fun u d => (∀ line, .opened line ∉ c.milestones u) → motive u d)
    (fun _ => start) ?_ h hsame
  intro u d e a hu ih hact hno
  rw [milestones_concat hu hact] at hno
  have hd := ih fun line hline => hno line (List.mem_append_left _ hline)
  exact step hu hd hact fun line hline => hno line (by simp [hline])

/-- What each milestone says of those before it is checked once, when it is reached. -/
theorem forall_append_toList {P : List Milestone → Milestone → Prop} {t : List Milestone}
    {m : Option Milestone} (h : ∀ u n v, t = u ++ n :: v → P u n) (hm : ∀ n, m = some n → P t n) :
    ∀ u n v, t ++ m.toList = u ++ n :: v → P u n := by
  intro u n v heq
  cases m with
  | none => exact h u n v (by simpa using heq)
  | some last =>
    rcases List.eq_nil_or_concat v with rfl | ⟨v, y, rfl⟩
    · obtain ⟨rfl, hlast⟩ := List.append_inj' heq rfl
      exact hm n (congrArg some (List.singleton_inj.mp hlast))
    · rw [List.concat_eq_append, ← List.cons_append, ← List.append_assoc] at heq
      exact h u n v (List.append_inj' heq rfl).1

end

/-! A usual course of things, for examples. -/

def newcomer : Client :=
  { settings := {}, session := { clientId := "" }
    connection := { queue := .ofSettings {}, closing := true, lastSent := 0 } }

namespace Action

def opening (options : ConnectOptions) : List Action :=
  [.connect options {}, .write 100, .arrive [32, 2, 0, 0]] ++ List.replicate 5 (.run .receiver) ++
    List.replicate 4 (.run .caller) ++ [.finish]

/-- The worker has been told of a delivery, passes over the queue and takes up the first packet. -/
def working : List Action :=
  List.replicate 4 (.run .worker)

/-- The line breaks while the worker is sending; the loops end, and then the connection. -/
def losing : List Action :=
  [.vanish] ++ List.replicate 3 (.run .receiver) ++ List.replicate 3 (.run .worker) ++
    [.run .dispatcher, .stop .dispatcher] ++ List.replicate 5 (.run .dispatcher) ++
    [.disconnect, .run .caller, .finish]

end Action

end Mqtt.Client
