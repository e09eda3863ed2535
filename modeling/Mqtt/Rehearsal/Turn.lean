import Mqtt.Rehearsal.Actor

/-!
Whose turn it is. Time stands still while anything can happen and moves from timer to timer. A turn
lasts until its task waits. Loops that can go on have their turns in the order in which they came
to be able to; of those that one step or one moment lets go on, the one that came to rest first is
first. A call comes before all loops when it begins and when time has moved, and after them
otherwise.
-/
namespace Mqtt.Rehearsal

def current (r : Rehearsal) : Nat :=
  r.actors.length - 1

/-- An actor with the shared copy of its session. -/
def actor? (r : Rehearsal) (index : Nat) : Option Actor :=
  r.actors[index]?.map fun a =>
    { a with client := { a.client with
        session := (r.registry.at? a.place).getD a.client.session } }

/-- The loops that wait; those that have just been started come last. -/
def waiting (r : Rehearsal) : List Loop :=
  let loops := (List.range r.actors.length).flatMap fun actor =>
    Client.loops.map fun task => { actor, task }
  r.resting ++ loops.filter fun l => l ∉ r.resting ∧ l ∉ r.ready

def canGoOn (r : Rehearsal) (l : Loop) : Bool :=
  r.actors[l.actor]?.any fun a => (a.client.next l.task).isSome

def rouse (r : Rehearsal) : Rehearsal :=
  let up := r.waiting.filter r.canGoOn
  { r with resting := r.resting.filter (· ∉ up), ready := r.ready ++ up }

def put (r : Rehearsal) (index : Nat) (a : Actor) : Rehearsal :=
  rouse { r with
    actors := r.actors.set index a, registry := r.registry.set a.place a.client.session }

def perform (r : Rehearsal) (index : Nat) (f : Actor → Actor) : Rehearsal :=
  match r.actor? index with
  | some a => r.put index (f a)
  | none => r

def note (r : Rehearsal) (index : Nat) : Rehearsal :=
  match r.actors[index]? with
  | none => r
  | some a =>
    { r with
      sights := r.sights ++ a.sights
      notices := r.notices ++ a.client.heard.drop a.told
      actors := r.actors.set index a.noted }

/-- A task goes on until it waits, over at most `fuel` steps. -/
def goOn (index : Nat) (task : Task) : (fuel : Nat) → Rehearsal → Rehearsal
  | 0, r => r
  | fuel + 1, r =>
    match r.actor? index with
    | none => r
    | some a =>
      match a.client.next task with
      | some client => goOn index task fuel (r.put index { a with client })
      | none => r

/-- More steps than one moment has. -/
def budget : Nat := 1000000000

def turn (r : Rehearsal) (l : Loop) : Rehearsal :=
  let r := (goOn l.actor l.task budget r).note l.actor
  let isOver := r.actors[l.actor]?.all fun a => a.client.isStopped l.task
  { r with
    ready := r.ready.erase l, resting := if isOver then r.resting else r.resting ++ [l] }

def callTurn (r : Rehearsal) : Rehearsal :=
  (goOn r.current .caller budget r).note r.current

def callCanGoOn (r : Rehearsal) : Bool :=
  r.canGoOn { actor := r.current, task := .caller }

/-- Everything that can happen at the present time happens, over at most `fuel` turns. -/
def settleWithin : (fuel : Nat) → Rehearsal → Rehearsal
  | 0, r => r
  | fuel + 1, r =>
    match r.ready with
    | l :: _ => settleWithin fuel (r.turn l)
    | [] =>
      if r.callCanGoOn then settleWithin fuel r.callTurn
      else
        match (r.actor? r.current).bind Actor.answer? with
        | some a => settleWithin fuel (r.put r.current a)
        | none => r

def settle (r : Rehearsal) : Rehearsal :=
  settleWithin budget r

def moveTo (r : Rehearsal) (time : Nat) : Rehearsal :=
  let actors := r.actors.map fun a => a.take (.elapse (time - a.client.now))
  (rouse { r with now := time, actors }).callTurn.settle

def nextTimer (r : Rehearsal) : Option Nat :=
  (r.actors.filterMap fun a => a.client.nextTimer).min?

/-- Runs up to `time`, from timer to timer, over at most `fuel` of them. -/
def runTo (time : Nat) : (fuel : Nat) → Rehearsal → Rehearsal
  | 0, r => r
  | fuel + 1, r =>
    match r.nextTimer with
    | some due => if due ≤ time then runTo time fuel (r.moveTo due) else r.moveTo time
    | none => r.moveTo time

def outcome? (r : Rehearsal) : Option (Except ClientError (Option ConnAck)) :=
  match r.actors[r.current]? with
  | some { client := { caller := .done outcome, .. }, .. } => some outcome
  | _ => none

/-- Runs until the call is over, from timer to timer, over at most `fuel` of them. -/
def runCall : (fuel : Nat) → Rehearsal → Rehearsal
  | 0, r => r
  | fuel + 1, r =>
    match r.outcome?, r.nextTimer with
    | none, some due => runCall fuel (r.moveTo due)
    | _, _ => r

def call (r : Rehearsal) (start : Actor → Actor) :
    Except ClientError (Option ConnAck) × Rehearsal :=
  let r := runCall budget (r.perform r.current start).callTurn.settle
  ((r.outcome?).getD (.error .notConnected),
    (r.perform r.current fun a => a.take .finish).settle)

end Mqtt.Rehearsal
