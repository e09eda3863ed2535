import Mqtt.Proofs.DeliveryQueue.Order
import Mqtt.Proofs.Exchange.Operation

/-!
The order of a connection. Whatever is to be done waits in line for the next pass: first what the
session still owes, then what comes, in the order in which it comes.
-/
namespace Mqtt

namespace Entry

/-- The delivery that an entry puts behind the others. -/
def arrival? : Entry → Option Delivery
  | .issued r id => some (r.delivery id)
  | .accepted message .queued => some (.received message)
  | _ => none

def isPass : Entry → Bool
  | .passed _ _ _ _ => true
  | _ => false

def handovers (e : Entry) : List Event :=
  e.work.events.filter Event.isHandover

/-- The keys for whose deliveries something has been sent. A delivery that comes has not had its
turn under its key. -/
def opened (seen : List Key) (e : Entry) : List Key :=
  seen.filter (fun k => e.arrival?.all (k ≠ ·.key)) ++
    (e.work.outgoing.filter fun p => p.isRequest || p.isReply).filterMap Packet.origin?

/-- Those who wait in line after an entry. -/
def line (waiting : List Delivery) (e : Entry) : List Delivery :=
  if e.isPass then [] else waiting ++ e.arrival?.toList

theorem opened_of_arrival {e : Entry} {d : Delivery} (h : e.arrival? = some d)
    (seen : List Key) (waiting : List Delivery) :
    e.opened seen = seen.filter (· ≠ d.key) ∧ e.line waiting = waiting ++ [d] := by
  cases e with
  | issued | accepted =>
    rw [opened, line, h]
    exact ⟨List.append_nil _, rfl⟩
  | _ => cases h

theorem opened_of_none {e : Entry} (h : e.arrival? = none) (he : e.isPass = false)
    (seen : List Key) (waiting : List Delivery) :
    e.opened seen = seen ∧ e.line waiting = waiting := by
  cases e with
  | passed => cases he
  | _ =>
    rw [opened, line, h]
    exact ⟨by simp [work], List.append_nil _⟩

/-- What comes of those who wait in line: nothing before a pass. -/
def flush {α : Type} (f : List Packet → Delivery → Option α) (waiting : List Delivery) :
    Entry → List α
  | .passed acks _ _ _ => waiting.filterMap (f acks)
  | _ => []

end Entry

theorem Request.isFirst_delivery (r : Request) (id : UInt16) :
    (r.delivery id).stage.isFirst = true := by
  cases r with
  | publish message => exact Stage.isFirst_ofQos message.qos
  | _ => rfl

namespace Delivery

/-- A message of the broker is held until its release. -/
def Held (d : Delivery) : Prop :=
  d.direction = .incoming → d.stage = .awaitPubrel

theorem Held.rewound {d : Delivery} (h : d.Held) : d.rewound.Held := by
  intro hd
  rw [direction_rewound] at hd
  simp [Delivery.rewound, hd, h hd]

end Delivery

namespace Exchange

open DeliveryQueue

def openings (seen : List Key) : List Entry → List (List Packet)
  | [] => []
  | e :: t => e.work.outgoing.filter (Packet.opens seen) :: openings (e.opened seen) t

/-- What comes with each entry of those who wait in line until then. -/
def flush {α : Type} (f : List Packet → Delivery → Option α) (waiting : List Delivery) :
    List Entry → List (List α)
  | [] => []
  | e :: t => e.flush f waiting :: flush f (e.line waiting) t

variable {σ τ : Settings} {x y z w : Exchange} {e : Entry} {t : List Entry} {seen : List Key}
  {waiting : List Delivery}

/-- What an entry adds stands behind what is there, and a pass only takes away. -/
theorem Step.keys_queue (h : Step σ x e y) (hx : x.queue.Sound σ) (hsame : e.isReconnect = false) :
    if e.isPass then y.queue.keys.Sublist x.queue.keys ∧ y.queue.keys.Nodup
    else y.queue.keys = x.queue.keys ++ (e.arrival?.map Delivery.key).toList := by
  cases h with
  | @issue r id q s h =>
    obtain ⟨_, _, _, _, rfl, _⟩ := issue_spec h
    exact List.map_append
  | refuse => exact (List.append_nil _).symm
  | @accept p outcome q hp h =>
    rcases hx.keyed.accept_cases hp.numbered with ⟨_, he⟩ | ⟨_, he⟩
    · obtain ⟨rfl, rfl⟩ := Prod.mk.inj (h.symm.trans he)
      exact List.map_append
    · obtain ⟨rfl, rfl⟩ := Prod.mk.inj (h.symm.trans he)
      refine Eq.trans ?_ (List.append_nil _).symm
      exact map_modify Delivery.key (fun d _ => Delivery.key_reopened d) _
  | @pass acks now q s work h =>
    have hkeys := keys_pass_sublist x.queue x.session acks now
    have hnodup := hx.nodup_keys_pass x.session acks now
    rw [h] at hkeys hnodup
    exact ⟨hkeys, hnodup⟩
  | reconnect => cases hsame

theorem Step.inLine (h : Step σ x e y) (hx : x.queue.Sound σ) (hsame : e.isReconnect = false)
    (hl : InLine seen x.queue waiting) :
    e.work.outgoing.filter (Packet.opens seen) = e.flush Delivery.begun? waiting ∧
      e.handovers = e.flush (fun _ d => d.handed?) waiting ∧
      InLine (e.opened seen) y.queue (e.line waiting) := by
  cases h with
  | @issue r id q s h =>
    obtain ⟨_, _, _, hbusy, rfl, _⟩ := issue_spec h
    have hfree : x.queue.get? (r.delivery id).key = none := by
      rw [r.key_delivery]
      exact (hx.keyed.contains_eq_false_iff _).mp hbusy
    obtain ⟨hopened, hline⟩ := Entry.opened_of_arrival (e := .issued r id) rfl seen waiting
    rw [hopened, hline]
    exact ⟨rfl, rfl, hl.enqueue hx (fun _ => hfree) (r.isFirst_delivery id)⟩
  | @refuse r error =>
    obtain ⟨hopened, hline⟩ := Entry.opened_of_none (e := .refused r error) rfl rfl seen waiting
    rw [hopened, hline]
    exact ⟨rfl, rfl, hl⟩
  | @accept p outcome q hp h =>
    rcases hx.keyed.accept_cases hp.numbered with ⟨hfree, he⟩ | ⟨_, he⟩
    · obtain ⟨rfl, rfl⟩ := Prod.mk.inj (h.symm.trans he)
      obtain ⟨hopened, hline⟩ :=
        Entry.opened_of_arrival (e := .accepted p .queued) rfl seen waiting
      rw [hopened, hline]
      exact ⟨rfl, rfl, hl.enqueue hx (fun _ => hfree) (Stage.isFirst_ofQos p.qos)⟩
    · obtain ⟨rfl, rfl⟩ := Prod.mk.inj (h.symm.trans he)
      obtain ⟨hopened, hline⟩ :=
        Entry.opened_of_none (e := .accepted p .duplicate) rfl rfl seen waiting
      rw [hopened, hline]
      exact ⟨rfl, rfl, hl.reopen hx _⟩
  | @pass acks now q s work h =>
    obtain ⟨hopening, hhanded⟩ := hl.pass hx x.session acks now
    have hafter := hl.after_pass hx x.session acks now
    rw [h] at hopening hhanded hafter
    have hkept : seen.filter (fun _ => true) = seen := List.filter_true seen
    refine ⟨hopening, hhanded, ?_⟩
    show InLine (seen.filter (fun _ => true) ++ _) q []
    rw [hkept]
    exact hafter
  | reconnect => cases hsame

theorem Run.inLine (run : Run σ x t y) (hx : Reachable σ x)
    (hsame : ∀ e ∈ t, e.isReconnect = false) (hl : InLine seen x.queue waiting) :
    openings seen t = flush Delivery.begun? waiting t ∧
      t.map Entry.handovers = flush (fun _ d => d.handed?) waiting t := by
  -- from the front: each entry changes the keys and the line that the rest is read with
  induction t generalizing x seen waiting with
  | nil => exact ⟨rfl, rfl⟩
  | cons e t ih =>
    obtain ⟨z, step, rest⟩ := run.of_cons
    obtain ⟨hopening, hhanded, hline⟩ := step.inLine hx.sound.1 (hsame e List.mem_cons_self) hl
    obtain ⟨hopenings, hhandovers⟩ :=
      ih rest (hx.step step) (fun e he => hsame e (List.mem_cons_of_mem _ he)) hline
    rw [openings, List.map_cons, hopening, hhanded, hopenings, hhandovers]
    exact ⟨rfl, rfl⟩

/-! What a connection begins with. -/

theorem forall_resume {P : Delivery → Prop} {s : Session} (hs : ∀ d ∈ s.deliveries, P d.rewound)
    (clientId : String) (clean : Bool) :
    (∀ d ∈ ((ofSettings σ).resume s clientId clean).2.1.deliveries, P d) ∧
      ∀ d ∈ ((ofSettings σ).resume s clientId clean).2.2.deliveries, P d := by
  have hrewound : ∀ d ∈ (if s.clientId = clientId then s else { clientId }).deliveries.map
      Delivery.rewound, P d := by
    split
    next => exact List.forall_mem_map.mpr hs
    next => simp
  cases clean with
  | true => exact ⟨List.forall_mem_nil _, List.forall_mem_nil _⟩
  | false => exact ⟨forall_load (by simp [ofSettings]) hrewound, hrewound⟩

theorem Step.held (h : Step σ x e y) (hx : x.queue.Sound σ)
    (hs : ∀ d ∈ x.session.deliveries, d.Held) : ∀ d ∈ y.session.deliveries, d.Held := by
  cases h with
  | @issue r id q s h =>
    obtain ⟨_, _, _, _, _, rfl⟩ := issue_spec h
    split
    next =>
      refine Session.forall_record (s := { x.session with lastId := id }) (r := .put _) hs
        fun d hd hin => ?_
      cases hd
      rw [← Delivery.direction_key, r.key_delivery] at hin
      cases hin
    next => exact hs
  | refuse => exact hs
  | accept => exact hs
  | @pass acks now q s work h =>
    have hq := hx.applyAcks x.session acks
    have hpass := hx.tidy.session_pass (R := fun s => ∀ d ∈ s.deliveries, d.Held) hs
      (fun s key hs => Session.forall_record (r := .erase key) hs fun _ he => by cases he) acks now
      fun d hd s hs => Session.forall_record hs fun e he hin => ?_
    · rwa [h] at hpass
    · have hm := (hq.coherent d hd).moves σ.retryDelay σ.maxAttempts now
      have hnext := hm.next_of_put he
      have hdir : e.direction = d.direction := congrArg Key.direction (hm.key_next hnext)
      exact (hq.coherent d hd).fits.awaitPubrel_of_next hm (hdir.symm.trans hin) hnext
  | reconnect h =>
    have hr := (forall_resume (σ := σ) (fun d hd => (hs d hd).rewound) x.session.clientId false).2
    rwa [h] at hr

theorem Reachable.held (h : Reachable σ x) : ∀ d ∈ x.session.deliveries, d.Held := by
  induction h with
  | start => exact fun d hd => by cases hd
  | step h step ih => exact step.held h.sound.1 ih
  | @connect _ τ _ clientId clean _ _ _ _ resumed ih =>
    have hr := (forall_resume (σ := τ) (fun d hd => (ih d hd).rewound) clientId clean).2
    rwa [resumed] at hr

/-- What is resumed waits in line: our own deliveries begin anew, and the broker's are held. -/
theorem Reachable.inLine_resume (h : Reachable τ w) {clientId : String} {clean : Bool}
    {loaded : Nat}
    (resumed : (ofSettings σ).resume w.session clientId clean = (loaded, x.queue, x.session)) :
    InLine ((x.queue.deliveries.filter fun d => d.direction = .incoming).map Delivery.key) x.queue
      x.queue.deliveries := by
  obtain ⟨_, hregular⟩ := h.regular
  have hready : ∀ d ∈ x.queue.deliveries,
      (d.direction = .outgoing → d.stage.isWaiting = false) ∧ d.Held := by
    have hr := (forall_resume (σ := σ) (s := w.session)
      (P := fun d => (d.direction = .outgoing → d.stage.isWaiting = false) ∧ d.Held)
      (fun d hd => ⟨fun hout => (hregular.stored d hd).isWaiting_rewound (by simpa using hout),
        (h.held d hd).rewound⟩) clientId clean).1
    rwa [resumed] at hr
  have hours : ∀ d ∈ x.queue.deliveries, d.stage.isFirst = true → d.direction = .outgoing := by
    intro d hd hfirst
    cases hdir : d.direction with
    | outgoing => rfl
    | incoming => simp [(hready d hd).2 hdir, Stage.isFirst] at hfirst
  have hseen : ∀ d ∈ x.queue.deliveries, d.direction = .outgoing →
      d.key ∉ (x.queue.deliveries.filter fun d => d.direction = .incoming).map Delivery.key := by
    intro d _ hout hk
    obtain ⟨e, he, hek⟩ := List.mem_map.mp hk
    have hin : e.direction = .incoming := by simpa using (List.mem_filter.mp he).2
    have hdir : e.direction = d.direction := congrArg Key.direction hek
    cases hin.symm.trans (hdir.trans hout)
  constructor
  · refine List.filter_congr fun d hd => ?_
    cases hfirst : d.stage.isFirst with
    | false => simp [Delivery.isNew, hfirst]
    | true => simp [Delivery.isNew, hfirst, hseen d hd (hours d hd hfirst)]
  · refine fun d hd => ⟨fun hfirst hk => ?_, fun hw _ => ?_⟩
    · exact absurd hk (hseen d hd (hours d hd hfirst))
    · cases hdir : d.direction with
      | outgoing => simp [(hready d hd).1 hdir] at hw
      | incoming =>
        exact List.mem_map_of_mem (List.mem_filter.mpr ⟨hd, by simpa using hdir⟩)

/-! What comes of the line over a whole run. -/

/-- Up to a pass the line is made of all that has come. Lists that agree, in whatever way, on what
comes of those who wait for one pass agree over the whole run. -/
theorem flatten_flush {α : Type} {R : List α → List α → Prop}
    {f : List Packet → Delivery → Option α} {g : Delivery → Option α}
    (append : ∀ {k k' l l'}, R k k' → R l l' → R (k ++ l) (k' ++ l'))
    (hf : ∀ acks (ds : List Delivery), R (ds.filterMap (f acks)) (ds.filterMap g))
    (he : e.isPass = true) :
    R (flush f waiting (t ++ [e])).flatten
      ((waiting ++ t.filterMap Entry.arrival?).filterMap g) := by
  induction t generalizing waiting with
  | nil =>
    cases e with
    | passed acks => simpa [flush, Entry.flush] using hf acks waiting
    | _ => cases he
  | cons e' t ih =>
    have hrest := @ih (e'.line waiting)
    have hcons : (e' :: t).filterMap Entry.arrival? =
        e'.arrival?.toList ++ t.filterMap Entry.arrival? := by
      cases ha : e'.arrival? <;> simp [ha]
    cases e' with
    | passed acks =>
      rw [List.filterMap_append, hcons]
      exact append (hf acks waiting) hrest
    | _ =>
      rw [hcons, ← List.append_assoc]
      exact hrest

/-- On a connection, whatever has been done on it: a pass leaves what stays in its order, and what
comes stands behind. Everything makes its beginning in the first pass after it came, first what was
resumed and then what came, in that order: our own requests are sent, the broker's messages are
answered, but for those that it has released before, and those of quality 0 and 1 are handed over,
each once. A resumed message of the broker has been answered on an earlier connection. -/
theorem begun_in_order (h : Reachable τ w) {clientId : String} {clean : Bool} {loaded : Nat}
    (resumed : (ofSettings σ).resume w.session clientId clean = (loaded, x.queue, x.session))
    (run : Run σ x t y) (hsame : ∀ e ∈ t, e.isReconnect = false) :
    let owed := x.queue.deliveries
    let answered := (owed.filter fun d => d.direction = .incoming).map Delivery.key
    let begun := openings answered t
    (∀ e z, Step σ y e z → e.isReconnect = false →
      if e.isPass then z.queue.keys.Sublist y.queue.keys ∧ z.queue.keys.Nodup
      else z.queue.keys = y.queue.keys ++ (e.arrival?.map Delivery.key).toList) ∧
    begun = flush Delivery.begun? owed t ∧
    t.map Entry.handovers = flush (fun _ d => d.handed?) owed t ∧
    ∀ u e, t = u ++ [e] → e.isPass = true →
      let come := owed ++ u.filterMap Entry.arrival?
      begun.flatten.filter Packet.isRequest =
          (come.filterMap Delivery.opening?).filter Packet.isRequest ∧
        (begun.flatten.filter Packet.isReply).Sublist
          ((come.filterMap Delivery.opening?).filter Packet.isReply) ∧
        t.flatMap Entry.handovers = come.filterMap Delivery.handed? := by
  intro owed answered begun
  have hx : Reachable σ x := h.connect resumed
  obtain ⟨hbegun, hhanded⟩ := run.inLine hx hsame (h.inLine_resume resumed)
  refine ⟨fun e z step he => step.keys_queue (hx.run run).sound.1 he, hbegun, hhanded,
    fun u e ht he => ?_⟩
  intro come
  have hlast : begun = flush Delivery.begun? owed (u ++ [e]) := ht ▸ hbegun
  rw [hlast]
  refine ⟨?_, ?_, ?_⟩
  · refine flatten_flush (R := fun l l' => l.filter Packet.isRequest = l'.filter Packet.isRequest)
      (fun hk hl => by rw [List.filter_append, List.filter_append, hk, hl]) (fun acks ds => ?_) he
    exact Delivery.filter_isRequest_begun? acks ds
  · refine (flatten_flush (R := List.Sublist) List.Sublist.append (fun acks ds => ?_) he).filter _
    exact Delivery.begun?_sublist acks ds
  · rw [List.flatMap_def, hhanded, ht]
    exact flatten_flush (R := Eq) (fun hk hl => by rw [hk, hl]) (fun _ _ => rfl) he

/-- A message is sent again on a new connection, before a subscription and the answer to a message
of the broker. -/
theorem begun_in_order_of_resumed :
    let p : Publish := ⟨false, 1, false, "a", some 9, []⟩
    ∃ (w x y : Exchange) (t : List Entry), Reachable {} w ∧
      (ofSettings {}).resume w.session "c" false = (1, x.queue, x.session) ∧ Run {} x t y ∧
      (∀ e ∈ t, e.isReconnect = false) ∧
      (openings [] t).flatten.filter Packet.isRequest =
        [.publish ⟨true, 1, false, "b", some 1, []⟩, .subscribe ⟨2, [⟨"c", 1⟩]⟩] ∧
      t.flatMap Entry.handovers = [.received p] := by
  intro p
  have hp : p.IsDecoded := ⟨[0x32, 5, 0, 1, 0x61, 0, 9], 7, rfl⟩
  let holding (d : Delivery) : Exchange :=
    { queue := { ofSettings {} with deliveries := [d], index := [d.key] }
      session := { clientId := "c", deliveries := [d], lastId := d.id } }
  let sent : Delivery :=
    ⟨.publish ⟨false, 1, false, "b", some 1, []⟩, .awaitPuback, .outgoing, 1, 1, some 0⟩
  have hreach : Reachable {} (holding sent) := .step (.step (.start {} { clientId := "c" })
    (@Step.issue _ _ (.publish ⟨false, 1, false, "b", none, []⟩) _ _ _ rfl))
    (@Step.pass _ _ [] 0 _ _ _ rfl)
  have hrun : Run {} (holding sent.rewound) _ _ := .snoc (.snoc (.snoc .nil (.accept hp rfl))
    (@Step.issue _ _ (.subscribe [⟨"c", 1⟩]) _ _ _ rfl)) (@Step.pass _ _ [] 5 _ _ _ rfl)
  have hresumed : (ofSettings {}).resume (holding sent).session "c" false =
      (1, (holding sent.rewound).queue, (holding sent.rewound).session) := rfl
  obtain ⟨_, _, _, hall⟩ := begun_in_order hreach hresumed hrun (by simp [Entry.isReconnect])
  obtain ⟨hrequests, _, hhanded⟩ := hall _ _ rfl rfl
  exact ⟨_, _, _, _, hreach, hresumed, hrun, by simp [Entry.isReconnect], hrequests, hhanded⟩

end Exchange
end Mqtt
