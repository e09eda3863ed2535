import Mqtt.Client.Receiver
import Mqtt.Client.Worker
import Mqtt.Proofs.DeliveryQueue.Outgoing
import Mqtt.Proofs.Exchange.Reachable

/-!
Every PUBREL is answered by one PUBCOMP, whether a message waits for it or not. One that no message
waits for may as well be answered where it arrives.
-/
namespace Mqtt

namespace DeliveryQueue

variable {q : DeliveryQueue} {a : Packet}

theorem applyAck_of_not_awaits (h : q.awaits a = false) (s : Session) :
    q.applyAck s a = (q, s, unmatched a) := by
  unfold awaits at h
  unfold applyAck
  cases hanswers : a.answers with
  | none =>
    rw [unmatched_eq, confirmation?_of_answers_eq_none hanswers]
    rfl
  | some answer =>
    obtain ⟨key, stages⟩ := answer
    rw [hanswers] at h
    have hnone : q.get? key = none := by
      rw [get?, if_neg (Bool.not_eq_true _ ▸ h)]
    dsimp only
    rw [hnone]

theorem index_applyAck_subset (q : DeliveryQueue) (s : Session) (ack : Packet) :
    (q.applyAck s ack).1.index ⊆ q.index := by
  unfold applyAck
  split
  next => exact List.Subset.refl _
  next =>
    split
    next => exact List.Subset.refl _
    next =>
      split
      next => exact List.Subset.refl _
      next =>
        split
        next => exact List.Subset.refl _
        next => exact List.filter_sublist.subset

theorem index_applyAcks_subset (q : DeliveryQueue) (s : Session) (acks : List Packet) :
    (q.applyAcks s acks).1.index ⊆ q.index := by
  induction acks generalizing q s with
  | nil => exact List.Subset.refl _
  | cons ack acks ih => exact List.Subset.trans (ih _ _) (index_applyAck_subset q s ack)

/-- Acknowledgments only take deliveries away, so one that nothing waits for is not waited for
behind others either. -/
theorem awaits_applyAcks_of_not (h : q.awaits a = false) (s : Session) (acks : List Packet) :
    (q.applyAcks s acks).1.awaits a = false := by
  unfold awaits at h ⊢
  cases hanswers : a.answers with
  | none => rfl
  | some answer =>
    obtain ⟨key, stages⟩ := answer
    simp only [hanswers, contains, List.contains_eq_mem, decide_eq_false_iff_not] at h ⊢
    exact fun hmem => h (index_applyAcks_subset q s acks hmem)

theorem applyAcks_append (q : DeliveryQueue) (s : Session) (before rest : List Packet) :
    let answered := q.applyAcks s before
    let after := answered.1.applyAcks answered.2.1 rest
    q.applyAcks s (before ++ rest) = (after.1, after.2.1, answered.2.2.append after.2.2) := by
  induction before generalizing q s with
  | nil => rfl
  | cons ack before ih => simp only [List.cons_append, applyAcks, ih, Work.append_assoc]

theorem pass_append (q : DeliveryQueue) (s : Session) (before rest : List Packet) (now : Nat) :
    let answered := q.applyAcks s before
    let passed := answered.1.pass answered.2.1 rest now
    q.pass s (before ++ rest) now = (passed.1, passed.2.1, answered.2.2.append passed.2.2) := by
  simp only [pass, applyAcks_append, Work.append_assoc]

theorem pass_cons_of_not_awaits (h : q.awaits a = false) (s : Session) (rest : List Packet)
    (now : Nat) :
    let passed := q.pass s rest now
    q.pass s (a :: rest) now =
      (passed.1, passed.2.1,
        { passed.2.2 with outgoing := a.confirmation?.toList ++ passed.2.2.outgoing }) := by
  simp only [pass, applyAcks, applyAck_of_not_awaits h, unmatched_eq, Work.append,
    List.append_assoc, List.nil_append]

theorem pass_append_cons_of_not_awaits (h : q.awaits a = false) (s : Session)
    (before rest : List Packet) (now : Nat) :
    let answered := q.applyAcks s before
    let passed := answered.1.pass answered.2.1 rest now
    q.pass s (before ++ a :: rest) now =
      (passed.1, passed.2.1, answered.2.2.append
        { passed.2.2 with outgoing := a.confirmation?.toList ++ passed.2.2.outgoing }) := by
  intro answered passed
  rw [pass_append, pass_cons_of_not_awaits (awaits_applyAcks_of_not h s before)]

end DeliveryQueue

namespace Client

variable {c : Client} {a : Packet}

/-- What the receiver begins to write for an acknowledgment. A PUBCOMP with identifier 0 has no
bytes. -/
def reply (ack : Packet) : List Write :=
  ack.confirmation?.toList.filterMap fun p =>
    p.encode.toOption.map fun bytes => ⟨.receiver, p, bytes⟩

/-- What is answered where it arrives changes neither what the next pass goes by nor when it comes. -/
theorem routeAck_of_not_awaits (h : c.connection.queue.awaits a = false) :
    ∃ receiver, c.routeAck a = c.onConnection fun k => { k with
      receiver, writes := k.writes ++ reply a } := by
  unfold routeAck
  rw [if_neg (Bool.not_eq_true _ ▸ h)]
  split
  next id =>
    unfold post
    cases hencode : (Packet.pubComp id).encode with
    | ok bytes =>
      have hreply : reply (.pubRel id) = [⟨.receiver, .pubComp id, bytes⟩] := by
        simp [reply, Packet.confirmation?, hencode, Except.toOption]
      exact ⟨.answering, by rw [hreply]; rfl⟩
    | error e =>
      have hreply : reply (.pubRel id) = [] := by
        simp [reply, Packet.confirmation?, hencode, Except.toOption]
      refine ⟨.failing (.ofPacket e), ?_⟩
      simp only [hreply, List.append_nil]
      rfl
  next hother =>
    have hreply : reply a = [] := by
      cases a <;> first | rfl | exact absurd rfl (hother _)
    refine ⟨.reading none 0, ?_⟩
    simp only [hreply, List.append_nil]
    rfl

theorem runPass_of_pass {q : DeliveryQueue} {s : Session} {w : Work}
    (h : c.connection.queue.pass c.session c.connection.acks c.now = (q, s, w)) :
    c.runPass =
      { c.onConnection fun k => { k with
          queue := q, acks := [], worker := .writing w.outgoing w.events } with session := s } := by
  unfold runPass
  dsimp only
  rw [h]

/-- An acknowledgment that nothing waits for, answered where it arrives or kept for the pass: the
same queue, session and reports come of the pass, and the same packets, but for the PUBCOMP, which
goes out ahead or behind the other answers of the pass. -/
theorem runPass_routeAck_of_not_awaits (h : c.connection.queue.awaits a = false) :
    let direct := (c.routeAck a).runPass
    let kept := (c.onConnection fun k => { k with acks := k.acks ++ [a] }).runPass
    direct.connection.queue = kept.connection.queue ∧ direct.session = kept.session ∧
      direct.connection.writes = c.connection.writes ++ reply a ∧
      kept.connection.writes = c.connection.writes ∧
      ∃ moved events,
        direct.connection.worker =
          .writing (c.connection.acks.filterMap Packet.confirmation? ++ moved) events ∧
        kept.connection.worker =
          .writing ((c.connection.acks ++ [a]).filterMap Packet.confirmation? ++ moved) events := by
  obtain ⟨receiver, hroute⟩ := routeAck_of_not_awaits h
  intro direct kept
  let k := c.connection
  let answered := k.queue.applyAcks c.session k.acks
  let passed := answered.1.pass answered.2.1 [] c.now
  have hkept := DeliveryQueue.pass_append_cons_of_not_awaits h c.session k.acks [] c.now
  have hdirect : k.queue.pass c.session k.acks c.now =
      (passed.1, passed.2.1, answered.2.2.append passed.2.2) := by
    have hpass := DeliveryQueue.pass_append k.queue c.session k.acks [] c.now
    rwa [List.append_nil] at hpass
  have hdirect' : direct = _ :=
    (congrArg runPass hroute).trans (runPass_of_pass (c := c.onConnection _) hdirect)
  have hkept' : kept = _ := runPass_of_pass (c := c.onConnection _) hkept
  rw [hdirect', hkept']
  refine ⟨rfl, rfl, rfl, rfl, passed.2.2.outgoing, answered.2.2.events ++ passed.2.2.events, ?_, ?_⟩
  · rw [← DeliveryQueue.outgoing_applyAcks k.queue c.session]
    rfl
  · have hone : [a].filterMap Packet.confirmation? = a.confirmation?.toList := by
      cases ha : a.confirmation? <;> simp [ha]
    rw [List.filterMap_append, hone, ← DeliveryQueue.outgoing_applyAcks k.queue c.session,
      List.append_assoc]
    rfl

end Client

namespace Exchange

open DeliveryQueue

variable {σ : Settings} {x : Exchange}

/-- Whatever is held, a pass answers each PUBREL with one PUBCOMP, all of them before the packets of
its steps. An acknowledgment that nothing waits for makes no other difference to a pass than that
PUBCOMP, so that a client may as well answer it where it arrives as keep it for the pass. -/
theorem release_answered_once (h : Reachable σ x) (acks : List Packet) (now : Nat) :
    let answered := x.queue.applyAcks x.session acks
    let moved := (answered.1.advance answered.2.1 now).2.2.outgoing
    let passed := x.queue.pass x.session acks now
    let sent := passed.2.2.outgoing
    (sent = acks.filterMap Packet.confirmation? ++ moved ∧ (∀ id, .pubComp id ∉ moved) ∧
      ∀ id, sent.count (.pubComp id) = acks.count (.pubRel id)) ∧
    (∀ a, x.queue.awaits a = false →
      x.queue.pass x.session (a :: acks) now =
        (passed.1, passed.2.1, { passed.2.2 with outgoing := a.confirmation?.toList ++ sent })) ∧
    ∀ (c : Client) (a : Packet), c.connection.queue.awaits a = false →
      let direct := (c.routeAck a).runPass
      let kept := (c.onConnection fun k => { k with acks := k.acks ++ [a] }).runPass
      direct.connection.queue = kept.connection.queue ∧ direct.session = kept.session ∧
        direct.connection.writes = c.connection.writes ++ Client.reply a ∧
        kept.connection.writes = c.connection.writes ∧
        ∃ moved events,
          direct.connection.worker =
            .writing (c.connection.acks.filterMap Packet.confirmation? ++ moved) events ∧
          kept.connection.worker =
            .writing ((c.connection.acks ++ [a]).filterMap Packet.confirmation? ++ moved)
              events := by
  intro answered moved passed sent
  have hsent : sent = acks.filterMap Packet.confirmation? ++ moved :=
    congrArg (· ++ moved) (outgoing_applyAcks x.queue x.session acks)
  have hmoved : ∀ id, .pubComp id ∉ moved := fun id hmem => by
    cases (h.sound.1.applyAcks x.session acks).isMove_of_mem_advance _ now hmem
  refine ⟨⟨hsent, hmoved, fun id => ?_⟩, fun a ha => ?_, fun c a ha => ?_⟩
  · rw [hsent, List.count_append, List.count_eq_zero.mpr (hmoved id), Nat.add_zero]
    exact count_confirmation? acks id
  · exact pass_cons_of_not_awaits ha x.session acks now
  · exact Client.runPass_routeAck_of_not_awaits ha

/-- A message of quality 2 is released twice in one pass, and one that is not held once. -/
theorem release_answered_once_of_repeated :
    let p : Publish := ⟨false, 2, false, "a", some 7, []⟩
    ∃ x, Reachable {} x ∧ p.IsDecoded ∧
      (x.queue.pass x.session [.pubRel 7, .pubRel 9, .pubRel 7] 0).2.2.outgoing.count
        (.pubComp 7) = 2 ∧
      x.queue.awaits (.pubRel 9) = false ∧
      (x.queue.pass x.session [.pubRel 9] 0).2.2.outgoing = [.pubComp 9, .pubRec 7] := by
  intro p
  have hp : p.IsDecoded := ⟨[0x34, 5, 0, 1, 0x61, 0, 7], 7, rfl⟩
  have hreach : Reachable {} _ := .step (.start {} { clientId := "c" }) (.accept hp rfl)
  obtain ⟨⟨_, _, hcount⟩, _⟩ := release_answered_once hreach [.pubRel 7, .pubRel 9, .pubRel 7] 0
  have hpass := (release_answered_once hreach [] 0).2.1 (.pubRel 9) rfl
  exact ⟨_, hreach, hp, hcount 7, rfl, by rw [hpass]; rfl⟩

end Exchange
end Mqtt
