import Mqtt.Proofs.Delivery.Opening
import Mqtt.Proofs.DeliveryQueue.Outgoing
import Mqtt.Proofs.Slot

/-!
The order of a queue. What a pass leaves keeps its order, and the deliveries that are new begin in
theirs, but for messages that the broker releases before.
-/
namespace Mqtt.DeliveryQueue

open Delivery (isNew)

variable {σ : Settings} {q : DeliveryQueue} {d e : Delivery} {seen : List Key}
  {waiting : List Delivery} {s : Session} {ack : Packet} {acks : List Packet}

def keys (q : DeliveryQueue) : List Key :=
  q.deliveries.map Delivery.key

/-! The keys of what stays, in their order. -/

theorem keys_applyAck_sublist (q : DeliveryQueue) (s : Session) (ack : Packet) :
    (q.applyAck s ack).1.keys.Sublist q.keys := by
  unfold applyAck
  split
  next => exact List.Sublist.refl _
  next key stages _ =>
    split
    next => exact List.Sublist.refl _
    next =>
      split
      next => exact List.Sublist.refl _
      next =>
        split
        next =>
          have hsame :
              (modify key (release q.maxAttempts) q.deliveries).map Delivery.key = q.keys :=
            map_modify Delivery.key (fun d _ => Delivery.key_release _ d) q.deliveries
          exact hsame ▸ List.Sublist.refl _
        next => exact List.eraseP_sublist.map _

theorem keys_applyAcks_sublist (q : DeliveryQueue) (s : Session) (acks : List Packet) :
    (q.applyAcks s acks).1.keys.Sublist q.keys := by
  induction acks generalizing q s with
  | nil => exact List.Sublist.refl _
  | cons ack acks ih => exact (ih _ _).trans (keys_applyAck_sublist q s ack)

theorem keys_advance_sublist (q : DeliveryQueue) (s : Session) (now : Nat) :
    (q.advance s now).1.keys.Sublist q.keys := by
  unfold keys
  rw [advance_deliveries]
  exact Delivery.keys_filterMap_sublist (key_move q now)

theorem keys_pass_sublist (q : DeliveryQueue) (s : Session) (acks : List Packet) (now : Nat) :
    (q.pass s acks now).1.keys.Sublist q.keys :=
  (keys_advance_sublist _ (q.applyAcks s acks).2.1 now).trans (keys_applyAcks_sublist q s acks)

/-- What a pass leaves has an identifier, and so a key of its own. -/
theorem Sound.nodup_keys_pass (h : q.Sound σ) (s : Session) (acks : List Packet) (now : Nat) :
    (q.pass s acks now).1.keys.Nodup := by
  have hq := h.pass s acks now
  refine hq.keyed.distinct.nodup_keys fun d hd hid => ?_
  obtain ⟨hdir, hs⟩ := (hq.coherent d hd).stage_of_id_eq_zero hid
  cases hs.symm.trans (h.awaitPubrel_of_mem_pass s acks now d hd hdir)

/-! What acknowledgments do to the deliveries that are new. -/

theorem filter_modify_eq {p : Delivery → Bool} {key : Key} {f : Delivery → Delivery}
    {ds : List Delivery}
    (hf : ∀ d ∈ ds, d.key = key → p (f d) = p d ∧ (p d = true → f d = d)) :
    (modify key f ds).filter p = ds.filter p := by
  induction ds with
  | nil => rfl
  | cons d ds ih =>
    unfold modify
    split
    next hd =>
      obtain ⟨hp, heq⟩ := hf d List.mem_cons_self hd
      cases hpd : p d with
      | true => rw [heq hpd]
      | false => simp [hp, hpd]
    next =>
      rw [List.filter_cons, List.filter_cons, ih fun e he => hf e (List.mem_cons_of_mem _ he)]

theorem pubRel_of_isFirst {key : Key} {stages : List Stage} {stage : Stage}
    (ha : ack.answers = some (key, stages)) (hs : stage ∈ stages) (hfirst : stage.isFirst = true) :
    ack = .pubRel key.id ∧ key.direction = .incoming ∧ stage = .queued2 := by
  cases ack with
  | pubRel id =>
    cases ha
    rcases List.mem_cons.mp hs with rfl | hs
    · cases hfirst
    · exact ⟨rfl, rfl, List.mem_singleton.mp hs⟩
  | pubAck | pubRec | pubComp | subAck | unsubAck =>
    cases ha
    simp only [List.mem_cons, List.not_mem_nil, or_false] at hs
    rcases hs with rfl | rfl <;> cases hfirst
  | _ => cases ha

/-- An acknowledgment finds a new delivery if it is its release. -/
theorem Sound.match?_eq_some_iff_releasedBy (h : q.Sound σ) (hd : d ∈ q.deliveries)
    (hfirst : d.stage.isFirst = true) :
    q.match? ack = some d ↔ d.releasedBy [ack] = true := by
  rw [match?_eq_some_iff]
  simp only [Delivery.releasedBy, decide_eq_true_eq, List.mem_singleton]
  constructor
  · rintro ⟨key, stages, ha, hget, hs⟩
    obtain ⟨rfl, hdir, hstage⟩ := pubRel_of_isFirst ha hs hfirst
    have hkey := h.keyed.key_of_get? hget
    rw [← Delivery.direction_key, ← Delivery.id_key, hkey]
    exact ⟨hdir, hstage, rfl⟩
  · rintro ⟨hdir, hstage, rfl⟩
    have hid : d.id ≠ 0 := fun hid => by
      cases hstage.symm.trans ((h.coherent d hd).stage_of_id_eq_zero hid).2
    have hkey : d.key = ⟨d.id, .incoming⟩ := by simp [Delivery.key, hdir]
    exact ⟨_, _, rfl, h.keyed.get?_eq_some_iff.mpr ⟨hid, hd, hkey⟩, by simp [hstage]⟩

theorem isFirst_release {d : Delivery} (h : d.stage.isFirst = false) (maxAttempts : Nat) :
    (release maxAttempts d).stage.isFirst = false := by
  unfold release
  split
  next => rfl
  next =>
    split
    next => rfl
    next => exact h

theorem Sound.filter_applyAck (h : q.Sound σ) {p : Delivery → Bool}
    (hp : ∀ d, p d = true → d.stage.isFirst = true) (s : Session) (ack : Packet) :
    (q.applyAck s ack).1.deliveries.filter p =
      q.deliveries.filter fun d => p d && !d.releasedBy [ack] := by
  have hrel : ∀ e ∈ q.deliveries, p e = true →
      e.releasedBy [ack] = decide (q.match? ack = some e) := fun e he hpe => by
    rw [Bool.eq_iff_iff, decide_eq_true_iff, h.match?_eq_some_iff_releasedBy he (hp e hpe)]
  rw [h.keyed.applyAck_eq]
  cases hm : q.match? ack with
  | none =>
    show q.deliveries.filter p = _
    refine List.filter_congr fun e he => ?_
    cases hpe : p e with
    | false => rfl
    | true => simp [hrel e he hpe, hm]
  | some d =>
    obtain ⟨key, stages, ha, hget, hs⟩ := match?_eq_some_iff.mp hm
    obtain ⟨hid, hd, rfl⟩ := h.keyed.get?_eq_some_iff.mp hget
    have hfound : ∀ e ∈ q.deliveries, e.key = d.key ↔ d = e := fun e he =>
      ⟨fun hek => (h.keyed.eq_of_key hd he hid hek).symm, fun heq => heq ▸ rfl⟩
    simp only [hm, Option.some.injEq] at hrel
    dsimp only
    split
    next hrec =>
      -- a PUBREC finds a delivery that is not new and does not make it new
      obtain ⟨_, rfl⟩ := answers_pubRec hrec ha
      have hold : d.stage.isFirst = false := by
        rcases List.mem_pair.mp hs with hs | hs <;> simp [hs, Stage.isFirst]
      have hpd : ∀ e : Delivery, e.stage.isFirst = false → p e = false := fun e he =>
        Bool.eq_false_iff.mpr fun hpe => Bool.eq_false_iff.mp he (hp e hpe)
      rw [filter_modify_eq fun e he hek => ?_]
      · refine List.filter_congr fun e he => ?_
        cases hpe : p e with
        | false => rfl
        | true =>
          have hne : d ≠ e := fun heq => by simp [← heq, hpd d hold] at hpe
          simp [hrel e he hpe, hne]
      · obtain rfl := (hfound e he).mp hek
        have hnot := hpd d hold
        exact ⟨(hpd _ (isFirst_release hold _)).trans hnot.symm, fun hpe => by simp [hnot] at hpe⟩
    next =>
      have herase : (q.remove d.key).deliveries = q.deliveries.filter fun e => e.key ≠ d.key :=
        h.keyed.distinct.eraseP_eq_filter hid
      rw [herase, List.filter_filter]
      refine List.filter_congr fun e he => ?_
      cases hpe : p e with
      | false => rfl
      | true => simp [hrel e he hpe, hfound e he]

theorem Sound.filter_applyAcks (h : q.Sound σ) {p : Delivery → Bool}
    (hp : ∀ d, p d = true → d.stage.isFirst = true) (s : Session) (acks : List Packet) :
    (q.applyAcks s acks).1.deliveries.filter p =
      q.deliveries.filter fun d => p d && !d.releasedBy acks := by
  induction acks generalizing q s with
  | nil =>
    show q.deliveries.filter p = _
    simp [Delivery.releasedBy]
  | cons ack acks ih =>
    have hrest := ih (h.applyAck s ack) (q.applyAck s ack).2.1
    refine hrest.trans ?_
    rw [h.filter_applyAck (fun d hd => hp d (Bool.and_eq_true_iff.mp hd).1)]
    refine List.filter_congr fun d _ => ?_
    have hcons : d.releasedBy (ack :: acks) = (d.releasedBy [ack] || d.releasedBy acks) := by
      rw [Bool.eq_iff_iff]
      simp [Delivery.releasedBy]
      tauto
    rw [hcons]
    cases p d <;> cases d.releasedBy [ack] <;> simp

/-- A released message is of quality 2, so acknowledgments hand over no other. -/
theorem Sound.handover_applyAck (h : q.Sound σ) (s : Session) (ack : Packet) :
    (q.applyAck s ack).2.2.events.filter Event.isHandover = [] := by
  rw [h.keyed.applyAck_eq]
  cases hm : q.match? ack with
  | none => cases ack <;> rfl
  | some d =>
    dsimp only
    split
    next => rfl
    next =>
      cases ack with
      | pubRel id =>
        obtain ⟨key, stages, ha, hget, hs⟩ := match?_eq_some_iff.mp hm
        cases ha
        have hdir : d.direction = .incoming := congrArg Key.direction (h.keyed.key_of_get? hget)
        obtain ⟨p, hp, ⟨_, hst⟩ | ⟨_, hst⟩ | ⟨hq, _⟩⟩ :=
          (h.coherent_of_get? hget).incoming_cases hdir
        · simp [hst] at hs
        · simp [hst] at hs
        · simp [completion, Delivery.report, Delivery.message?, hp, Event.isHandover, hq]
      | _ => rfl

theorem Sound.handover_applyAcks (h : q.Sound σ) (s : Session) (acks : List Packet) :
    (q.applyAcks s acks).2.2.events.filter Event.isHandover = [] := by
  induction acks generalizing q s with
  | nil => rfl
  | cons ack acks ih =>
    have hrest := ih (h.applyAck s ack) (q.applyAck s ack).2.1
    have happend : (q.applyAcks s (ack :: acks)).2.2.events = (q.applyAck s ack).2.2.events ++
        ((q.applyAck s ack).1.applyAcks (q.applyAck s ack).2.1 acks).2.2.events := rfl
    rw [happend, List.filter_append, h.handover_applyAck, hrest]
    rfl

/-- The new deliveries of a queue are those that wait in line, and the keys tell them apart. -/
structure InLine (seen : List Key) (q : DeliveryQueue) (waiting : List Delivery) : Prop where
  line : q.deliveries.filter (isNew seen) = waiting.filter fun d => d.stage.isFirst
  accounted : ∀ d ∈ q.deliveries, d.Accounted seen

/-- A delivery that comes goes to the end of the line. -/
theorem InLine.enqueue (h : InLine seen q waiting) (hq : q.Sound σ)
    (hfree : d.id ≠ 0 → q.get? d.key = none) (hfirst : d.stage.isFirst = true) :
    InLine (seen.filter (· ≠ d.key)) (q.enqueue d) (waiting ++ [d]) := by
  have hready : d.stage.isWaiting = false :=
    Bool.eq_false_iff.mpr fun hw => by simp [Delivery.not_isFirst_of_isWaiting hw] at hfirst
  -- whoever has the key already is of quality 0, and new itself
  have hsame : ∀ e ∈ q.deliveries, e.key = d.key → e.stage = .queued0 := by
    intro e he hek
    by_contra hs
    have hid : e.key.id ≠ 0 := fun hid => hs ((hq.coherent e he).stage_of_id_eq_zero hid).2
    have hget := hfree fun hz => hid (hek ▸ hz)
    exact (hq.keyed.get?_eq_none_iff (hek ▸ hid)).mp hget e he hek
  constructor
  · have hold : ∀ e ∈ q.deliveries, e.isNew (seen.filter (· ≠ d.key)) = e.isNew seen := by
      intro e he
      by_cases hek : e.key = d.key
      · have hs := hsame e he hek
        have hk : e.key ∉ seen := fun hk => by
          cases hs.symm.trans ((h.accounted e he).first (by rw [hs]; rfl) hk).2
        rw [hek] at hk
        simp [isNew, hek, hk]
      · simp [isNew, hek]
    have hnew : d.isNew (seen.filter (· ≠ d.key)) = true := by simp [isNew, hfirst]
    show (q.deliveries ++ [d]).filter _ = _
    rw [List.filter_append, List.filter_append, List.filter_congr hold, h.line,
      List.filter_singleton, List.filter_singleton, hnew, hfirst]
  · refine forall_enqueue (fun e he => ⟨fun hf hk => ?_, fun hw hcomp => ?_⟩)
      ⟨fun _ hk => by simp at hk, fun hw => by simp [hready] at hw⟩
    · exact (h.accounted e he).first hf (List.mem_of_mem_filter hk)
    · have hne : e.key ≠ d.key := fun hek => by simp [hsame e he hek, Stage.isWaiting] at hw
      exact List.mem_filter.mpr ⟨(h.accounted e he).waiting hw hcomp, by simpa using hne⟩

theorem InLine.reopen (h : InLine seen q waiting) (hq : q.Sound σ) (key : Key) :
    InLine seen { q with deliveries := modify key Delivery.reopened q.deliveries } waiting := by
  constructor
  · show (modify key Delivery.reopened q.deliveries).filter _ = _
    rw [filter_modify_eq fun d hd _ => (h.accounted d hd).isNew_reopened, h.line]
  · intro e he
    rcases mem_modify he with he | ⟨d, hd, _, rfl⟩
    · exact h.accounted e he
    · exact (h.accounted d hd).reopened (hq.coherent d hd).fits

/-- What moves deliveries of which some are new: these make their beginning in their order. -/
theorem InLine.advance (h : InLine seen q waiting) (hq : q.Sound σ) (s : Session) (now : Nat) :
    let moved := (q.advance s now).2.2
    moved.outgoing.filter (Packet.opens seen) =
        (waiting.filter fun d => d.stage.isFirst).filterMap Delivery.opening? ∧
      moved.events.filter Event.isHandover =
        (waiting.filter fun d => d.stage.isFirst).filterMap Delivery.handed? := by
  have hmoves : ∀ d ∈ q.deliveries, d.Moves q.maxAttempts now _ := fun d hd =>
    (hq.coherent d hd).moves q.retryDelay q.maxAttempts now
  simp only [DeliveryQueue.advance, moves, List.flatMap_map, List.filter_flatMap, ← h.line,
    List.filterMap_filter]
  simp only [List.filterMap_eq_flatMap_toList]
  constructor
  · exact List.flatMap_congr fun d hd =>
      (h.accounted d hd).opens_move (hq.coherent d hd) (hmoves d hd)
  · exact List.flatMap_congr fun d hd =>
      (h.accounted d hd).handover_move (hq.coherent d hd) (hmoves d hd)

theorem InLine.applyAcks (h : InLine seen q waiting) (hq : q.Sound σ) (s : Session)
    (acks : List Packet) :
    InLine seen (q.applyAcks s acks).1 (waiting.filter fun d => !d.releasedBy acks) := by
  constructor
  · calc
      (q.applyAcks s acks).1.deliveries.filter (isNew seen) =
          q.deliveries.filter fun d => isNew seen d && !d.releasedBy acks :=
        hq.filter_applyAcks (fun d hd => (Bool.and_eq_true_iff.mp hd).1) s acks
      _ = (q.deliveries.filter (isNew seen)).filter fun d => !d.releasedBy acks := by
        simp only [List.filter_filter, Bool.and_comm]
      _ = (waiting.filter fun d => !d.releasedBy acks).filter fun d => d.stage.isFirst := by
        rw [h.line, List.filter_comm]
  · exact hq.tidy.forall_applyAcks h.accounted (fun d hd _ => hd.release _) s acks

/-- After a pass there is nothing new, and what waits has been sent. -/
theorem InLine.after_pass (h : InLine seen q waiting) (hq : q.Sound σ) (s : Session)
    (acks : List Packet) (now : Nat) :
    let passed := q.pass s acks now
    InLine (seen ++ (passed.2.2.outgoing.filter fun p => p.isRequest || p.isReply).filterMap
      Packet.origin?) passed.1 [] := by
  intro passed
  have hacked := h.applyAcks hq s acks
  have hqa := hq.applyAcks s acks
  have hleft : ∀ e ∈ passed.1.deliveries, e.stage.isWaiting = true ∧
      (e.stage ≠ .awaitPubcomp → e.key ∈ seen ∨ ∃ p ∈ passed.2.2.outgoing,
        (p.isRequest || p.isReply) = true ∧ p.origin? = some e.key) := by
    intro e he
    obtain ⟨d, hd, hnext⟩ := hq.tidy.mem_pass he
    have hc := hqa.coherent d hd
    obtain ⟨hw, hsent⟩ := (hacked.accounted d hd).waiting_next hc
      (hc.moves σ.retryDelay σ.maxAttempts now) hnext
    refine ⟨hw, fun hcomp => (hsent hcomp).imp_right ?_⟩
    rintro ⟨p, hp, hopens, horigin⟩
    refine ⟨p, List.mem_append_right _ ?_, hopens, horigin⟩
    rw [← hqa.retryDelay, ← hqa.maxAttempts] at hp
    simp only [moves, List.flatMap_map, List.mem_flatMap]
    exact ⟨d, hd, hp⟩
  constructor
  · refine List.filter_eq_nil_iff.mpr fun e he => ?_
    simp [Delivery.isNew_of_isWaiting (hleft e he).1]
  · intro e he
    obtain ⟨hw, hsent⟩ := hleft e he
    refine ⟨fun hfirst => ?_, fun _ hcomp => ?_⟩
    · simp [Delivery.not_isFirst_of_isWaiting hw] at hfirst
    · rcases hsent hcomp with hk | ⟨p, hp, hopens, horigin⟩
      · exact List.mem_append_left _ hk
      · exact List.mem_append_right _
          (List.mem_filterMap.mpr ⟨p, List.mem_filter.mpr ⟨hp, hopens⟩, horigin⟩)

/-- In a pass everything that waits in line makes its beginning, in order, but for what the broker
has released. -/
theorem InLine.pass (h : InLine seen q waiting) (hq : q.Sound σ) (s : Session)
    (acks : List Packet) (now : Nat) :
    let work := (q.pass s acks now).2.2
    work.outgoing.filter (Packet.opens seen) =
        waiting.filterMap (Delivery.begun? acks) ∧
      work.events.filter Event.isHandover = waiting.filterMap Delivery.handed? := by
  obtain ⟨hopening, hhanded⟩ :=
    (h.applyAcks hq s acks).advance (hq.applyAcks s acks) (q.applyAcks s acks).2.1 now
  have hanswers : (q.applyAcks s acks).2.2.outgoing.filter (Packet.opens seen) = [] := by
    refine List.filter_eq_nil_iff.mpr fun p hp => ?_
    obtain ⟨id, rfl⟩ := exists_pubComp_of_mem_applyAcks hp
    simp [Packet.opens, Packet.isRequest, Packet.isReply]
  simp only [DeliveryQueue.pass, Work.append, List.filter_append, hanswers,
    hq.handover_applyAcks, hopening, hhanded, List.nil_append, List.filterMap_filter]
  constructor
  · refine List.filterMap_congr fun d _ => ?_
    cases hd : d.opening? with
    | none => simp [Delivery.begun?, hd]
    | some p =>
      have hfirst := Delivery.isFirst_of_opening? (Option.isSome_of_eq_some hd)
      cases hrel : d.releasedBy acks <;> simp [Delivery.begun?, hfirst, hrel, hd]
  · refine List.filterMap_congr fun d _ => ?_
    cases hd : d.handed? with
    | none => simp
    | some p =>
      have hfirst := Delivery.isFirst_of_handed? (Option.isSome_of_eq_some hd)
      simp [hfirst, Delivery.releasedBy_of_handed? (Option.isSome_of_eq_some hd)]

end Mqtt.DeliveryQueue
