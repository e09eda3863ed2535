import Mqtt.Proofs.Exchange.Sound

/-! A delivery of our own is never lost in silence: it is held until one event reports its end. -/
namespace Mqtt

namespace Request

/-- The events that end a request's delivery. -/
inductive Ends (id : UInt16) : Request → Event → Prop where
  | published {message : Publish} {success : Bool} :
      Ends id (.publish message) (.published id success)
  | subscribed {subscriptions : List Subscription} {granted : Octets} :
      Ends id (.subscribe subscriptions) (.subscribed id granted)
  | subscribeFailed {subscriptions : List Subscription} :
      Ends id (.subscribe subscriptions) (.subscribeFailed id)
  | unsubscribed {filters : List String} : Ends id (.unsubscribe filters) (.unsubscribed id)
  | unsubscribeFailed {filters : List String} :
      Ends id (.unsubscribe filters) (.unsubscribeFailed id)

def Carried (r : Request) (id : UInt16) (d : Delivery) : Prop :=
  ∃ dup, d.packet = ((r.delivery id).withDup dup).packet

variable {r : Request} {id : UInt16} {d : Delivery}

theorem carried_delivery (r : Request) (id : UInt16) : r.Carried id (r.delivery id) := by
  cases r with
  | publish message => exact ⟨message.dup, rfl⟩
  | _ => exact ⟨false, rfl⟩

theorem Carried.withDup (h : r.Carried id d) (dup : Bool) : r.Carried id (d.withDup dup) := by
  obtain ⟨dup', hp⟩ := h
  refine ⟨dup, ?_⟩
  cases r <;> simp_all [Delivery.withDup, delivery, Delivery.publish, Delivery.subscribe,
    Delivery.unsubscribe]

theorem Carried.isTracked (h : r.Carried id d) : d.isTracked = r.isTracked := by
  obtain ⟨dup, hp⟩ := h
  have hsame : d.isTracked = ((r.delivery id).withDup dup).isTracked := by
    simp only [Delivery.isTracked, Delivery.message?, hp]
  rw [hsame, Delivery.isTracked_withDup, isTracked_delivery]

theorem Carried.rewound (h : r.Carried id d) : r.Carried id d.rewound := by
  have hzero : r.Carried id { d with attempts := 0, sentAt := none } := h
  unfold Delivery.rewound
  dsimp only
  split
  next => exact hzero.withDup true
  next => exact hzero.withDup true
  next => exact hzero.withDup false
  next => exact hzero

theorem Carried.release (h : r.Carried id d) (maxAttempts : Nat) :
    r.Carried id (DeliveryQueue.release maxAttempts d) := by
  unfold DeliveryQueue.release
  split
  next => exact h
  next => split <;> exact h

/-- The stages of the delivery are those of the request. -/
theorem Carried.mem_course (h : r.Carried id d) (hc : d.Coherent) (hd : d.direction = .outgoing) :
    d.stage ∈ (r.delivery id).packet.course .outgoing := by
  obtain ⟨dup, hp⟩ := h
  have hs := hc.stage
  rwa [hp, hd, Delivery.course_withDup] at hs

/-- An acknowledgment that ends the delivery is reported as the end of the request. -/
theorem Carried.ends_of_finishes (h : r.Carried id d) (hc : d.Coherent)
    (hd : d.key = ⟨id, .outgoing⟩) {ack : Packet} {e : Event} (hf : d.Finishes ack e) :
    r.Ends id e := by
  have hs := h.mem_course hc (congrArg Key.direction hd)
  obtain rfl : d.id = id := congrArg Key.id hd
  cases r with
  | publish message =>
    simp only [delivery, Delivery.publish, Packet.course] at hs
    cases hf with
    | pubAck | pubComp => exact .published
    | subAck h | unsubAck h => split_ifs at hs <;> simp [h] at hs
  | subscribe =>
    simp only [delivery, Delivery.subscribe, Packet.course] at hs
    cases hf with
    | subAck => exact .subscribed
    | pubAck h | pubComp h | unsubAck h => simp [h] at hs
  | unsubscribe =>
    simp only [delivery, Delivery.unsubscribe, Packet.course] at hs
    cases hf with
    | unsubAck => exact .unsubscribed
    | pubAck h | pubComp h | subAck h => simp [h] at hs

theorem Carried.ends_failure (h : r.Carried id d) (hd : d.id = id) : r.Ends id d.failure := by
  obtain ⟨dup, hp⟩ := h
  subst hd
  cases r with
  | publish message =>
    have hfailure : d.failure = .published d.id false := by
      simp [Delivery.failure, hp, delivery, Delivery.withDup, Delivery.publish]
    rw [hfailure]
    exact .published
  | subscribe =>
    have hfailure : d.failure = .subscribeFailed d.id := by
      simp [Delivery.failure, hp, delivery, Delivery.withDup, Delivery.subscribe]
    rw [hfailure]
    exact .subscribeFailed
  | unsubscribe =>
    have hfailure : d.failure = .unsubscribeFailed d.id := by
      simp [Delivery.failure, hp, delivery, Delivery.withDup, Delivery.unsubscribe]
    rw [hfailure]
    exact .unsubscribeFailed

end Request

namespace Slot

/-- The account of a request: its delivery is queued and nothing was reported of it, or it is gone
and one event has reported its end. -/
inductive Accounts (r : Request) (id : UInt16) : Slot → List Event → Prop where
  | held {x : Slot} {d : Delivery} (queued : x.queued = some d) (carried : r.Carried id d) :
      Accounts r id x []
  | ended {x : Slot} {e : Event} (queued : x.queued = none) (ends : r.Ends id e) :
      Accounts r id x [e]

variable {maxAttempts : Nat} {r : Request} {id : UInt16} {x y : Slot} {events : List Event}

theorem Accounts.reply {ack : Packet} {found : Option Delivery} {w : Work}
    (h : Accounts r id x events) (ho : x.Owned ⟨id, .outgoing⟩)
    (hr : x.Replies maxAttempts ⟨id, .outgoing⟩ ack found y w) :
    Accounts r id y (events ++ w.events) := by
  have hstray : ((DeliveryQueue.unmatched ack).of ⟨id, .outgoing⟩).events = [] := by
    cases ack <;> rfl
  cases h with
  | held hx hcarried =>
    obtain ⟨hkey, hc⟩ := ho _ hx
    cases hr with
    | stray =>
      rw [hstray]
      exact .held hx hcarried
    | release hx' =>
      obtain rfl := Option.some.inj (hx.symm.trans hx')
      exact .held rfl (hcarried.release maxAttempts)
    | finish hx' _ hf =>
      obtain rfl := Option.some.inj (hx.symm.trans hx')
      exact .ended rfl (hcarried.ends_of_finishes hc hkey hf)
    | hand hx' hin =>
      obtain rfl := Option.some.inj (hx.symm.trans hx')
      simp [← Delivery.direction_key, hkey] at hin
  | ended hnone hends =>
    cases hr with
    | stray =>
      rw [hstray]
      exact .ended hnone hends
    | release hx | finish hx | hand hx => simp [hnone] at hx

theorem Accounts.move {d : Delivery} {m : Move} {now : Nat} (h : Accounts r id x events)
    (ho : x.Owned ⟨id, .outgoing⟩) (hx : x.queued = some d) (hm : d.Moves maxAttempts now m) :
    Accounts r id { queued := m.next, stored := record x.stored m.record }
      (events ++ (m.work.of ⟨id, .outgoing⟩).events) := by
  obtain ⟨hkey, hc⟩ := ho d hx
  have hid : d.id = id := congrArg Key.id hkey
  have hdir : d.direction = .outgoing := congrArg Key.direction hkey
  have hevents : (m.work.of ⟨id, .outgoing⟩).events = m.work.events :=
    List.filter_eq_self.mpr fun e he => by
      simpa [hkey] using (hc.about hm).events e he
  rw [hevents]
  cases h with
  | ended hnone => simp [hx] at hnone
  | held hx' hcarried =>
    obtain rfl := Option.some.inj (hx.symm.trans hx')
    cases hm with
    | send => exact .held rfl hcarried
    | wait => exact .held rfl hcarried
    | sendAgain => exact .held rfl (hcarried.withDup true)
    | giveUp => exact .ended rfl (hcarried.ends_failure hid)
    | fire _ hs =>
      have hcourse := hcarried.mem_course hc hdir
      cases r with
      | publish message =>
        rw [hid]
        exact .ended rfl .published
      | subscribe | unsubscribe =>
        simp [Request.delivery, Delivery.subscribe, Delivery.unsubscribe, Packet.course, hs]
          at hcourse
    | hand hin | answer hin | confirm hin => simp [hdir] at hin

theorem Accounts.pass (h : Accounts r id x events) (ho : x.Owned ⟨id, .outgoing⟩) (σ : Settings)
    (acks : List Packet) (now : Nat) :
    Accounts r id (x.pass σ ⟨id, .outgoing⟩ acks now).1
      (events ++ (x.pass σ ⟨id, .outgoing⟩ acks now).2.events) := by
  refine ho.pass_induction (P := fun y _ w => Accounts r id y (events ++ w.events))
    (Q := fun y _ w => Accounts r id y (events ++ w.events)) σ now ?_ ?_ (fun hy _ => hy) ?_ acks
  · simpa using h
  · intro y z ms v w ack found hyo hy hr
    simpa [Work.append, List.append_assoc] using hy.reply hyo hr
  · intro y ms v d m hyo hy hd hm
    simpa [Work.append, List.append_assoc] using hy.move hyo hd hm

theorem Accounts.turn {σ : Settings} {e : Entry} (h : Accounts r id x events)
    (ht : x.Turn σ ⟨id, .outgoing⟩ e y) (ho : x.Owned ⟨id, .outgoing⟩)
    (hm : x.Mirrored ⟨id, .outgoing⟩) (hissue : e.issues id = false)
    (hkept : r.isTracked = true ∨ e.isReconnect = false) :
    Accounts r id y (events ++ e.told ⟨id, .outgoing⟩) := by
  cases ht with
  | idle hidle =>
    rw [Entry.told_of_not_concerns hidle, List.append_nil]
    exact h
  | issue hk =>
    obtain rfl := congrArg Key.id hk
    simp [Entry.issues] at hissue
  | arrive hk | repeated hk => cases congrArg Key.direction hk
  | pass _ hwork =>
    have htold := congrArg Work.events hwork
    simpa [Entry.told, Entry.work, htold] using h.pass ho σ _ _
  | @reconnect loaded =>
    have htracked : r.isTracked = true := by simpa [Entry.isReconnect] using hkept
    have hstored := hm.stored_outgoing rfl
    have htold : (Entry.reconnected loaded).told ⟨id, .outgoing⟩ = [] := rfl
    rw [htold, List.append_nil]
    cases h with
    | held hx hcarried =>
      refine .held (d := Delivery.rewound _) ?_ hcarried.rewound
      simp [hstored, hx, Option.filter, hcarried.isTracked, htracked]
    | ended hnone hends => exact .ended (by simp [hstored, hnone]) hends

end Slot

namespace Exchange

variable {σ : Settings} {s : Session} {x y : Exchange} {r : Request} {id : UInt16}

theorem Run.accounts {own : List Entry} {events : List Event} (h : Run σ x own y) (hx : x.Sound σ)
    (hid : id ≠ 0) (hstart : (x.slot ⟨id, .outgoing⟩).Accounts r id events)
    (hown : ∀ e ∈ own, e.issues id = false ∧ (r.isTracked = true ∨ e.isReconnect = false)) :
    (y.slot ⟨id, .outgoing⟩).Accounts r id
      (events ++ own.flatMap (Entry.told ⟨id, .outgoing⟩)) := by
  induction h with
  | nil => simpa using hstart
  | @snoc t e y z run step ih =>
    have hy := run.sound hx
    obtain ⟨hissue, hkept⟩ := hown e (by simp)
    have hy' := ih fun f hf => hown f (List.mem_append_left _ hf)
    have hz := hy'.turn (step.turn hy hid) (hy.owned _) (hy.mirrored _ hid) hissue hkept
    simpa [List.append_assoc] using hz

/-- A request's delivery is held with nothing reported of it, or it is gone and one event has
reported its end, up to the next delivery under its identifier. Above quality 0 a message's
delivery is also stored while it is held, on any number of connections; the others are held up to
the loss of their connection. -/
theorem delivery_conserved {early late : List Entry}
    (h : Run σ (start σ s) (early ++ .issued r id :: late) x) :
    let key : Key := ⟨id, .outgoing⟩
    let own := late.takeWhile fun e => !e.issues id && (r.isTracked || !e.isReconnect)
    (own = late ∧ own.flatMap (Entry.told key) = [] ∧
        ∃ d, x.queue.get? key = some d ∧ r.Carried id d ∧
          (r.isTracked = true → x.session.get? key = some d)) ∨
      ((own = late → x.queue.get? key = none ∧ x.session.get? key = none) ∧
        ∃ e, own.flatMap (Entry.told key) = [e] ∧ r.Ends id e) ∨
      (r.isTracked = false ∧ own.flatMap (Entry.told key) = [] ∧
        ∃ loaded rest, late = own ++ .reconnected loaded :: rest) := by
  intro key own
  obtain ⟨x₀, hearly, h⟩ := h.of_append
  obtain ⟨x₁, step, hlate⟩ := h.of_cons
  have hx₀ := hearly.sound (sound_start σ s)
  have hx₁ := step.sound hx₀
  obtain ⟨hid, _, hqueued⟩ := step.issued hx₀
  have hkey : key.id ≠ 0 := hid
  have hstart : (x₁.slot key).Accounts r id [] := .held hqueued (r.carried_delivery id)
  have hown : ∀ e ∈ own, e.issues id = false ∧ (r.isTracked = true ∨ e.isReconnect = false) :=
    fun e he => by simpa using List.mem_takeWhile_imp he
  obtain ⟨z, hz, hwindow⟩ := hlate.window fun e =>
    !e.issues id && (r.isTracked || !e.isReconnect)
  have haccounts := hz.accounts hx₁ hid hstart hown
  have hstored := (hz.sound hx₁).stored_outgoing hkey rfl
  rw [List.nil_append] at haccounts
  change Slot.Accounts r id (z.slot key) (own.flatMap (Entry.told key)) at haccounts
  generalize own.flatMap (Entry.told key) = told at haccounts ⊢
  cases haccounts with
  | ended hnone hends =>
    have hnone : z.queue.get? key = none := hnone
    refine .inr (.inl ⟨fun heq => ?_, _, rfl, hends⟩)
    rcases hwindow with ⟨_, rfl⟩ | ⟨e, rest, _, hsplit, _⟩
    · exact ⟨hnone, by simp [hstored, hnone]⟩
    · have hlength := congrArg List.length (hsplit.symm.trans heq.symm)
      simp [own] at hlength
  | @held d hget hcarried =>
    have hget : z.queue.get? key = some d := hget
    rcases hwindow with ⟨hall, rfl⟩ | ⟨e, rest, z', hsplit, hstop, step'⟩
    · refine .inl ⟨hall, rfl, d, hget, hcarried, fun htracked => ?_⟩
      simp [hstored, hget, Option.filter, hcarried.isTracked, htracked]
    -- the window of a delivery that is held ends only with the connection
    cases e with
    | issued r' id' =>
      obtain rfl : id' = id := by simpa [Entry.issues, Entry.isReconnect] using hstop
      have hfree : z.queue.get? key = none := (step'.issued (hz.sound hx₁)).2.1
      simp [hfree] at hget
    | reconnected loaded =>
      have huntracked : r.isTracked = false := by
        simpa [Entry.issues, Entry.isReconnect] using hstop
      exact .inr (.inr ⟨huntracked, rfl, loaded, rest, hsplit⟩)
    | _ => simp [Entry.issues, Entry.isReconnect] at hstop

/-- A message is repeated on a second connection and acknowledged there. -/
theorem delivery_conserved_of_resumed :
    ∃ x, Run {} (start {} { clientId := "c" })
        ([] ++ .issued (.publish ⟨false, 1, false, "a", none, []⟩) 1 ::
          [.passed [] 0 [] { outgoing := [.publish ⟨false, 1, false, "a", some 1, []⟩] },
            .reconnected 1,
            .passed [] 5 [] { outgoing := [.publish ⟨true, 1, false, "a", some 1, []⟩] },
            .passed [.pubAck 1] 6
              [(.pubAck 1, ⟨.publish ⟨true, 1, false, "a", some 1, []⟩, .awaitPuback, .outgoing, 1,
                1, some 5⟩)] { events := [.published 1 true] }]) x ∧
      x.queue.get? ⟨1, .outgoing⟩ = none ∧ x.session.get? ⟨1, .outgoing⟩ = none := by
  refine ⟨start {} { clientId := "c", lastId := 1 }, (and_iff_left_of_imp fun h => ?_).mpr
    (.cons (.issue rfl) (.cons (.pass rfl) (.cons (.reconnect rfl)
      (.cons (.pass rfl) (.cons (.pass rfl) .nil)))))⟩
  rcases delivery_conserved h with ⟨_, htold, _⟩ | ⟨hgone, _⟩ | ⟨huntracked, _⟩
  · exact absurd htold (by decide)
  · exact hgone rfl
  · exact absurd huntracked (by decide)

end Exchange
end Mqtt
