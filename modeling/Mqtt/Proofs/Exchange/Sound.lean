import Mqtt.Proofs.DeliveryQueue.Intake
import Mqtt.Proofs.Exchange
import Mqtt.Proofs.Session.Sound
import Mqtt.Proofs.Slot.Mirrored
import Mathlib.Data.List.Perm.Subperm

/-! What every run preserves, and what each of its steps does to the slot of one key. -/
namespace Mqtt

/-- Everything that an entry can mean for the slot of a key. -/
inductive Slot.Turn (σ : Settings) (k : Key) (x : Slot) : Entry → Slot → Prop where
  | idle {e : Entry} (h : ¬ e.Concerns k) : x.Turn σ k e x
  | issue {r : Request} {id : UInt16} (hk : k = ⟨id, .outgoing⟩) (free : x.queued = none) :
      x.Turn σ k (.issued r id)
        { queued := some (r.delivery id)
          stored := (some (r.delivery id)).filter Delivery.isTracked }
  | arrive {p : Publish} (hk : k = (Delivery.received p).key) (numbered : p.Numbered)
      (free : x.queued = none) :
      x.Turn σ k (.accepted p .queued) { x with queued := some (.received p) }
  | repeated {p : Publish} (hk : k = (Delivery.received p).key) (held : x.queued ≠ none) :
      x.Turn σ k (.accepted p .duplicate) { x with queued := x.queued.map Delivery.reopened }
  | pass {acks : List Packet} {now : Nat} {answered : List (Packet × Delivery)} {work : Work}
      (hanswered : (answered.filter fun m => m.2.key = k) = x.answered σ.maxAttempts k acks)
      (hwork : work.of k = (x.pass σ k acks now).2) :
      x.Turn σ k (.passed acks now answered work) (x.pass σ k acks now).1
  | reconnect {loaded : Nat} :
      x.Turn σ k (.reconnected loaded)
        { queued := x.stored.map Delivery.rewound, stored := x.stored.map Delivery.rewound }

theorem Slot.Turn.mirrored {σ : Settings} {k : Key} {x y : Slot} {e : Entry} (h : x.Turn σ k e y)
    (ho : x.Owned k) (hx : x.Mirrored k) : y.Mirrored k := by
  cases h with
  | idle => exact hx
  | issue hk => exact .settled (.ours (by rw [hk]) _)
  | @arrive p hk _ free =>
    refine hx.arrive (by rw [hk]; rfl) free ?_
    simp only [Delivery.received, Stage.ofQos]
    split
    · simp
    · split <;> simp
  | repeated hk => exact hx.reopen (by rw [hk]; rfl)
  | pass => exact .settled (hx.pass ho σ _ _)
  | reconnect => exact .settled hx.rewound

/-- Within a connection a delivery leaves its slot only with an event. -/
theorem Slot.Turn.held {σ : Settings} {k : Key} {x y : Slot} {e : Entry} (h : x.Turn σ k e y)
    (ho : x.Owned k) (hsame : e.isReconnect = false) (hx : x.queued ≠ none) :
    y.queued ≠ none ∨ e.told k ≠ [] := by
  cases h with
  | idle => exact .inl hx
  | issue => exact .inl nofun
  | arrive => exact .inl nofun
  | repeated => exact .inl (by simpa using hx)
  | @pass acks now answered work _ hwork =>
    have hheld := ho.pass_held σ acks now hx
    rw [← hwork] at hheld
    exact hheld
  | reconnect => cases hsame

/-- A new queue and the session that it is filled from are sound, whoever kept the session. -/
theorem DeliveryQueue.sound_resume (σ : Settings) {s : Session} (h : s.Sound) (clientId : String)
    (clean : Bool) :
    ((ofSettings σ).resume s clientId clean).2.1.Sound σ ∧
      ((ofSettings σ).resume s clientId clean).2.2.Sound := by
  have hs : (if s.clientId = clientId then s else { clientId }).Sound := by
    split
    next => exact h
    next => exact Session.sound_clear { clientId }
  cases clean with
  | true => exact ⟨sound_ofSettings σ, Session.sound_clear _⟩
  | false => exact ⟨(sound_ofSettings σ).load hs.map_rewound.coherent, hs.map_rewound⟩

namespace Exchange

/-- A sound queue and a sound session that mirror each other under every key. -/
structure Sound (σ : Settings) (x : Exchange) : Prop where
  queue : x.queue.Sound σ
  session : x.session.Sound
  mirrored : ∀ k : Key, k.id ≠ 0 → (x.slot k).Mirrored k

variable {σ : Settings} {x y : Exchange} {e : Entry} {k : Key}

theorem Sound.owned (h : x.Sound σ) (k : Key) : (x.slot k).Owned k :=
  h.queue.owned x.session k

theorem sound_start (σ : Settings) (s : Session) : (start σ s).Sound σ := by
  refine ⟨DeliveryQueue.sound_ofSettings σ, Session.sound_clear s, fun k _ => ?_⟩
  have hempty : (start σ s).slot k = { queued := none, stored := none } := by
    simp [start, slot, Slot.ofKey, DeliveryQueue.get?, DeliveryQueue.contains,
      DeliveryQueue.ofSettings, Session.get?, Session.clear]
  rw [hempty]
  exact .settled (Slot.settled_empty k)

theorem Sound.stored_of_mem (h : x.Sound σ) {d : Delivery} (hd : d ∈ x.session.deliveries) :
    d.key.id ≠ 0 ∧ x.session.get? d.key = some d :=
  ⟨h.session.numbered d hd, h.session.keyed.get?_eq_some_iff.mpr ⟨hd, rfl⟩⟩

/-- Between passes too the stored copies of our own deliveries are the queued ones. -/
theorem Sound.stored_outgoing (h : x.Sound σ) (hk : k.id ≠ 0) (hout : k.direction = .outgoing) :
    x.session.get? k = (x.queue.get? k).filter Delivery.isTracked :=
  (h.mirrored k hk).stored_outgoing hout

/-- Each stored delivery of our own is also queued, so there is room for all of them. -/
theorem Sound.stored_fits (h : x.Sound σ) :
    (x.session.deliveries.countP fun d => d.direction = .outgoing) ≤ σ.capacity := by
  have hsub : (x.session.deliveries.filter fun d => d.direction = .outgoing) ⊆
      x.queue.deliveries.filter fun d => d.direction = .outgoing := by
    intro d hd
    obtain ⟨hmem, hout⟩ := List.mem_filter.mp hd
    obtain ⟨hid, hget⟩ := h.stored_of_mem hmem
    rw [h.stored_outgoing hid (by simpa using hout)] at hget
    have hqueued := (Option.filter_eq_some_iff.mp hget).1
    exact List.mem_filter.mpr ⟨(h.queue.keyed.get?_eq_some_iff.mp hqueued).2.1, hout⟩
  have hnodup : (x.session.deliveries.filter fun d => d.direction = .outgoing).Nodup :=
    (List.Nodup.of_map _ h.session.keyed).filter _
  have hlength := (hnodup.subperm hsub).length_le
  rw [← List.countP_eq_length_filter, ← List.countP_eq_length_filter] at hlength
  have hfits := h.queue.fits
  rw [h.queue.capacity] at hfits
  exact Nat.le_trans hlength hfits

/-- A new connection takes up everything that is stored. -/
theorem Sound.resume (h : x.Sound σ) {loaded : Nat} {q : DeliveryQueue} {s : Session}
    (hr : (DeliveryQueue.ofSettings σ).resume x.session x.session.clientId false = (loaded, q, s)) :
    loaded = x.session.deliveries.length ∧ q.Sound σ ∧
      q.deliveries = x.session.deliveries.map Delivery.rewound ∧
      s = { x.session with deliveries := x.session.deliveries.map Delivery.rewound } := by
  have hs := h.session.map_rewound
  have hempty := DeliveryQueue.sound_ofSettings σ
  obtain ⟨hcount, hall⟩ := hempty.load_all hs.coherent hs.keyed hs.numbered
    (fun d _ => by simp [DeliveryQueue.get?, DeliveryQueue.contains, DeliveryQueue.ofSettings])
    (by
      have hfits := h.stored_fits
      have hcount : ((x.session.deliveries.map Delivery.rewound).countP fun d =>
          d.direction = .outgoing) =
            x.session.deliveries.countP fun d => d.direction = .outgoing := by
        simp [List.countP_map, Function.comp_def]
      simpa [DeliveryQueue.outgoingCount, DeliveryQueue.ofSettings, hcount] using hfits)
  have hsound := hempty.load hs.coherent
  simp only [DeliveryQueue.resume, if_true, Session.restore_kept, Prod.mk.injEq] at hr
  obtain ⟨rfl, rfl, rfl⟩ := hr
  exact ⟨by simpa using hcount, hsound, by simpa [DeliveryQueue.ofSettings] using hall, rfl⟩

theorem turn_accept (h : x.queue.Sound σ) {p : Publish} {outcome : Acceptance} {q : DeliveryQueue}
    (hp : p.Numbered) (ha : x.queue.accept p = (outcome, q)) (hk : k.id ≠ 0) :
    (x.slot k).Turn σ k (.accepted p outcome) (slot { x with queue := q } k) := by
  rcases h.keyed.accept_cases hp with ⟨hfree, he⟩ | ⟨hheld, he⟩
  · obtain ⟨rfl, rfl⟩ := Prod.mk.inj (ha.symm.trans he)
    have hget := h.keyed.get?_enqueue (fun _ => hfree) hk
    unfold slot Slot.ofKey
    rw [hget]
    split
    next heq =>
      subst heq
      exact .arrive rfl hp hfree
    next hne => exact .idle hne
  · obtain ⟨rfl, rfl⟩ := Prod.mk.inj (ha.symm.trans he)
    have hget := h.keyed.get?_modify (f := Delivery.reopened)
      (fun e (he : e.key = (Delivery.received p).key) => by simpa using he) hk
    unfold slot Slot.ofKey
    rw [hget]
    split
    next heq =>
      subst heq
      exact .repeated rfl hheld
    next hne => exact .idle hne

theorem turn_issue (h : x.queue.Sound σ) {r : Request} {id : UInt16} {q : DeliveryQueue}
    {s : Session} (hi : x.queue.issue x.session r.delivery = .ok (id, q, s)) (hk : k.id ≠ 0) :
    (x.slot k).Turn σ k (.issued r id) (slot { queue := q, session := s } k) := by
  obtain ⟨_, _, hfree, hbusy, rfl, hs⟩ := DeliveryQueue.issue_spec hi
  have hqueued : x.queue.get? ⟨id, .outgoing⟩ = none :=
    (h.keyed.contains_eq_false_iff _).mp hbusy
  have hget := h.keyed.get?_enqueue (d := r.delivery id) (fun _ => by simpa using hqueued) hk
  have hstored : s.get? k =
      if k = ⟨id, .outgoing⟩ then (some (r.delivery id)).filter Delivery.isTracked
      else x.session.get? k := by
    cases htracked : (r.delivery id).isTracked with
    | true =>
      rw [hs, htracked, if_pos rfl, Session.get?_put, Request.key_delivery]
      simp only [Option.filter, htracked, if_true]
      rfl
    | false =>
      simp only [hs, Option.filter, htracked, Bool.false_eq_true, if_false]
      split
      next heq => exact heq ▸ hfree
      next => rfl
  rw [Request.key_delivery] at hget
  have hslot : slot ⟨x.queue.enqueue (r.delivery id), s⟩ k = _ := congrArg₂ Slot.mk hget hstored
  rw [hslot]
  by_cases heq : k = ⟨id, .outgoing⟩
  · rw [if_pos heq, if_pos heq]
    exact .issue heq (heq ▸ hqueued)
  · rw [if_neg heq, if_neg heq]
    exact .idle heq

/-- A step does to each slot what its entry says; only a new connection depends on how far the
session mirrors the queue. -/
theorem Step.turn_of_queue (h : Step σ x e y) (hx : x.queue.Sound σ) (hk : k.id ≠ 0)
    (hsame : e.isReconnect = false) : (x.slot k).Turn σ k e (y.slot k) := by
  cases h with
  | issue h => exact turn_issue hx h hk
  | refuse h => exact .idle id
  | accept hp h => exact turn_accept hx hp.numbered h hk
  | @pass acks now q s work h =>
    obtain ⟨hslot, hwork⟩ := hx.slot_pass x.session acks now hk
    have hanswered := hx.tidy.slot_answered hx.named x.session acks hk
    rw [h] at hslot hwork
    have hpass : (x.slot k).Turn σ k _ _ := .pass hanswered hwork
    have heq : slot ⟨q, s⟩ k = _ := hslot
    rw [heq]
    exact hpass
  | reconnect => cases hsame

theorem Step.turn (h : Step σ x e y) (hx : x.Sound σ) (hk : k.id ≠ 0) :
    (x.slot k).Turn σ k e (y.slot k) := by
  cases h with
  | issue h => exact (Step.issue h).turn_of_queue hx.queue hk rfl
  | refuse h => exact .idle id
  | accept hp h => exact (Step.accept hp h).turn_of_queue hx.queue hk rfl
  | pass h => exact (Step.pass h).turn_of_queue hx.queue hk rfl
  | @reconnect loaded q s h =>
    obtain ⟨_, hq, hall, rfl⟩ := hx.resume h
    have hstored := Session.get?_map_rewound x.session k
    have hqueued : q.get? k = (x.session.get? k).map Delivery.rewound := by
      rw [hq.keyed.get?_eq_find? hk, hall]
      exact hstored
    have hslot : slot ⟨q, _⟩ k = _ := congrArg₂ Slot.mk hqueued hstored
    rw [hslot]
    exact .reconnect

theorem Step.issued {r : Request} {id : UInt16} (h : Step σ x (.issued r id) y) (hx : x.Sound σ) :
    id ≠ 0 ∧ x.queue.get? ⟨id, .outgoing⟩ = none ∧
      y.queue.get? ⟨id, .outgoing⟩ = some (r.delivery id) := by
  have hid : id ≠ 0 := by
    cases h with
    | issue h => exact (DeliveryQueue.issue_spec h).2.1
  have hk : (Key.mk id .outgoing).id ≠ 0 := hid
  have hturn := h.turn hx hk
  generalize hy : y.slot ⟨id, .outgoing⟩ = z at hturn
  cases hturn with
  | idle hidle => exact absurd rfl hidle
  | issue _ hfree => exact ⟨hid, hfree, congrArg Slot.queued hy⟩

/-- What a step does to the queue and the session, whether or not they mirror each other. -/
theorem Step.sound_parts (h : Step σ x e y) (hq : x.queue.Sound σ) (hs : x.session.Sound) :
    y.queue.Sound σ ∧ y.session.Sound := by
  cases h with
  | @issue r id q s h =>
    obtain ⟨_, hid, _, _, _, hs'⟩ := DeliveryQueue.issue_spec h
    have hc := r.coherent_delivery hid
    refine ⟨hq.issue h hc (r.key_delivery id), ?_⟩
    have hcount : Session.Sound { x.session with lastId := id } :=
      ⟨hs.keyed, hs.coherent, hs.numbered⟩
    rw [hs']
    split
    · exact hcount.put hc (by rwa [← Delivery.id_key, Request.key_delivery])
    · exact hcount
  | refuse => exact ⟨hq, hs⟩
  | accept hp h =>
    have hq' := hq.accept hp.numbered
    rw [h] at hq'
    exact ⟨hq', hs⟩
  | @pass acks now q s work h =>
    have hq' := hq.pass x.session acks now
    have hs' := hq.session_pass hs acks now
    rw [h] at hq' hs'
    exact ⟨hq', hs'⟩
  | reconnect h =>
    have hr := DeliveryQueue.sound_resume σ hs x.session.clientId false
    rw [h] at hr
    exact hr

theorem Step.sound (h : Step σ x e y) (hx : x.Sound σ) : y.Sound σ := by
  obtain ⟨hq, hs⟩ := h.sound_parts hx.queue hx.session
  exact ⟨hq, hs, fun k hk => (h.turn hx hk).mirrored (hx.owned k) (hx.mirrored k hk)⟩

theorem Run.sound {t : List Entry} (h : Run σ x t y) (hx : x.Sound σ) : y.Sound σ := by
  induction h with
  | nil => exact hx
  | snoc _ step ih => exact step.sound ih

end Exchange
end Mqtt
