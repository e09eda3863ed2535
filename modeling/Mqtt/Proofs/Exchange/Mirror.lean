import Mqtt.Proofs.Exchange.Sound

/-! The session stores exactly the unfinished handshakes of the queue, and gives them all back. -/
namespace Mqtt

namespace DeliveryQueue

variable {σ : Settings} {q : DeliveryQueue}

theorem Sound.nodup_filter (h : q.Sound σ) {p : Delivery → Bool}
    (hp : ∀ d ∈ q.deliveries, p d = true → d.id ≠ 0) : (q.deliveries.filter p).Nodup := by
  refine List.Nodup.of_map Delivery.key
    ((h.keyed.distinct.sublist List.filter_sublist).nodup_keys fun d hd => ?_)
  obtain ⟨hmem, hpd⟩ := List.mem_filter.mp hd
  exact hp d hmem hpd

end DeliveryQueue

namespace Exchange

variable {σ : Settings} {s : Session} {x y : Exchange}

/-- Two ways to keep the same deliveries. -/
theorem Sound.perm_of_get? (h : x.Sound σ) {f g : Delivery → Bool}
    (hg : ∀ d ∈ x.queue.deliveries, g d = true → d.id ≠ 0)
    (hget : ∀ (k : Key) (d : Delivery), k.id ≠ 0 →
      (x.session.get? k = some d ∧ f d = true ↔ x.queue.get? k = some d ∧ g d = true)) :
    (x.session.deliveries.filter f).Perm (x.queue.deliveries.filter g) := by
  refine (List.perm_ext_iff_of_nodup ?_ (h.queue.nodup_filter hg)).mpr fun d => ?_
  · exact (List.Nodup.of_map _ h.session.keyed).filter f
  rw [List.mem_filter, List.mem_filter]
  constructor
  · rintro ⟨hd, hf⟩
    obtain ⟨hid, hstored⟩ := h.stored_of_mem hd
    obtain ⟨hqueued, hgd⟩ := (hget d.key d hid).mp ⟨hstored, hf⟩
    exact ⟨(h.queue.keyed.get?_eq_some_iff.mp hqueued).2.1, hgd⟩
  · rintro ⟨hd, hgd⟩
    have hid : d.key.id ≠ 0 := hg d hd hgd
    have hqueued := h.queue.keyed.get?_eq_some_iff.mpr ⟨hid, hd, rfl⟩
    obtain ⟨hstored, hf⟩ := (hget d.key d hid).mpr ⟨hqueued, hgd⟩
    exact ⟨(h.session.keyed.get?_eq_some_iff.mp hstored).1, hf⟩

theorem Sound.perm_outgoing (h : x.Sound σ) :
    (x.session.deliveries.filter fun d => d.direction = .outgoing).Perm
      (x.queue.deliveries.filter fun d => d.direction = .outgoing ∧ d.isTracked) := by
  refine h.perm_of_get? (fun d hd hout => ?_) fun k d hk => ?_
  · have hout : d.direction = .outgoing := by simp_all
    intro hz
    simp [((h.queue.coherent d hd).numbered.mp hz).1] at hout
  · by_cases hout : k.direction = .outgoing
    · rw [h.stored_outgoing hk hout, Option.filter_eq_some_iff]
      simp only [decide_eq_true_eq]
      tauto
    · constructor
      · rintro ⟨hget, hdir⟩
        obtain ⟨_, rfl⟩ := h.session.keyed.get?_eq_some_iff.mp hget
        exact absurd (by simpa using hdir) hout
      · rintro ⟨hget, hdir⟩
        obtain rfl := h.queue.keyed.key_of_get? hget
        exact absurd (by simp_all) hout

theorem Step.settled {acks : List Packet} {now : Nat} {answered : List (Packet × Delivery)}
    {work : Work} (h : Step σ y (.passed acks now answered work) x) (hy : y.Sound σ) {k : Key}
    (hk : k.id ≠ 0) : (x.slot k).Settled k := by
  have hturn := h.turn hy hk
  generalize x.slot k = z at hturn
  cases hturn with
  | idle hidle => exact absurd trivial hidle
  | pass => exact (hy.mirrored k hk).pass (hy.owned k) σ acks now

theorem Step.stored_pass {acks : List Packet} {now : Nat} {answered : List (Packet × Delivery)}
    {work : Work} (h : Step σ y (.passed acks now answered work) x) (hy : y.Sound σ) {k : Key}
    (hk : k.id ≠ 0) :
    x.session.get? k =
      (x.queue.get? k).filter fun d => d.direction = .incoming ∨ d.isTracked := by
  have hsettled := h.settled hy hk
  have hkey : ∀ d, x.queue.get? k = some d → d.direction = k.direction := fun d hd =>
    congrArg Key.direction ((h.sound hy).queue.keyed.key_of_get? hd)
  generalize hz : x.slot k = z at hsettled
  have hqueued : x.queue.get? k = z.queued := congrArg Slot.queued hz
  have hstored : x.session.get? k = z.stored := congrArg Slot.stored hz
  rw [hqueued] at hkey ⊢
  rw [hstored]
  cases hsettled with
  | ours hout d? =>
    rcases d? with _ | d
    · rfl
    · simp [Option.filter, hkey d rfl, hout]
  | @theirs hin d? =>
    rcases d? with _ | d
    · rfl
    · simp [Option.filter, hkey d rfl, hin]

/-- The session stores each unfinished handshake once. Our own messages above quality 0 are stored
as they are queued at any time; after a pass the broker's are too, all of quality 2 and waiting for
their release. So a new connection takes up all that is stored. -/
theorem session_mirrors_queue {t : List Entry} (h : Run σ (start σ s) t x) :
    (x.session.deliveries.map Delivery.key).Nodup ∧
      (x.session.deliveries.filter fun d => d.direction = .outgoing).Perm
        (x.queue.deliveries.filter fun d => d.direction = .outgoing ∧ d.isTracked) ∧
      (∀ early acks now answered work, t = early ++ [.passed acks now answered work] →
        x.session.deliveries.Perm
            (x.queue.deliveries.filter fun d => d.direction = .incoming ∨ d.isTracked) ∧
          ∀ d ∈ x.queue.deliveries, d.direction = .incoming →
            d.stage = .awaitPubrel ∧ ∃ p, d.packet = .publish p ∧ p.qos = 2) ∧
      ∀ loaded q s',
        (DeliveryQueue.ofSettings σ).resume x.session x.session.clientId false = (loaded, q, s') →
          loaded = x.session.deliveries.length ∧
            q.deliveries = x.session.deliveries.map Delivery.rewound := by
  have hx := h.sound (sound_start σ s)
  refine ⟨hx.session.keyed, hx.perm_outgoing, ?_, fun loaded q s' hr => ?_⟩
  · rintro early acks now answered work rfl
    obtain ⟨y, hearly, step⟩ := h.of_snoc
    have hy := hearly.sound (sound_start σ s)
    have htheirs : ∀ d ∈ x.queue.deliveries, d.direction = .incoming →
        d.stage = .awaitPubrel ∧ ∃ p, d.packet = .publish p ∧ p.qos = 2 := by
      intro d hd hdir
      have hs : d.stage = .awaitPubrel := by
        cases step with
        | pass hpass =>
          have hall := hy.queue.awaitPubrel_of_mem_pass y.session acks now
          rw [hpass] at hall
          exact hall d hd hdir
      obtain ⟨p, hp, ⟨_, hs'⟩ | ⟨_, hs'⟩ | ⟨hq, _⟩⟩ := (hx.queue.coherent d hd).incoming_cases hdir
      case inr.inr => exact ⟨hs, p, hp, hq⟩
      all_goals simp [hs] at hs'
    refine ⟨?_, htheirs⟩
    have hperm := hx.perm_of_get? (f := fun _ => true)
      (g := fun d => d.direction = .incoming ∨ d.isTracked) (fun d hd hg hz => ?_) fun k d hk => ?_
    · simpa using hperm
    · obtain ⟨hin, hq⟩ := (hx.queue.coherent d hd).numbered.mp hz
      obtain ⟨_, p, hp, hq2⟩ := htheirs d hd hin
      simp [Delivery.qos, Delivery.message?, hp, hq2] at hq
    · rw [step.stored_pass hy hk, Option.filter_eq_some_iff]
      simp
  · obtain ⟨hloaded, _, hall, _⟩ := hx.resume hr
    exact ⟨hloaded, hall⟩

/-- A message of each side, both unfinished after a pass. -/
theorem session_mirrors_queue_of_both :
    ∃ x, Run {} (start {} { clientId := "c" })
        ([.issued (.publish ⟨false, 1, false, "a", none, []⟩) 1,
            .accepted ⟨false, 2, false, "a", some 7, []⟩ .queued] ++
          [.passed [] 0 []
            { outgoing := [.publish ⟨false, 1, false, "a", some 1, []⟩, .pubRec 7] }]) x ∧
      x.session.deliveries.length = 2 ∧
      x.session.deliveries.Perm
        (x.queue.deliveries.filter fun d => d.direction = .incoming ∨ d.isTracked) := by
  have hdecoded : Publish.IsDecoded ⟨false, 2, false, "a", some 7, []⟩ :=
    ⟨[0x34, 0x05, 0x00, 0x01, 0x61, 0x00, 0x07], 7, rfl⟩
  refine ⟨_, (and_iff_left_of_imp fun h => ?_).mpr
    (.cons (.issue rfl) (.cons (.accept hdecoded rfl) (.cons (.pass rfl) .nil)))⟩
  exact ⟨rfl, ((session_mirrors_queue h).2.2.1 _ _ _ _ _ rfl).1⟩

end Exchange
end Mqtt
