import Mqtt.Proofs.Exchange.Sound
import Mqtt.Proofs.Slot.Reception

/-!
A broker's message of quality 2 is handed to the application once, by the first release after it
was confirmed, whatever is repeated or lost on the way.
-/
namespace Mqtt

namespace Slot

variable {id : UInt16} {p : Publish} {x y : Slot} {events : List Event}

theorem Receipts.turn {σ : Settings} {e : Entry} (h : Receipts p x events) (hq : p.qos = 2)
    (ht : x.Turn σ ⟨id, .incoming⟩ e y) (ho : x.Owned ⟨id, .incoming⟩)
    (hm : x.Mirrored ⟨id, .incoming⟩) (hid : id ≠ 0) (hnew : e.admits id = false) :
    Receipts p y (events ++ e.told ⟨id, .incoming⟩) := by
  cases ht with
  | idle hidle =>
    rw [Entry.told_of_not_concerns hidle, List.append_nil]
    exact h
  | issue hk => cases congrArg Key.direction hk
  | @arrive p' hk =>
    have hid' : p'.id.getD 0 = id := (congrArg Key.id hk).symm
    cases hsome : p'.id with
    | none => simp [hsome, Ne.symm hid] at hid'
    | some id' => simp_all [Entry.admits]
  | @repeated p' =>
    have htold : (Entry.accepted p' .duplicate).told ⟨id, .incoming⟩ = [] := rfl
    rw [htold, List.append_nil]
    cases h with
    | held hx hp => exact .held (by rw [hx]; rfl) (by simpa using hp)
    | gone hnone honce => exact .gone (by simp [hnone]) honce
  | pass _ hwork =>
    have htold := congrArg Work.events hwork
    simpa [Entry.told, Entry.work, htold] using h.pass hq ho σ _ _
  | @reconnect loaded =>
    have htold : (Entry.reconnected loaded).told ⟨id, .incoming⟩ = [] := rfl
    rw [htold, List.append_nil]
    rcases hstored : x.stored with _ | d
    · cases h with
      | held => exact .gone rfl (.inl rfl)
      | gone _ honce => exact .gone rfl honce
    · obtain ⟨d', hqueued, hpacket, hs⟩ := hm.packet_stored rfl hstored
      cases h with
      | held hx hp =>
        obtain rfl := Option.some.inj (hqueued.symm.trans hx)
        exact .held rfl (by rw [Delivery.rewound_of_awaitPubrel hs, ← hp, hpacket])
      | gone hnone => simp [hqueued] at hnone

theorem Confirmed.turn {σ : Settings} {e : Entry} (h : Confirmed p x) (hq : p.qos = 2)
    (ht : x.Turn σ ⟨id, .incoming⟩ e y) (ho : x.Owned ⟨id, .incoming⟩)
    (hm : e.isReconnect = true → x.Mirrored ⟨id, .incoming⟩) (hacks : .pubRel id ∉ e.acks) :
    Confirmed p y := by
  cases ht with
  | idle => exact h
  | issue hk => cases congrArg Key.direction hk
  | arrive _ _ hfree =>
    obtain ⟨_, _, hx, _⟩ := h
    simp [hfree] at hx
  | repeated =>
    obtain ⟨d, e, hx, hp, hs⟩ := h
    exact ⟨d.reopened, e, by simp [hx], by simpa using hp, hs⟩
  | pass => exact h.pass hq ho σ hacks _
  | reconnect =>
    obtain ⟨d, e, hx, hp, hs⟩ := h
    obtain ⟨d', hx', hpacket, hstage⟩ := (hm rfl).packet_stored rfl hs
    obtain rfl := Option.some.inj (hx.symm.trans hx')
    refine ⟨e.rewound, e.rewound, by simp [hs], ?_, by simp [hs]⟩
    rw [Delivery.rewound_of_awaitPubrel hstage, ← hp, hpacket]

end Slot

namespace DeliveryQueue

variable {σ : Settings} {q : DeliveryQueue} {m : Publish}

/-- A message that acknowledgments hand over was held, and a PUBREL was for it. -/
theorem Sound.received_applyAcks (h : q.Sound σ) (s : Session) (acks : List Packet)
    (hm : .received m ∈ (q.applyAcks s acks).2.2.events) :
    ∃ d, (.pubRel d.id, d) ∈ q.answered s acks ∧ .pubRel d.id ∈ acks ∧ d.direction = .incoming ∧
      d.packet = .publish m ∧ d.Coherent := by
  induction acks generalizing q s with
  | nil => simp [DeliveryQueue.applyAcks] at hm
  | cons ack acks ih =>
    have hsplit : .received m ∈ (q.applyAck s ack).2.2.events ∨
        .received m ∈ ((q.applyAck s ack).1.applyAcks (q.applyAck s ack).2.1 acks).2.2.events := by
      simpa [DeliveryQueue.applyAcks, Work.append] using hm
    rcases hsplit with hm | hm
    · rw [h.keyed.applyAck_eq s ack] at hm
      rcases hfound : q.match? ack with _ | d
      · cases ack <;> simp [hfound, unmatched] at hm
      · obtain ⟨key, stages, ha, hget, hs⟩ := match?_eq_some_iff.mp hfound
        obtain rfl := h.keyed.key_of_get? hget
        simp only [hfound] at hm
        rcases Delivery.answered_cases ha hs with ⟨_, rfl, _⟩ | ⟨_, e, he⟩ | ⟨hd, rfl, _⟩
        · simp [Packet.type] at hm
        · rw [if_neg he.type_ne] at hm
          cases he <;> simp [completion] at hm
        · refine ⟨d, by simp [answered, hfound], by simp, hd, ?_, h.coherent_of_get? hget⟩
          obtain ⟨p, hp, _⟩ := (h.coherent_of_get? hget).incoming_cases hd
          simpa [Packet.type, completion, Delivery.report, Delivery.message?, hp, eq_comm] using hm
    · obtain ⟨d, hmem, hack, hrest⟩ := ih (h.applyAck s ack) _ hm
      exact ⟨d, List.mem_append_right _ hmem, List.mem_cons_of_mem _ hack, hrest⟩

theorem Sound.qos_of_received_advance (h : q.Sound σ) (s : Session) (now : Nat)
    (hm : .received m ∈ (q.advance s now).2.2.events) : m.qos ≠ 2 := by
  obtain ⟨d, hd, hevent⟩ : ∃ d ∈ q.deliveries,
      .received m ∈ (d.move q.retryDelay q.maxAttempts now).work.events := by
    simpa [DeliveryQueue.advance, moves, List.flatMap_map] using hm
  have hc := h.coherent d hd
  have hmoves := hc.moves q.retryDelay q.maxAttempts now
  generalize d.move q.retryDelay q.maxAttempts now = move at hevent hmoves
  cases hmoves with
  | hand hdir hs | answer hdir hs =>
    obtain ⟨p, hp, hcases⟩ := hc.incoming_cases hdir
    obtain rfl : m = p := by simpa [Delivery.report, Delivery.message?, hp] using hevent
    intro hq
    simp [hs, hq] at hcases
  | giveUp =>
    simp only [Delivery.failure, List.mem_singleton] at hevent
    split at hevent <;> cases hevent
  | send | sendAgain => simp [Delivery.transmit] at hevent
  | _ => simp at hevent

end DeliveryQueue

namespace Exchange

variable {σ : Settings} {s : Session} {x y : Exchange} {p : Publish} {id : UInt16}

theorem Run.receipts {own : List Entry} {events : List Event} (h : Run σ x own y) (hx : x.Sound σ)
    (hid : id ≠ 0) (hq : p.qos = 2) (hstart : (x.slot ⟨id, .incoming⟩).Receipts p events)
    (hown : ∀ e ∈ own, e.admits id = false) :
    (y.slot ⟨id, .incoming⟩).Receipts p (events ++ own.flatMap (Entry.told ⟨id, .incoming⟩)) := by
  induction h with
  | nil => simpa using hstart
  | @snoc t e y z run step ih =>
    have hy := run.sound hx
    have hy' := ih fun f hf => hown f (List.mem_append_left _ hf)
    have hz := hy'.turn hq (step.turn hy hid) (hy.owned _) (hy.mirrored _ hid) hid
      (hown e (by simp))
    simpa [List.append_assoc] using hz

theorem Run.confirmed {t : List Entry} (h : Run σ x t y) (hx : x.Sound σ) (hid : id ≠ 0)
    (hq : p.qos = 2) (hstart : (x.slot ⟨id, .incoming⟩).Confirmed p)
    (ht : ∀ e ∈ t, .pubRel id ∉ e.acks) : (y.slot ⟨id, .incoming⟩).Confirmed p := by
  induction h with
  | nil => exact hstart
  | @snoc t e y z run step ih =>
    have hy := run.sound hx
    have hy' := ih fun f hf => ht f (List.mem_append_left _ hf)
    exact hy'.turn hq (step.turn hy hid) (hy.owned _) (fun _ => hy.mirrored _ hid) (ht e (by simp))

/-- A message is queued where nothing is held. -/
theorem Step.admitted {e : Entry} (h : Step σ x e y) (hx : x.Sound σ) (hid : id ≠ 0)
    (he : e.admits id = true) :
    x.queue.get? ⟨id, .incoming⟩ = none ∧
      ∀ p outcome, e = .accepted p outcome →
        y.queue.get? ⟨id, .incoming⟩ = some (.received p) := by
  have hk : (Key.mk id .incoming).id ≠ 0 := hid
  have hturn := h.turn hx hk
  generalize hy : y.slot ⟨id, .incoming⟩ = z at hturn
  cases e with
  | accepted p outcome =>
    cases outcome with
    | duplicate => cases he
    | queued =>
      have hsome : p.id = some id := by simpa [Entry.admits] using he
      cases hturn with
      | idle hidle => exact absurd (Slot.key_received hsome).symm hidle
      | arrive _ _ hfree =>
        refine ⟨hfree, fun p' _ he => ?_⟩
        cases he
        exact congrArg Slot.queued hy
  | _ => cases he

theorem Step.confirmed {e : Entry} (h : Step σ x e y) (hx : x.Sound σ) (hid : id ≠ 0)
    (he : .pubRec id ∈ e.work.outgoing) :
    ∃ d, y.slot ⟨id, .incoming⟩ = { queued := some d, stored := some d } := by
  have hk : (Key.mk id .incoming).id ≠ 0 := hid
  have hturn := h.turn hx hk
  generalize y.slot ⟨id, .incoming⟩ = z at hturn
  cases hturn with
  | idle hidle => simp [Entry.work_of_not_concerns hidle] at he
  | @pass acks now answered work _ hwork =>
    refine (hx.owned _).confirmed_of_pubRec σ acks now ?_
    rw [← hwork]
    exact List.mem_filter.mpr ⟨he, by simp [Packet.origin?]⟩
  | _ => cases he

theorem Step.released {e : Entry} {m : Publish} (h : Step σ x e y) (hx : x.Sound σ)
    (hm : .received m ∈ e.work.events) (hq : m.qos = 2) :
    ∃ id d, m.id = some id ∧ .pubRel id ∈ e.acks ∧ (.pubRel id, d) ∈ e.answered ∧
      d.key = ⟨id, .incoming⟩ ∧ d.packet = .publish m ∧
      y.queue.get? ⟨id, .incoming⟩ = none ∧ y.session.get? ⟨id, .incoming⟩ = none := by
  cases h with
  | @pass acks now q s' work hpass =>
    have hwork : work = (x.queue.pass x.session acks now).2.2 := by rw [hpass]
    have hsplit : .received m ∈ (x.queue.applyAcks x.session acks).2.2.events ∨
        .received m ∈ ((x.queue.applyAcks x.session acks).1.advance
          (x.queue.applyAcks x.session acks).2.1 now).2.2.events := by
      simpa [Entry.work, hwork, DeliveryQueue.pass, Work.append] using hm
    rcases hsplit with hm | hm
    case inr =>
      exact absurd hq ((hx.queue.applyAcks x.session acks).qos_of_received_advance _ now hm)
    obtain ⟨d, hmem, hack, hdir, hp, hc⟩ := hx.queue.received_applyAcks x.session acks hm
    have hcarried := hc.carried
    have hqos : d.qos = 2 := by simp [Delivery.qos, Delivery.message?, hp, hq]
    have hsome : m.id = some d.id := by simpa [hp, Packet.id?, hqos] using hcarried
    have hid : d.id ≠ 0 := fun hz => by simpa [hqos] using (hc.numbered.mp hz).2
    have hkey : d.key = ⟨d.id, .incoming⟩ := by simp [Delivery.key, hdir]
    have hk : d.key.id ≠ 0 := hid
    obtain ⟨hslot, _⟩ := hx.queue.slot_pass x.session acks now hk
    have hanswered := hx.queue.tidy.slot_answered hx.queue.named x.session acks hk
    have hfound :
        (x.slot ⟨d.id, .incoming⟩).answered σ.maxAttempts ⟨d.id, .incoming⟩ acks ≠ [] := by
      rw [hkey] at hanswered
      refine List.ne_nil_of_mem (a := (Packet.pubRel d.id, d)) ?_
      exact hanswered ▸ List.mem_filter.mpr ⟨hmem, by simp [hkey]⟩
    have hempty := (hx.owned _).pass_of_answered σ acks now hfound
    rw [hpass, hkey] at hslot
    have hempty := hslot.trans hempty
    exact ⟨d.id, d, hsome, hack, hmem, hkey, hp, congrArg Slot.queued hempty,
      congrArg Slot.stored hempty⟩
  | _ => cases hm

/-- Once a pass has sent a PUBREC for a message, the message is held and stored. -/
theorem Run.confirmed_of_pubRec {a b : List Entry} {e : Entry} (h : Run σ x (a ++ e :: b) y)
    (hx : x.Sound σ) (hid : id ≠ 0) (hq : p.qos = 2)
    (hstart : (x.slot ⟨id, .incoming⟩).Receipts p [])
    (hown : ∀ f ∈ a ++ e :: b, f.admits id = false) (he : .pubRec id ∈ e.work.outgoing) :
    ∃ z, Run σ z b y ∧ z.Sound σ ∧ (z.slot ⟨id, .incoming⟩).Confirmed p := by
  obtain ⟨u, ha, h⟩ := h.of_append
  obtain ⟨z, step, hb⟩ := h.of_cons
  have hu := ha.sound hx
  have hreceipts := (Run.snoc ha step).receipts hx hid hq hstart fun f hf => hown f (by
    rcases List.mem_append.mp hf with hf | hf
    · exact List.mem_append_left _ hf
    · exact List.mem_append_right _ (by simpa using .inl (List.mem_singleton.mp hf)))
  obtain ⟨d, hslot⟩ := step.confirmed hu hid he
  refine ⟨z, hb, step.sound hu, ?_⟩
  rw [hslot] at hreceipts ⊢
  generalize [] ++ (a ++ [e]).flatMap (Entry.told ⟨id, .incoming⟩) = told at hreceipts
  cases hreceipts with
  | held hqueued hp =>
    obtain rfl := Option.some.inj hqueued
    exact ⟨d, d, rfl, hp, rfl⟩
  | gone hnone => cases hnone

theorem Step.handed {e : Entry} (h : Step σ x e y) (hx : x.Sound σ) (hid : id ≠ 0)
    (hq : p.qos = 2) (hc : (x.slot ⟨id, .incoming⟩).Confirmed p) (he : .pubRel id ∈ e.acks) :
    e.told ⟨id, .incoming⟩ = [.received p] ∧ .pubComp id ∈ e.work.outgoing := by
  have hk : (Key.mk id .incoming).id ≠ 0 := hid
  have hturn := h.turn hx hk
  generalize y.slot ⟨id, .incoming⟩ = z at hturn
  cases hturn with
  | @pass acks now answered work _ hwork =>
    have he : .pubRel id ∈ acks := he
    obtain ⟨hevents, hpubComp⟩ := hc.pass_of_mem hq (hx.owned _) σ he now
    rw [← hwork] at hevents hpubComp
    exact ⟨hevents, List.mem_of_mem_filter hpubComp⟩
  | idle hidle =>
    cases e with
    | passed => exact absurd trivial hidle
    | _ => cases he
  | _ => cases he

/-- A message of quality 2 is handed over only by a PUBREL for it, which takes it out. One that was
queued is handed over at most once before another is queued under its identifier; once confirmed
it is kept until the first pass with a PUBREL, which hands it over and confirms that. -/
theorem received_exactly_once :
    (∀ {early : List Entry} {x y : Exchange} {e : Entry} {m : Publish},
      Run σ (start σ s) early x → Step σ x e y → .received m ∈ e.work.events → m.qos = 2 →
        ∃ id d, m.id = some id ∧ .pubRel id ∈ e.acks ∧ (.pubRel id, d) ∈ e.answered ∧
          d.key = ⟨id, .incoming⟩ ∧ d.packet = .publish m ∧
          y.queue.get? ⟨id, .incoming⟩ = none ∧ y.session.get? ⟨id, .incoming⟩ = none) ∧
    ∀ {early late : List Entry} {p : Publish} {id : UInt16} {x : Exchange},
      Run σ (start σ s) (early ++ .accepted p .queued :: late) x → p.qos = 2 → p.id = some id →
        let key : Key := ⟨id, .incoming⟩
        let own := late.takeWhile fun e => !e.admits id
        (own.flatMap (Entry.told key) = [] ∨ own.flatMap (Entry.told key) = [.received p]) ∧
        ∀ a e b, own = a ++ e :: b → .pubRec id ∈ e.work.outgoing →
          ((∀ f ∈ b, .pubRel id ∉ f.acks) →
            own = late ∧ own.flatMap (Entry.told key) = [] ∧
              (∃ d, x.queue.get? key = some d ∧ d.packet = .publish p) ∧
              ∃ d, x.session.get? key = some d ∧ d.packet = .publish p) ∧
          ∀ c f rest, b = c ++ f :: rest → (∀ g ∈ c, .pubRel id ∉ g.acks) → .pubRel id ∈ f.acks →
            f.told key = [.received p] ∧ .pubComp id ∈ f.work.outgoing := by
  refine ⟨fun hearly step hm hq => step.released (hearly.sound (sound_start σ s)) hm hq, ?_⟩
  intro early late p id x h hq hsome key own
  obtain ⟨x₀, hearly, h⟩ := h.of_append
  obtain ⟨x₁, step, hlate⟩ := h.of_cons
  have hx₀ := hearly.sound (sound_start σ s)
  have hx₁ := step.sound hx₀
  have hid : id ≠ 0 := by
    cases step with
    | accept hdecoded =>
      rcases hdecoded.numbered.id_eq with ⟨hz, _⟩ | ⟨_, id', hne, hid'⟩
      · simp [hq] at hz
      · simp_all
  have hqueued := (step.admitted hx₀ hid (by simp [Entry.admits, hsome])).2 p .queued rfl
  have hstart : (x₁.slot key).Receipts p [] := .held hqueued rfl
  have hown : ∀ e ∈ own, e.admits id = false := fun e he => by
    simpa using List.mem_takeWhile_imp he
  obtain ⟨z, hz, hwindow⟩ := hlate.window fun e => !e.admits id
  change Run σ x₁ own z at hz
  have hz' := hz.sound hx₁
  have hreceipts := hz.receipts hx₁ hid hq hstart hown
  rw [List.nil_append] at hreceipts
  change Slot.Receipts p (z.slot key) (own.flatMap (Entry.told key)) at hreceipts
  refine ⟨?_, fun a e b hsplit he => ?_⟩
  · generalize own.flatMap (Entry.told key) = told at hreceipts ⊢
    cases hreceipts with
    | held => exact .inl rfl
    | gone _ honce => exact honce
  obtain ⟨v, hb, hv, hconfirmed⟩ :=
    (hsplit ▸ hz).confirmed_of_pubRec hx₁ hid hq hstart (hsplit ▸ hown) he
  refine ⟨fun hacks => ?_, fun c f rest hb' hc hf => ?_⟩
  · obtain ⟨d, d', hd, hp, hd'⟩ := hb.confirmed hv hid hq hconfirmed hacks
    obtain ⟨d'', hd'', hpacket, _⟩ := (hz'.mirrored key hid).packet_stored rfl hd'
    obtain rfl := Option.some.inj (hd.symm.trans hd'')
    have htold : own.flatMap (Entry.told key) = [] := by
      generalize own.flatMap (Entry.told key) = told at hreceipts ⊢
      cases hreceipts with
      | held => rfl
      | gone hnone => cases hd.symm.trans hnone
    rcases hwindow with ⟨hall, rfl⟩ | ⟨g, rest, z', _, hg, step'⟩
    · exact ⟨hall, htold, ⟨d, hd, hp⟩, d', hd', hpacket.symm.trans hp⟩
    · -- the next message under the identifier would be queued where this one is held
      have hfree := (step'.admitted hz' hid (by simpa using hg)).1
      have hd : z.queue.get? key = some d := hd
      simp [key, hfree] at hd
  · obtain ⟨u, hu, h⟩ := (hb' ▸ hb).of_append
    obtain ⟨w, step', _⟩ := h.of_cons
    exact step'.handed (hu.sound hv) hid hq (hu.confirmed hv hid hq hconfirmed hc) hf

/-- A message is confirmed, repeated with another text on a second connection, and released. -/
theorem received_exactly_once_of_repeated :
    ∃ x, Run {} (start {} { clientId := "c" })
        ([] ++ .accepted ⟨false, 2, false, "a", some 7, []⟩ .queued ::
          [.passed [] 0 [] { outgoing := [.pubRec 7] },
            .reconnected 1,
            .accepted ⟨true, 2, false, "b", some 7, []⟩ .duplicate,
            .passed [.pubRel 7] 1
              [(.pubRel 7, ⟨.publish ⟨false, 2, false, "a", some 7, []⟩, .queued2, .incoming, 7, 0,
                none⟩)]
              { outgoing := [.pubComp 7]
                events := [.received ⟨false, 2, false, "a", some 7, []⟩] }]) x ∧
      Entry.told ⟨7, .incoming⟩
          (.passed [.pubRel 7] 1
            [(.pubRel 7, ⟨.publish ⟨false, 2, false, "a", some 7, []⟩, .queued2, .incoming, 7, 0,
              none⟩)]
            { outgoing := [.pubComp 7]
              events := [.received ⟨false, 2, false, "a", some 7, []⟩] }) =
        [.received ⟨false, 2, false, "a", some 7, []⟩] := by
  have hfirst : Publish.IsDecoded ⟨false, 2, false, "a", some 7, []⟩ :=
    ⟨[0x34, 0x05, 0x00, 0x01, 0x61, 0x00, 0x07], 7, rfl⟩
  have hagain : Publish.IsDecoded ⟨true, 2, false, "b", some 7, []⟩ :=
    ⟨[0x3c, 0x05, 0x00, 0x01, 0x62, 0x00, 0x07], 7, rfl⟩
  refine ⟨_, (and_iff_left_of_imp fun h => ?_).mpr
    (.cons (.accept hfirst rfl) (.cons (.pass rfl) (.cons (.reconnect rfl)
      (.cons (.accept hagain rfl) (.cons (.pass rfl) .nil)))))⟩
  exact (((received_exactly_once.2 h rfl rfl).2 [] _ [_, _, _] rfl (by decide)).2 [_, _] _ [] rfl
    (by decide) (by decide)).1

end Exchange
end Mqtt
