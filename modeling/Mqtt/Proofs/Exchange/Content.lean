import Mqtt.Proofs.Exchange.Sound

/-!
What a delivery carries stays with it. Whatever is stored under a key carries the same message until
it is given up, also in a session that another connection takes up.
-/
namespace Mqtt

def Packet.content : Packet → Packet
  | .publish p => .publish { p with dup := false }
  | p => p

namespace Delivery

def content (d : Delivery) : Packet :=
  d.packet.content

theorem content_withDup (d : Delivery) (dup : Bool) : (d.withDup dup).content = d.content := by
  cases hpacket : d.packet <;> simp [content, withDup, hpacket, Packet.content]

theorem content_rewound (d : Delivery) : d.rewound.content = d.content := by
  unfold rewound
  dsimp only
  split
  next => exact content_withDup _ true
  next => exact content_withDup _ true
  next => exact content_withDup _ false
  next => rfl

theorem content_release (maxAttempts : Nat) (d : Delivery) :
    (DeliveryQueue.release maxAttempts d).content = d.content := by
  unfold DeliveryQueue.release
  split
  next => rfl
  next => split <;> rfl

theorem Moves.content_next {d e : Delivery} {maxAttempts now : Nat} {m : Move}
    (h : d.Moves maxAttempts now m) (he : m.next = some e) : e.content = d.content := by
  cases h with
  | send | confirm | wait =>
    cases he
    rfl
  | sendAgain =>
    cases he
    exact content_withDup d true
  | giveUp | fire | hand | answer => cases he

end Delivery

namespace Slot

/-- Whatever the slot holds carries the message. -/
structure Carries (x : Slot) (p : Packet) : Prop where
  queued : ∀ d, x.queued = some d → d.content = p
  stored : ∀ d, x.stored = some d → d.content = p

variable {σ : Settings} {k : Key} {x y : Slot} {p : Packet} {z z' : Delivery}

theorem carries_empty (p : Packet) : Carries { queued := none, stored := none } p :=
  ⟨fun d hd => (Option.not_mem_none d hd).elim, fun d hd => (Option.not_mem_none d hd).elim⟩

theorem Mirrored.carries (h : x.Mirrored k) (hz : x.stored = some z) : x.Carries z.content := by
  have hstored : ∀ d, x.stored = some d → d.content = z.content := by
    intro d hd
    cases hz.symm.trans hd
    rfl
  refine ⟨fun d hd => ?_, hstored⟩
  cases h with
  | settled h =>
    cases h with
    | ours _ d? =>
      obtain rfl : d? = some d := hd
      have hfiltered : (some d).filter Delivery.isTracked = some z := hz
      cases (Option.filter_eq_some_iff.mp hfiltered).1
      rfl
    | theirs => exact hstored d hd
  | arrived => cases hz
  | repeated =>
    cases hz
    cases hd
    rfl

theorem Carries.reply {maxAttempts : Nat} {ack : Packet} {found : Option Delivery} {w : Work}
    (h : x.Carries p) (hr : x.Replies maxAttempts k ack found y w) : y.Carries p := by
  cases hr with
  | stray => exact h
  | @release d hx =>
    refine ⟨fun e he => ?_, h.stored⟩
    cases he
    exact (Delivery.content_release maxAttempts d).trans (h.queued d hx)
  | finish | hand => exact carries_empty p

theorem Carries.move {maxAttempts now : Nat} {d : Delivery} {m : Move} (h : x.Carries p)
    (hd : x.queued = some d) (hm : d.Moves maxAttempts now m) :
    Carries { queued := m.next, stored := record x.stored m.record } p := by
  have hnext : ∀ e, m.next = some e → e.content = p :=
    fun e he => (hm.content_next he).trans (h.queued d hd)
  refine ⟨hnext, fun e he => ?_⟩
  cases hr : m.record with
  | keep =>
    rw [hr] at he
    exact h.stored e he
  | put e' =>
    rw [hr] at he
    cases he
    exact hnext e (hm.next_of_put hr)
  | erase key =>
    rw [hr] at he
    cases he

theorem Carries.pass (h : x.Carries p) (ho : x.Owned k) (σ : Settings) (acks : List Packet)
    (now : Nat) : (x.pass σ k acks now).1.Carries p :=
  ho.pass_induction (P := fun y _ _ => y.Carries p) (Q := fun y _ _ => y.Carries p) σ now h
    (fun _ hy hr => hy.reply hr) (fun hy _ => hy) (fun _ hy hd hm => hy.move hd hm) acks

/-- What is stored before and after carries the same. -/
theorem Turn.content {e : Entry} (h : x.Turn σ k e y) (ho : x.Owned k) (hx : x.Mirrored k)
    (hz : x.stored = some z) (hz' : y.stored = some z') : z'.content = z.content := by
  have hcarries := hx.carries hz
  cases h with
  | idle | arrive | repeated => exact hcarries.stored z' hz'
  | issue _ free => cases (hx.stored_eq_none free).symm.trans hz
  | pass => exact (hcarries.pass ho σ _ _).stored z' hz'
  | reconnect =>
    rw [hz] at hz'
    cases hz'
    exact Delivery.content_rewound z

end Slot

namespace Session

@[simp] theorem clientId_put (s : Session) (d : Delivery) : (s.put d).clientId = s.clientId := by
  unfold put
  split <;> rfl

@[simp] theorem clientId_record (s : Session) (r : Record) :
    (s.record r).clientId = s.clientId := by
  cases r with
  | put d => exact clientId_put s d
  | keep | erase => rfl

end Session

namespace Exchange

variable {σ : Settings} {x y : Exchange} {e : Entry} {k : Key} {z z' : Delivery}

theorem Step.content (h : Step σ x e y) (hx : x.Sound σ) (hz : x.session.get? k = some z)
    (hz' : y.session.get? k = some z') : z'.content = z.content := by
  obtain ⟨hmem, rfl⟩ := hx.session.keyed.get?_eq_some_iff.mp hz
  have hk := hx.session.numbered z hmem
  exact (h.turn hx hk).content (hx.owned z.key) (hx.mirrored z.key hk) hz hz'

/-- No step hands the session to another client. -/
theorem Step.clientId (h : Step σ x e y) (hx : x.Sound σ) :
    y.session.clientId = x.session.clientId := by
  cases h with
  | issue h =>
    obtain ⟨_, _, _, _, _, rfl⟩ := DeliveryQueue.issue_spec h
    split
    next => exact Session.clientId_put ..
    next => rfl
  | refuse | accept => rfl
  | @pass acks now q s work h =>
    have hkept := hx.queue.tidy.session_pass
      (R := fun s : Session => s.clientId = x.session.clientId) rfl (fun _ _ hs => hs) acks now
      fun _ _ t ht => (Session.clientId_record t _).trans ht
    rw [h] at hkept
    exact hkept
  | reconnect h =>
    obtain ⟨_, _, _, rfl⟩ := hx.resume h
    rfl

/-- Whoever takes up the session and however, a new queue and what is left of it mirror each
other. -/
theorem Sound.taken (h : x.Sound σ) (clientId : String) (clean : Bool) :
    let taken := (DeliveryQueue.ofSettings σ).resume x.session clientId clean
    Sound σ ⟨taken.2.1, taken.2.2⟩ := by
  intro taken
  by_cases hsame : x.session.clientId = clientId ∧ clean = false
  · obtain ⟨rfl, rfl⟩ := hsame
    have hstep : Step σ x (.reconnected taken.1) ⟨taken.2.1, taken.2.2⟩ := .reconnect rfl
    exact hstep.sound h
  · -- nothing is left of it
    let s : Session := if x.session.clientId = clientId then x.session else { clientId }
    have hcleared : (⟨taken.2.1, taken.2.2⟩ : Exchange) = start σ s := by
      dsimp only [taken, s, DeliveryQueue.resume]
      cases clean with
      | true => rfl
      | false =>
        have hother : x.session.clientId ≠ clientId := fun heq => hsame ⟨heq, rfl⟩
        simp [hother, Session.restore_kept, start, Session.clear, DeliveryQueue.load]
    rw [hcleared]
    exact sound_start σ s

end Exchange
end Mqtt
