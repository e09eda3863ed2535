import Mqtt.Proofs.Exchange.Sound

/-! What one connection after the other can make of a session. -/
namespace Mqtt.Exchange

/-- The queues and sessions that the steps of a connection lead to. The next connection may be
another client's, with settings of its own, and may ask for a clean start. -/
inductive Reachable : Settings → Exchange → Prop where
  | start (σ : Settings) (s : Session) : Reachable σ (start σ s)
  | step {σ : Settings} {x y : Exchange} {e : Entry} (h : Reachable σ x) (step : Step σ x e y) :
      Reachable σ y
  | connect {σ τ : Settings} {x : Exchange} {clientId : String} {clean : Bool} {loaded : Nat}
      {q : DeliveryQueue} {s : Session} (h : Reachable σ x)
      (resumed : (DeliveryQueue.ofSettings τ).resume x.session clientId clean = (loaded, q, s)) :
      Reachable τ { queue := q, session := s }

variable {σ : Settings} {x y : Exchange}

theorem Reachable.sound (h : Reachable σ x) : x.queue.Sound σ ∧ x.session.Sound := by
  induction h with
  | start σ s => exact ⟨DeliveryQueue.sound_ofSettings σ, Session.sound_clear s⟩
  | step _ step ih => exact step.sound_parts ih.1 ih.2
  | @connect _ τ _ clientId clean _ _ _ _ resumed ih =>
    have hr := DeliveryQueue.sound_resume τ ih.2 clientId clean
    rw [resumed] at hr
    exact hr

theorem Reachable.run {t : List Entry} (h : Reachable σ x) (run : Run σ x t y) :
    Reachable σ y := by
  induction run with
  | nil => exact h
  | snoc _ step ih => exact .step ih step

end Mqtt.Exchange
