import Mqtt.Proofs.Client.Step.Actions
import Mqtt.Proofs.Exchange.Deadline

/-!
The queue and the session in the hands of a client. Whatever its tasks do, both keep what every
operation on them preserves.
-/
namespace Mqtt

/-- A frame that is one whole message is decoded. -/
theorem Publish.isDecoded_of_ofFrame {frame : Octets} {p : Publish}
    (h : Packet.ofFrame frame = .ok (.publish p)) : p.IsDecoded := by
  obtain ⟨decoded, hdecode, h⟩ := exists_of_bind_eq_ok h
  split at h
  next packet size =>
    cases h
    exact ⟨frame, size, hdecode⟩
  next => cases h

namespace Client

def exchange (c : Client) : Exchange :=
  { queue := c.connection.queue, session := c.session }

/-- Queue and session are in order, and only decoded messages are on their way into the queue. -/
structure Kept (c : Client) : Prop where
  queue : c.connection.queue.Sound c.settings
  session : c.session.Sound
  regular : ∃ latest, c.exchange.Regular c.settings latest
  decoded : ∀ p, c.connection.receiver = .routing (.publish p) → p.IsDecoded

variable {c d : Client} {a : Action}

theorem Kept.resume (h : c.Kept) (clientId : String) (clean : Bool) :
    let resumed := c.connection.queue.resume c.session clientId clean
    resumed.2.1.Sound c.settings ∧ resumed.2.2.Sound ∧
      ∃ latest, Exchange.Regular c.settings latest ⟨resumed.2.1, resumed.2.2⟩ := by
  intro resumed
  obtain ⟨latest, hregular⟩ := h.regular
  let s : Session := if c.session.clientId = clientId then c.session else { clientId }
  have hs : s.Sound ∧ ∀ d ∈ s.deliveries, d.Storable := by
    dsimp only [s]
    split
    next => exact ⟨h.session, hregular.stored⟩
    next => exact ⟨Session.sound_clear { clientId }, by simp⟩
  have hloaded := hregular.load hs.2 clean
  have hstored := Exchange.storable_restore hs.2 clean
  have hqueue : (c.connection.queue.load (s.restore clean).1).2.Sound c.settings := by
    refine h.queue.load ?_
    cases clean with
    | true => exact fun _ hd => absurd hd List.not_mem_nil
    | false => exact hs.1.map_rewound.coherent
  have hsession : (s.restore clean).2.Sound := by
    cases clean with
    | true => exact Session.sound_clear s
    | false => exact hs.1.map_rewound
  exact ⟨hqueue, hsession, latest, hloaded.queue, hloaded.rested, hstored⟩

theorem Kept.operate (h : c.Kept) {e : Entry} {y : Exchange}
    (step : c.exchange.Step c.settings e y) :
    y.queue.Sound c.settings ∧ y.session.Sound ∧ ∃ latest, y.Regular c.settings latest := by
  obtain ⟨latest, hregular⟩ := h.regular
  obtain ⟨hqueue, hsession⟩ := step.sound_parts h.queue h.session
  exact ⟨hqueue, hsession, step.regular hregular⟩

theorem Kept.greets {options : ConnectOptions} {line : Line} (h : c.Kept)
    (hgreets : c.Greets options line d) : d.Kept := by
  obtain ⟨latest, hregular⟩ := h.regular
  have hstart := DeliveryQueue.sound_ofSettings c.settings
  have hnew := Exchange.regular_ofSettings c.settings hregular.stored
  cases hgreets with
  | posted | unsendable => exact ⟨hstart, h.session, ⟨0, hnew⟩, nofun⟩

/-- The line is no matter of the queue. -/
theorem Kept.beside (h : c.Kept) (line : Line) (writes : List Write) (lastSent : Nat) :
    Kept { c with connection := { c.connection with line, writes, lastSent } } :=
  { h with }

theorem Kept.heeds {outcome : Except ClientError Unit} {task : Task} (h : c.Kept)
    (hheeds : c.Heeds outcome task d) : d.Kept := by
  cases hheeds with
  | answered | unanswered => exact { h with decoded := nofun }
  | _ => exact { h with }

theorem Kept.callerStep (h : c.Kept) (step : c.CallerStep a d) : d.Kept := by
  cases step with
  | joined _ _ hgreets => exact h.greets hgreets
  | asked _ _ _ hgreets => exact h.greets hgreets
  | @resumed options ack loaded q s _ hresume =>
    have hresumed := h.resume options.clientId options.cleanSession
    rw [hresume] at hresumed
    obtain ⟨hqueue, hsession, hregular⟩ := hresumed
    exact ⟨hqueue, hsession, hregular, h.decoded⟩
  | issued _ _ hissue =>
    obtain ⟨hqueue, hsession, hregular⟩ := h.operate (.issue hissue)
    exact ⟨hqueue, hsession, hregular, h.decoded⟩
  | _ => exact { h with }

theorem Kept.receiverStep (h : c.Kept) (step : c.ReceiverStep a d) : d.Kept := by
  cases step with
  | received hreceiver hpacket =>
    refine { h with decoded := fun p heq => ?_ }
    cases heq
    exact Publish.isDecoded_of_ofFrame hpacket
  | @taken p hreceiver =>
    obtain ⟨hqueue, hsession, hregular⟩ := h.operate (.accept (h.decoded p hreceiver) rfl)
    exact ⟨hqueue, hsession, hregular, nofun⟩
  | _ => exact { h with decoded := nofun }

theorem Kept.workerStep (h : c.Kept) (step : c.WorkerStep a d) : d.Kept := by
  cases step with
  | passed _ hpass =>
    obtain ⟨hqueue, hsession, hregular⟩ := h.operate (.pass hpass)
    exact ⟨hqueue, hsession, hregular, h.decoded⟩
  | _ => exact { h with }

theorem Kept.step (h : c.Kept) (step : c.Step a d) : d.Kept := by
  cases step with
  | caller step => exact h.callerStep step
  | receiver step => exact h.receiverStep step
  | worker step => exact h.workerStep step
  | keeper step => cases step <;> exact { h with }
  | dispatcher step => cases step <;> exact { h with }
  | withdrawn _ _ hheeds => exact (h.beside _ _ _).heeds hheeds
  | written _ _ _ _ hheeds => exact (h.beside _ _ _).heeds hheeds
  | lost _ _ _ hheeds => exact (h.beside _ _ _).heeds hheeds
  | continued | carried | elapsed => exact { h with }

/-- A client may begin with any session that an earlier one has left. -/
theorem Kept.acts {actions : List Action} (h : c.Kept) (hacts : c.acts actions = some d) : d.Kept :=
  acts_induction (motive := fun _ c => c.Kept) h (fun h hact => h.step (Step.of_act hact)) hacts

theorem kept_ofSettings {σ τ : Settings} {x : Exchange} (hleft : Exchange.Reachable τ x)
    (h : ofSettings σ x.session = .ok c) : c.Kept := by
  obtain ⟨_, _, h⟩ := exists_of_bind_eq_ok h
  cases h
  obtain ⟨latest, hregular⟩ := hleft.regular
  have hstart := DeliveryQueue.sound_ofSettings σ
  have hnew := Exchange.regular_ofSettings σ hregular.stored
  exact ⟨hstart, hleft.sound.2, ⟨0, hnew⟩, nofun⟩

end Client
end Mqtt
