import Mqtt.Proofs.Client.Holdings
import Mqtt.Proofs.Client.Sending
import Mqtt.Proofs.Client.Writers

/-!
Who asks the broker for a sign of life. Nothing that a delivery sends is a PINGREQ, and so each
PINGREQ on its way is the keeper's.
-/
namespace Mqtt

theorem DeliveryQueue.Sound.pingReq_not_mem_pass {σ : Settings} {q : DeliveryQueue}
    (h : q.Sound σ) (s : Session) (acks : List Packet) (now : Nat) :
    .pingReq ∉ (q.pass s acks now).2.2.outgoing := by
  intro hping
  rcases List.mem_append.mp hping with hanswered | hmoved
  · obtain ⟨id, hpubComp⟩ := exists_pubComp_of_mem_applyAcks hanswered
    cases hpubComp
  · cases (h.applyAcks s acks).isMove_of_mem_advance (q.applyAcks s acks).2.1 now hmoved

namespace Client

/-- Only the keeper asks for a sign of life, and it asks for nothing else. -/
structure Pinging (c : Client) : Prop where
  own : ∀ w ∈ c.connection.writes, w.task = .keeper ↔ w.packet = .pingReq
  others : .pingReq ∉ c.connection.worker.packets

/-- What a task may hand to the line. -/
inductive Posts (c : Client) : Task → Packet → Prop where
  | greeting (options : ConnectOptions) : Posts c .caller options.packet
  | parting : Posts c .caller .disconnect
  | release (id : UInt16) : Posts c .receiver (.pubComp id)
  | delivery {p : Packet} (hworker : p ∈ c.connection.worker.packets) : Posts c .worker p
  | ping : Posts c .keeper .pingReq

variable {c d : Client} {a : Action}

theorem Posts.own {task : Task} {p : Packet} (h : c.Posts task p) (hpinging : c.Pinging) :
    task = .keeper ↔ p = .pingReq := by
  cases h with
  | greeting options => exact ⟨nofun, nofun⟩
  | parting | release => exact ⟨nofun, nofun⟩
  | delivery hworker =>
    refine ⟨nofun, ?_⟩
    rintro rfl
    exact absurd hworker hpinging.others
  | ping => exact ⟨fun _ => rfl, fun _ => rfl⟩

theorem Greets.posts {options : ConnectOptions} {line : Line} (h : c.Greets options line d) :
    ∀ w ∈ d.connection.writes, c.Posts w.task w.packet := by
  intro w hw
  cases h with
  | posted =>
    rw [List.mem_singleton.mp hw]
    exact .greeting options
  | unsendable => cases hw

/-- What is on its way was so before, or is handed over now. -/
theorem Step.mem_writes (step : c.Step a d) {w : Write} (hw : w ∈ d.connection.writes) :
    (∃ v ∈ c.connection.writes, v.task = w.task ∧ v.packet = w.packet) ∨
      c.Posts w.task w.packet := by
  have hkept (hw : w ∈ c.connection.writes) :
      (∃ v ∈ c.connection.writes, v.task = w.task ∧ v.packet = w.packet) ∨
        c.Posts w.task w.packet := .inl ⟨w, hw, rfl, rfl⟩
  have hmore {v : Write} (hposts : c.Posts v.task v.packet)
      (hw : w ∈ c.connection.writes ++ [v]) :
      (∃ v ∈ c.connection.writes, v.task = w.task ∧ v.packet = w.packet) ∨
        c.Posts w.task w.packet := by
    rcases List.mem_append.mp hw with hold | hnew
    · exact hkept hold
    · rw [List.mem_singleton.mp hnew]
      exact .inr hposts
  cases step with
  | caller step =>
    cases step with
    | joined _ _ hgreets | asked _ _ _ hgreets => exact .inr (hgreets.posts w hw)
    | departed => exact hmore .parting hw
    | _ => exact hkept hw
  | receiver step =>
    cases step with
    | released => exact hmore (.release _) hw
    | brokenOff => exact hkept (List.mem_of_mem_filter hw)
    | _ => exact hkept hw
  | worker step =>
    cases step with
    | took hworker => exact hmore (.delivery (by simp [hworker, Worker.packets])) hw
    | _ => exact hkept hw
  | keeper step =>
    cases step with
    | asked => exact hmore .ping hw
    | brokenOff => exact hkept (List.mem_of_mem_filter hw)
    | _ => exact hkept hw
  | dispatcher step => cases step <;> exact hkept hw
  | withdrawn _ _ hheeds =>
    rw [hheeds.writes] at hw
    exact hkept (List.mem_of_mem_filter hw)
  | written hwrites _ _ _ hheeds | lost hwrites _ _ hheeds =>
    rw [hheeds.writes] at hw
    exact hkept (by rw [hwrites]; exact List.mem_cons_of_mem _ hw)
  | @continued _ v rest _ left hwrites =>
    rcases List.mem_cons.mp hw with rfl | hw
    · exact .inl ⟨v, by simp [hwrites], rfl, rfl⟩
    · exact hkept (by rw [hwrites]; exact List.mem_cons_of_mem _ hw)
  | carried | elapsed => exact hkept hw

theorem Flow.Step.mem_packets {f g : Flow} {m : Option Milestone} (step : f.Step m g) {p : Packet}
    (hp : p ∈ g.worker.packets) :
    p ∈ f.worker.packets ∨ ∃ acks now, p ∈ (f.queue.pass f.session acks now).2.2.outgoing := by
  cases step with
  | quiet drift =>
    rw [drift.rest] at hp
    exact .inl hp
  | opened | started | unsendable | finished => cases hp
  | reported _ hnext => rcases hnext with rfl | rfl <;> cases hp
  | passed _ hpass => exact .inr ⟨_, _, by rw [hpass]; exact hp⟩
  | taken hworker =>
    rw [hworker]
    exact .inl (List.mem_cons_of_mem _ hp)
  | idled _ _ _ hnext drift =>
    rw [drift.rest] at hp
    have hnone := Worker.packets_of_isIdle hnext
    rw [hnone] at hp
    cases hp
  | written => exact .inl (Worker.mem_packets_of_sent hp)
  | failed _ _ _ drift | withdrawn _ _ _ drift =>
    rw [drift.rest] at hp
    exact .inl (Worker.mem_packets_of_sent hp)
  | issued | accepted | resumed | posted | continued | told => exact .inl hp

theorem Pinging.act (h : c.Pinging) (hkept : c.Kept) (hact : c.act a = some d) : d.Pinging := by
  constructor
  · intro w hw
    rcases (Step.of_act hact).mem_writes hw with ⟨v, hv, htask, hpacket⟩ | hposts
    · rw [← htask, ← hpacket]
      exact h.own v hv
    · exact hposts.own h
  · intro hping
    rcases (step_act hact).mem_packets hping with hold | ⟨acks, now, hnew⟩
    · exact h.others hold
    · exact hkept.queue.pingReq_not_mem_pass _ _ _ hnew

theorem pinging_of_greets {options : ConnectOptions} {line : Line} {b : Client}
    (hgreets : b.Greets options line c) : c.Pinging := by
  cases hgreets with
  | posted =>
    refine ⟨fun w hw => ?_, nofun⟩
    rw [List.mem_singleton.mp hw]
    exact ⟨nofun, nofun⟩
  | unsendable => exact ⟨nofun, nofun⟩

end Client
end Mqtt
