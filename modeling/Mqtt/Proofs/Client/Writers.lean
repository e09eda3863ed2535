import Mqtt.Proofs.Client.Order

/-!
Who has a packet on its way. Each packet belongs to a task that waits for its fate, and no task has
two of them.
-/
namespace Mqtt.Client

/-- The packets on their way belong to different tasks, each of which waits for its own. -/
structure Lined (c : Client) : Prop where
  nodup : (c.connection.writes.map Write.task).Nodup
  sending : ∀ w ∈ c.connection.writes, c.isSending w.task = true

variable {c d : Client} {a : Action} {task : Task}

theorem Lined.ne_of_idle (h : c.Lined) (hidle : c.isSending task = false) :
    ∀ w ∈ c.connection.writes, w.task ≠ task := by
  rintro w hw rfl
  have hsending := h.sending w hw
  simp [hidle] at hsending

/-- A task without a packet on its way may do anything but write. -/
theorem Lined.turn (h : c.Lined) (hnone : ∀ w ∈ c.connection.writes, w.task ≠ task)
    (hwrites : d.connection.writes = c.connection.writes)
    (hrest : ∀ other, other ≠ task → d.isSending other = c.isSending other) : d.Lined := by
  refine ⟨by rw [hwrites]; exact h.nodup, fun w hw => ?_⟩
  rw [hwrites] at hw
  rw [hrest w.task (hnone w hw)]
  exact h.sending w hw

/-- A task without a packet on its way may begin to write one. -/
theorem Lined.post (h : c.Lined) (hidle : c.isSending task = false) {packet : Packet}
    {bytes : Octets}
    (hwrites : d.connection.writes = c.connection.writes ++ [⟨task, packet, bytes⟩])
    (hsending : d.isSending task = true)
    (hrest : ∀ other, other ≠ task → d.isSending other = c.isSending other) : d.Lined := by
  have hnone := h.ne_of_idle hidle
  constructor
  · rw [hwrites, List.map_append]
    refine List.Nodup.append h.nodup (List.nodup_singleton _) fun t ht ht' => ?_
    obtain ⟨w, hw, rfl⟩ := List.mem_map.mp ht
    exact hnone w hw (List.mem_singleton.mp ht')
  · intro w hw
    rw [hwrites] at hw
    rcases List.mem_append.mp hw with hw | hw
    · rw [hrest w.task (hnone w hw)]
      exact h.sending w hw
    · obtain rfl := List.mem_singleton.mp hw
      exact hsending

theorem Lined.withdraw (h : c.Lined) (task : Task) : (c.withdraw task).Lined :=
  ⟨h.nodup.sublist (List.filter_sublist.map _), fun w hw => h.sending w (List.mem_of_mem_filter hw)⟩

theorem ne_of_mem_withdraw (c : Client) (task : Task) :
    ∀ w ∈ (c.withdraw task).connection.writes, w.task ≠ task := by
  intro w hw
  simpa using List.of_mem_filter hw

theorem Heeds.isSending_of_ne {outcome : Except ClientError Unit} {other : Task}
    (h : c.Heeds outcome task d) (hne : other ≠ task) : d.isSending other = c.isSending other := by
  cases h <;> cases other <;> first | rfl | exact absurd rfl hne

theorem Heeds.writes {outcome : Except ClientError Unit} (h : c.Heeds outcome task d) :
    d.connection.writes = c.connection.writes := by
  cases h <;> rfl

theorem Lined.heeds {outcome : Except ClientError Unit} (h : c.Lined)
    (hnone : ∀ w ∈ c.connection.writes, w.task ≠ task) (hheeds : c.Heeds outcome task d) :
    d.Lined :=
  h.turn hnone hheeds.writes fun _ => hheeds.isSending_of_ne

theorem Lined.tail (h : c.Lined) {w : Write} {rest : List Write}
    (hwrites : c.connection.writes = w :: rest) (line : Line) (lastSent : Nat) :
    (c.onConnection fun k => { k with line, writes := rest, lastSent }).Lined ∧
      ∀ v ∈ rest, v.task ≠ w.task := by
  have hnodup := h.nodup
  have hsending := h.sending
  rw [hwrites] at hnodup hsending
  obtain ⟨hfirst, hrest⟩ := List.nodup_cons.mp hnodup
  refine ⟨⟨hrest, fun v hv => hsending v (List.mem_cons_of_mem w hv)⟩, fun v hv heq => ?_⟩
  exact hfirst (heq ▸ List.mem_map_of_mem hv)

theorem lined_of_greets {options : ConnectOptions} {line : Line}
    (hgreets : c.Greets options line d) : d.Lined := by
  cases hgreets with
  | posted => exact ⟨List.nodup_singleton _, fun w hw => by rw [List.mem_singleton.mp hw]; rfl⟩
  | unsendable => exact ⟨List.nodup_nil, nofun⟩

theorem Lined.callerStep (h : c.Lined) (hordered : c.Ordered) (step : c.CallerStep a d) :
    d.Lined := by
  cases step with
  | joined _ _ hgreets => exact lined_of_greets hgreets
  | asked _ _ _ hgreets => exact lined_of_greets hgreets
  | departed hcaller =>
    refine h.post (by simp [isSending, hcaller]) rfl rfl fun other hne => ?_
    cases other <;> first | rfl | exact absurd rfl hne
  | replaced hcaller | declined hcaller | dismissed hcaller | finished hcaller | accepted hcaller
  | refused hcaller | unanswered hcaller | resumed hcaller | released hcaller | cleared hcaller
  | failed hcaller | left hcaller | ended hcaller =>
    have hidle : c.isSending .caller = false := by simp [isSending, hcaller]
    refine h.turn (h.ne_of_idle hidle) rfl fun other hne => ?_
    cases other <;> first | rfl | exact absurd rfl hne
  | @opened options ack loaded hcaller =>
    -- three tasks move at once, none of which has a packet on its way
    have hidle : c.isSending .caller = false := by simp [isSending, hcaller]
    have hopening := h.ne_of_idle hidle
    have hended := (hordered.opening (by simp [hcaller, Caller.isOpening])).2
    have hworker : c.connection.worker = .stopped := by
      by_contra hrunning
      simpa [hended, Dispatcher.isServing] using hordered.worker hrunning
    have hkeeper : c.connection.keeper = .stopped := by
      by_contra hrunning
      simpa [hended, Dispatcher.isServing] using hordered.keeper hrunning
    refine ⟨h.nodup, fun w hw => ?_⟩
    have hsending := h.sending w hw
    cases htask : w.task with
    | caller => exact absurd htask (hopening w hw)
    | receiver =>
      rw [htask] at hsending
      exact hsending
    | worker => simp [htask, isSending, hworker] at hsending
    | keeper => simp [htask, isSending, hkeeper] at hsending
    | dispatcher => simp [htask, isSending] at hsending
  | issued | unissued | signalled => exact { h with }

theorem Lined.receiverStep (h : c.Lined) (step : c.ReceiverStep a d) : d.Lined := by
  cases step with
  | read hreceiver | received hreceiver | faulted hreceiver | acknowledged hreceiver
  | violated hreceiver | answered hreceiver | unsolicited hreceiver | taken hreceiver
  | kept hreceiver | stale hreceiver | unreleased hreceiver | resumed hreceiver | woke hreceiver
  | failed hreceiver =>
    have hidle : c.isSending .receiver = false := by simp [isSending, hreceiver]
    refine h.turn (h.ne_of_idle hidle) rfl fun other hne => ?_
    cases other <;> first | rfl | exact absurd rfl hne
  | released hreceiver =>
    refine h.post (by simp [isSending, hreceiver]) rfl rfl fun other hne => ?_
    cases other <;> first | rfl | exact absurd rfl hne
  | broken _ hreceiver =>
    have hidle : c.isSending .receiver = false := by
      rcases hreceiver with hreceiver | ⟨_, _, hreceiver⟩ <;> simp [isSending, hreceiver]
    refine h.turn (h.ne_of_idle hidle) rfl fun other hne => ?_
    cases other <;> first | rfl | exact absurd rfl hne
  | brokenOff =>
    refine (h.withdraw .receiver).turn (ne_of_mem_withdraw c .receiver) rfl fun other hne => ?_
    cases other <;> first | rfl | exact absurd rfl hne

theorem Lined.workerStep (h : c.Lined) (step : c.WorkerStep a d) : d.Lined := by
  cases step with
  | rested hworker | woken hworker | overdue hworker | expired hworker | passed hworker
  | finished hworker | unsendable hworker | unreported hworker | reported hworker | signalled hworker
  | settled hworker | failed hworker | broken _ hworker =>
    have hidle : c.isSending .worker = false := by simp [isSending, hworker]
    refine h.turn (h.ne_of_idle hidle) rfl fun other hne => ?_
    cases other <;> first | rfl | exact absurd rfl hne
  | took hworker =>
    refine h.post (by simp [isSending, hworker]) rfl rfl fun other hne => ?_
    cases other <;> first | rfl | exact absurd rfl hne

theorem Lined.keeperStep (h : c.Lined) (step : c.KeeperStep a d) : d.Lined := by
  cases step with
  | broken _ hwaiting =>
    have hidle : c.isSending .keeper = false := by
      rcases hwaiting with ⟨_, _, hkeeper⟩ | ⟨_, _, hkeeper⟩ <;> simp [isSending, hkeeper]
    refine h.turn (h.ne_of_idle hidle) rfl fun other hne => ?_
    cases other <;> first | rfl | exact absurd rfl hne
  | rested hkeeper | woken hkeeper | spared hkeeper | answered hkeeper | abandoned hkeeper
  | unanswered hkeeper | failed hkeeper =>
    have hidle : c.isSending .keeper = false := by simp [isSending, hkeeper]
    refine h.turn (h.ne_of_idle hidle) rfl fun other hne => ?_
    cases other <;> first | rfl | exact absurd rfl hne
  | asked hkeeper =>
    refine h.post (by simp [isSending, hkeeper]) rfl rfl fun other hne => ?_
    cases other <;> first | rfl | exact absurd rfl hne
  | brokenOff =>
    refine (h.withdraw .keeper).turn (ne_of_mem_withdraw c .keeper) rfl fun other hne => ?_
    cases other <;> first | rfl | exact absurd rfl hne

theorem Lined.step (h : c.Lined) (hordered : c.Ordered) (step : c.Step a d) : d.Lined := by
  cases step with
  | caller step => exact h.callerStep hordered step
  | receiver step => exact h.receiverStep step
  | worker step => exact h.workerStep step
  | keeper step => exact h.keeperStep step
  | dispatcher step => cases step <;> exact ⟨h.nodup, h.sending⟩
  | withdrawn _ _ hheeds => exact (h.withdraw _).heeds (ne_of_mem_withdraw c _) hheeds
  | written hwrites _ _ _ hheeds =>
    obtain ⟨hlined, hnone⟩ := h.tail hwrites _ _
    exact hlined.heeds hnone hheeds
  | lost hwrites _ _ hheeds =>
    obtain ⟨hlined, hnone⟩ := h.tail hwrites c.connection.line c.connection.lastSent
    exact hlined.heeds hnone hheeds
  | @continued _ w rest _ left hwrites =>
    have hnodup := h.nodup
    have hsending := h.sending
    rw [hwrites] at hnodup hsending
    refine ⟨hnodup, fun v hv => ?_⟩
    rcases List.mem_cons.mp hv with rfl | hv
    · exact hsending w List.mem_cons_self
    · exact hsending v (List.mem_cons_of_mem w hv)
  | carried | elapsed => exact { h with }

theorem Lined.acts {actions : List Action} (h : c.Lined) (hordered : c.Ordered)
    (hacts : c.acts actions = some d) : d.Lined :=
  (acts_induction (motive := fun _ c => c.Ordered ∧ c.Lined) ⟨hordered, h⟩
    (fun ⟨hordered, hlined⟩ hact =>
      ⟨hordered.step (Step.of_act hact), hlined.step hordered (Step.of_act hact)⟩) hacts).2

theorem lined_ofSettings {σ : Settings} {s : Session} (h : ofSettings σ s = .ok c) :
    c.Lined := by
  obtain ⟨_, _, h⟩ := exists_of_bind_eq_ok h
  cases h
  exact ⟨List.nodup_nil, nofun⟩

end Mqtt.Client
