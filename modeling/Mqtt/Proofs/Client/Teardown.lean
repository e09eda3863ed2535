import Mqtt.Proofs.Client.Writers

/-!
A connection that is to be taken down can always be taken down by its own tasks: whatever they are
at, one after the other comes to its end, and the dispatcher last.
-/
namespace Mqtt

/-! How many steps each loop is away from its end, at most. -/

def Receiver.rank : Receiver → Nat
  | .stopped => 0
  | .failing _ | .reading _ _ | .resuming | .answering => 1
  | .waking => 2
  | .routing _ => 3

def Worker.rank : Worker → Nat
  | .stopped => 0
  | .waiting _ => 1
  | .resting => 2
  | .settling _ => 3
  | .signalling _ => 4
  | .publishing _ _ => 5
  | .sending _ _ => 6
  | .writing _ _ => 7
  | .passing => 8

def Keeper.rank : Keeper → Nat
  | .stopped => 0
  | .sleeping _ _ | .sending _ | .awaiting _ _ | .failing _ => 1
  | .resting _ => 2
  | .checking _ => 3

/-- The dispatcher tells what is yet to be told first. -/
def Dispatcher.rank (untold : Nat) : Dispatcher → Nat
  | .stopped => 0
  | .notifying => 1
  | .resetting => 2
  | .shutting => 3
  | .flushing => untold + 4
  | .joining => untold + 5
  | .waiting => untold + 6
  | .delivering => untold + 7

namespace Client

/-- The tasks go on by themselves, and no new connection begins. -/
def Proceeds (c d : Client) : Prop :=
  ∃ actions, c.acts actions = some d ∧ (∀ a ∈ actions, a.isOwn = true) ∧
    ∀ line, .opened line ∉ c.milestones actions

variable {c d e : Client} {a : Action}

theorem Proceeds.refl (c : Client) : c.Proceeds c :=
  ⟨[], rfl, by simp, by simp [milestones]⟩

theorem Proceeds.trans (h : c.Proceeds d) (h' : d.Proceeds e) : c.Proceeds e := by
  obtain ⟨u, hu, hown, hopen⟩ := h
  obtain ⟨v, hv, hown', hopen'⟩ := h'
  refine ⟨u ++ v, acts_append_of_eq hu hv, fun a ha => ?_, fun line hline => ?_⟩
  · exact (List.mem_append.mp ha).elim (hown a) (hown' a)
  · rw [milestones_append hu] at hline
    exact (List.mem_append.mp hline).elim (hopen line) (hopen' line)

theorem proceeds_of_act (h : c.act a = some d) (hown : a.isOwn = true)
    (hquiet : ∀ line, c.milestone a ≠ some (.opened line)) : c.Proceeds d := by
  refine ⟨[a], ?_, by simpa using hown, fun line hline => ?_⟩
  · exact Option.bind_eq_some_iff.mpr ⟨d, h, rfl⟩
  · rw [milestones_singleton h] at hline
    exact hquiet line (Option.mem_toList.mp hline)

/-- The tasks can bring the client to a lower rank, with `going` still true of it. -/
def Nears (c : Client) (going : Client → Prop) (rank : Client → Nat) : Prop :=
  ∃ d, c.Proceeds d ∧ going d ∧ rank d < rank c

/-- What comes nearer to its end with every step comes to its end. -/
theorem exists_proceeds {going ended : Client → Prop} (rank : Client → Nat)
    (hstep : ∀ c, going c → ended c ∨ c.Nears going rank)
    (hgoing : going c) : ∃ d, c.Proceeds d ∧ going d ∧ ended d := by
  induction hrank : rank c using Nat.strong_induction_on generalizing c with
  | _ n ih =>
    rcases hstep c hgoing with hover | ⟨d, hproceeds, hgoing', hless⟩
    · exact ⟨c, .refl c, hgoing, hover⟩
    · obtain ⟨e, hproceeds', hend⟩ := ih (rank d) (hrank ▸ hless) hgoing' rfl
      exact ⟨e, hproceeds.trans hproceeds', hend⟩

theorem beginClose_of_closing (h : c.connection.closing = true) : c.beginClose = c := by
  simp [beginClose, h]

/-- A connection on the way to its end. -/
structure Ending (c : Client) : Prop where
  ordered : c.Ordered
  lined : c.Lined
  closing : c.connection.closing = true

theorem Ending.next (h : c.Ending) (hact : c.act a = some d)
    (hclosing : d.connection.closing = c.connection.closing) : d.Ending := by
  have hstep := Step.of_act hact
  exact ⟨h.ordered.step hstep, h.lined.step h.ordered hstep, hclosing.trans h.closing⟩

/-- No loop begins a connection, whether it goes on or stops where it waits. -/
theorem Ending.nears {task : Task} {going : Client → Prop} {rank : Client → Nat} (h : c.Ending)
    (hloop : task ≠ .caller) (hact : c.act (.run task) = some d ∨ c.act (.stop task) = some d)
    (hclosing : d.connection.closing = c.connection.closing) (hgoing : d.Ending → going d)
    (hless : rank d < rank c) : c.Nears going rank := by
  rcases hact with hrun | hstop
  · refine ⟨d, proceeds_of_act hrun rfl fun line => ?_, hgoing (h.next hrun hclosing), hless⟩
    cases task with
    | caller => exact absurd rfl hloop
    | worker =>
      simp only [milestone, workerMilestone]
      split <;> simp
    | receiver | keeper | dispatcher => simp [milestone]
  · exact ⟨d, proceeds_of_act hstop rfl (by simp [milestone]), hgoing (h.next hstop hclosing), hless⟩

/-! The receiver ends, then the worker, then the keeper. -/

theorem ReceiverStep.of_routing {p : Packet} (hreceiver : c.connection.receiver = .routing p)
    (h : c.ReceiverStep (.run .receiver) d) :
    d.connection.closing = c.connection.closing ∧ d.connection.receiver.rank ≤ 2 := by
  cases h with
  | read hread | received hread | faulted hread | resumed hread | woke hread | failed hread =>
    cases hread.symm.trans hreceiver
  | _ => exact ⟨rfl, by simp [Receiver.rank, onConnection, toReceiver]⟩

theorem Ending.receiver_step (h : c.Ending) : c.connection.receiver = .stopped ∨
    c.Nears Ending fun c => c.connection.receiver.rank := by
  have hgo {d : Client}
      (hact : c.act (.run .receiver) = some d ∨ c.act (.stop .receiver) = some d)
      (hclosing : d.connection.closing = c.connection.closing)
      (hless : d.connection.receiver.rank < c.connection.receiver.rank) :
      c.Nears Ending fun c => c.connection.receiver.rank :=
    h.nears (by decide) hact hclosing id hless
  cases hreceiver : c.connection.receiver with
  | stopped => exact .inl rfl
  | routing p =>
    obtain ⟨hclosing, hrank⟩ := (ReceiverStep.of_route hreceiver).of_routing hreceiver
    rw [hreceiver] at hgo
    exact .inr (hgo (.inl (act_of_routing hreceiver)) hclosing (Nat.lt_succ_of_le hrank))
  | waking =>
    have hact : c.act (.run .receiver) = some (c.onConnection fun k => { k with
        queueWake := true, receiver := .reading none 0 }) := by
      simp [act, run, runReceiver, hreceiver]
    rw [hreceiver] at hgo
    exact .inr (hgo (.inl hact) rfl Nat.one_lt_two)
  | failing error =>
    have hact : c.act (.run .receiver) = some c.stopReceiver := by
      simp [act, run, runReceiver, hreceiver, beginClose_of_closing h.closing]
    rw [hreceiver] at hgo
    exact .inr (hgo (.inl hact) rfl Nat.one_pos)
  | reading frame deadline =>
    have hact : c.act (.stop .receiver) = some c.stopReceiver := by
      simp [act, stop, breakReceiver, hreceiver, h.closing]
    rw [hreceiver] at hgo
    exact .inr (hgo (.inr hact) rfl Nat.one_pos)
  | resuming =>
    have hact : c.act (.stop .receiver) = some c.stopReceiver := by
      simp [act, stop, breakReceiver, hreceiver, h.closing]
    rw [hreceiver] at hgo
    exact .inr (hgo (.inr hact) rfl Nat.one_pos)
  | answering =>
    have hact : c.act (.stop .receiver) = some (c.withdraw .receiver).stopReceiver := by
      simp [act, stop, breakReceiver, hreceiver, h.closing]
    rw [hreceiver] at hgo
    exact .inr (hgo (.inr hact) rfl Nat.one_pos)

theorem Ending.receiver (h : c.Ending) :
    ∃ d, c.Proceeds d ∧ d.Ending ∧ d.connection.receiver = .stopped :=
  exists_proceeds (fun c => c.connection.receiver.rank) (fun _ h => h.receiver_step) h

theorem Ending.worker_step (h : c.Ending) (hreceiver : c.connection.receiver = .stopped) :
    c.connection.worker = .stopped ∨
      c.Nears (fun d => d.Ending ∧ d.connection.receiver = .stopped)
        fun c => c.connection.worker.rank := by
  have hgo {d : Client} (hact : c.act (.run .worker) = some d ∨ c.act (.stop .worker) = some d)
      (hclosing : d.connection.closing = c.connection.closing)
      (hsame : d.connection.receiver = c.connection.receiver)
      (hless : d.connection.worker.rank < c.connection.worker.rank) :
      c.Nears (fun d => d.Ending ∧ d.connection.receiver = .stopped)
        fun c => c.connection.worker.rank :=
    h.nears (by decide) hact hclosing (fun hd => ⟨hd, hsame.trans hreceiver⟩) hless
  cases hworker : c.connection.worker with
  | stopped => exact .inl rfl
  | waiting deadline =>
    have hact : c.act (.stop .worker) = some (c.toWorker .stopped) := by
      simp [act, stop, breakWorker, hworker, h.closing]
    rw [hworker] at hgo
    exact .inr (hgo (.inr hact) rfl rfl Nat.one_pos)
  | resting =>
    have hact : c.act (.run .worker) =
        some (c.toWorker (.waiting c.connection.queue.nextDeadline)) := by
      simp [act, run, runWorker, hworker]
    rw [hworker] at hgo
    exact .inr (hgo (.inl hact) rfl rfl Nat.one_lt_two)
  | passing =>
    have hact : c.act (.run .worker) = some c.runPass := by
      simp [act, run, runWorker, hworker]
    rw [hworker] at hgo
    exact .inr (hgo (.inl hact) rfl rfl (by decide : 7 < 8))
  | sending rest events =>
    have hact : c.act (.run .worker) =
        some ((c.withdraw .worker).toWorker (.publishing events (.error .tooLate))) := by
      simp [act, run, runWorker, hworker, h.closing, workerSent, withdraw, onConnection]
    rw [hworker] at hgo
    exact .inr (hgo (.inl hact) rfl rfl (by decide : 5 < 6))
  | publishing events outcome =>
    rw [hworker] at hgo
    cases events with
    | nil =>
      have hact : c.act (.run .worker) = some (c.toWorker (.settling outcome)) := by
        simp [act, run, runWorker, hworker]
      exact .inr (hgo (.inl hact) rfl rfl (by decide : 3 < 5))
    | cons event events =>
      have hact : c.act (.run .worker) = some (c.onConnection fun k => { k with
          events := k.events ++ event :: events, worker := .signalling outcome }) := by
        simp [act, run, runWorker, hworker]
      exact .inr (hgo (.inl hact) rfl rfl (by decide : 4 < 5))
  | signalling outcome =>
    have hact : c.act (.run .worker) = some (c.onConnection fun k => { k with
        eventWake := true, worker := .settling outcome }) := by
      simp [act, run, runWorker, hworker]
    rw [hworker] at hgo
    exact .inr (hgo (.inl hact) rfl rfl (by decide : 3 < 4))
  | settling outcome =>
    rw [hworker] at hgo
    cases outcome with
    | ok u =>
      have hact : c.act (.run .worker) = some (c.toWorker .resting) := by
        simp [act, run, runWorker, hworker]
      exact .inr (hgo (.inl hact) rfl rfl (by decide : 2 < 3))
    | error error =>
      have hact : c.act (.run .worker) = some (c.toWorker .stopped) := by
        simp [act, run, runWorker, hworker, beginClose_of_closing h.closing]
      exact .inr (hgo (.inl hact) rfl rfl (by decide : 0 < 3))
  | writing packets events =>
    rw [hworker] at hgo
    cases packets with
    | nil =>
      have hact : c.act (.run .worker) = some (c.toWorker (.publishing events (.ok ()))) := by
        simp [act, run, runWorker, hworker]
      exact .inr (hgo (.inl hact) rfl rfl (by decide : 5 < 7))
    | cons p packets =>
      cases hencode : p.encode with
      | ok bytes =>
        have hact : c.act (.run .worker) = some (c.onConnection fun k => { k with
            worker := .sending packets events, writes := k.writes ++ [⟨.worker, p, bytes⟩] }) := by
          simp [act, run, runWorker, hworker, post, hencode, toWorker, onConnection]
        exact .inr (hgo (.inl hact) rfl rfl (by decide : 6 < 7))
      | error error =>
        have hact : c.act (.run .worker) =
            some (c.toWorker (.publishing events (.error (.ofPacket error)))) := by
          simp [act, run, runWorker, hworker, post, hencode, toWorker, onConnection, workerSent]
        exact .inr (hgo (.inl hact) rfl rfl (by decide : 5 < 7))

theorem Ending.worker (h : c.Ending) (hreceiver : c.connection.receiver = .stopped) :
    ∃ d, c.Proceeds d ∧ (d.Ending ∧ d.connection.receiver = .stopped) ∧
      d.connection.worker = .stopped :=
  exists_proceeds (fun c => c.connection.worker.rank) (fun _ h => h.1.worker_step h.2)
    ⟨h, hreceiver⟩

/-- The loops that the dispatcher waits for have come to their end. -/
structure Alone (c : Client) : Prop extends c.Ending where
  receiver : c.connection.receiver = .stopped
  worker : c.connection.worker = .stopped
  keeper : c.connection.keeper = .stopped

theorem Ending.keeper_step (h : c.Ending) (hreceiver : c.connection.receiver = .stopped)
    (hworker : c.connection.worker = .stopped) :
    c.connection.keeper = .stopped ∨
      c.Nears (fun d => d.Ending ∧ d.connection.receiver = .stopped ∧
          d.connection.worker = .stopped)
        fun c => c.connection.keeper.rank := by
  have hgo {d : Client} (hact : c.act (.run .keeper) = some d ∨ c.act (.stop .keeper) = some d)
      (hclosing : d.connection.closing = c.connection.closing)
      (hsame : d.connection.receiver = c.connection.receiver)
      (hsame' : d.connection.worker = c.connection.worker)
      (hless : d.connection.keeper.rank < c.connection.keeper.rank) :
      c.Nears (fun d => d.Ending ∧ d.connection.receiver = .stopped ∧
          d.connection.worker = .stopped)
        fun c => c.connection.keeper.rank :=
    h.nears (by decide) hact hclosing
      (fun hd => ⟨hd, hsame.trans hreceiver, hsame'.trans hworker⟩) hless
  cases hkeeper : c.connection.keeper with
  | stopped => exact .inl rfl
  | sleeping period due =>
    have hact : c.act (.stop .keeper) = some (c.toKeeper .stopped) := by
      simp [act, stop, breakKeeper, hkeeper, h.closing]
    rw [hkeeper] at hgo
    exact .inr (hgo (.inr hact) rfl rfl rfl Nat.one_pos)
  | awaiting period deadline =>
    have hact : c.act (.stop .keeper) = some (c.toKeeper .stopped) := by
      simp [act, stop, breakKeeper, hkeeper, h.closing]
    rw [hkeeper] at hgo
    exact .inr (hgo (.inr hact) rfl rfl rfl Nat.one_pos)
  | sending period =>
    have hact : c.act (.stop .keeper) = some ((c.withdraw .keeper).toKeeper .stopped) := by
      simp [act, stop, breakKeeper, hkeeper, h.closing]
    rw [hkeeper] at hgo
    exact .inr (hgo (.inr hact) rfl rfl rfl Nat.one_pos)
  | failing error =>
    have hact : c.act (.run .keeper) = some (c.toKeeper .stopped) := by
      simp [act, run, runKeeper, hkeeper, beginClose_of_closing h.closing]
    rw [hkeeper] at hgo
    exact .inr (hgo (.inl hact) rfl rfl rfl Nat.one_pos)
  | resting period =>
    have hact : c.act (.run .keeper) =
        some (c.toKeeper (.sleeping period (c.connection.lastSent + period))) := by
      simp [act, run, runKeeper, hkeeper]
    rw [hkeeper] at hgo
    exact .inr (hgo (.inl hact) rfl rfl rfl Nat.one_lt_two)
  | checking period =>
    rw [hkeeper] at hgo
    by_cases hearly : c.now < c.connection.lastSent + period
    · have hact : c.act (.run .keeper) = some (c.toKeeper (.resting period)) := by
        simp [act, run, runKeeper, hkeeper, hearly]
      exact .inr (hgo (.inl hact) rfl rfl rfl (by decide : 2 < 3))
    · have hbytes : Packet.pingReq.encode = .ok [192, 0] := by decide +kernel
      have hact : c.act (.run .keeper) = some (c.onConnection fun k => { k with
          pong := .awaited, keeper := .sending period
          writes := k.writes ++ [⟨.keeper, .pingReq, [192, 0]⟩] }) := by
        simp [act, run, runKeeper, hkeeper, hearly, ping, post, hbytes, onConnection]
      exact .inr (hgo (.inl hact) rfl rfl rfl (by decide : 1 < 3))

theorem Ending.keeper (h : c.Ending) (hreceiver : c.connection.receiver = .stopped)
    (hworker : c.connection.worker = .stopped) :
    ∃ d, c.Proceeds d ∧
      (d.Ending ∧ d.connection.receiver = .stopped ∧ d.connection.worker = .stopped) ∧
      d.connection.keeper = .stopped :=
  exists_proceeds (fun c => c.connection.keeper.rank) (fun _ h => h.1.keeper_step h.2.1 h.2.2)
    ⟨h, hreceiver, hworker⟩

theorem Ending.alone (h : c.Ending) : ∃ d, c.Proceeds d ∧ d.Alone := by
  obtain ⟨d, hproceeds, h, hreceiver⟩ := h.receiver
  obtain ⟨e, hproceeds', ⟨h, hreceiver⟩, hworker⟩ := h.worker hreceiver
  obtain ⟨f, hproceeds'', ⟨h, hreceiver, hworker⟩, hkeeper⟩ := h.keeper hreceiver hworker
  exact ⟨f, (hproceeds.trans hproceeds').trans hproceeds'', h, hreceiver, hworker, hkeeper⟩

/-! Nobody writes any more then but a caller on its way out, and the dispatcher comes to its end. -/

/-- Beside the loops only the caller can have a packet on its way. -/
theorem Alone.task_eq_caller (h : c.Alone) {w : Write} (hw : w ∈ c.connection.writes) :
    w.task = .caller := by
  have hsending := h.lined.sending w hw
  cases htask : w.task with
  | caller => rfl
  | receiver => simp [htask, isSending, h.receiver] at hsending
  | worker => simp [htask, isSending, h.worker] at hsending
  | keeper => simp [htask, isSending, h.keeper] at hsending
  | dispatcher => simp [htask, isSending] at hsending

theorem Alone.parted (h : c.Alone) (hrunning : c.connection.dispatcher ≠ .stopped)
    (hwrites : c.connection.writes ≠ []) :
    ∃ d, c.Proceeds d ∧ d.Alone ∧ d.connection.writes.length < c.connection.writes.length ∧
      d.connection.dispatcher = c.connection.dispatcher ∧
      d.connection.events = c.connection.events := by
  obtain ⟨w, hw⟩ := List.exists_mem_of_ne_nil _ hwrites
  have htask := h.task_eq_caller hw
  have hopening := h.ordered.not_opening hrunning
  have hcaller : c.caller = .parting := by
    have hsending := h.lined.sending w hw
    rw [htask] at hsending
    dsimp only [isSending] at hsending
    split at hsending
    next hcaller => simp [hcaller, Caller.isOpening] at hopening
    next hcaller => exact hcaller
    next => cases hsending
  have hact : c.act (.run .caller) = some { c.withdraw .caller with caller := .leaving } := by
    simp [act, run, runCaller, hcaller, h.closing, callerSent, withdraw, onConnection]
  have hless : (c.withdraw .caller).connection.writes.length < c.connection.writes.length :=
    List.length_filter_lt_length_iff_exists.mpr ⟨w, hw, by simp [htask]⟩
  refine ⟨_, proceeds_of_act hact rfl ?_, ⟨h.next hact rfl, h.receiver, h.worker, h.keeper⟩, hless,
    rfl, rfl⟩
  simp [milestone, hcaller]

end Client
end Mqtt
