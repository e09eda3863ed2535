import Mqtt.Proofs.Client.Flow

/-!
What stands behind a reported success of quality 0. A pass decides its events before a byte is
written; they are told in any case, and only the end of the writing says how far its packets came.
-/
namespace Mqtt

/-! Where a message of quality 0 stands in the work of a pass. -/

namespace DeliveryQueue

/-- The pass sends a message of quality 0, of our own, behind the packets `ahead`. -/
def Fires (q : DeliveryQueue) (s : Session) (acks : List Packet) (now : Nat) (ahead : List Packet)
    (d : Delivery) : Prop :=
  d.direction = .outgoing ∧ d.stage = .queued0 ∧ ∃ front back m,
    (q.applyAcks s acks).1.moves now = front ++ (d, m) :: back ∧
      ahead = (q.applyAcks s acks).2.2.outgoing ++ front.flatMap fun (_, m) => m.work.outgoing

variable {q : DeliveryQueue} {s : Session} {acks : List Packet} {now : Nat}

theorem move_of_mem_moves {d : Delivery} {m : Move} (h : (d, m) ∈ q.moves now) :
    d ∈ q.deliveries ∧ m = d.move q.retryDelay q.maxAttempts now := by
  obtain ⟨e, he, heq⟩ := List.mem_map.mp h
  cases heq
  exact ⟨he, rfl⟩

theorem Fires.pass {ahead : List Packet} {d : Delivery} (h : q.Fires s acks now ahead d) :
    (∃ rest, (q.pass s acks now).2.2.outgoing = ahead ++ d.packet :: rest) ∧
      .published d.id true ∈ (q.pass s acks now).2.2.events := by
  obtain ⟨hdirection, hstage, front, back, m, hmoves, rfl⟩ := h
  have hm : m.work = { outgoing := [d.packet], events := [.published d.id true] } := by
    have hmem : (d, m) ∈ (q.applyAcks s acks).1.moves now := by simp [hmoves]
    rw [(move_of_mem_moves hmem).2, Delivery.move, hdirection, hstage]
  constructor
  · refine ⟨back.flatMap fun (_, m) => m.work.outgoing, ?_⟩
    simp [DeliveryQueue.pass, advance, Work.append, hmoves, hm]
  · simp [DeliveryQueue.pass, advance, Work.append, hmoves, hm]

end DeliveryQueue

/-- Moving on, only a message of quality 0 of our own reports a success. -/
theorem Delivery.queued0_of_published {d : Delivery} {delay maxAttempts now : Nat} {id : UInt16}
    (h : .published id true ∈ (d.move delay maxAttempts now).work.events) :
    d.direction = .outgoing ∧ d.stage = .queued0 ∧ d.id = id := by
  have hfailure : .published id true ∉ [d.failure] := by
    unfold failure
    split <;> simp
  have hreport : .published id true ∉ d.report := by
    unfold report
    split <;> simp
  have hretry : .published id true ∉ (d.retry delay maxAttempts now).work.events := by
    unfold retry
    split
    next => simp
    next =>
      split
      next => simp
      next =>
        split
        next => simp [transmit]
        next => exact hfailure
  unfold move at h
  split at h
  next hdirection hstage => exact ⟨hdirection, hstage, by simpa [eq_comm] using h⟩
  next => simp [transmit] at h
  next => simp [transmit] at h
  next => simp [transmit] at h
  next => simp [transmit] at h
  next => simp [transmit] at h
  next => exact absurd h hretry
  next => exact absurd h hreport
  next => exact absurd h hreport
  next => simp at h
  next => simp at h

/-- A success that a pass reports is an acknowledged one, or that of a message of quality 0. -/
theorem DeliveryQueue.exists_fires_of_published {q : DeliveryQueue} {s : Session}
    {acks : List Packet} {now : Nat} {id : UInt16}
    (h : .published id true ∈ (q.pass s acks now).2.2.events) :
    .published id true ∈ (q.applyAcks s acks).2.2.events ∨
      ∃ ahead d, q.Fires s acks now ahead d ∧ d.id = id := by
  rcases List.mem_append.mp h with h | h
  · exact .inl h
  · obtain ⟨⟨d, m⟩, hmem, hm⟩ := List.mem_flatMap.mp h
    obtain ⟨-, hmove⟩ := move_of_mem_moves hmem
    dsimp only at hm
    rw [hmove] at hm
    obtain ⟨hdirection, hstage, hid⟩ := Delivery.queued0_of_published hm
    obtain ⟨front, back, hmoves⟩ := List.append_of_mem hmem
    exact .inr ⟨_, d, ⟨hdirection, hstage, front, back, m, hmoves, rfl⟩, hid⟩

/-! What a history of milestones says was written, sent and reported. -/

namespace Client

namespace Milestone

/-- The bytes that are on the line with the last one of a packet. -/
def bytes : Milestone → Octets
  | .written _ p => p.encode.toOption.getD []
  | _ => []

def sent : Milestone → List Packet
  | .written .worker p => [p]
  | _ => []

def events : Milestone → List Event
  | .reported events _ => events
  | _ => []

/-- The worker's turn begins with a pass and ends with a report. -/
def isTurn : Milestone → Bool
  | .passed _ _ _ _ | .reported _ _ => true
  | _ => false

end Milestone

/-- The latest turn of the worker began with this pass, and these packets have been sent whole in
it. -/
def Since (t : List Milestone) (q : DeliveryQueue) (s : Session) (acks : List Packet) (now : Nat)
    (sent : List Packet) : Prop :=
  ∃ before turn, t = before ++ .passed q s acks now :: turn ∧ (∀ m ∈ turn, m.isTurn = false) ∧
    sent = turn.flatMap Milestone.sent

/-- What has been sent of the packets of a pass when its writing has ended in some way: all of them,
or those in front of the one that failed. -/
def Ended (outcome : Except ClientError Unit) (outgoing sent : List Packet) : Prop :=
  match outcome with
  | .ok _ => outgoing = sent
  | .error _ => ∃ p rest, outgoing = sent ++ p :: rest

variable {t : List Milestone} {q : DeliveryQueue} {s : Session} {acks : List Packet} {now : Nat}
  {sent : List Packet}

theorem since_passed (t : List Milestone) (q : DeliveryQueue) (s : Session) (acks : List Packet)
    (now : Nat) : Since (t ++ [.passed q s acks now]) q s acks now [] :=
  ⟨t, [], rfl, by simp, rfl⟩

theorem Since.append (h : Since t q s acks now sent) {m : Option Milestone}
    (hm : ∀ n ∈ m, n.isTurn = false) :
    Since (t ++ m.toList) q s acks now (sent ++ m.toList.flatMap Milestone.sent) := by
  obtain ⟨before, turn, rfl, hturn, rfl⟩ := h
  refine ⟨before, turn ++ m.toList, by simp, fun n hn => ?_, by simp⟩
  rcases List.mem_append.mp hn with hn | hn
  · exact hturn n hn
  · exact hm n (Option.mem_toList.mp hn)

theorem Since.beside (h : Since t q s acks now sent) {m : Option Milestone}
    (hm : ∀ n ∈ m, n.isTurn = false ∧ n.sent = []) : Since (t ++ m.toList) q s acks now sent := by
  have hsent : m.toList.flatMap Milestone.sent = [] :=
    List.flatMap_eq_nil_iff.mpr fun n hn => (hm n (Option.mem_toList.mp hn)).2
  have hmore := h.append fun n hn => (hm n hn).1
  rwa [hsent, List.append_nil] at hmore

/-- Where the worker stands in its turn, and its packet on the way to the line. -/
inductive Working (t : List Milestone) : Worker → List Write → Prop where
  | idle {worker : Worker} (hidle : worker.isIdle = true) : Working t worker []
  | writing {q s acks now sent rest events} (since : Since t q s acks now sent)
      (work : (q.pass s acks now).2.2 = ⟨sent ++ rest, events⟩) :
      Working t (.writing rest events) []
  | sending {q s acks now sent rest events} {w : Write} (since : Since t q s acks now sent)
      (work : (q.pass s acks now).2.2 = ⟨sent ++ w.packet :: rest, events⟩) :
      Working t (.sending rest events) [w]
  | publishing {q s acks now sent outgoing events outcome} (since : Since t q s acks now sent)
      (work : (q.pass s acks now).2.2 = ⟨outgoing, events⟩) (ended : Ended outcome outgoing sent) :
      Working t (.publishing events outcome) []

theorem Working.append {worker : Worker} {own : List Write} (h : Working t worker own)
    {m : Option Milestone} (hm : ∀ n ∈ m, n.isTurn = false ∧ n.sent = []) :
    Working (t ++ m.toList) worker own := by
  cases h with
  | idle hidle => exact .idle hidle
  | writing since work => exact .writing (since.beside hm) work
  | sending since work => exact .sending (since.beside hm) work
  | publishing since work ended => exact .publishing (since.beside hm) work ended

def own (writes : List Write) : List Write :=
  writes.filter fun w => w.task = .worker

theorem own_cons_of_worker {w : Write} (h : w.task = .worker) (rest : List Write) :
    own (w :: rest) = w :: own rest := by
  simp [own, h]

theorem own_cons_of_ne {w : Write} (h : w.task ≠ .worker) (rest : List Write) :
    own (w :: rest) = own rest := by
  simp [own, h]

theorem sent_of_ne {task : Task} (h : task ≠ .worker) (worker : Worker)
    (outcome : Except ClientError Unit) : worker.sent task outcome = worker := by
  unfold Worker.sent
  split
  next => exact absurd rfl h
  next => exact absurd rfl h
  next => rfl

variable {worker : Worker} {writes rest : List Write} {w : Write}

/-- A packet that fails is the first of those that were not sent. -/
theorem Working.lost {own : List Write} (h : Working t worker own) (e : ClientError) :
    Working t (worker.sent .worker (.error e)) [] := by
  cases h with
  | idle hidle =>
    refine .idle ?_
    unfold Worker.sent
    split
    next h => cases h
    next => cases hidle
    next => exact hidle
  | writing since work => exact .writing since work
  | sending since work => exact .publishing since work ⟨_, _, rfl⟩
  | publishing since work ended => exact .publishing since work ended

theorem Working.sending_of_cons {own : List Write} (h : Working t worker (w :: own)) :
    own = [] ∧ ∃ packets events, worker = .sending packets events ∧
      ∃ q s acks now sent, Since t q s acks now sent ∧
        (q.pass s acks now).2.2 = ⟨sent ++ w.packet :: packets, events⟩ := by
  cases h with
  | sending since work => exact ⟨rfl, _, _, rfl, _, _, _, _, _, since, work⟩

theorem Working.continued (h : Working t worker (own (w :: rest))) (left : Octets) :
    Working t worker (own ({ w with left } :: rest)) := by
  by_cases htask : w.task = .worker
  · rw [own_cons_of_worker htask] at h
    obtain ⟨hlast, packets, events, rfl, q, s, acks, now, sent, since, work⟩ := h.sending_of_cons
    have hown : own ({ w with left } :: rest) = { w with left } :: own rest := by
      simp [own, htask]
    rw [hown, hlast]
    exact .sending since work
  · rw [own_cons_of_ne htask] at h
    have hown : own ({ w with left } :: rest) = own rest := by
      simp [own, htask]
    rw [hown]
    exact h

theorem Working.failed (h : Working t worker (own (w :: rest))) (e : ClientError) :
    Working t (worker.sent w.task (.error e)) (own rest) := by
  by_cases htask : w.task = .worker
  · rw [own_cons_of_worker htask] at h
    rw [h.sending_of_cons.1, htask]
    exact h.lost e
  · rw [own_cons_of_ne htask] at h
    rw [sent_of_ne htask]
    exact h

theorem Working.withdrawn (h : Working t worker (own writes)) (task : Task) (e : ClientError) :
    Working t (worker.sent task (.error e)) (own (writes.filter fun w => w.task ≠ task)) := by
  by_cases htask : task = .worker
  · have hnone : own (writes.filter fun w => w.task ≠ task) = [] := by
      simp [own, htask]
    rw [hnone, htask]
    exact h.lost e
  · have hsame : own (writes.filter fun w => w.task ≠ task) = own writes := by
      unfold own
      rw [List.filter_filter]
      refine List.filter_congr fun w _ => ?_
      by_cases hw : w.task = .worker <;> simp [hw, Ne.symm htask]
    rw [hsame, sent_of_ne htask]
    exact h

theorem Working.written (h : Working t worker (own (w :: rest))) :
    Working (t ++ [.written w.task w.packet]) (worker.sent w.task (.ok ())) (own rest) := by
  by_cases htask : w.task = .worker
  · rw [own_cons_of_worker htask] at h
    obtain ⟨hlast, packets, events, rfl, q, s, acks, now, sent, since, work⟩ := h.sending_of_cons
    rw [hlast, htask]
    have hsince : Since (t ++ [.written .worker w.packet]) q s acks now (sent ++ [w.packet]) :=
      since.append (m := some (.written .worker w.packet)) (by simp [Milestone.isTurn])
    exact .writing hsince (by simpa using work)
  · rw [own_cons_of_ne htask] at h
    rw [sent_of_ne htask]
    have hsent : Milestone.sent (.written w.task w.packet) = [] := by
      unfold Milestone.sent
      split
      next heq => exact absurd (Milestone.written.inj heq).1 htask
      next => rfl
    exact h.append (m := some (.written w.task w.packet)) (by simp [Milestone.isTurn, hsent])

/-! Along one connection events are told in the order of the reports, bytes reach the line packet by
packet, and each report comes from the pass of its turn. -/

variable {f g : Flow} {m : Option Milestone}

/-- What is told now and what is still to be told are, in order, what has been reported. -/
def InOrder (earlier : List Event) (t : List Milestone) (f : Flow) : Prop :=
  ∃ told, f.told = earlier ++ told ∧ t.flatMap Milestone.events = told ++ f.untold

theorem InOrder.step {earlier : List Event} (h : InOrder earlier t f) (step : f.Step m g)
    (hopen : ∀ line, m ≠ some (.opened line)) : InOrder earlier (t ++ m.toList) g := by
  obtain ⟨told, htold, huntold⟩ := h
  have hsame : g.told = f.told → g.untold = f.untold → m.toList.flatMap Milestone.events = [] →
      InOrder earlier (t ++ m.toList) g := by
    intro hg hg' hm
    refine ⟨told, hg.trans htold, ?_⟩
    rw [List.flatMap_append, hm, hg', List.append_nil, huntold]
  cases step with
  | opened => exact absurd rfl (hopen _)
  | @reported events outcome next =>
    refine ⟨told, htold, ?_⟩
    rw [List.flatMap_append, huntold, ← List.append_assoc]
    simp [Milestone.events]
  | @told e rest hrest =>
    refine ⟨told ++ [e], by simp [htold], ?_⟩
    rw [List.flatMap_append, huntold, hrest]
    simp
  | quiet drift | idled _ _ _ _ drift | failed _ _ _ drift | withdrawn _ _ _ drift =>
    exact hsame (by rw [drift.rest]) (by rw [drift.rest]) rfl
  | _ => exact hsame rfl rfl rfl

/-- The first packet on its way lacks the bytes that are not yet on the line, and the others all. -/
def OnLine (part : Octets) : List Write → Prop
  | [] => part = []
  | w :: rest => w.packet.encode = .ok (part ++ w.left) ∧ ∀ v ∈ rest, v.packet.encode = .ok v.left

/-- The line carries whole packets and then a part of one, which goes on as long as it can. -/
def Carries (earlier : Octets) (t : List Milestone) (f : Flow) : Prop :=
  ∃ part, f.wire = earlier ++ t.flatMap Milestone.bytes ++ part ∧
    (f.closing = false → f.broken = false → OnLine part f.writes)

theorem OnLine.append {part : Octets} (h : OnLine part writes) (hw : w.packet.encode = .ok w.left) :
    OnLine part (writes ++ [w]) := by
  cases writes with
  | nil =>
    obtain rfl : part = [] := h
    exact ⟨hw, by simp⟩
  | cons v rest =>
    refine ⟨h.1, fun x hx => ?_⟩
    rcases List.mem_append.mp hx with hx | hx
    · exact h.2 x hx
    · obtain rfl := List.mem_singleton.mp hx
      exact hw

theorem OnLine.tail {part : Octets} (h : OnLine part (w :: rest)) : OnLine [] rest := by
  cases rest with
  | nil => rfl
  | cons v rest => exact ⟨h.2 v List.mem_cons_self, fun x hx => h.2 x (List.mem_cons_of_mem v hx)⟩

theorem Carries.step {earlier : Octets} (h : Carries earlier t f) (step : f.Step m g)
    (hopen : ∀ line, m ≠ some (.opened line)) : Carries earlier (t ++ m.toList) g := by
  obtain ⟨part, hwire, hline⟩ := h
  have hsame : g.wire = f.wire → m.toList.flatMap Milestone.bytes = [] →
      (g.closing = false → g.broken = false → OnLine part g.writes) →
      Carries earlier (t ++ m.toList) g := by
    intro hg hm hg'
    refine ⟨part, ?_, hg'⟩
    rw [hg, hwire, List.flatMap_append, hm, List.append_nil]
  have hdrift : ∀ {f' : Flow}, f'.Drift g → (f'.closing = false → f'.broken = false →
      OnLine part f'.writes) → g.closing = false → g.broken = false → OnLine part g.writes := by
    intro f' drift hf' hclosing hbroken
    have hwrites : g.writes = f'.writes := by rw [drift.rest]
    rw [hwrites]
    exact hf' (by simpa using mt drift.closing (by simp [hclosing]))
      (by simpa using mt drift.broken (by simp [hbroken]))
  cases step with
  | opened => exact absurd rfl (hopen _)
  | quiet drift => exact hsame (by rw [drift.rest]) rfl (hdrift drift hline)
  | idled _ _ _ _ drift => exact hsame (by rw [drift.rest]) rfl (hdrift drift hline)
  | taken _ hbytes => exact hsame rfl rfl fun hc hb => (hline hc hb).append hbytes
  | posted _ hbytes => exact hsame rfl rfl fun hc hb => (hline hc hb).append hbytes
  | @continued w rest sent left hwrites hclosing hbroken hleft =>
    have hhead := hline hclosing hbroken
    rw [hwrites] at hhead
    refine ⟨part ++ sent, ?_, fun _ _ => ⟨?_, hhead.2⟩⟩
    · simp [hwire]
    · rw [hhead.1, hleft, List.append_assoc]
  | @written w rest hwrites hclosing hbroken =>
    have hhead := hline hclosing hbroken
    rw [hwrites] at hhead
    refine ⟨[], ?_, fun _ _ => hhead.tail⟩
    simp [hwire, Milestone.bytes, hhead.1, Except.toOption]
  | failed _ _ hbroken drift =>
    exact hsame (by rw [drift.rest]) rfl (hdrift drift fun _ hb => by
      cases hbroken.symm.trans hb)
  | withdrawn _ _ hclosing drift =>
    exact hsame (by rw [drift.rest]) rfl (hdrift drift fun hc _ => by
      cases hclosing.symm.trans hc)
  | _ => exact hsame rfl rfl hline

/-- The report comes from the pass of its turn, whose packets were sent up to some end. -/
def ReportOf (u : List Milestone) (events : List Event) (outcome : Except ClientError Unit) :
    Prop :=
  ∃ q s acks now sent outgoing, Since u q s acks now sent ∧
    (q.pass s acks now).2.2 = ⟨outgoing, events⟩ ∧ Ended outcome outgoing sent

theorem Working.of_writing {own : List Write} {packets : List Packet} {events : List Event}
    (h : Working t (.writing packets events) own) : own = [] ∧ ∃ q s acks now sent,
      Since t q s acks now sent ∧ (q.pass s acks now).2.2 = ⟨sent ++ packets, events⟩ := by
  cases h with
  | idle hidle => cases hidle
  | writing since work => exact ⟨rfl, _, _, _, _, _, since, work⟩

theorem Working.of_publishing {own : List Write} {events : List Event}
    {outcome : Except ClientError Unit} (h : Working t (.publishing events outcome) own) :
    own = [] ∧ ReportOf t events outcome := by
  cases h with
  | idle hidle => cases hidle
  | publishing since work ended => exact ⟨rfl, _, _, _, _, _, _, since, work, ended⟩

theorem Working.of_isIdle {own : List Write} (h : Working t worker own)
    (hidle : worker.isIdle = true) : own = [] := by
  cases h with
  | sending => cases hidle
  | _ => rfl

structure Turns (t : List Milestone) (f : Flow) : Prop where
  starting : f.starting = true → f.worker = .stopped
  working : Working t f.worker (own f.writes)
  reports : ∀ u n v, t = u ++ n :: v → ∀ events outcome, n = .reported events outcome →
    ReportOf u events outcome

theorem Turns.step (h : Turns t f) (step : f.Step m g) (hopen : ∀ line, m ≠ some (.opened line)) :
    Turns (t ++ m.toList) g := by
  have hreports : (∀ events outcome, m = some (.reported events outcome) →
      ReportOf t events outcome) → ∀ u n v, t ++ m.toList = u ++ n :: v →
      ∀ events outcome, n = .reported events outcome → ReportOf u events outcome :=
    fun hm => forall_append_toList h.reports
      fun n hn events outcome hn' => hm events outcome (hn.trans (congrArg some hn'))
  have hbeside : (∀ n ∈ m, n.isTurn = false ∧ n.sent = []) →
      Working (t ++ m.toList) f.worker (own f.writes) := h.working.append
  have hrunning : ∀ {w : Worker}, f.worker = w → w ≠ .stopped → f.starting = true → False :=
    fun hworker hw hs => hw (hworker.symm.trans (h.starting hs))
  have hlost : ∀ {outcome : Except ClientError Unit} {task : Task}, f.starting = true →
      f.worker.sent task outcome = .stopped := by
    intro outcome task hs
    rw [h.starting hs]
    cases task <;> rfl
  have hworking := h.working
  cases step with
  | opened => exact absurd rfl (hopen _)
  | quiet drift =>
    rw [drift.rest]
    exact ⟨fun hs => h.starting (drift.starting hs), hbeside (by simp), hreports (by simp)⟩
  | issued =>
    exact ⟨h.starting, hbeside (by simp [Milestone.isTurn, Milestone.sent]), hreports (by simp)⟩
  | accepted | resumed | told => exact ⟨h.starting, hbeside (by simp), hreports (by simp)⟩
  | started hstarting =>
    have hnone := hworking.of_isIdle (by rw [h.starting hstarting]; rfl)
    refine ⟨(fun hs => by cases hs), ?_, hreports (by simp)⟩
    rw [hnone]
    exact .idle rfl
  | @passed acks now q s work hworker hpass =>
    rw [hworker] at hworking
    refine ⟨fun hs => (hrunning hworker (by simp) hs).elim, ?_, hreports (by simp)⟩
    rw [hworking.of_isIdle rfl]
    exact .writing (since_passed t f.queue f.session acks now) (by rw [hpass]; rfl)
  | @taken p rest events bytes hworker _ =>
    rw [hworker] at hworking
    obtain ⟨hnone, q, s, acks, now, sent, since, work⟩ := hworking.of_writing
    refine ⟨fun hs => (hrunning hworker (by simp) hs).elim, ?_, hreports (by simp)⟩
    have hown : own (f.writes ++ [⟨.worker, p, bytes⟩]) = [⟨.worker, p, bytes⟩] := by
      rw [own, List.filter_append, ← own, hnone]
      rfl
    rw [hown]
    exact .sending (since.beside (by simp [Milestone.isTurn, Milestone.sent])) work
  | @unsendable p rest events e hworker _ =>
    rw [hworker] at hworking
    obtain ⟨hnone, q, s, acks, now, sent, since, work⟩ := hworking.of_writing
    refine ⟨fun hs => (hrunning hworker (by simp) hs).elim, ?_, hreports (by simp)⟩
    rw [hnone]
    have hsince := since.beside (m := some (.taken p)) (by simp [Milestone.isTurn, Milestone.sent])
    exact .publishing hsince work ⟨p, rest, rfl⟩
  | @finished events hworker =>
    rw [hworker] at hworking
    obtain ⟨hnone, q, s, acks, now, sent, since, work⟩ := hworking.of_writing
    refine ⟨fun hs => (hrunning hworker (by simp) hs).elim, ?_, hreports (by simp)⟩
    rw [hnone]
    exact .publishing (since.beside (by simp)) work (List.append_nil sent)
  | @reported events outcome next hworker hnext =>
    rw [hworker] at hworking
    obtain ⟨hnone, hreport⟩ := hworking.of_publishing
    refine ⟨fun hs => (hrunning hworker (by simp) hs).elim, ?_, hreports ?_⟩
    · rw [hnone]
      exact .idle (by rcases hnext with rfl | rfl <;> rfl)
    · intro events' outcome' heq
      cases heq
      exact hreport
  | idled hworker hidle hstopped hnext drift =>
    rw [hworker] at hworking
    rw [drift.rest]
    refine ⟨fun hs => (hrunning hworker hstopped (drift.starting hs)).elim, ?_, hreports (by simp)⟩
    rw [hworking.of_isIdle hidle]
    exact .idle hnext
  | @posted p bytes task htask _ =>
    have hown : own (f.writes ++ [⟨task, p, bytes⟩]) = own f.writes := by
      simp [own, htask]
    refine ⟨h.starting, ?_, hreports (by simp)⟩
    rw [hown]
    exact hbeside (by simp)
  | continued hwrites =>
    rw [hwrites] at hworking
    exact ⟨h.starting, by simpa using hworking.continued _, hreports (by simp)⟩
  | @written w rest hwrites =>
    rw [hwrites] at hworking
    exact ⟨hlost, hworking.written, hreports (by simp)⟩
  | failed e hwrites _ drift =>
    rw [hwrites] at hworking
    rw [drift.rest]
    exact ⟨fun hs => hlost (drift.starting hs), by simpa using hworking.failed e,
      hreports (by simp)⟩
  | withdrawn task e _ drift =>
    rw [drift.rest]
    exact ⟨fun hs => hlost (drift.starting hs), by simpa using hworking.withdrawn task e,
      hreports (by simp)⟩

theorem opened_invariants {line : Line} (step : f.Step (some (.opened line)) g) :
    Turns [] g ∧ InOrder f.told [] g ∧ Carries line.written [] g := by
  cases step with
  | @opened _ σ writes closing starting hwrites =>
    refine ⟨⟨fun _ => rfl, ?_, by simp⟩, ⟨[], by simp, rfl⟩, [], by simp, fun _ _ => ?_⟩
    · have hnone : own writes = [] := by
        refine List.filter_eq_nil_iff.mpr fun w hw => ?_
        simp [(hwrites w hw).1]
      dsimp only
      rw [hnone]
      exact .idle rfl
    · cases writes with
      | nil => rfl
      | cons w rest =>
        have hrest : ∀ v ∈ rest, v.packet.encode = .ok v.left :=
          fun v hv => (hwrites v (List.mem_cons_of_mem w hv)).2
        exact ⟨(hwrites w List.mem_cons_self).2, hrest⟩

theorem Ended.sent_or_failed {outcome : Except ClientError Unit} {outgoing sent ahead : List Packet}
    {p : Packet} (h : Ended outcome outgoing sent) (hp : ∃ rest, outgoing = ahead ++ p :: rest) :
    ahead ++ [p] <+: sent ∨ (∃ e, outcome = .error e) ∧ sent <+: ahead := by
  obtain ⟨rest, rfl⟩ := hp
  have hprefix : ahead ++ [p] <+: ahead ++ p :: rest := ⟨rest, by simp⟩
  cases outcome with
  | ok _ =>
    obtain rfl : ahead ++ p :: rest = sent := h
    exact .inl hprefix
  | error e =>
    obtain ⟨p', rest', heq⟩ := h
    rcases List.prefix_or_prefix_of_prefix hprefix ⟨p' :: rest', heq.symm⟩ with hsent | hsent
    · exact .inl hsent
    · rcases List.prefix_concat_iff.mp hsent with rfl | hahead
      · exact .inl (List.prefix_refl _)
      · exact .inr ⟨⟨e, rfl⟩, hahead⟩

/-- Of one connection, from its first step on: the application is told the events of the reports, in
their order; the line carries the packets that were written whole, in their order, and then at most
a part of one more; and each report follows on one pass, of whose packets an initial part has been
sent whole, all of them if the writing ended well. The success of a message of quality 0 is reported
in any case. Its packet has been sent whole before, unless the writing failed at it or at a packet
in front of it. -/
theorem success_after_sending {c c' d : Client} {a : Action} {line : Line} {actions : List Action}
    (hact : c.act a = some c') (hopened : c.milestone a = some (.opened line))
    (hacts : c'.acts actions = some d) (hsame : ∀ l, .opened l ∉ c'.milestones actions) :
    let t := c'.milestones actions
    (∃ told, d.told = c.told ++ told ∧
      t.flatMap Milestone.events = told ++ d.connection.events) ∧
    (∃ part, d.connection.line.written = line.written ++ t.flatMap Milestone.bytes ++ part) ∧
    ∀ u events outcome v, t = u ++ .reported events outcome :: v →
      ∃ q s acks now sent, Since u q s acks now sent ∧ (q.pass s acks now).2.2.events = events ∧
        Ended outcome (q.pass s acks now).2.2.outgoing sent ∧
        (∀ id, .published id true ∈ events →
          .published id true ∈ (q.applyAcks s acks).2.2.events ∨
            ∃ ahead e, q.Fires s acks now ahead e ∧ e.id = id) ∧
        ∀ ahead e, q.Fires s acks now ahead e → .published e.id true ∈ events ∧
          (ahead ++ [e.packet] <+: sent ∨ (∃ error, outcome = .error error) ∧ sent <+: ahead) := by
  intro t
  have hstep := step_act hact
  rw [hopened] at hstep
  have hstart := opened_invariants hstep
  obtain ⟨hturns, horder, hcarries⟩ : Turns t d.flow ∧ InOrder c.told t d.flow ∧
      Carries line.written t d.flow := by
    refine flow_induction (motive := fun t f => (∀ l, .opened l ∉ t) →
      Turns t f ∧ InOrder c.told t f ∧ Carries line.written t f) (fun _ => hstart) ?_ hacts hsame
    intro t f g m ih step hno
    obtain ⟨hturns, horder, hcarries⟩ := ih fun l hl => hno l (List.mem_append_left _ hl)
    have hopen : ∀ l, m ≠ some (.opened l) := by
      rintro l rfl
      exact hno l (by simp)
    exact ⟨hturns.step step hopen, horder.step step hopen, hcarries.step step hopen⟩
  obtain ⟨part, hwire, -⟩ := hcarries
  refine ⟨horder, ⟨part, hwire⟩, fun u events outcome v ht => ?_⟩
  obtain ⟨q, s, acks, now, sent, outgoing, since, work, ended⟩ :=
    hturns.reports u _ v ht events outcome rfl
  have hevents : (q.pass s acks now).2.2.events = events := by rw [work]
  have houtgoing : (q.pass s acks now).2.2.outgoing = outgoing := by rw [work]
  rw [← houtgoing] at ended
  refine ⟨q, s, acks, now, sent, since, hevents, ended, fun id hid => ?_, fun ahead e fires => ?_⟩
  · rw [← hevents] at hid
    exact DeliveryQueue.exists_fires_of_published hid
  · obtain ⟨hpacket, hpublished⟩ := fires.pass
    rw [hevents] at hpublished
    exact ⟨hpublished, ended.sent_or_failed hpacket⟩

/-- The packet of a message of quality 0 is on the line as a whole before the application is told of
its success. -/
theorem success_after_sending_of_written :
    let options : ConnectOptions := { clientId := "c", keepAlive := 0 }
    let actions := (Action.opening options).tail ++ [.publish "a" [42] 0 false, .signal] ++
      Action.working ++ [.write 100] ++ List.replicate 3 (.run .worker) ++ [.run .dispatcher]
    let p : Packet := .publish ⟨false, 0, false, "a", none, [42]⟩
    ∃ c d, newcomer.act (.connect options {}) = some c ∧
      newcomer.milestone (.connect options {}) = some (.opened {}) ∧
      c.acts actions = some d ∧ (∀ l, .opened l ∉ c.milestones actions) ∧
      d.told = [.published 1 true] ∧
      ∃ part, d.connection.line.written =
        options.packet.encode.toOption.getD [] ++ p.encode.toOption.getD [] ++ part := by
  intro options actions p
  let c := newcomer.greet options {}
  have hact : newcomer.act (.connect options {}) = some c := rfl
  obtain ⟨d, hacts, htold⟩ : ∃ d, c.acts actions = some d ∧ d.told = [.published 1 true] := by
    apply Option.map_eq_some_iff.mp
    dsimp only [actions, c, options]
    rfl
  let delivery := Delivery.publish 1 ⟨false, 0, false, "a", none, [42]⟩
  have hmilestones : c.milestones actions =
      [.written .caller options.packet, .issued (.publish ⟨false, 0, false, "a", none, [42]⟩) 1,
        .passed ((DeliveryQueue.ofSettings {}).enqueue delivery) ⟨"c", [], 1⟩ [] 0, .taken p,
        .written .worker p, .reported [.published 1 true] (.ok ())] := by
    dsimp only [actions, c, delivery, p, options]
    rfl
  have hsame : ∀ l, .opened l ∉ c.milestones actions := by
    simp [hmilestones]
  have hopened : newcomer.milestone (.connect options {}) = some (.opened {}) := rfl
  obtain ⟨-, ⟨part, hwritten⟩, -⟩ := success_after_sending hact hopened hacts hsame
  rw [hmilestones] at hwritten
  have hline : d.connection.line.written =
      options.packet.encode.toOption.getD [] ++ p.encode.toOption.getD [] ++ part := by
    simpa [Milestone.bytes, Line.written] using hwritten
  exact ⟨c, d, hact, hopened, hacts, hsame, htold, part, hline⟩

/-- The line breaks while the packet of a message of quality 0 is on its way. No byte of it has been
written, and the application is told of a success. -/
theorem not_success_after_sending_of_broken :
    let options : ConnectOptions := { clientId := "c", keepAlive := 0 }
    let actions := Action.opening options ++ [.publish "a" [42] 0 false, .signal] ++
      Action.working ++ [.vanish, .write 1] ++ List.replicate 2 (.run .worker) ++
      [.run .dispatcher]
    ∃ c, newcomer.acts actions = some c ∧ c.told = [.published 1 true] ∧
      .ok c.connection.line.written = options.packet.encode := by
  intro options actions
  have hrun : (newcomer.acts actions).map (fun c => (c.told, c.connection.line.written)) =
      some ([.published 1 true], options.packet.encode.toOption.getD []) := by
    dsimp only [actions, options]
    rfl
  obtain ⟨c, hacts, heq⟩ := Option.map_eq_some_iff.mp hrun
  obtain ⟨htold, hwritten⟩ := Prod.mk.inj heq
  exact ⟨c, hacts, htold, by rw [hwritten]; dsimp only [options]; rfl⟩

end Client
end Mqtt
