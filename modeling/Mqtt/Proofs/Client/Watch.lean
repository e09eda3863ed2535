import Mqtt.Client.Schedule
import Mqtt.Proofs.Client.Pulse

/-!
What the keeper of an open connection knows. Time goes by only while nobody can go on and packets
are written at once; so it is never later than the keeper's next turn, and the keeper knows which of
its questions is unanswered.
-/
namespace Mqtt.Client

/-- Time may go by: no packet is on its way, no task can go on, and none that waits has waited long
enough before. -/
structure Rests (c : Client) (milliseconds : Nat) : Prop where
  written : c.connection.writes = []
  still : ∀ task ∈ Task.caller :: loops, (c.next task).isNone
  waiting : ∀ t ∈ c.timers, c.now < t → c.now + milliseconds ≤ t

instance (c : Client) (milliseconds : Nat) : Decidable (c.Rests milliseconds) :=
  decidable_of_iff
    (c.connection.writes = [] ∧ (∀ task ∈ Task.caller :: loops, (c.next task).isNone) ∧
      ∀ t ∈ c.timers, c.now < t → c.now + milliseconds ≤ t)
    ⟨fun h => ⟨h.1, h.2.1, h.2.2⟩, fun h => ⟨h.written, h.still, h.waiting⟩⟩

/-- The times that go by, each with the client that it finds. -/
def delays : Client → List Action → List (Client × Nat) :=
  trace fun c a => match a with | .elapse milliseconds => [(c, milliseconds)] | _ => []

def Timely (c : Client) (actions : List Action) : Prop :=
  ∀ m ∈ c.delays actions, m.1.Rests m.2

/-- The keeper handed a PINGREQ to the line at `time`, and no PINGRESP has come since. -/
def Unanswered (c : Client) (actions : List Action) (time : Nat) : Prop :=
  ∃ u v d, actions = u ++ .run .keeper :: v ∧ c.acts u = some d ∧ d.now = time ∧
    d.submits (.run .keeper) = some .pingReq ∧ .pingResp ∉ d.routed (.run .keeper :: v)

/-- A PINGREQ was written a period ago, and up to now no PINGRESP had come. -/
def Overdue (c : Client) (actions : List Action) (period now : Nat) : Prop :=
  ∃ u v d time, actions = u ++ v ∧ c.acts u = some d ∧ c.Unanswered u time ∧
    ⟨time, .keeper, .pingReq⟩ ∈ c.writings u ∧ d.now = time + period ∧ now = time + period

variable {c d f : Client} {a : Action} {u v actions : List Action} {written : List Writing}
  {time period milliseconds : Nat}

/-! While time goes by the keeper sleeps or waits for its answer. -/

theorem Rests.runKeeper (h : c.Rests milliseconds) : c.runKeeper = none := by
  have hnone := Option.isNone_iff_eq_none.mp (h.still .keeper (by simp [loops]))
  exact List.findSome?_eq_none_iff.mp hnone (.run .keeper) (by simp [choices])

theorem Rests.sleeping {due : Nat} (h : c.Rests milliseconds)
    (hkeeper : c.connection.keeper = .sleeping period due) : c.now + milliseconds ≤ due := by
  have hnone := h.runKeeper
  apply h.waiting due (by simp [timers, hkeeper])
  by_contra hdue
  simp [Client.runKeeper, hkeeper, Nat.le_of_not_lt hdue] at hnone

theorem Rests.awaiting {deadline : Nat} (h : c.Rests milliseconds)
    (hkeeper : c.connection.keeper = .awaiting period deadline) :
    c.now + milliseconds ≤ deadline := by
  have hnone := h.runKeeper
  apply h.waiting deadline (by simp [timers, hkeeper])
  by_contra hdue
  cases hpong : c.connection.pong <;>
    simp [Client.runKeeper, hkeeper, hpong, Nat.le_of_not_lt hdue] at hnone

theorem timely_append (hu : c.acts u = some d) :
    c.Timely (u ++ v) ↔ c.Timely u ∧ d.Timely v := by
  simp only [Timely, delays, trace_append _ hu, List.forall_mem_append]

theorem Timely.rests (h : c.Timely [.elapse milliseconds]) : c.Rests milliseconds :=
  h (c, milliseconds) (List.mem_singleton_self _)

/-! Which PINGREQ is unanswered after one action more. -/

/-- The keeper asks only where it has found the line quiet. -/
theorem sending_of_submits {p : Packet} (hact : c.act (.run .keeper) = some d)
    (hsubmits : c.submits (.run .keeper) = some p) :
    (∃ period, c.connection.keeper = .checking period) ∧
      ∃ period, d.connection.keeper = .sending period := by
  cases hkeeper : c.connection.keeper with
  | checking period =>
    have hquiet : ¬ c.now < c.connection.lastSent + period := by
      intro hrecent
      simp [submits, hkeeper, hrecent] at hsubmits
    obtain ⟨bytes, hbytes⟩ : ∃ bytes, Packet.pingReq.encode = .ok bytes := ⟨_, rfl⟩
    simp only [act, run, runKeeper, hkeeper, if_neg hquiet, ping, post, hbytes,
      Option.some.injEq] at hact
    rw [← hact]
    exact ⟨⟨period, rfl⟩, period, rfl⟩
  | _ => simp [submits, hkeeper] at hsubmits

theorem unanswered_concat (hu : c.acts u = some d) {e : Client} (hact : d.act a = some e) :
    c.Unanswered (u ++ [a]) time ↔
      (a = .run .keeper ∧ d.submits a = some .pingReq ∧ d.now = time) ∨
        c.Unanswered u time ∧ d.routedBy a ≠ some .pingResp := by
  constructor
  · rintro ⟨v, w, g, hsplit, hv, htime, hasked, hnone⟩
    rcases List.eq_nil_or_concat w with rfl | ⟨w, b, rfl⟩
    · obtain ⟨rfl, rfl⟩ := List.append_inj' hsplit rfl |>.imp_right List.singleton_inj.mp
      obtain rfl : d = g := Option.some.inj (hu.symm.trans hv)
      exact .inl ⟨rfl, hasked, htime⟩
    · rw [List.concat_eq_append, ← List.cons_append, ← List.append_assoc] at hsplit
      obtain ⟨rfl, rfl⟩ := List.append_inj' hsplit rfl |>.imp_right List.singleton_inj.mp
      have hrest : g.acts (.run .keeper :: w) = some d := by
        rw [acts_append, hv] at hu
        exact hu
      rw [List.concat_eq_append, ← List.cons_append, routed_concat hrest hact,
        List.mem_append, not_or] at hnone
      refine .inr ⟨⟨v, w, g, rfl, hv, htime, hasked, hnone.1⟩, ?_⟩
      exact fun hrouted => hnone.2 (by simp [hrouted])
  · rintro (⟨rfl, hasked, htime⟩ | ⟨⟨v, w, g, rfl, hv, htime, hasked, hnone⟩, hother⟩)
    · refine ⟨u, [], d, rfl, hu, htime, hasked, ?_⟩
      simp [routed, hact, routedBy]
    · refine ⟨v, w ++ [a], g, by simp, hv, htime, hasked, ?_⟩
      have hrest : g.acts (.run .keeper :: w) = some d := by
        rw [acts_append, hv] at hu
        exact hu
      rw [← List.cons_append, routed_concat hrest hact, List.mem_append, not_or]
      refine ⟨hnone, fun hrouted => hother ?_⟩
      simpa using hrouted

/-- Nothing is asked where the keeper does not begin to write. -/
theorem unanswered_concat_of_unasked (hu : c.acts u = some d) {e : Client}
    (hact : d.act a = some e)
    (hkeeper : ∀ p q, d.connection.keeper = .checking p → e.connection.keeper ≠ .sending q) :
    c.Unanswered (u ++ [a]) time ↔ c.Unanswered u time ∧ d.routedBy a ≠ some .pingResp := by
  rw [unanswered_concat hu hact]
  constructor
  · rintro (⟨rfl, hasked, -⟩ | h)
    · obtain ⟨⟨p, hp⟩, q, hq⟩ := sending_of_submits hact hasked
      exact absurd hq (hkeeper p q hp)
    · exact h
  · exact .inr

theorem Overdue.mono {now : Nat} (h : c.Overdue u period now) (v : List Action) :
    c.Overdue (u ++ v) period now := by
  obtain ⟨w, x, d, time, rfl, h⟩ := h
  exact ⟨w, x ++ v, d, time, List.append_assoc .., h⟩

/-! What the keeper is at, and what it knows. -/

/-- What has become of the PINGREQ of a time. -/
inductive Answering (f : Client) (actions : List Action) (time : Nat) (pong : Reply Unit) :
    Prop where
  | awaited (hpong : pong = .awaited) (hasked : ∀ t, f.Unanswered actions t ↔ t = time)
  | answered (hpong : pong = .answered ()) (hasked : ∀ t, ¬ f.Unanswered actions t)

/-- The keeper of a connection that was established at `f` and is still open, with the packets that
have been written on it. -/
inductive Watch (f : Client) (period : Nat) (actions : List Action) (written : List Writing)
    (p : Pulse) : Prop where
  | idle (hkeeper : p.keeper = .resting period ∨ p.keeper = .checking period ∨
        ∃ due, p.keeper = .sleeping period due ∧ due ≤ max f.now p.lastSent + period)
      (hpong : p.pong = .idle) (hasked : ∀ t, ¬ f.Unanswered actions t)
  | sending (hkeeper : p.keeper = .sending period) (hasking : p.asking = true)
      (hanswer : f.Answering actions p.now p.pong)
      (hspaced : ∀ w ∈ written, w.time + period ≤ p.now ∨ p.now ≤ w.time)
  | awaiting {time : Nat} (hkeeper : p.keeper = .awaiting period (time + period))
      (hsent : time ≤ p.lastSent) (hdue : p.now ≤ time + period)
      (hwritten : ⟨time, .keeper, .pingReq⟩ ∈ f.writings actions)
      (hanswer : f.Answering actions time p.pong)
  | failing {e : ClientError} (hkeeper : p.keeper = .failing e)
      (hlate : ∀ t, f.Unanswered actions t → p.now ≤ t + period)
      (hcause : p.broken = true ∨ f.Overdue actions period p.now)

/-- Packets are spaced: none is written within `period` before a PINGREQ. -/
def Spaced (period : Nat) (written : List Writing) : Prop :=
  ∀ p ∈ written, p.packet = .pingReq → ∀ w ∈ written, w.time + period ≤ p.time ∨ p.time ≤ w.time

structure Paced (f : Client) (period : Nat) (actions : List Action) (written : List Writing)
    (p : Pulse) : Prop where
  begun : f.now ≤ p.now
  sent : p.lastSent ≤ p.now
  past : ∀ w ∈ written, w.time ≤ p.lastSent
  spaced : Spaced period written
  due : p.closing = false → p.now ≤ max f.now p.lastSent + period
  watch : p.closing = false → Watch f period actions written p

theorem Spaced.concat {w : Writing} (h : Spaced period written)
    (hpast : ∀ v ∈ written, v.time ≤ w.time)
    (hquiet : w.packet = .pingReq → ∀ v ∈ written, v.time + period ≤ w.time ∨ w.time ≤ v.time) :
    Spaced period (written ++ [w]) := by
  intro p hp hping v hv
  rcases List.mem_append.mp hp with hp | hp <;> rcases List.mem_append.mp hv with hv | hv
  · exact h p hp hping v hv
  · rw [List.mem_singleton.mp hv]
    exact .inr (hpast p hp)
  · rw [List.mem_singleton.mp hp] at hping ⊢
    exact hquiet hping v hv
  · rw [List.mem_singleton.mp hp, List.mem_singleton.mp hv]
    exact .inr (Nat.le_refl w.time)

theorem Answering.act {pong : Reply Unit} (h : f.Answering u time pong)
    (hsame : ∀ t, f.Unanswered (u ++ [a]) t ↔ f.Unanswered u t ∧ c.routedBy a ≠ some .pingResp)
    (hquiet : pong = .awaited → c.routedBy a ≠ some .pingResp) :
    f.Answering (u ++ [a]) time pong := by
  cases h with
  | awaited hpong hasked =>
    refine .awaited hpong fun t => ?_
    rw [hsame, hasked]
    exact and_iff_left (hquiet hpong)
  | answered hpong hasked =>
    refine .answered hpong fun t ht => ?_
    exact hasked t ((hsame t).mp ht).1

/-- The next step of a connection that stays open and where the keeper stays where it is, at the
same time and with the same answer. -/
theorem Watch.stays {p q : Pulse} (h : Watch f period u written p)
    (hsame : ∀ t, f.Unanswered (u ++ [a]) t ↔ f.Unanswered u t ∧ c.routedBy a ≠ some .pingResp)
    (hquiet : p.pong = .awaited → c.routedBy a ≠ some .pingResp)
    (hwritings : f.writings (u ++ [a]) = f.writings u ++ c.finishes a)
    (hnow : ∀ w ∈ c.finishes a, w.time = p.now)
    (hpulse : q = { p with lastSent := q.lastSent, broken := q.broken })
    (hsent : p.lastSent ≤ q.lastSent) (hbroken : p.broken = true → q.broken = true) :
    Watch f period (u ++ [a]) (written ++ c.finishes a) q := by
  rw [hpulse]
  cases h with
  | idle hkeeper hpong hasked =>
    refine .idle ?_ hpong fun t ht => hasked t ((hsame t).mp ht).1
    rcases hkeeper with hkeeper | hkeeper | ⟨due, hkeeper, hdue⟩
    · exact .inl hkeeper
    · exact .inr (.inl hkeeper)
    · refine .inr (.inr ⟨due, hkeeper, ?_⟩)
      dsimp only
      omega
  | sending hkeeper hasking hanswer hspaced =>
    refine .sending hkeeper hasking (hanswer.act hsame hquiet) fun w hw => ?_
    rcases List.mem_append.mp hw with hw | hw
    · exact hspaced w hw
    · exact .inr (hnow w hw).ge
  | awaiting hkeeper hbefore hdue hwritten hanswer =>
    refine .awaiting hkeeper (Nat.le_trans hbefore hsent) hdue ?_ (hanswer.act hsame hquiet)
    rw [hwritings]
    exact List.mem_append_left _ hwritten
  | failing hkeeper hlate hcause =>
    refine .failing hkeeper (fun t ht => hlate t ((hsame t).mp ht).1) ?_
    exact hcause.imp hbroken fun hoverdue => hoverdue.mono [a]

theorem Watch.moves {q : Pulse} (hkeeper : q.keeper = .resting period ∨
      q.keeper = .checking period ∨
        ∃ due, q.keeper = .sleeping period due ∧ due ≤ max f.now q.lastSent + period)
    (hpong : q.pong = .idle) (hasked : ∀ t, ¬ f.Unanswered u t)
    (hsame : ∀ t, f.Unanswered (u ++ [a]) t ↔ f.Unanswered u t ∧ c.routedBy a ≠ some .pingResp) :
    Watch f period (u ++ [a]) written q :=
  .idle hkeeper hpong fun t ht => hasked t ((hsame t).mp ht).1

/-- Time goes by up to the next turn of the keeper and no further. -/
theorem Watch.elapses (h : Watch f period u written c.pulse) (hrests : c.Rests milliseconds)
    (hsame : ∀ t, f.Unanswered (u ++ [a]) t ↔ f.Unanswered u t ∧ c.routedBy a ≠ some .pingResp)
    (hroute : c.routedBy a = none) (hwritings : f.writings (u ++ [a]) = f.writings u) :
    c.now + milliseconds ≤ max f.now c.connection.lastSent + period ∧
      Watch f period (u ++ [a]) written { c.pulse with now := c.now + milliseconds } := by
  have hnone := hrests.runKeeper
  cases h with
  | idle hkeeper hpong hasked =>
    rcases hkeeper with hkeeper | hkeeper | ⟨due, hkeeper, hdue⟩
    · simp [Client.runKeeper, show c.connection.keeper = _ from hkeeper] at hnone
    · simp only [Client.runKeeper, show c.connection.keeper = _ from hkeeper] at hnone
      split at hnone <;> cases hnone
    · refine ⟨Nat.le_trans (hrests.sleeping hkeeper) hdue, ?_⟩
      exact .moves (.inr (.inr ⟨due, hkeeper, hdue⟩)) hpong hasked hsame
  | sending hkeeper hasking => simp [pulse, hrests.written] at hasking
  | @awaiting time hkeeper hsent hdue hwritten hanswer =>
    have hlater := hrests.awaiting hkeeper
    have hsent : time ≤ c.connection.lastSent := hsent
    refine ⟨by omega, .awaiting hkeeper hsent hlater ?_ (hanswer.act hsame ?_)⟩
    · rw [hwritings]
      exact hwritten
    · simp [hroute]
  | failing hkeeper =>
    simp [Client.runKeeper, show c.connection.keeper = _ from hkeeper] at hnone

theorem Paced.silent {p q : Pulse} (h : Paced f period u written p) (hnow : q.now = p.now)
    (hsent : q.lastSent = p.lastSent) (hclosing : q.closing = false → p.closing = false)
    (hwatch : q.closing = false → Watch f period (u ++ [a]) written q) :
    Paced f period (u ++ [a]) written q := by
  obtain ⟨hbegun, hlast, hpast, hspaced, hdue, -⟩ := h
  rw [← hnow] at hbegun hlast hdue
  rw [← hsent] at hlast hpast hdue
  exact ⟨hbegun, hlast, hpast, hspaced, fun hopen => hdue (hclosing hopen), hwatch⟩

theorem Paced.writes {p q : Pulse} {w : Writing} (h : Paced f period u written p)
    (hnow : q.now = p.now) (hsent : q.lastSent = p.now) (htime : w.time = p.now)
    (hquiet : w.packet = .pingReq → ∀ v ∈ written, v.time + period ≤ p.now ∨ p.now ≤ v.time)
    (hwatch : q.closing = false → Watch f period (u ++ [a]) (written ++ [w]) q) :
    Paced f period (u ++ [a]) (written ++ [w]) q := by
  have hpast : ∀ v ∈ written, v.time ≤ w.time := by
    intro v hv
    rw [htime]
    exact Nat.le_trans (h.past v hv) h.sent
  refine ⟨?_, ?_, ?_, h.spaced.concat hpast ?_, ?_, hwatch⟩
  · rw [hnow]
    exact h.begun
  · rw [hnow, hsent]
  · rw [hsent, ← htime]
    intro v hv
    rcases List.mem_append.mp hv with hv | hv
    · exact hpast v hv
    · rw [List.mem_singleton.mp hv]
  · rw [htime]
    exact hquiet
  · intro _
    rw [hnow, hsent]
    omega

/-! What a keeper knows where it stands. -/

theorem Watch.of_idle {p : Pulse} {period' : Nat} (h : Watch f period u written p)
    (hkeeper : p.keeper = .resting period' ∨ p.keeper = .checking period' ∨
      ∃ due, p.keeper = .sleeping period' due) :
    period' = period ∧ p.pong = .idle ∧ ∀ t, ¬ f.Unanswered u t := by
  cases h with
  | idle hidle hpong hasked =>
    refine ⟨?_, hpong, hasked⟩
    rcases hkeeper with hkeeper | hkeeper | ⟨due, hkeeper⟩ <;>
      rcases hidle with hidle | hidle | ⟨due', hidle, -⟩ <;>
        cases hkeeper.symm.trans hidle <;> rfl
  | sending hother | awaiting hother | failing hother =>
    rcases hkeeper with hkeeper | hkeeper | ⟨due, hkeeper⟩ <;> cases hkeeper.symm.trans hother

theorem Watch.of_sending {p : Pulse} {period' : Nat} (h : Watch f period u written p)
    (hkeeper : p.keeper = .sending period') :
    period' = period ∧ f.Answering u p.now p.pong ∧
      ∀ w ∈ written, w.time + period ≤ p.now ∨ p.now ≤ w.time := by
  cases h with
  | idle hidle =>
    rcases hidle with hidle | hidle | ⟨due, hidle, -⟩ <;> cases hkeeper.symm.trans hidle
  | sending hsending hasking hanswer hspaced =>
    cases hkeeper.symm.trans hsending
    exact ⟨rfl, hanswer, hspaced⟩
  | awaiting hother | failing hother => cases hkeeper.symm.trans hother

theorem Watch.of_awaiting {p : Pulse} {period' deadline : Nat} (h : Watch f period u written p)
    (hkeeper : p.keeper = .awaiting period' deadline) :
    period' = period ∧ ∃ time, deadline = time + period ∧ p.now ≤ time + period ∧
      ⟨time, .keeper, .pingReq⟩ ∈ f.writings u ∧ f.Answering u time p.pong := by
  cases h with
  | idle hidle =>
    rcases hidle with hidle | hidle | ⟨due, hidle, -⟩ <;> cases hkeeper.symm.trans hidle
  | @awaiting time hawaiting hsent hdue hwritten hanswer =>
    cases hkeeper.symm.trans hawaiting
    exact ⟨rfl, time, rfl, hdue, hwritten, hanswer⟩
  | sending hother | failing hother => cases hkeeper.symm.trans hother

/-! What an action makes of that. -/

theorem Watch.pinged {p : Pulse} {period' : Nat} (h : Watch f period u written p)
    (hkeeper : p.keeper = .sending period')
    (hsame : ∀ t, f.Unanswered (u ++ [a]) t ↔ f.Unanswered u t ∧ c.routedBy a ≠ some .pingResp)
    (hroute : c.routedBy a = none)
    (hwritings : f.writings (u ++ [a]) = f.writings u ++ [⟨p.now, .keeper, .pingReq⟩]) :
    Watch f period (u ++ [a]) (written ++ [⟨p.now, .keeper, .pingReq⟩])
      { p with
        lastSent := p.now, keeper := .awaiting period' (p.now + period'), asking := false } := by
  obtain ⟨rfl, hanswer, -⟩ := h.of_sending hkeeper
  refine .awaiting rfl (Nat.le_refl p.now) (Nat.le_add_right _ _) ?_ (hanswer.act hsame ?_)
  · rw [hwritings]
    exact List.mem_append_right _ (List.mem_singleton_self _)
  · simp [hroute]

theorem Watch.lost {p : Pulse} {period' : Nat} {e : ClientError} (h : Watch f period u written p)
    (hkeeper : p.keeper = .sending period')
    (hsame : ∀ t, f.Unanswered (u ++ [a]) t ↔ f.Unanswered u t ∧ c.routedBy a ≠ some .pingResp)
    (hbroken : p.broken = true) :
    Watch f period (u ++ [a]) written { p with keeper := .failing e, asking := false } := by
  obtain ⟨rfl, hanswer, -⟩ := h.of_sending hkeeper
  refine .failing rfl (fun t ht => ?_) (.inl hbroken)
  have hasked := ((hsame t).mp ht).1
  cases hanswer with
  | awaited _ hiff =>
    rw [(hiff t).mp hasked]
    exact Nat.le_add_right _ _
  | answered _ hnone => exact absurd hasked (hnone t)

theorem Watch.ponged {p : Pulse} (h : Watch f period u written p) (hpong : p.pong = .awaited)
    (hsame : ∀ t, f.Unanswered (u ++ [a]) t ↔ f.Unanswered u t ∧ c.routedBy a ≠ some .pingResp)
    (hrouted : c.routedBy a = some .pingResp) (hwritings : f.writings (u ++ [a]) = f.writings u) :
    Watch f period (u ++ [a]) written { p with pong := .answered () } := by
  have hnone : ∀ t, ¬ f.Unanswered (u ++ [a]) t := fun t ht => ((hsame t).mp ht).2 hrouted
  cases h with
  | idle _ hidle => cases hpong.symm.trans hidle
  | sending hkeeper hasking _ hspaced =>
    exact .sending hkeeper hasking (.answered rfl hnone) hspaced
  | awaiting hkeeper hsent hdue hwritten =>
    refine .awaiting hkeeper hsent hdue ?_ (.answered rfl hnone)
    rw [hwritings]
    exact hwritten
  | failing hkeeper _ hcause =>
    refine .failing hkeeper (fun t ht => absurd ht (hnone t)) ?_
    exact hcause.imp_right fun hoverdue => hoverdue.mono [a]

theorem Watch.asked {p : Pulse} {period' : Nat} (h : Watch f period u written p)
    (hkeeper : p.keeper = .checking period')
    (hasked : ∀ t, f.Unanswered (u ++ [a]) t ↔
      p.now = t ∨ f.Unanswered u t ∧ c.routedBy a ≠ some .pingResp)
    (hquiet : p.lastSent + period' ≤ p.now) (hpast : ∀ w ∈ written, w.time ≤ p.lastSent) :
    Watch f period (u ++ [a]) written
      { p with pong := .awaited, keeper := .sending period', asking := true } := by
  obtain ⟨rfl, -, hnone⟩ := h.of_idle (.inr (.inl hkeeper))
  refine .sending rfl rfl (.awaited rfl fun t => ?_) fun w hw => .inl ?_
  · rw [hasked]
    constructor
    · rintro (hnow | ⟨hbefore, -⟩)
      · exact hnow.symm
      · exact absurd hbefore (hnone t)
    · exact fun hnow => .inl hnow.symm
  · have hbefore := hpast w hw
    dsimp only
    omega

theorem Watch.answered {p : Pulse} {period' deadline : Nat} (h : Watch f period u written p)
    (hkeeper : p.keeper = .awaiting period' deadline) (hpong : p.pong = .answered ())
    (hsame : ∀ t, f.Unanswered (u ++ [a]) t ↔ f.Unanswered u t ∧ c.routedBy a ≠ some .pingResp) :
    Watch f period (u ++ [a]) written { p with pong := .idle, keeper := .resting period' } := by
  obtain ⟨rfl, time, -, -, -, hanswer⟩ := h.of_awaiting hkeeper
  cases hanswer with
  | awaited hawaited => cases hpong.symm.trans hawaited
  | answered _ hasked => exact .moves (.inl rfl) rfl hasked hsame

/-- Nobody takes the answer away while the connection is open. -/
theorem Watch.not_abandoned {p : Pulse} {period' deadline : Nat} (h : Watch f period u written p)
    (hkeeper : p.keeper = .awaiting period' deadline) : p.pong ≠ .abandoned := by
  obtain ⟨-, time, -, -, -, hanswer⟩ := h.of_awaiting hkeeper
  cases hanswer with
  | awaited hpong | answered hpong =>
    rw [hpong]
    nofun

theorem Watch.unanswered {period' deadline : Nat} {e : ClientError}
    (h : Watch f period u written c.pulse) (hu : f.acts u = some c)
    (hkeeper : c.connection.keeper = .awaiting period' deadline)
    (hpong : c.connection.pong ≠ .answered ()) (hdue : deadline ≤ c.now)
    (hsame : ∀ t, f.Unanswered (u ++ [a]) t ↔ f.Unanswered u t ∧ c.routedBy a ≠ some .pingResp) :
    Watch f period (u ++ [a]) written { c.pulse with keeper := .failing e } := by
  obtain ⟨rfl, time, rfl, hearly, hwritten, hanswer⟩ := h.of_awaiting hkeeper
  cases hanswer with
  | awaited _ hasked =>
    have hnow : c.now = time + period' := Nat.le_antisymm hearly hdue
    refine .failing rfl (fun t ht => ?_) (.inr ?_)
    · rw [(hasked t).mp ((hsame t).mp ht).1]
      exact hearly
    · exact ⟨u, [a], c, time, rfl, hu, (hasked time).mpr rfl, hwritten, hnow, hnow⟩
  | answered hother => exact absurd hother hpong

/-- Whatever is done to a connection past its handshake. -/
theorem Paced.beat (h : Paced f period u written c.pulse) (hu : f.acts u = some c)
    (hact : c.act a = some d) (hbeat : c.Beat a d) (hrests : ∀ n, a = .elapse n → c.Rests n) :
    Paced f period (u ++ [a]) (written ++ c.finishes a) d.pulse := by
  have hwritings : f.writings (u ++ [a]) = f.writings u ++ c.finishes a :=
    trace_concat finishes hu hact
  have hsame (hkeeper : ∀ p q, c.connection.keeper = .checking p →
      d.connection.keeper ≠ .sending q) (t : Nat) :
      f.Unanswered (u ++ [a]) t ↔ f.Unanswered u t ∧ c.routedBy a ≠ some .pingResp :=
    unanswered_concat_of_unasked hu hact hkeeper
  have hstill (hkeeper : d.connection.keeper = c.connection.keeper) (t : Nat) :
      f.Unanswered (u ++ [a]) t ↔ f.Unanswered u t ∧ c.routedBy a ≠ some .pingResp := by
    refine hsame (fun p q hchecking => ?_) t
    rw [hkeeper, hchecking]
    nofun
  have hown (hturn : a = .run .keeper) : c.finishes a = [] := finishes_eq_nil (by simp [hturn])
  cases hbeat with
  | closed hclosing hnow hsent hsilent =>
    rw [hsilent, List.append_nil]
    have hclosed : ¬ d.pulse.closing = false := by simp [pulse, hclosing]
    refine h.silent hnow hsent (fun hopen => absurd hopen hclosed) fun hopen => ?_
    exact absurd hopen hclosed
  | quiet hpulse hbroken hsilent hunanswered =>
    have hsame := hstill (congrArg Pulse.keeper hpulse)
    have hwatch (hopen : c.pulse.closing = false) := (h.watch hopen).stays (q := d.pulse) hsame
      hunanswered hwritings (by simp [hsilent]) (by rw [hpulse]) (by rw [hpulse]) hbroken
    rw [hsilent, List.append_nil] at hwatch ⊢
    rw [hpulse] at hwatch ⊢
    exact h.silent rfl rfl id hwatch
  | @elapsed milliseconds htime hpulse =>
    have hroute : c.routedBy a = none := routedBy_of_asked (by rw [htime]; rfl)
    have hsilent : c.finishes a = [] := finishes_eq_nil (by simp [htime])
    have hsame := hstill (congrArg Pulse.keeper hpulse)
    rw [hsilent, List.append_nil] at hwritings ⊢
    rw [hpulse]
    have hlater (hopen : c.pulse.closing = false) :=
      (h.watch hopen).elapses (hrests milliseconds htime) hsame hroute hwritings
    exact {
      begun := Nat.le_trans h.begun (Nat.le_add_right _ _)
      sent := Nat.le_trans h.sent (Nat.le_add_right _ _)
      past := h.past
      spaced := h.spaced
      due := fun hopen => (hlater hopen).1
      watch := fun hopen => (hlater hopen).2 }
  | wrote htask hpacket hwritten hpulse hunanswered =>
    have hsame := hstill (congrArg Pulse.keeper hpulse)
    have hwatch (hopen : c.pulse.closing = false) := (h.watch hopen).stays (q := d.pulse) hsame
      (by simp [hunanswered]) hwritings (by simp [hwritten, pulse]) (by rw [hpulse])
      (by rw [hpulse]; exact h.sent) (by rw [hpulse]; exact id)
    rw [hwritten] at hwatch ⊢
    rw [hpulse] at hwatch ⊢
    exact h.writes rfl rfl rfl (fun hping => absurd hping hpacket) hwatch
  | pinged hkeeper hopen hwritten hpulse hunanswered =>
    have hwatch := h.watch hopen
    obtain ⟨-, -, hspaced⟩ := hwatch.of_sending hkeeper
    rw [hwritten] at hwritings ⊢
    rw [hpulse]
    refine h.writes rfl rfl rfl (fun _ => hspaced) fun _ => ?_
    exact hwatch.pinged hkeeper (hsame (by simp [hkeeper])) hunanswered hwritings
  | lost hkeeper hbroken hsilent hpulse =>
    rw [hsilent, List.append_nil, hpulse]
    refine h.silent rfl rfl id fun hopen => ?_
    exact (h.watch hopen).lost hkeeper (hsame (by simp [hkeeper])) hbroken
  | ponged hpong hrouted hsilent hpulse =>
    have hsame := hstill (congrArg Pulse.keeper hpulse)
    rw [hsilent, List.append_nil] at hwritings ⊢
    rw [hpulse]
    refine h.silent rfl rfl id fun hopen => ?_
    exact (h.watch hopen).ponged hpong hsame hrouted hwritings
  | rested hturn hkeeper hpulse =>
    rw [hown hturn, List.append_nil, hpulse]
    refine h.silent rfl rfl id fun hopen => ?_
    obtain ⟨rfl, hpong, hasked⟩ := (h.watch hopen).of_idle (.inl hkeeper)
    refine .moves (.inr (.inr ⟨_, rfl, ?_⟩)) hpong hasked (hsame (by simp [hkeeper]))
    dsimp only [pulse]
    omega
  | woken hturn hkeeper hpulse =>
    rw [hown hturn, List.append_nil, hpulse]
    refine h.silent rfl rfl id fun hopen => ?_
    obtain ⟨rfl, hpong, hasked⟩ := (h.watch hopen).of_idle (.inr (.inr ⟨_, hkeeper⟩))
    exact .moves (.inr (.inl rfl)) hpong hasked (hsame (by simp [hkeeper]))
  | spared hturn hkeeper hpulse =>
    have hresting : d.connection.keeper = .resting _ := congrArg Pulse.keeper hpulse
    rw [hown hturn, List.append_nil, hpulse]
    refine h.silent rfl rfl id fun hopen => ?_
    obtain ⟨rfl, hpong, hasked⟩ := (h.watch hopen).of_idle (.inr (.inl hkeeper))
    exact .moves (.inl rfl) hpong hasked (hsame (by simp [hresting]))
  | asked hturn hkeeper hquiet hasked hpulse =>
    rw [hown hturn, List.append_nil, hpulse]
    refine h.silent rfl rfl id fun hopen => ?_
    refine (h.watch hopen).asked (c := c) hkeeper (fun t => ?_) hquiet h.past
    rw [unanswered_concat hu hact]
    exact or_congr_left ⟨fun hnow => hnow.2.2, fun hnow => ⟨hturn, hasked, hnow⟩⟩
  | answered hturn hkeeper hpong hpulse =>
    rw [hown hturn, List.append_nil, hpulse]
    refine h.silent rfl rfl id fun hopen => ?_
    exact (h.watch hopen).answered hkeeper hpong (hsame (by simp [hkeeper]))
  | abandoned hturn hkeeper hpong hpulse =>
    rw [hown hturn, List.append_nil, hpulse]
    refine h.silent rfl rfl id fun hopen => ?_
    exact absurd hpong ((h.watch hopen).not_abandoned hkeeper)
  | unanswered hturn hkeeper hpong hdue hpulse =>
    rw [hown hturn, List.append_nil, hpulse]
    refine h.silent rfl rfl id fun hopen => ?_
    exact (h.watch hopen).unanswered hu hkeeper hpong hdue (hsame (by simp [hkeeper]))

theorem Paced.acts {earlier : List Writing} (h : Paced f period [] earlier f.pulse)
    (hgoing : f.Going) (hacts : f.acts actions = some d)
    (hsame : ∀ line, .opened line ∉ f.milestones actions) (htimely : f.Timely actions) :
    Paced f period actions (earlier ++ f.writings actions) d.pulse := by
  have hall : d.Going ∧ (f.Timely actions →
      Paced f period actions (earlier ++ f.writings actions) d.pulse) := by
    apply connection_induction (motive := fun u d => d.Going ∧
      (f.Timely u → Paced f period u (earlier ++ f.writings u) d.pulse)) _ _ hacts hsame
    · exact ⟨hgoing, fun _ => (List.append_nil earlier).symm ▸ h⟩
    · rintro u d e a hu ⟨hd, hpaced⟩ hact hquiet
      refine ⟨hd.act hact hquiet, fun htimely => ?_⟩
      obtain ⟨hbefore, hlast⟩ := (timely_append hu).mp htimely
      have hrests : ∀ n, a = .elapse n → d.Rests n := by
        rintro n rfl
        exact hlast.rests
      have hnext := (hpaced hbefore).beat hu hact (hd.beat hact hquiet) hrests
      rw [List.append_assoc] at hnext
      rw [writings, trace_concat finishes hu hact]
      exact hnext
  exact hall.2 htimely

end Mqtt.Client
