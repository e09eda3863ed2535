import Mqtt.Proofs.Client.Watch

/-!
A connection is never quiet for longer than its period: a whole period without a packet ends with a
PINGREQ, and a whole period without its answer ends the connection.
-/
namespace Mqtt

theorem ConnectOptions.keepAlivePeriod_pos {options : ConnectOptions} {period : Nat}
    (h : options.keepAlivePeriod = some period) : 0 < period := by
  unfold keepAlivePeriod at h
  split at h
  next => cases h
  next hzero =>
    cases h
    have hpositive : options.keepAlive.toNat ≠ 0 := fun heq => hzero (UInt16.toNat_inj.mp heq)
    omega

namespace Client

/-- The keeper takes the connection down as soon as its turn comes. -/
def GivesUp (c : Client) : Prop :=
  ∃ turns d, c.acts (List.replicate turns (.run .keeper)) = some d ∧ d.connection.closing = true

variable {c d f : Client} {a : Action} {u v actions : List Action} {time period : Nat}

theorem Beat.sent (h : c.Beat a d) (hsilent : c.finishes a = []) :
    d.connection.lastSent = c.connection.lastSent := by
  cases h with
  | closed _ _ hsent => exact hsent
  | wrote _ _ hwritten => cases hsilent.symm.trans hwritten
  | pinged _ _ hwritten => cases hsilent.symm.trans hwritten
  | quiet hpulse | elapsed _ hpulse | lost _ _ _ hpulse | ponged _ _ _ hpulse | rested _ _ hpulse
  | woken _ _ hpulse | spared _ _ hpulse | asked _ _ _ _ hpulse | answered _ _ _ hpulse
  | abandoned _ _ _ hpulse | unanswered _ _ _ _ hpulse => exact congrArg Pulse.lastSent hpulse

theorem Going.sent (h : c.Going) (hacts : c.acts actions = some d)
    (hsame : ∀ line, .opened line ∉ c.milestones actions) (hsilent : c.writings actions = []) :
    d.connection.lastSent = c.connection.lastSent := by
  have hall : d.Going ∧ (c.writings actions = [] →
      d.connection.lastSent = c.connection.lastSent) := by
    apply connection_induction (motive := fun u d => d.Going ∧
      (c.writings u = [] → d.connection.lastSent = c.connection.lastSent)) _ _ hacts hsame
    · exact ⟨h, fun _ => rfl⟩
    · rintro u d e a hu ⟨hd, hsent⟩ hact hquiet
      refine ⟨hd.act hact hquiet, fun hnone => ?_⟩
      rw [writings, trace_concat finishes hu hact, List.append_eq_nil_iff] at hnone
      exact ((hd.beat hact hquiet).sent hnone.2).trans (hsent hnone.1)
  exact hall.2 hsilent

/-- Only a keeper that fails begins to take the connection down. -/
theorem failing_of_closing (hact : c.act (.run .keeper) = some d)
    (hopen : c.connection.closing = false) (hclosed : d.connection.closing = true) :
    ∃ e, c.connection.keeper = .failing e := by
  cases Step.of_act hact with
  | keeper step =>
    cases step with
    | failed hkeeper => exact ⟨_, hkeeper⟩
    | _ => cases hopen.symm.trans hclosed
  | receiver step | worker step | dispatcher step => cases step
  | caller step => cases step <;> contradiction
  | withdrawn hclosing => cases hopen.symm.trans hclosing
  | carried hother => cases hother

theorem givesUp_of_failing {e : ClientError} (h : c.connection.keeper = .failing e) :
    c.GivesUp := by
  refine ⟨1, c.beginClose.toKeeper .stopped, ?_, ?_⟩
  · simp [acts, act, run, runKeeper, h]
  · unfold beginClose
    split
    next hclosing => exact hclosing
    next => rfl

theorem givesUp_of_awaiting {deadline : Nat}
    (h : c.connection.keeper = .awaiting period deadline) (hpong : c.connection.pong = .awaited)
    (hdue : deadline ≤ c.now) : c.GivesUp := by
  obtain ⟨turns, d, hacts, hclosed⟩ :=
    givesUp_of_failing (c := c.toKeeper (.failing (.timedOut "PINGRESP" period))) rfl
  refine ⟨turns + 1, d, acts_cons_of_eq ?_ hacts, hclosed⟩
  simp [act, run, runKeeper, h, hpong, hdue]

/-! A connection from its beginning on. -/

/-- What is known when the call returns and the keeper starts. -/
theorem paced_of_opening {e : Client} {up : List Action} {options : ConnectOptions}
    {ack : ConnAck} {loaded : Nat} (h : c.Unasked up e) (hup : c.acts up = some e)
    (hcaller : e.caller = .opening options ack loaded) (hopen : e.act (.run .caller) = some f)
    (hperiod : options.keepAlivePeriod = some period) :
    Paced f period [] (c.writings (up ++ [.run .caller])) f.pulse := by
  have hwritings : c.writings (up ++ [.run .caller]) = c.writings up := by
    have hsilent : e.finishes (.run .caller) = [] := finishes_eq_nil (by simp)
    rw [writings, trace_concat finishes hup hopen, hsilent, List.append_nil]
  have hf : f = e.runOpen options ack loaded :=
    Option.some.inj (hopen.symm.trans (act_of_opening hcaller))
  have hnone : ∀ t, ¬ f.Unanswered [] t := by
    rintro t ⟨u, v, g, hsplit, -⟩
    simp at hsplit
  rw [hwritings, hf]
  rw [hf] at hnone
  refine ⟨Nat.le_refl _, h.sent, h.past, ?_, fun _ => ?_, fun _ => ?_⟩
  · intro p hp hping
    exact absurd hping (h.other p hp)
  · dsimp only [pulse]
    omega
  · refine .idle (.inl ?_) h.pong hnone
    simp [pulse, runOpen, onConnection, hperiod]

/-- On a connection that was established at `f` with a period between packets, however it goes on
and whatever arrives, if time goes by only while nobody can go on: as long as it is open, no packet
is missing for longer than the period; from its first packet on, none is written within a period
before a PINGREQ; and the keeper takes down a connection whose line works only if PINGRESP was
missing for a period after some PINGREQ, and in that case always: time does not go on before it has
done so. -/
theorem never_quiet {σ τ : Settings} {x : Exchange} {start b e : Client} {before up : List Action}
    {line : Line} {options : ConnectOptions} {ack : ConnAck} {loaded : Nat}
    (hleft : Exchange.Reachable τ x) (hstart : ofSettings σ x.session = .ok start)
    (hbefore : start.acts before = some b) (hact : b.act a = some c)
    (hopened : b.milestone a = some (.opened line)) (hup : c.acts up = some e)
    (hgreeted : ∀ l, .opened l ∉ c.milestones up) (hcaller : e.caller = .opening options ack loaded)
    (hopen : e.act (.run .caller) = some f) (hperiod : options.keepAlivePeriod = some period)
    (hacts : f.acts actions = some d) (hsame : ∀ l, .opened l ∉ f.milestones actions)
    (htimely : f.Timely actions) :
    (∀ u v g, actions = u ++ v → f.acts u = some g → g.writings v = [] →
      d.connection.closing = false → d.now ≤ g.now + period) ∧
    Spaced period (c.writings (up ++ .run .caller :: actions)) ∧
    (∀ d', d.act (.run .keeper) = some d' → d.connection.closing = false →
      d.connection.line.broken = false → d'.connection.closing = true →
        f.Overdue actions period d.now) ∧
    ∀ time, f.Unanswered actions time → d.connection.closing = false →
      d.now ≤ time + period ∧ (d.now = time + period → d.GivesUp) := by
  have hordered : b.Ordered := (ordered_ofSettings hstart).acts hbefore
  have hkept : b.Kept := (kept_ofSettings hleft hstart).acts hbefore
  have hgoing : f.Going :=
    going_of_opened hordered hkept hact hopened hup hgreeted hcaller hopen
  obtain ⟨-, -, hunasked⟩ :=
    unasked_of_opened hordered hkept hact hopened hup hgreeted (by rw [hcaller]; rfl)
  have hfirst := paced_of_opening hunasked hup hcaller hopen hperiod
  have hpaced := hfirst.acts hgoing hacts hsame htimely
  have hopening : c.acts (up ++ [.run .caller]) = some f := acts_concat_of_eq hup hopen
  have hwritten : c.writings (up ++ .run .caller :: actions) =
      c.writings (up ++ [.run .caller]) ++ f.writings actions := by
    rw [List.append_cons, writings, trace_append finishes hopening]
  refine ⟨?_, ?_, ?_, ?_⟩
  · rintro u v g rfl hu hnone hdopen
    have hv : g.acts v = some d := by
      rw [acts_append, hu] at hacts
      exact hacts
    rw [milestones_append hu] at hsame
    have hg := hfirst.acts hgoing hu (fun l hl => hsame l (List.mem_append_left _ hl))
      ((timely_append hu).mp htimely).1
    have hgsame : ∀ l, .opened l ∉ g.milestones v :=
      fun l hl => hsame l (List.mem_append_right _ hl)
    have hggoing := hgoing.acts hu fun l hl => hsame l (List.mem_append_left _ hl)
    have hlast := hggoing.sent hv hgsame hnone
    have hdue : d.now ≤ max f.now d.connection.lastSent + period := hpaced.due hdopen
    have hbegun : f.now ≤ g.now := hg.begun
    have hsent : g.connection.lastSent ≤ g.now := hg.sent
    omega
  · rw [hwritten]
    exact hpaced.spaced
  · intro d' hkeeper hdopen hwhole hclosed
    obtain ⟨error, hfailing⟩ := failing_of_closing hkeeper hdopen hclosed
    cases hpaced.watch hdopen with
    | idle hidle =>
      rcases hidle with hidle | hidle | ⟨due, hidle, -⟩ <;> cases hfailing.symm.trans hidle
    | sending hother | awaiting hother => cases hfailing.symm.trans hother
    | failing _ _ hcause =>
      refine hcause.resolve_left ?_
      simp [pulse, hwhole]
  · intro time htime hdopen
    have hpositive := ConnectOptions.keepAlivePeriod_pos hperiod
    cases hpaced.watch hdopen with
    | idle _ _ hasked => exact absurd htime (hasked time)
    | sending _ _ hanswer =>
      cases hanswer with
      | awaited _ hasked =>
        have hnow : time = d.now := (hasked time).mp htime
        exact ⟨by omega, fun hlate => by omega⟩
      | answered _ hasked => exact absurd htime (hasked time)
    | awaiting hkeeper _ hdue _ hanswer =>
      cases hanswer with
      | awaited hpong hasked =>
        rw [(hasked time).mp htime]
        refine ⟨hdue, fun hlate => ?_⟩
        exact givesUp_of_awaiting hkeeper hpong hlate.ge
      | answered _ hasked => exact absurd htime (hasked time)
    | failing hkeeper hlate => exact ⟨hlate time htime, fun _ => givesUp_of_failing hkeeper⟩

/-- A second of silence ends with a PINGREQ, and a second without its answer ends the connection. -/
theorem never_quiet_of_silence :
    let options : ConnectOptions := { clientId := "c", keepAlive := 1 }
    let up := [.write 100, .arrive [32, 2, 0, 0]] ++ List.replicate 5 (.run .receiver) ++
      List.replicate 3 (.run .caller)
    let actions := [.finish, .run .receiver, .run .worker, .run .keeper, .run .dispatcher,
      .elapse 1000, .run .keeper, .run .keeper, .write 100, .elapse 1000, .run .keeper]
    ∃ x c e f d, Exchange.Reachable {} x ∧ ofSettings {} x.session = .ok newcomer ∧
      newcomer.act (.connect options {}) = some c ∧
      newcomer.milestone (.connect options {}) = some (.opened {}) ∧ c.acts up = some e ∧
      (∀ l, .opened l ∉ c.milestones up) ∧ e.caller = .opening options ⟨false, 0⟩ 0 ∧
      e.act (.run .caller) = some f ∧ options.keepAlivePeriod = some 1000 ∧
      f.acts actions = some d ∧ (∀ l, .opened l ∉ f.milestones actions) ∧ f.Timely actions ∧
      d.connection.closing = false ∧ d.now = 2000 ∧ f.Overdue actions 1000 2000 := by
  intro options up actions
  have hleft : Exchange.Reachable {} (.start {} { clientId := "" }) := .start {} { clientId := "" }
  have hnew : ofSettings {} (Exchange.start {} { clientId := "" }).session = .ok newcomer := rfl
  let c := newcomer.greet options {}
  have hact : newcomer.act (.connect options {}) = some c := rfl
  have hopened : newcomer.milestone (.connect options {}) = some (.opened {}) := rfl
  obtain ⟨e, hup, he⟩ : ∃ e, c.acts up = some e ∧
      (c.milestones up, e.caller, (e.act (.run .caller)).bind fun f => (f.acts actions).map fun d =>
        (f.milestones actions, (f.delays actions).all fun m => m.1.Rests m.2,
          d.connection.closing, d.connection.line.broken, d.now,
            (d.act (.run .keeper)).map fun d' => d'.connection.closing)) =
      ([.written .caller options.packet], .opening options ⟨false, 0⟩ 0,
        some ([.written .keeper .pingReq], true, false, false, 2000, some true)) := by
    apply Option.map_eq_some_iff.mp
    dsimp only [up, actions, c, options]
    rfl
  simp only [Prod.mk.injEq] at he
  obtain ⟨hgreeting, hcaller, hrun⟩ := he
  obtain ⟨f, hopen, hf⟩ := Option.bind_eq_some_iff.mp hrun
  obtain ⟨d, hacts, hd⟩ := Option.map_eq_some_iff.mp hf
  simp only [Prod.mk.injEq] at hd
  obtain ⟨hmilestones, hdelays, hdopen, hwhole, hnow, hlast⟩ := hd
  obtain ⟨d', hkeeper, hclosed⟩ := Option.map_eq_some_iff.mp hlast
  have hgreeted : ∀ l, .opened l ∉ c.milestones up := by simp [hgreeting]
  have hsame : ∀ l, .opened l ∉ f.milestones actions := by simp [hmilestones]
  have htimely : f.Timely actions := by simpa [Timely] using hdelays
  have hperiod : options.keepAlivePeriod = some 1000 := by decide
  have hbefore : newcomer.acts [] = some newcomer := rfl
  obtain ⟨-, -, hoverdue, -⟩ := never_quiet hleft hnew hbefore hact hopened hup hgreeted hcaller
    hopen hperiod hacts hsame htimely
  have hlate := hoverdue d' hkeeper hdopen hwhole hclosed
  rw [hnow] at hlate
  exact ⟨_, c, e, f, d, hleft, hnew, hact, hopened, hup, hgreeted, hcaller, hopen, hperiod,
    hacts, hsame, htimely, hdopen, hnow, hlate⟩

end Client
end Mqtt
