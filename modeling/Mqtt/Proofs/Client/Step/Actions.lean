import Mqtt.Proofs.Client.Step.Loops

/-! The steps of the call and of the line, from what they do, and then those of every action. -/
namespace Mqtt.Client

variable {c d : Client} {a : Action}

theorem free_spec {next : Client} (h : c.free next = some d) : c.caller = .idle ∧ d = next := by
  unfold free at h
  split at h
  next hidle => exact ⟨hidle, (Option.some.inj h).symm⟩
  next => cases h

theorem Greets.of_greet (c : Client) (options : ConnectOptions) (line : Line) :
    c.Greets options line (c.greet options line) := by
  unfold greet post
  dsimp only
  cases hencode : options.packet.encode with
  | ok bytes => exact .posted hencode
  | error e => exact .unsendable hencode

theorem CallerStep.of_runGreeting {options : ConnectOptions} {deadline : Nat}
    (hcaller : c.caller = .awaitingAck options deadline)
    (h : c.runGreeting options deadline = some d) : c.CallerStep (.run .caller) d := by
  unfold runGreeting abort at h
  simp only [beginClose_eq] at h
  split at h
  next ack hconnack =>
    split at h
    next haccepted =>
      cases h
      exact .accepted hcaller hconnack haccepted
    next =>
      cases h
      exact .refused hcaller hconnack
  next hconnack =>
    cases h
    exact .unanswered hcaller (by simp [hconnack]) (.inl rfl)
  next hunanswered _ =>
    split at h
    next =>
      cases h
      exact .unanswered hcaller hunanswered (.inr rfl)
    next => cases h

theorem CallerStep.of_connect {options : ConnectOptions} {line : Line}
    (h : c.free (c.connect options line) = some d) : c.CallerStep (.connect options line) d := by
  obtain ⟨hcaller, rfl⟩ := free_spec h
  unfold connect
  cases hcheck : options.check with
  | error e => exact .declined hcaller rfl nofun (by simp [milestone, hcheck])
  | ok u =>
    dsimp only
    split
    next hactive =>
      have hestablished : c.established = true := by simp_all [isActive]
      exact .declined hcaller rfl nofun (by simp [milestone, hcheck, hestablished])
    next hinactive =>
      rw [Bool.not_eq_true] at hinactive
      split
      next hestablished => exact .replaced hcaller hcheck hestablished hinactive
      next hfree =>
        rw [Bool.not_eq_true] at hfree
        exact .asked hcaller hcheck hfree (Greets.of_greet c options line)

theorem CallerStep.of_disconnect (h : c.free c.disconnect = some d) :
    c.CallerStep .disconnect d := by
  obtain ⟨hcaller, rfl⟩ := free_spec h
  unfold disconnect
  split
  next => exact .declined hcaller rfl nofun rfl
  next hestablished =>
    have hestablished : c.established = true := by simpa using hestablished
    dsimp only
    split
    next hactive =>
      have hbytes : Packet.disconnect.encode = .ok [224, 0] := by decide +kernel
      unfold post
      rw [hbytes]
      exact .departed hcaller hactive hbytes
    next hinactive =>
      rw [Bool.not_eq_true] at hinactive
      rw [beginClose_eq]
      exact .dismissed hcaller hestablished hinactive

theorem CallerStep.of_queued (call : Call) (h : c.queued (c.call call) = some d)
    (hasked : a.isOwn = false) (hline : ∀ count, a ≠ .write count)
    (hmilestone : c.milestone a = c.issuedBy call) : c.CallerStep a d := by
  unfold queued at h
  unfold issuedBy at hmilestone
  rw [call_eq] at h hmilestone
  cases hrequest : call.request with
  | error e =>
    rw [hrequest] at h hmilestone
    obtain ⟨hcaller, rfl⟩ := free_spec h
    exact .unissued hcaller hasked hline hmilestone
  | ok r =>
    rw [hrequest, ok_bind] at h hmilestone
    cases henqueue : c.enqueue r.delivery with
    | error e =>
      rw [henqueue] at h hmilestone
      obtain ⟨hcaller, rfl⟩ := free_spec h
      exact .unissued hcaller hasked hline hmilestone
    | ok result =>
      obtain ⟨id, next⟩ := result
      rw [henqueue] at h hmilestone
      obtain ⟨hcaller, rfl⟩ := free_spec h
      unfold enqueue at henqueue
      split at henqueue
      next => cases henqueue
      next hactive =>
        obtain ⟨⟨id', q, s⟩, hissue, henqueue⟩ := exists_of_bind_eq_ok henqueue
        cases henqueue
        exact .issued hcaller (by simpa using hactive) hissue hasked hline hrequest hmilestone

theorem Step.of_runCaller (h : c.runCaller = some d) : c.Step (.run .caller) d := by
  unfold runCaller at h
  dsimp only at h
  split at h
  next => cases h
  next => cases h
  next options line hcaller =>
    split at h
    next hended =>
      cases h
      exact .caller (.joined hcaller hended (Greets.of_greet c options line))
    next => cases h
  next hcaller =>
    split at h
    next hclosing =>
      cases h
      exact .withdrawn hclosing (by simp [isSending, hcaller]) (Heeds.of_sent _ _ .caller)
    next => cases h
  next hcaller =>
    split at h
    next hclosing =>
      cases h
      exact .withdrawn hclosing (by simp [isSending, hcaller]) (Heeds.of_sent _ _ .caller)
    next => cases h
  next hcaller => exact .caller (CallerStep.of_runGreeting hcaller h)
  next hcaller =>
    cases h
    exact .caller (.resumed hcaller rfl)
  next hcaller =>
    cases h
    exact .caller (.released hcaller)
  next hcaller =>
    cases h
    exact .caller (.opened hcaller)
  next hcaller =>
    split at h
    next hreceiver =>
      cases h
      exact .caller (.cleared hcaller hreceiver)
    next => cases h
  next hcaller =>
    split at h
    next hwrites =>
      cases h
      exact .caller (.failed hcaller hwrites)
    next => cases h
  next hcaller =>
    cases h
    rw [beginClose_eq]
    exact .caller (.left hcaller)
  next hcaller =>
    split at h
    next hended =>
      cases h
      exact .caller (.ended hcaller hended)
    next => cases h

theorem Step.of_write {count : Nat} (h : c.write count = some d) : c.Step (.write count) d := by
  unfold write at h
  dsimp only at h
  split at h
  next => cases h
  next w rest hwrites =>
    split at h
    next => cases h
    next hopen =>
      rw [Bool.not_eq_true] at hopen
      split at h
      next hbroken =>
        cases h
        exact .lost hwrites hopen hbroken (Heeds.of_sent _ _ _)
      next hwhole =>
        rw [Bool.not_eq_true] at hwhole
        split at h
        next => cases h
        next =>
          split at h
          next hleft =>
            cases h
            have htake : w.left.take count = w.left :=
              List.take_of_length_le (List.drop_eq_nil_iff.mp hleft)
            rw [htake]
            exact .written hwrites hopen hwhole hleft (Heeds.of_sent _ _ _)
          next hmore =>
            cases h
            have hleft := (List.take_append_drop count w.left).symm
            exact .continued hwrites hopen hwhole hleft hmore rfl

theorem act_of_routing {p : Packet} (h : c.connection.receiver = .routing p) :
    c.act (.run .receiver) = some (c.route p) := by
  simp [act, run, runReceiver, h]

theorem act_of_resuming {options : ConnectOptions} {ack : ConnAck}
    (h : c.caller = .resuming options ack) :
    c.act (.run .caller) = some (c.runResume options ack) := by
  simp [act, run, runCaller, h]

theorem act_of_opening {options : ConnectOptions} {ack : ConnAck} {loaded : Nat}
    (h : c.caller = .opening options ack loaded) :
    c.act (.run .caller) = some (c.runOpen options ack loaded) := by
  simp [act, run, runCaller, h]

/-- Whatever a client does is one of these steps. -/
theorem Step.of_act (h : c.act a = some d) : c.Step a d := by
  unfold act at h
  cases a with
  | run task =>
    cases task with
    | caller => exact Step.of_runCaller h
    | receiver => exact Step.of_runReceiver h
    | worker => exact Step.of_runWorker h
    | keeper => exact Step.of_runKeeper h
    | dispatcher => exact Step.of_runDispatcher h
  | stop task =>
    cases task with
    | caller => cases h
    | receiver => exact Step.of_breakReceiver h
    | worker => exact Step.of_breakWorker h
    | keeper => exact Step.of_breakKeeper h
    | dispatcher => exact Step.of_breakDispatcher h
  | expire =>
    obtain ⟨due, hworker, hdue, rfl⟩ := expire_spec h
    exact .worker (.expired hworker hdue)
  | write count => exact Step.of_write h
  | signal =>
    change c.signal = some d at h
    unfold signal at h
    split at h
    next => cases h
    next hpending =>
      cases h
      exact .caller (.signalled (Nat.succ_pred hpending).symm)
  | connect options line => exact .caller (CallerStep.of_connect h)
  | disconnect => exact .caller (CallerStep.of_disconnect h)
  | finish =>
    dsimp only at h
    split at h
    next hcaller =>
      cases h
      exact .caller (.finished hcaller)
    next => cases h
  | publish topic payload qos retain =>
    exact .caller (.of_queued (.publish topic payload qos retain) h rfl (by simp) rfl)
  | subscribe topics levels =>
    exact .caller (.of_queued (.subscribe topics levels) h rfl (by simp) rfl)
  | unsubscribe topics => exact .caller (.of_queued (.unsubscribe topics) h rfl (by simp) rfl)
  | arrive bytes =>
    cases h
    have hkept : (c.connection.line.arrive bytes).outbox = c.connection.line.outbox ∧
        (c.connection.line.arrive bytes).broken = c.connection.line.broken := by
      unfold Line.arrive
      split <;> exact ⟨rfl, rfl⟩
    exact .carried rfl hkept.1 (fun hbroken => hkept.2.trans hbroken) (by simp) rfl
  | hangUp =>
    cases h
    exact .carried rfl rfl id (by simp) rfl
  | vanish =>
    cases h
    exact .carried rfl rfl (fun _ => rfl) (by simp) rfl
  | elapse milliseconds =>
    cases h
    exact .elapsed

/-- The two ways in which a connection begins: a call opens it at once, or when the one before has
come to its end. -/
theorem opened_cases {line : Line} (h : c.act a = some d)
    (hopened : c.milestone a = some (.opened line)) :
    (∃ options, a = .connect options line ∧ c.caller = .idle ∧ options.check = .ok () ∧
      c.established = false ∧ d = c.greet options line) ∨
    ∃ options, a = .run .caller ∧ c.caller = .joining options line ∧
      c.connection.dispatcher = .stopped ∧ d = c.greet options line := by
  unfold milestone at hopened
  split at hopened
  next =>
    split at hopened
    next options line' hcaller =>
      cases hopened
      replace h : c.runCaller = some d := h
      simp only [runCaller, hcaller] at h
      split at h
      next hended =>
        cases h
        exact .inr ⟨options, rfl, hcaller, hended, rfl⟩
      next => cases h
    next => cases hopened
  next =>
    unfold workerMilestone at hopened
    split at hopened <;> cases hopened
  next =>
    split at hopened
    next =>
      split at hopened
      next => cases hopened
      next => cases hopened
    next => cases hopened
  next options line' =>
    split at hopened
    next u hcheck =>
      split at hopened
      next => cases hopened
      next hfree =>
        cases hopened
        rw [Bool.not_eq_true] at hfree
        obtain ⟨hcaller, rfl⟩ := free_spec h
        refine .inl ⟨options, rfl, hcaller, hcheck, hfree, ?_⟩
        simp [connect, hcheck, isActive, hfree]
    next => cases hopened
  next =>
    unfold issuedBy at hopened
    split at hopened <;> cases hopened
  next =>
    unfold issuedBy at hopened
    split at hopened <;> cases hopened
  next =>
    unfold issuedBy at hopened
    split at hopened <;> cases hopened
  next => cases hopened

/-- A connection begins only with a greeting, when the one before has come to its end. -/
theorem greets_of_opened {line : Line} (h : c.act a = some d)
    (hopened : c.milestone a = some (.opened line)) :
    (∃ options, c.Greets options line d) ∧
      (c.connection.dispatcher = .stopped ∨ c.caller = .idle ∧ c.established = false) := by
  rcases opened_cases h hopened with
    ⟨options, -, hcaller, -, hfree, rfl⟩ | ⟨options, -, -, hended, rfl⟩
  · exact ⟨⟨options, .of_greet c options line⟩, .inr ⟨hcaller, hfree⟩⟩
  · exact ⟨⟨options, .of_greet c options line⟩, .inl hended⟩

end Mqtt.Client
