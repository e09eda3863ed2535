import Mqtt.Proofs.Exchange.Deadline
import Mqtt.Proofs.Slot.Spending

/-! Deliveries are sent again a limited number of times, at their deadlines, and then given up. -/
namespace Mqtt

theorem Work.Scheduled.mono {delay maxAttempts now : Nat} {asked asked' : Prop}
    {log : List (Packet × Nat)} {w : Work} (h : w.Scheduled delay maxAttempts now asked log)
    (ha : asked → asked') : w.Scheduled delay maxAttempts now asked' log :=
  ⟨h.once, fun p hp m hm => (h.spaced p hp m hm).imp_left ha, h.spent⟩

/-- No packet follows the one before it later than after the delay. -/
def Brisk (delay : Nat) (log : List (Packet × Nat)) : Prop :=
  ∀ first last, log.head? = some first → log.getLast? = some last →
    last.2 + delay ≤ first.2 + log.length * delay

theorem Brisk.concat {delay : Nat} {log : List (Packet × Nat)} (h : Brisk delay log)
    {m : Packet × Nat} (hm : ∀ last, log.getLast? = some last → m.2 ≤ last.2 + delay) :
    Brisk delay (log ++ [m]) := by
  intro first last hfirst hlast
  obtain rfl : m = last := by simpa using hlast
  rcases hl : log.getLast? with _ | before
  · obtain rfl : log = [] := List.getLast?_eq_none_iff.mp hl
    obtain rfl : m = first := by simpa using hfirst
    simp
  · have hne : log ≠ [] := by
      rintro rfl
      cases hl
    rw [List.head?_append_of_ne_nil _ hne] at hfirst
    have hbefore := h first before hfirst hl
    have hnext := hm before hl
    rw [List.length_append, List.length_singleton, Nat.add_mul]
    omega

namespace Exchange

variable {σ : Settings} {x y : Exchange} {e : Operation} {t : List Operation} {latest : Nat}
  {k : Key} {log : List (Packet × Nat)} {acks : List Packet}

theorem Regular.owned (h : Regular σ latest x) (hk : k.direction = .outgoing) :
    (x.slot k).Owned k := by
  intro d hd
  obtain ⟨hid, hmem, rfl⟩ := h.queue.keyed.get?_eq_some_iff.mp hd
  exact ⟨rfl, (h.rested d hmem).coherent hk hid⟩

theorem Regular.named (h : Regular σ latest x) : x.queue.Named :=
  fun d hd => (h.rested d hd).named

/-- A delivery of our own is left alone by everything but a pass and another one under its key. -/
theorem Operates.slot (h : x.Operates e y) (hx : Regular σ latest x) (hid : k.id ≠ 0)
    (hk : k.direction = .outgoing) (hnew : e.begins k = false) :
    y.slot k = x.slot k ∧ e.sent k = [] ∨
      ∃ acks now work, e = .passed now x.queue.nextDeadline work ∧
        y.slot k = ((x.slot k).pass σ k acks now).1 ∧
        work.of k = ((x.slot k).pass σ k acks now).2 := by
  cases h with
  | @push d q s fresh free h kept =>
    obtain ⟨_, rfl⟩ := DeliveryQueue.exists_of_push h
    have hne : k ≠ d.key := by
      rintro rfl
      simp [Operation.begins] at hnew
    have hfree : x.queue.get? d.key = none :=
      (hx.queue.keyed.contains_eq_false_iff d.key).mp free
    have hqueued := hx.queue.keyed.get?_enqueue (fun _ => hfree) hid
    rw [if_neg hne] at hqueued
    have hstored : s.get? k = x.session.get? k := by
      rcases kept with rfl | ⟨_, rfl⟩
      · rfl
      · rw [Session.get?_put, if_neg hne]
    exact .inl ⟨congrArg₂ Slot.mk hqueued hstored, rfl⟩
  | refuse => exact .inl ⟨rfl, rfl⟩
  | @accept p outcome q decoded h =>
    have hne : k ≠ (Delivery.received p).key := by
      rintro rfl
      cases hk
    have hqueued : q.get? k = x.queue.get? k := by
      rcases hx.queue.keyed.accept_cases decoded.numbered with ⟨hfree, he⟩ | ⟨_, he⟩
      · obtain rfl : q = _ := (Prod.mk.inj (h.symm.trans he)).2
        rw [hx.queue.keyed.get?_enqueue (fun _ => hfree) hid, if_neg hne]
      · obtain rfl : q = _ := (Prod.mk.inj (h.symm.trans he)).2
        rw [hx.queue.keyed.get?_modify (f := Delivery.reopened) (fun e he => by simpa using he) hid,
          if_neg hne]
    exact .inl ⟨congrArg₂ Slot.mk hqueued rfl, rfl⟩
  | @pass acks now q s work h =>
    obtain ⟨hslot, hwork⟩ := hx.queue.slot_pass hx.named x.session acks now hid
    rw [h] at hslot hwork
    exact .inr ⟨acks, now, work, rfl, hslot, hwork⟩

theorem Operates.spends (h : x.Operates e y) (hx : Regular σ latest x) (hmax : 1 ≤ σ.maxAttempts)
    (hid : k.id ≠ 0) (hk : k.direction = .outgoing) (hnew : e.begins k = false)
    (hs : (x.slot k).Spends σ.maxAttempts False log) :
    (y.slot k).Spends σ.maxAttempts False (log ++ e.sent k) := by
  rcases h.slot hx hid hk hnew with ⟨hslot, hsent⟩ | ⟨acks, now, work, rfl, hslot, hwork⟩
  · rw [hslot, hsent, List.append_nil]
    exact hs
  · have hpass := (hs.pass (hx.owned hk) hk hmax acks now).1
    rw [← hslot, ← hwork] at hpass
    exact hpass

theorem Operated.spends (h : x.Operated t y) (hx : Regular σ latest x) (hmax : 1 ≤ σ.maxAttempts)
    (hid : k.id ≠ 0) (hk : k.direction = .outgoing) (hnew : ∀ e ∈ t, e.begins k = false)
    (hs : (x.slot k).Spends σ.maxAttempts False []) :
    (y.slot k).Spends σ.maxAttempts False (t.flatMap (Operation.sent k)) := by
  induction h with
  | nil => exact hs
  | @snoc t e y z run op ih =>
    obtain ⟨later, hy⟩ := run.regular hx
    have hbefore := ih fun e he => hnew e (List.mem_append_left _ he)
    have hafter := op.spends hy hmax hid hk (hnew e (by simp)) hbefore
    simpa using hafter

/-- The next deadline is not after that of a delivery which waits. -/
theorem Regular.nextDeadline_le (h : Regular σ latest x) {d : Delivery} {sent : Nat}
    (hd : x.queue.get? k = some d) (hk : k.direction = .outgoing)
    (hw : d.stage.isWaiting = true) (hsent : d.sentAt = some sent) :
    ∃ due, x.queue.nextDeadline = some due ∧ due ≤ sent + σ.retryDelay := by
  obtain ⟨_, hmem, rfl⟩ := h.queue.keyed.get?_eq_some_iff.mp hd
  rw [← h.queue.retryDelay]
  exact DeliveryQueue.nextDeadline_le hmem (Delivery.dueAt_of_sentAt hk hw hsent _)

/-- Passes that miss no deadline send on time. -/
theorem Operates.brisk (h : x.Operates e y) (hx : Regular σ latest x) (hmax : 1 ≤ σ.maxAttempts)
    (hid : k.id ≠ 0) (hk : k.direction = .outgoing) (hnew : e.begins k = false)
    (hs : (x.slot k).Spends σ.maxAttempts False log) (hpunctual : e.Punctual)
    (hlog : Brisk σ.retryDelay log) : Brisk σ.retryDelay (log ++ e.sent k) := by
  rcases h.slot hx hid hk hnew with ⟨_, hsent⟩ | ⟨acks, now, work, rfl, _, hwork⟩
  · rw [hsent, List.append_nil]
    exact hlog
  · have honce := (hs.pass (hx.owned hk) hk hmax acks now).2.once
    rw [← hwork] at honce
    simp only [Operation.sent]
    rcases hout : (work.of k).outgoing with _ | ⟨p, rest⟩
    · simpa using hlog
    · obtain rfl : rest = [] := by simpa [hout] using honce
      refine hlog.concat fun last hlast => ?_
      cases hs with
      | gone empty =>
        rw [hwork, Slot.pass_of_gone hk empty] at hout
        cases hout
      | ready _ _ _ _ prompt =>
        obtain rfl := prompt.resolve_right id
        cases hlast
      | waiting held waiting _ last' _ sentAt =>
        obtain rfl := Option.some.inj (last'.symm.trans hlast)
        obtain ⟨due, hdue, hle⟩ := hx.nextDeadline_le held hk waiting sentAt
        rw [hdue] at hpunctual
        exact Nat.le_trans hpunctual hle

theorem Operated.brisk (h : x.Operated t y) (hx : Regular σ latest x) (hmax : 1 ≤ σ.maxAttempts)
    (hid : k.id ≠ 0) (hk : k.direction = .outgoing) (hnew : ∀ e ∈ t, e.begins k = false)
    (hs : (x.slot k).Spends σ.maxAttempts False []) (hpunctual : ∀ e ∈ t, e.Punctual) :
    Brisk σ.retryDelay (t.flatMap (Operation.sent k)) := by
  induction h with
  | nil => simp [Brisk]
  | @snoc t e y z run op ih =>
    obtain ⟨later, hy⟩ := run.regular hx
    have hbefore : ∀ e ∈ t, e.begins k = false := fun e he => hnew e (List.mem_append_left _ he)
    have hlog := ih hbefore fun e he => hpunctual e (List.mem_append_left _ he)
    have hspends := run.spends hx hmax hid hk hbefore hs
    have hafter := op.brisk hy hmax hid hk (hnew e (by simp)) hspends (hpunctual e (by simp)) hlog
    simpa using hafter

theorem Regular.spends_nil (h : Regular σ latest x) (hmax : 1 ≤ σ.maxAttempts) {d : Delivery}
    (hd : x.queue.get? k = some d) (hk : k.direction = .outgoing) (hstage : d.stage ≠ .queued0)
    (hunsent : d.sentAt = none) : (x.slot k).Spends σ.maxAttempts False [] := by
  obtain ⟨_, hmem, rfl⟩ := h.queue.keyed.get?_eq_some_iff.mp hd
  have hrested := h.rested d hmem
  rcases hrested.fits.outgoing_stage hk with hs | ⟨stage, hs⟩ | hw
  · exact absurd hs hstage
  · have hnone := (hrested.fresh hk (Delivery.isWaiting_of_sent? hs).1).2
    have hcounted : d.Counted σ.maxAttempts [] := by
      refine ⟨?_, ?_, ?_, ?_⟩ <;> simp [sends, hnone]
    exact .ready hd hs hcounted (by omega) (.inl rfl)
  · obtain ⟨t, ht, _⟩ := hrested.waiting hk hw
    cases hunsent.symm.trans ht

/-- A delivery of our own that expects an answer, from before its first packet on this connection.
Each of its two steps is sent at most as often as allowed, however often a PUBREC is repeated. A
pass sends one packet at most, and one that no PUBREC asked for repeats the packet before it, after
the delay; failure is reported only after all attempts at the last step and another delay. If the
passes miss no deadline, the delivery is over twice the attempts times the delay after the first
packet. -/
theorem retries_bounded {d : Delivery} (h : Handled σ latest x) (hmax : 1 ≤ σ.maxAttempts)
    (hd : x.queue.get? k = some d) (hk : k.direction = .outgoing) (hstage : d.stage ≠ .queued0)
    (hunsent : d.sentAt = none) (run : x.Operated t y) (hnew : ∀ e ∈ t, e.begins k = false) :
    let log := t.flatMap (Operation.sent k)
    (∀ release, sends release log ≤ σ.maxAttempts) ∧
      (∀ acks now,
        ((y.queue.pass y.session acks now).2.2.of k).Scheduled σ.retryDelay σ.maxAttempts now
          (∃ d, (.pubRec k.id, d) ∈ y.queue.answered y.session acks) log) ∧
      ((∀ e ∈ t, e.Punctual) → ∀ first, log.head? = some first → ∀ clock,
        first.2 + 2 * σ.maxAttempts * σ.retryDelay ≤ clock →
        (∀ due, y.queue.nextDeadline = some due → clock < due) → y.queue.get? k = none) := by
  intro log
  have hx := h.regular
  have hid : k.id ≠ 0 := (hx.queue.keyed.get?_eq_some_iff.mp hd).1
  have hstart := hx.spends_nil hmax hd hk hstage hunsent
  obtain ⟨later, hy⟩ := run.regular hx
  have hspends : (y.slot k).Spends σ.maxAttempts False log :=
    run.spends hx hmax hid hk hnew hstart
  refine ⟨hspends.sends_le, fun acks now => ?_, fun hpunctual first hfirst clock hclock hopen => ?_⟩
  · have hscheduled := (hspends.pass (hy.owned hk) hk hmax acks now).2
    rw [(hy.queue.slot_pass hy.named y.session acks now hid).2]
    refine hscheduled.mono fun ⟨d, hd⟩ => ⟨d, ?_⟩
    have hanswered := hy.queue.slot_answered hy.named y.session acks hid
    exact List.mem_of_mem_filter (hanswered ▸ hd)
  · have hbrisk : Brisk σ.retryDelay log := run.brisk hx hmax hid hk hnew hstart hpunctual
    cases hspends with
    | gone empty => exact empty
    | ready _ _ _ _ prompt =>
      rw [prompt.resolve_right id] at hfirst
      cases hfirst
    | waiting held waiting counted last _ sentAt =>
      obtain ⟨due, hdue, hle⟩ := hy.nextDeadline_le held hk waiting sentAt
      have hearly := hopen due hdue
      have hlast := hbrisk first _ hfirst last
      have hlength : log.length * σ.retryDelay ≤ 2 * σ.maxAttempts * σ.retryDelay := by
        have hfirsts := counted.sends_le false
        have hseconds := counted.sends_le true
        refine Nat.mul_le_mul_right _ ?_
        rw [length_eq_sends]
        omega
      dsimp only at hlast
      omega

/-- A message that may be sent once and is never confirmed is given up at its deadline. -/
theorem retries_bounded_of_given_up :
    ∃ x y t d m, Handled { retryDelay := 10, maxAttempts := 1 } 0 x ∧ x.Operated t y ∧
      x.queue.get? ⟨7, .outgoing⟩ = some d ∧ t.flatMap (Operation.sent ⟨7, .outgoing⟩) = [m] ∧
      m.2 = 3 ∧ y.queue.get? ⟨7, .outgoing⟩ = none := by
  let σ : Settings := { retryDelay := 10, maxAttempts := 1 }
  let s : Session := { clientId := "c" }
  let d : Delivery := .publish 7 ⟨false, 1, false, "a", none, []⟩
  let x : Exchange := { queue := (DeliveryQueue.ofSettings σ).enqueue d, session := s }
  have hpushed : Handled σ 0 x := .act (.start σ s) (.push (.publish _ _) rfl rfl (.inl rfl))
  have hrun : x.Operated _ _ := .snoc (.snoc .nil (@Operates.pass _ [] 3 _ _ _ rfl))
    (@Operates.pass _ [] 13 _ _ _ rfl)
  obtain ⟨_, _, hover⟩ := retries_bounded (k := ⟨7, .outgoing⟩) hpushed (by decide) rfl rfl
    (by decide) rfl hrun (by simp [Operation.begins])
  have hgone := hover
    (List.forall_mem_cons.mpr ⟨trivial, List.forall_mem_singleton.mpr (Nat.le_refl 13)⟩)
    _ rfl 23 (Nat.le_refl 23) (fun due h => by cases h)
  exact ⟨x, _, _, _, _, hpushed, hrun, rfl, rfl, rfl, hgone⟩

end Exchange
end Mqtt
