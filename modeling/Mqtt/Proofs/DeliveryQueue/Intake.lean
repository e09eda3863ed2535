import Mqtt.Proofs.DeliveryQueue.Sound
import Mqtt.Proofs.Outcome

/-! How a queue gets deliveries of our own: new ones, and those that a session still owes. -/
namespace Mqtt.DeliveryQueue

variable {σ : Settings} {q : DeliveryQueue}

/-- A request that is taken up gets an identifier nobody holds, and one delivery behind the
others, which the session stores if it has to outlive the connection. -/
theorem issue_spec {s t : Session} {build : UInt16 → Delivery} {id : UInt16} {q' : DeliveryQueue}
    (h : q.issue s build = .ok (id, q', t)) :
    q.isFull = false ∧ id ≠ 0 ∧ s.get? ⟨id, .outgoing⟩ = none ∧
      q.contains ⟨id, .outgoing⟩ = false ∧ q' = q.enqueue (build id) ∧
      t = if (build id).isTracked then Session.put { s with lastId := id } (build id)
        else { s with lastId := id } := by
  unfold issue at h
  cases hfull : q.isFull with
  | true =>
    rw [hfull] at h
    cases h
  | false =>
    simp only [hfull, Bool.false_eq_true, if_false] at h
    split at h
    next => cases h
    next id' s' hnext =>
      obtain ⟨hid, hfree, hbusy, rfl⟩ := Session.nextId_spec hnext
      rw [push_eq_ok fun _ => hfull] at h
      cases h
      exact ⟨rfl, hid, hfree, hbusy, rfl, rfl⟩

theorem Sound.issue (h : q.Sound σ) {s t : Session} {build : UInt16 → Delivery} {id : UInt16}
    {q' : DeliveryQueue} (hi : q.issue s build = .ok (id, q', t)) (hc : (build id).Coherent)
    (hk : (build id).key = ⟨id, .outgoing⟩) : q'.Sound σ := by
  obtain ⟨hfull, hid, _, hfree, rfl, _⟩ := issue_spec hi
  refine h.enqueue hc (fun _ => ?_) fun _ => hfull
  rw [hk]
  exact (h.keyed.contains_eq_false_iff _).mp hfree

/-- Deliveries with identifiers of their own are all loaded where there is room for them. -/
theorem Sound.load_all (h : q.Sound σ) {ds : List Delivery} (hc : ∀ d ∈ ds, d.Coherent)
    (hd : (ds.map Delivery.key).Nodup) (hid : ∀ d ∈ ds, d.id ≠ 0)
    (hnew : ∀ d ∈ ds, q.get? d.key = none)
    (hroom : q.outgoingCount + (ds.countP fun d => d.direction = .outgoing) ≤ q.capacity) :
    (q.load ds).1 = ds.length ∧ (q.load ds).2.deliveries = q.deliveries ++ ds := by
  induction ds generalizing q with
  | nil => simp [DeliveryQueue.load]
  | cons d ds ih =>
    obtain ⟨hfresh, hd⟩ := List.nodup_cons.mp hd
    have hnewd := hnew d List.mem_cons_self
    have hfull : d.direction = .outgoing → q.isFull = false := by
      intro hdir
      simp only [List.countP_cons, hdir, decide_true, if_true] at hroom
      simp only [isFull, decide_eq_false_iff_not]
      omega
    have hq := h.enqueue (hc d List.mem_cons_self) (fun _ => hnewd) hfull
    have hrest := ih hq (fun e he => hc e (List.mem_cons_of_mem _ he)) hd
      (fun e he => hid e (List.mem_cons_of_mem _ he))
      (by
        intro e he
        have hne : e.key ≠ d.key := fun heq => hfresh (heq ▸ List.mem_map_of_mem he)
        have heid : e.key.id ≠ 0 := hid e (List.mem_cons_of_mem _ he)
        rw [h.keyed.get?_enqueue (fun _ => hnewd) heid, if_neg hne]
        exact hnew e (List.mem_cons_of_mem _ he))
      (by
        rw [outgoingCount_enqueue]
        simp only [List.countP_cons, decide_eq_true_eq] at hroom
        change _ ≤ q.capacity
        omega)
    have hcontains : q.contains d.key = false := (h.keyed.contains_eq_false_iff d.key).mpr hnewd
    unfold DeliveryQueue.load
    simp only [hcontains, Bool.false_eq_true, if_false, push_eq_ok hfull]
    exact ⟨by rw [hrest.1]; rfl, by rw [hrest.2]; simp [DeliveryQueue.enqueue]⟩

theorem Tidy.get?_load_of_held (h : q.Tidy σ) {k : Key} {d : Delivery} (hd : q.get? k = some d)
    (ds : List Delivery) : (q.load ds).2.get? k = some d := by
  have hk : k.id ≠ 0 := (h.keyed.get?_eq_some_iff.mp hd).1
  refine (load_induction (R := fun q => q.Tidy σ ∧ q.get? k = some d) ⟨h, hd⟩ ?_).2
  intro q q' e ⟨hq, hheld⟩ _ hfree hpush
  refine ⟨hq.push hfree hpush, ?_⟩
  obtain ⟨_, rfl⟩ := exists_of_push hpush
  have hnew : q.get? e.key = none := (hq.keyed.contains_eq_false_iff _).mp hfree
  have hne : k ≠ e.key := by
    rintro rfl
    cases hheld.symm.trans hnew
  rw [hq.keyed.get?_enqueue (fun _ => hnew) hk, if_neg hne]
  exact hheld

/-- A new delivery is loaded if it is the broker's or there is room for all of our own. -/
theorem Tidy.get?_load (h : q.Tidy σ) {ds : List Delivery} (hkeys : (ds.map Delivery.key).Nodup)
    (hid : ∀ e ∈ ds, e.id ≠ 0) (hnew : ∀ e ∈ ds, q.get? e.key = none) {d : Delivery} (hd : d ∈ ds)
    (hroom : d.direction = .incoming ∨
      q.outgoingCount + (ds.countP fun e => e.direction = .outgoing) ≤ q.capacity) :
    (q.load ds).2.get? d.key = some d := by
  induction ds generalizing q with
  | nil => cases hd
  | cons e ds ih =>
    obtain ⟨hfresh, hkeys⟩ := List.nodup_cons.mp hkeys
    have hnewe := hnew e List.mem_cons_self
    have hfree : q.contains e.key = false := (h.keyed.contains_eq_false_iff e.key).mpr hnewe
    have hide : e.key.id ≠ 0 := hid e List.mem_cons_self
    have hidrest := fun f hf => hid f (List.mem_cons_of_mem e hf)
    unfold DeliveryQueue.load
    rw [if_neg (by simp [hfree])]
    cases hpush : q.push e with
    | error fault =>
      -- only a delivery of our own is turned away, and only where there is no room
      unfold DeliveryQueue.push at hpush
      split at hpush
      next hfull =>
        obtain ⟨hout, hfull⟩ := hfull
        have hover : q.capacity ≤ q.outgoingCount := by simpa [isFull] using hfull
        have hne : d ≠ e := by
          rintro rfl
          rcases hroom with hin | hfits
          · cases hout.symm.trans hin
          · simp only [List.countP_cons, hout, decide_true, if_true] at hfits
            omega
        refine ih h hkeys hidrest (fun f hf => hnew f (List.mem_cons_of_mem e hf))
          ((List.mem_cons.mp hd).resolve_left hne) (hroom.imp id fun hfits => ?_)
        simp only [List.countP_cons, hout, decide_true, if_true] at hfits
        omega
      next => cases hpush
    | ok q' =>
      have hq' := h.push hfree hpush
      obtain ⟨_, rfl⟩ := exists_of_push hpush
      have hget := fun k (hk : k.id ≠ 0) =>
        h.keyed.get?_enqueue (d := e) (fun _ => hnewe) (k := k) hk
      rcases List.mem_cons.mp hd with rfl | hd
      · exact hq'.get?_load_of_held (by rw [hget d.key hide, if_pos rfl]) ds
      · refine ih hq' hkeys hidrest (fun f hf => ?_) hd (hroom.imp id fun hfits => ?_)
        · have hne : f.key ≠ e.key := fun heq => hfresh (heq ▸ List.mem_map_of_mem hf)
          rw [hget f.key (hidrest f hf), if_neg hne]
          exact hnew f (List.mem_cons_of_mem e hf)
        · rw [outgoingCount_enqueue]
          simp only [List.countP_cons, decide_eq_true_eq] at hfits
          change _ ≤ q.capacity
          omega

end Mqtt.DeliveryQueue
