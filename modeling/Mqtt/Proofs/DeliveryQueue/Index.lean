import Mqtt.Proofs.Delivery.Course

/-! The queue's index names exactly the deliveries with an identifier, each by a key of its own. -/
namespace Mqtt.DeliveryQueue

open Delivery (Distinct)

/-- The index is true to the deliveries. -/
structure Keyed (q : DeliveryQueue) : Prop where
  distinct : Distinct q.deliveries
  mem_index : ∀ k, k ∈ q.index ↔ k.id ≠ 0 ∧ ∃ d ∈ q.deliveries, d.key = k

theorem Keyed.get?_eq_find? {q : DeliveryQueue} (h : q.Keyed) {k : Key} (hk : k.id ≠ 0) :
    q.get? k = q.deliveries.find? fun d => d.key = k := by
  unfold get? contains
  split
  next => rfl
  next hc =>
    symm
    refine Delivery.find?_eq_none_iff.mpr fun d hd hdk => hc ?_
    simpa using (h.mem_index k).mpr ⟨hk, d, hd, hdk⟩

theorem Keyed.get?_eq_some_iff {q : DeliveryQueue} (h : q.Keyed) {k : Key} {d : Delivery} :
    q.get? k = some d ↔ k.id ≠ 0 ∧ d ∈ q.deliveries ∧ d.key = k := by
  by_cases hk : k.id = 0
  · have hc : q.contains k = false := by
      simpa [contains, hk] using (h.mem_index k).not.mpr (by simp [hk])
    simp [get?, hc, hk]
  · rw [h.get?_eq_find? hk, h.distinct.find?_eq_some_iff hk]
    simp [hk]

theorem Keyed.eq_of_key {q : DeliveryQueue} (h : q.Keyed) {d e : Delivery}
    (hd : d ∈ q.deliveries) (he : e ∈ q.deliveries) (hid : d.key.id ≠ 0) (hkey : e.key = d.key) :
    e = d :=
  Option.some.inj ((h.get?_eq_some_iff.mpr ⟨hid, he, hkey⟩).symm.trans
    (h.get?_eq_some_iff.mpr ⟨hid, hd, rfl⟩))

theorem Keyed.get?_eq_none_iff {q : DeliveryQueue} (h : q.Keyed) {k : Key} (hk : k.id ≠ 0) :
    q.get? k = none ↔ ∀ d ∈ q.deliveries, d.key ≠ k := by
  rw [h.get?_eq_find? hk, Delivery.find?_eq_none_iff]

theorem Keyed.key_of_get? {q : DeliveryQueue} (h : q.Keyed) {k : Key} {d : Delivery}
    (hd : q.get? k = some d) : d.key = k :=
  (h.get?_eq_some_iff.mp hd).2.2

theorem Keyed.contains_eq_isSome {q : DeliveryQueue} (h : q.Keyed) (k : Key) :
    q.contains k = (q.get? k).isSome := by
  rw [Bool.eq_iff_iff, Option.isSome_iff_exists]
  constructor
  · intro hc
    have hc : k ∈ q.index := by simpa [contains] using hc
    obtain ⟨hk, d, hd, hdk⟩ := (h.mem_index k).mp hc
    exact ⟨d, h.get?_eq_some_iff.mpr ⟨hk, hd, hdk⟩⟩
  · rintro ⟨d, hd⟩
    obtain ⟨hk, hm, hdk⟩ := h.get?_eq_some_iff.mp hd
    simpa [contains] using (h.mem_index k).mpr ⟨hk, d, hm, hdk⟩

theorem Keyed.contains_eq_false_iff {q : DeliveryQueue} (h : q.Keyed) (k : Key) :
    q.contains k = false ↔ q.get? k = none := by
  rw [h.contains_eq_isSome, Option.isSome_eq_false_iff, Option.isNone_iff_eq_none]

theorem keyed_ofSettings (s : Settings) : (ofSettings s).Keyed :=
  ⟨List.Pairwise.nil, by simp [ofSettings]⟩

/-! Putting a delivery behind the others. -/

theorem Keyed.enqueue {q : DeliveryQueue} {d : Delivery} (h : q.Keyed)
    (hd : d.id ≠ 0 → q.get? d.key = none) : (q.enqueue d).Keyed := by
  have hfree : d.id ≠ 0 → ∀ e ∈ q.deliveries, e.key ≠ d.key := fun hid =>
    (h.get?_eq_none_iff hid).mp (hd hid)
  constructor
  · exact h.distinct.append_singleton hfree
  · intro k
    have hnote : k ∈ q.note d.key ↔ k ∈ q.index ∨ d.id ≠ 0 ∧ k = d.key := by
      unfold note
      by_cases hid : d.id = 0
      · simp [hid]
      · have hc : q.contains d.key = false := (h.contains_eq_false_iff d.key).mpr (hd hid)
        simp [hc, hid, or_comm]
    have hmem : (∃ e ∈ (q.enqueue d).deliveries, e.key = k) ↔
        (∃ e ∈ q.deliveries, e.key = k) ∨ d.key = k := by
      simp [DeliveryQueue.enqueue, or_and_right, exists_or]
    rw [show (q.enqueue d).index = q.note d.key from rfl, hnote, hmem, h.mem_index]
    constructor
    · rintro (⟨hk, he⟩ | ⟨hid, rfl⟩)
      · exact ⟨hk, .inl he⟩
      · exact ⟨hid, .inr rfl⟩
    · rintro ⟨hk, he | rfl⟩
      · exact .inl ⟨hk, he⟩
      · exact .inr ⟨hk, rfl⟩

theorem Keyed.get?_enqueue {q : DeliveryQueue} {d : Delivery} (h : q.Keyed)
    (hd : d.id ≠ 0 → q.get? d.key = none) {k : Key} (hk : k.id ≠ 0) :
    (q.enqueue d).get? k = if k = d.key then some d else q.get? k := by
  rw [(h.enqueue hd).get?_eq_find? hk, h.get?_eq_find? hk]
  refine Delivery.find?_append_singleton q.deliveries d k ?_
  rintro rfl
  exact (h.get?_eq_none_iff hk).mp (hd hk)

/-! Changing a delivery in its place. -/

theorem map_modify {α : Type} (g : Delivery → α) {key : Key} {f : Delivery → Delivery}
    (hf : ∀ d, d.key = key → g (f d) = g d) (ds : List Delivery) :
    (modify key f ds).map g = ds.map g := by
  induction ds with
  | nil => rfl
  | cons d ds ih =>
    unfold modify
    split
    next h => simp [hf d h]
    next => simp [ih]

theorem find?_modify {key : Key} {f : Delivery → Delivery}
    (hf : ∀ d, d.key = key → (f d).key = key) (ds : List Delivery) (k : Key) :
    ((modify key f ds).find? fun d => d.key = k) =
      if k = key then (ds.find? fun d => d.key = k).map f else ds.find? fun d => d.key = k := by
  induction ds with
  | nil => simp [modify]
  | cons d ds ih =>
    unfold modify
    by_cases hd : d.key = key
    · by_cases hk : k = key
      · simp [hd, hk, hf d hd]
      · simp [hd, hf d hd, Ne.symm hk, hk]
    · by_cases hdk : d.key = k
      · have hk : k ≠ key := hdk ▸ hd
        simp [hdk, hk]
      · simp [hd, hdk, ih]

theorem Keyed.modify {q : DeliveryQueue} (h : q.Keyed) {key : Key} {f : Delivery → Delivery}
    (hf : ∀ d, d.key = key → (f d).key = key) :
    Keyed { q with deliveries := modify key f q.deliveries } := by
  have hkeys : (DeliveryQueue.modify key f q.deliveries).map Delivery.key =
      q.deliveries.map Delivery.key :=
    map_modify Delivery.key (fun d hd => (hf d hd).trans hd.symm) q.deliveries
  constructor
  · exact h.distinct.of_keys hkeys
  · intro k
    have hmem : (∃ d ∈ DeliveryQueue.modify key f q.deliveries, d.key = k) ↔
        ∃ d ∈ q.deliveries, d.key = k := by
      simp only [← List.mem_map, hkeys]
    exact (h.mem_index k).trans (and_congr_right fun _ => hmem.symm)

theorem Keyed.get?_modify {q : DeliveryQueue} (h : q.Keyed) {key : Key} {f : Delivery → Delivery}
    (hf : ∀ d, d.key = key → (f d).key = key) {k : Key} (hk : k.id ≠ 0) :
    get? { q with deliveries := DeliveryQueue.modify key f q.deliveries } k =
      if k = key then (q.get? k).map f else q.get? k := by
  rw [(h.modify hf).get?_eq_find? hk, h.get?_eq_find? hk]
  exact find?_modify hf q.deliveries k

/-! Taking a delivery out. -/

theorem Keyed.mem_remove {q : DeliveryQueue} (h : q.Keyed) {key : Key} (hkey : key.id ≠ 0)
    {d : Delivery} : d ∈ (q.remove key).deliveries ↔ d ∈ q.deliveries ∧ d.key ≠ key := by
  have heq : (q.remove key).deliveries = q.deliveries.filter fun d => d.key ≠ key :=
    h.distinct.eraseP_eq_filter hkey
  rw [heq]
  simp

theorem Keyed.remove {q : DeliveryQueue} (h : q.Keyed) {key : Key} (hkey : key.id ≠ 0) :
    (q.remove key).Keyed := by
  constructor
  · exact h.distinct.sublist List.eraseP_sublist
  · intro k
    have hindex : k ∈ (q.remove key).index ↔ k ∈ q.index ∧ k ≠ key := by
      simp [DeliveryQueue.remove]
    rw [hindex, h.mem_index]
    constructor
    · rintro ⟨⟨hk, d, hd, rfl⟩, hne⟩
      exact ⟨hk, d, (h.mem_remove hkey).mpr ⟨hd, hne⟩, rfl⟩
    · rintro ⟨hk, d, hd, rfl⟩
      obtain ⟨hm, hne⟩ := (h.mem_remove hkey).mp hd
      exact ⟨⟨hk, d, hm, rfl⟩, hne⟩

theorem Keyed.get?_remove {q : DeliveryQueue} (h : q.Keyed) {key : Key} (hkey : key.id ≠ 0)
    (k : Key) : (q.remove key).get? k = if k = key then none else q.get? k := by
  ext d
  rw [(h.remove hkey).get?_eq_some_iff, h.mem_remove hkey]
  split
  next heq =>
    subst heq
    simp only [reduceCtorEq, iff_false]
    rintro ⟨_, ⟨_, hne⟩, hdk⟩
    exact hne hdk
  next hne =>
    rw [h.get?_eq_some_iff]
    constructor
    · rintro ⟨hk, ⟨hm, _⟩, hdk⟩
      exact ⟨hk, hm, hdk⟩
    · rintro ⟨hk, hm, hdk⟩
      exact ⟨hk, ⟨hm, hdk ▸ hne⟩, hdk⟩

end Mqtt.DeliveryQueue
