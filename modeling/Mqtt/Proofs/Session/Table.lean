import Mqtt.Delivery.Move
import Mqtt.Proofs.Delivery.Keys

/-! What a session stores under a key, after each of its operations. -/
namespace Mqtt

namespace Session

theorem contains_eq_isSome (s : Session) (k : Key) : s.contains k = (s.get? k).isSome := by
  unfold contains get?
  rw [Bool.eq_iff_iff, List.any_eq_true, List.find?_isSome]

theorem contains_eq_false_iff (s : Session) (k : Key) : s.contains k = false ↔ s.get? k = none := by
  rw [contains_eq_isSome, Option.isSome_eq_false_iff, Option.isNone_iff_eq_none]

theorem get?_put (s : Session) (d : Delivery) (k : Key) :
    (s.put d).get? k = if k = d.key then some d else s.get? k := by
  unfold put
  split
  next h =>
    have hd : ∃ e ∈ s.deliveries, e.key = d.key := by simpa [contains] using h
    exact Delivery.find?_replace hd k
  next h =>
    refine Delivery.find?_append_singleton s.deliveries d k ?_
    rintro rfl e he heq
    exact h (by simpa [contains] using ⟨e, he, heq⟩)

theorem get?_erase (s : Session) (key k : Key) :
    (s.erase key).get? k = if k = key then none else s.get? k :=
  Delivery.find?_filter_ne s.deliveries key k

/-- A key that comes in stands behind the others, and one that is there stays where it is. -/
theorem keys_put (s : Session) (d : Delivery) :
    (s.put d).deliveries.map Delivery.key =
      s.deliveries.map Delivery.key ++ if s.contains d.key then [] else [d.key] := by
  unfold put
  split
  next =>
    rw [List.append_nil, List.map_map]
    refine List.map_congr_left fun e _ => ?_
    by_cases he : e.key = d.key <;> simp [he]
  next => rw [List.map_append, List.map_singleton]

/-- A session stores at most one delivery under a key. -/
def Keyed (s : Session) : Prop :=
  (s.deliveries.map Delivery.key).Nodup

theorem Keyed.put {s : Session} (h : s.Keyed) (d : Delivery) : (s.put d).Keyed := by
  unfold Keyed
  rw [keys_put]
  split
  next => rwa [List.append_nil]
  next hc =>
    have hd : d.key ∉ s.deliveries.map Delivery.key := by
      simpa [contains] using hc
    exact List.nodup_append.mpr ⟨h, by simp, fun k hk l hl => by
      obtain rfl := List.mem_singleton.mp hl
      exact ne_of_mem_of_not_mem hk hd⟩

theorem Keyed.erase {s : Session} (h : s.Keyed) (key : Key) : (s.erase key).Keyed :=
  h.sublist (List.filter_sublist.map _)

theorem Keyed.record {s : Session} (h : s.Keyed) (r : Record) : (s.record r).Keyed := by
  cases r with
  | keep => exact h
  | put d => exact h.put d
  | erase key => exact h.erase key

theorem Keyed.get?_eq_some_iff {s : Session} (h : s.Keyed) {k : Key} {d : Delivery} :
    s.get? k = some d ↔ d ∈ s.deliveries ∧ d.key = k := by
  constructor
  · intro hf
    exact ⟨List.mem_of_find?_eq_some hf, by simpa using List.find?_some hf⟩
  · rintro ⟨hm, rfl⟩
    cases hf : s.get? d.key with
    | none => exact absurd rfl (Delivery.find?_eq_none_iff.mp hf d hm)
    | some e =>
      have he := List.mem_of_find?_eq_some hf
      have hk : e.key = d.key := by simpa using List.find?_some hf
      rw [List.inj_on_of_nodup_map h he hm hk]

/-- Everything the session keeps, rewound where it stands. -/
theorem restore_kept (s : Session) :
    s.restore false =
      (s.deliveries.map Delivery.rewound,
        { s with deliveries := s.deliveries.map Delivery.rewound }) :=
  rfl

theorem get?_map_rewound (s : Session) (k : Key) :
    Session.get? { s with deliveries := s.deliveries.map Delivery.rewound } k =
      (s.get? k).map Delivery.rewound :=
  Delivery.find?_map Delivery.key_rewound k

theorem Keyed.map_rewound {s : Session} (h : s.Keyed) :
    Keyed { s with deliveries := s.deliveries.map Delivery.rewound } := by
  have hkeys : (s.deliveries.map Delivery.rewound).map Delivery.key =
      s.deliveries.map Delivery.key := by
    simp [List.map_map, Function.comp_def]
  unfold Keyed
  rw [hkeys]
  exact h

theorem succId_ne_zero (id : UInt16) : succId id ≠ 0 := by
  unfold succId
  split
  next => decide
  next h =>
    intro hz
    have hz := congrArg UInt16.toNat hz
    have hne : id.toNat ≠ 65535 := fun hn => h (UInt16.toNat_inj.mp hn)
    have hlt := id.toNat_lt
    simp only [UInt16.toNat_add, UInt16.reduceToNat] at hz
    omega

theorem searchId_spec {isFree : UInt16 → Bool} {tries : Nat} {last id : UInt16}
    (h : searchId isFree tries last = some id) : id ≠ 0 ∧ isFree id = true := by
  induction tries generalizing last with
  | zero => cases h
  | succ tries ih =>
    unfold searchId at h
    split at h
    next hfree =>
      cases h
      exact ⟨succId_ne_zero last, hfree⟩
    next => exact ih h

/-- An identifier that is given out is not 0 and free on both sides; only the counter moves. -/
theorem nextId_spec {s t : Session} {busy : UInt16 → Bool} {id : UInt16}
    (h : s.nextId busy = some (id, t)) :
    id ≠ 0 ∧ s.get? ⟨id, .outgoing⟩ = none ∧ busy id = false ∧ t = { s with lastId := id } := by
  unfold nextId at h
  obtain ⟨found, hs, he⟩ := Option.map_eq_some_iff.mp h
  obtain ⟨rfl, rfl⟩ := Prod.mk.inj he
  obtain ⟨hne, hfree⟩ := searchId_spec hs
  simp only [Bool.and_eq_true, Bool.not_eq_true'] at hfree
  exact ⟨hne, (contains_eq_false_iff s _).mp hfree.1, hfree.2, rfl⟩

end Session
end Mqtt
