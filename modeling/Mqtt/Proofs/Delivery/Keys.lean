import Mqtt.DeliveryQueue.Basic
import Mathlib.Data.List.Nodup

/-! Deliveries found by their key, in lists where a key with an identifier occurs once. -/
namespace Mqtt.Delivery

@[simp] theorem id_key (d : Delivery) : d.key.id = d.id := rfl

@[simp] theorem direction_key (d : Delivery) : d.key.direction = d.direction := rfl

@[simp] theorem id_withDup (d : Delivery) (dup : Bool) : (d.withDup dup).id = d.id := by
  unfold withDup
  split <;> rfl

@[simp] theorem direction_withDup (d : Delivery) (dup : Bool) :
    (d.withDup dup).direction = d.direction := by
  unfold withDup
  split <;> rfl

@[simp] theorem stage_withDup (d : Delivery) (dup : Bool) : (d.withDup dup).stage = d.stage := by
  unfold withDup
  split <;> rfl

@[simp] theorem key_withDup (d : Delivery) (dup : Bool) : (d.withDup dup).key = d.key := by
  simp [key]

@[simp] theorem key_sent (d : Delivery) (stage : Stage) (now : Nat) :
    (d.sent stage now).key = d.key := rfl

@[simp] theorem id_rewound (d : Delivery) : d.rewound.id = d.id := by
  unfold rewound
  dsimp only
  split <;> simp

@[simp] theorem direction_rewound (d : Delivery) : d.rewound.direction = d.direction := by
  unfold rewound
  dsimp only
  split <;> simp

@[simp] theorem key_rewound (d : Delivery) : d.rewound.key = d.key := by
  simp [key]

/-- Two deliveries share a key only if it has no identifier. -/
def Distinct (ds : List Delivery) : Prop :=
  ds.Pairwise fun d e => d.key = e.key → d.id = 0

theorem Distinct.nodup_keys {ds : List Delivery} (h : Distinct ds) (hid : ∀ d ∈ ds, d.id ≠ 0) :
    (ds.map key).Nodup := by
  rw [List.Nodup, List.pairwise_map]
  exact h.imp_of_mem fun hd _ hz heq => hid _ hd (hz heq)

theorem Distinct.of_keys {ds es : List Delivery} (h : Distinct ds)
    (he : es.map key = ds.map key) : Distinct es := by
  have hkeys : ∀ l : List Delivery,
      Distinct l ↔ (l.map key).Pairwise fun k k' => k = k' → k.id = 0 := fun l => by
    rw [List.pairwise_map]
    rfl
  rw [hkeys, he]
  exact (hkeys ds).mp h

theorem Distinct.sublist {ds es : List Delivery} (h : Distinct ds) (he : es.Sublist ds) :
    Distinct es :=
  List.Pairwise.sublist he h

theorem Distinct.find?_eq_some_iff {ds : List Delivery} {k : Key} {d : Delivery}
    (h : Distinct ds) (hk : k.id ≠ 0) :
    (ds.find? fun e => e.key = k) = some d ↔ d ∈ ds ∧ d.key = k := by
  constructor
  · intro hf
    exact ⟨List.mem_of_find?_eq_some hf, by simpa using List.find?_some hf⟩
  · rintro ⟨hm, rfl⟩
    induction ds with
    | nil => cases hm
    | cons e ds ih =>
      obtain ⟨he, hds⟩ := List.pairwise_cons.mp h
      rcases List.mem_cons.mp hm with rfl | hm
      · simp
      · have hne : e.key ≠ d.key := by
          intro heq
          exact hk (by rw [← heq]; exact he d hm heq)
        simpa [hne] using ih hds hm

theorem find?_eq_none_iff {ds : List Delivery} {k : Key} :
    (ds.find? fun e => e.key = k) = none ↔ ∀ d ∈ ds, d.key ≠ k := by
  simp

theorem Distinct.append_singleton {ds : List Delivery} {d : Delivery} (h : Distinct ds)
    (hd : d.id ≠ 0 → ∀ e ∈ ds, e.key ≠ d.key) : Distinct (ds ++ [d]) := by
  refine List.pairwise_append.mpr ⟨h, List.pairwise_singleton _ _, ?_⟩
  intro e he f hf heq
  obtain rfl := List.mem_singleton.mp hf
  by_contra hz
  have hid : e.id = f.id := congrArg Key.id heq
  exact hd (hid ▸ hz) e he heq

theorem find?_append_singleton (ds : List Delivery) (d : Delivery) (k : Key)
    (hd : k = d.key → ∀ e ∈ ds, e.key ≠ k) :
    ((ds ++ [d]).find? fun e => e.key = k) =
      if k = d.key then some d else ds.find? fun e => e.key = k := by
  rw [List.find?_append]
  split
  next h =>
    rw [find?_eq_none_iff.mpr (hd h)]
    simp [h]
  next h => simp [Ne.symm h]

/-- Taking out the first delivery with a key takes out all of them. -/
theorem Distinct.eraseP_eq_filter {ds : List Delivery} {k : Key} (h : Distinct ds)
    (hk : k.id ≠ 0) :
    (ds.eraseP fun e => e.key = k) = ds.filter fun e => e.key ≠ k := by
  induction ds with
  | nil => rfl
  | cons d ds ih =>
    obtain ⟨hd, hds⟩ := List.pairwise_cons.mp h
    by_cases hdk : d.key = k
    · have hne : ∀ e ∈ ds, e.key ≠ k := by
        intro e he hek
        refine hk ?_
        rw [← hdk]
        exact hd e he (hdk.trans hek.symm)
      have hall : ds.filter (fun e => e.key ≠ k) = ds :=
        List.filter_eq_self.mpr (by simpa using hne)
      simpa [hdk] using hall.symm
    · simpa [hdk] using ih hds

/-- A list whose deliveries are changed or taken out one by one, each under its own key. -/
theorem Distinct.filterMap {ds : List Delivery} {f : Delivery → Option Delivery}
    (h : Distinct ds) (hf : ∀ d ∈ ds, ∀ e, f d = some e → e.key = d.key) :
    Distinct (ds.filterMap f) := by
  refine List.pairwise_filterMap.mpr (h.imp_of_mem ?_)
  intro d e hd he hz d' hd' e' he' heq
  have hk := hf d hd d' hd'
  have hid : d'.id = d.id := congrArg Key.id hk
  rw [hid]
  exact hz (by rw [← hk, heq, hf e he e' he'])

theorem Distinct.find?_filterMap {ds : List Delivery} {f : Delivery → Option Delivery} {k : Key}
    (h : Distinct ds) (hk : k.id ≠ 0) (hf : ∀ d ∈ ds, ∀ e, f d = some e → e.key = d.key) :
    ((ds.filterMap f).find? fun e => e.key = k) =
      (ds.find? fun e => e.key = k).bind f := by
  induction ds with
  | nil => rfl
  | cons d ds ih =>
    obtain ⟨hd, hds⟩ := List.pairwise_cons.mp h
    have ih := ih hds fun e he => hf e (List.mem_cons_of_mem _ he)
    have hfd := hf d List.mem_cons_self
    by_cases hdk : d.key = k
    · have hrest : (ds.find? fun e => e.key = k) = none := by
        refine find?_eq_none_iff.mpr fun e he hek => hk ?_
        rw [← hdk]
        exact hd e he (hdk.trans hek.symm)
      cases hfe : f d with
      | none => simp [hfe, hdk, ih, hrest]
      | some e => simp [hfe, hdk, (hfd e hfe).trans hdk]
    · cases hfe : f d with
      | none => simp [hfe, hdk, ih]
      | some e => simp [hfe, hdk, hfd e hfe, ih]

theorem find?_map {ds : List Delivery} {f : Delivery → Delivery} (hf : ∀ d, (f d).key = d.key)
    (k : Key) :
    ((ds.map f).find? fun e => e.key = k) = (ds.find? fun e => e.key = k).map f := by
  have hsame : ((fun e => decide (e.key = k)) ∘ f) = fun e => decide (e.key = k) := by
    funext d
    simp [hf]
  rw [List.find?_map, hsame]

theorem find?_filter_ne (ds : List Delivery) (key k : Key) :
    ((ds.filter fun e => e.key ≠ key).find? fun e => e.key = k) =
      if k = key then none else ds.find? fun e => e.key = k := by
  rw [List.find?_filter]
  split
  next h =>
    subst h
    simp
  next h =>
    congr 1
    funext e
    by_cases he : e.key = k <;> simp [he, h]

theorem find?_replace {ds : List Delivery} {d : Delivery} (hd : ∃ e ∈ ds, e.key = d.key)
    (k : Key) :
    ((ds.map fun e => if e.key = d.key then d else e).find? fun e => e.key = k) =
      if k = d.key then some d else ds.find? fun e => e.key = k := by
  have hkey : ∀ e : Delivery, (if e.key = d.key then d else e).key = e.key := by
    intro e
    split <;> simp_all
  rw [find?_map hkey]
  cases hf : ds.find? fun e => e.key = k with
  | none =>
    obtain ⟨e, he, hed⟩ := hd
    have hne : k ≠ d.key := by
      rintro rfl
      exact find?_eq_none_iff.mp hf e he hed
    simp [hne]
  | some e =>
    have hek : e.key = k := by simpa using List.find?_some hf
    subst hek
    by_cases h : e.key = d.key <;> simp [h]

end Mqtt.Delivery
