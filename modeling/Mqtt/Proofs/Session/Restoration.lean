import Mqtt.Proofs.Session.Upkeep
import Mathlib.Data.List.Sort

/-!
What a session gives back to a new connection. The order survives in a table that has none of its
own, through a number that each key gets when it comes in.
-/
namespace Mqtt

/-- A table from which entries come in any order. With each delivery stands the number under which
its key came in. -/
structure Numbered where
  get? : Key → Option (Nat × Delivery) := fun _ => none
  next : Nat := 0

namespace Numbered

def run (r : Numbered) : Upkeep → Numbered
  | .put d =>
    match r.get? d.key with
    | some (n, _) => { r with get? := Function.update r.get? d.key (some (n, d)) }
    | none => ⟨Function.update r.get? d.key (some (r.next, d)), r.next + 1⟩
  | .erase key => { r with get? := Function.update r.get? key none }
  | .clear | .restore true => { r with get? := fun _ => none }
  | .nextId _ => r
  | .restore false =>
    { r with get? := fun key => (r.get? key).map fun e => (e.1, e.2.rewound) }

def after (t : List Upkeep) : Numbered :=
  t.foldl run {}

@[simp] theorem after_concat (t : List Upkeep) (u : Upkeep) :
    after (t ++ [u]) = (after t).run u := by
  simp [after]

/-- The entries sorted by number, from a listing of the keys that have one. -/
def sorted (r : Numbered) (keys : List Key) : List (Nat × Delivery) :=
  (keys.filterMap r.get?).mergeSort fun e f => e.1 ≤ f.1

def number (r : Numbered) (key : Key) : Nat :=
  (r.get? key).elim 0 Prod.fst

/-- The table has what the session has, and its numbers follow the order of the session. -/
structure Numbers (r : Numbered) (s : Session) : Prop where
  get?_eq : ∀ key, (r.get? key).map Prod.snd = s.get? key
  increasing : (s.deliveries.map Delivery.key).Pairwise fun k k' => r.number k < r.number k'
  below : ∀ k ∈ s.deliveries.map Delivery.key, r.number k < r.next

variable {r : Numbered} {s : Session} {u : Upkeep} {key : Key}

theorem Numbers.get?_run (h : r.Numbers s) (u : Upkeep) (key : Key) :
    ((r.run u).get? key).map Prod.snd = (u.run s).get? key := by
  cases u with
  | put d =>
    show _ = (s.put d).get? key
    rw [Session.get?_put, ← h.get?_eq]
    unfold run
    dsimp only
    by_cases hk : key = d.key
    · subst hk
      split <;> simp
    · split <;> simp [hk]
  | erase other =>
    show (Function.update r.get? other none key).map _ = (s.erase other).get? key
    rw [Session.get?_erase, ← h.get?_eq]
    by_cases hk : key = other <;> simp [hk]
  | clear => rfl
  | nextId busy =>
    rw [Session.get?, Upkeep.deliveries_nextId]
    exact h.get?_eq key
  | restore clean =>
    cases clean with
    | true => rfl
    | false =>
      show ((r.get? key).map _).map Prod.snd =
        Session.get? { s with deliveries := s.deliveries.map Delivery.rewound } key
      rw [Session.get?_map_rewound, ← h.get?_eq, Option.map_map, Option.map_map]
      rfl

theorem Numbers.isSome_get? (h : r.Numbers s) (key : Key) :
    (r.get? key).isSome ↔ key ∈ s.deliveries.map Delivery.key := by
  rw [← Option.isSome_map (f := Prod.snd), h.get?_eq, ← Session.contains_eq_isSome]
  simp [Session.contains]

theorem number_run (hkey : (r.get? key).isSome) (hu : u.drops key = false) :
    (r.run u).number key = r.number key := by
  cases u with
  | put d =>
    unfold run number
    dsimp only
    by_cases hk : key = d.key
    · subst hk
      obtain ⟨e, he⟩ := Option.isSome_iff_exists.mp hkey
      simp [he]
    · split <;> simp [hk]
  | erase other =>
    have hk : key ≠ other := fun hk => by simp [Upkeep.drops, hk] at hu
    simp [run, number, hk]
  | clear => cases hu
  | nextId busy => rfl
  | restore clean =>
    cases clean with
    | true => cases hu
    | false =>
      show ((r.get? key).map _).elim 0 Prod.fst = (r.get? key).elim 0 Prod.fst
      cases r.get? key <;> rfl

/-- A key that comes in takes the next number, and any other operation leaves the counter. -/
theorem Numbers.next_run (h : r.Numbers s) (u : Upkeep) :
    (∀ k ∈ u.fresh s, (r.run u).number k = r.next) ∧
      (r.run u).next = r.next + (u.fresh s).length := by
  cases u with
  | put d =>
    have hfresh : Upkeep.fresh s (.put d) = if (r.get? d.key).isSome then [] else [d.key] := by
      rw [Upkeep.fresh, Session.contains_eq_isSome, ← h.get?_eq, Option.isSome_map]
    rw [hfresh]
    cases hd : r.get? d.key <;> simp [run, number, hd]
  | restore clean => cases clean <;> simp [Upkeep.fresh, run]
  | _ => simp [Upkeep.fresh, run]

theorem Numbers.run (h : r.Numbers s) (u : Upkeep) : (r.run u).Numbers (u.run s) := by
  obtain ⟨hfresh, hnext⟩ := h.next_run u
  have hkept : ∀ k ∈ s.deliveries.map Delivery.key, u.drops k = false →
      (r.run u).number k = r.number k :=
    fun k hk hu => number_run ((h.isSome_get? k).mpr hk) hu
  refine ⟨h.get?_run u, Upkeep.pairwise_run h.increasing h.below hkept hfresh, fun k hk => ?_⟩
  rw [Upkeep.keys_run] at hk
  rcases List.mem_append.mp hk with hk | hk
  · obtain ⟨hk, hu⟩ := List.mem_filter.mp hk
    rw [hkept k hk (by simpa using hu), hnext]
    exact Nat.lt_add_right _ (h.below k hk)
  · rw [hfresh k hk, hnext]
    exact Nat.lt_add_of_pos_right (List.length_pos_of_mem hk)

theorem numbers_after (clientId : String) (t : List Upkeep) :
    (after t).Numbers (Upkeep.after clientId t) := by
  induction t using List.reverseRecOn with
  | nil => exact ⟨fun _ => rfl, .nil, by simp [Upkeep.after]⟩
  | append_singleton t u ih =>
    rw [after_concat, Upkeep.after_concat]
    exact ih.run u

theorem sorted_eq {es : List (Nat × Delivery)} {keys : List Key}
    (h : (keys.filterMap r.get?).Perm es) (hes : (es.map Prod.fst).Pairwise (· < ·)) :
    r.sorted keys = es := by
  have hperm : (r.sorted keys).Perm es := (List.mergeSort_perm _ _).trans h
  have hsorted : (r.sorted keys).Pairwise fun e f => decide (e.1 ≤ f.1) = true :=
    List.pairwise_mergeSort (by simp; omega) (by simp; omega) _
  refine List.Perm.eq_of_pairwise (fun e f he hf hef hfe => ?_) hsorted ?_ hperm
  · have hn : e.1 = f.1 := Nat.le_antisymm (by simpa using hef) (by simpa using hfe)
    exact List.inj_on_of_nodup_map (hes.imp Nat.ne_of_lt) (hperm.mem_iff.mp he) hf hn
  · exact (List.pairwise_map.mp hes).imp fun hlt => by simpa using Nat.le_of_lt hlt

/-- The numbers bring the deliveries back into the order in which the session has them, whatever
the order in which the table lists them. -/
theorem Numbers.map_sorted (h : r.Numbers s) {keys : List Key} (hk : keys.Nodup)
    (hall : ∀ key, key ∈ keys ↔ (r.get? key).isSome) :
    (r.sorted keys).map Prod.snd = s.deliveries := by
  have hkeyed : s.Keyed := h.increasing.imp fun hlt heq => absurd hlt (by simp [heq])
  have hperm : keys.Perm (s.deliveries.map Delivery.key) :=
    (List.perm_ext_iff_of_nodup hk hkeyed).mpr fun key => (hall key).trans (h.isSome_get? key)
  have hentries : (s.deliveries.map Delivery.key).filterMap r.get? =
      s.deliveries.map fun d => (r.number d.key, d) := by
    rw [List.filterMap_map, ← List.filterMap_eq_map]
    refine List.filterMap_congr fun d hd => ?_
    have hget := (h.get?_eq d.key).trans (hkeyed.get?_eq_some_iff.mpr ⟨hd, rfl⟩)
    obtain ⟨e, he, rfl⟩ := Option.map_eq_some_iff.mp hget
    simp [number, he]
  have hnumbers :
      ((s.deliveries.map fun d => (r.number d.key, d)).map Prod.fst).Pairwise (· < ·) := by
    have hinc := h.increasing
    rw [List.pairwise_map] at hinc
    rwa [List.map_map, List.pairwise_map]
  have heq : r.sorted keys = s.deliveries.map fun d => (r.number d.key, d) :=
    sorted_eq (hentries ▸ hperm.filterMap r.get?) hnumbers
  rw [heq, List.map_map]
  exact List.map_id _

end Numbered

namespace Session
open Upkeep

theorem mem_restore_iff (clientId : String) (t : List Upkeep) {d : Delivery} :
    d ∈ ((after clientId t).restore false).1 ↔ ∃ e, latest d.key t = some e ∧ e.Restart d := by
  have hget := get?_after clientId t d.key
  rw [restore_kept, List.mem_map]
  constructor
  · rintro ⟨e, he, rfl⟩
    rw [Delivery.key_rewound, (keyed_after clientId t).get?_eq_some_iff.mpr ⟨he, rfl⟩] at hget
    obtain ⟨e', he', heq⟩ := Option.map_eq_some_iff.mp hget.symm
    exact ⟨e', by rwa [Delivery.key_rewound], heq ▸ e'.restart_rewound⟩
  · rintro ⟨e, he, hd⟩
    rw [he] at hget
    obtain ⟨e', he', heq⟩ := Option.map_eq_some_iff.mp hget
    exact ⟨e', ((keyed_after clientId t).get?_eq_some_iff.mp he').1, heq.trans hd.eq_rewound.symm⟩

/-- Whatever was done with a session, a new connection gets each delivery that it stores once, in
the order in which the keys came to stay: the last version that was put, ready to be sent again.
The session keeps what it gives back and would give it back again. With a clean start nothing is
left but the counter. A table without order gives back the same by its numbers. -/
theorem restore_latest_in_order (clientId : String) (t : List Upkeep) :
    let s := after clientId t
    let r := Numbered.after t
    let kept := s.restore false
    (kept.1.map Delivery.key).Nodup ∧
    (kept.1.map Delivery.key).Pairwise (fun k k' => storedAt k t < storedAt k' t) ∧
    (∀ d, d ∈ kept.1 ↔ ∃ e, latest d.key t = some e ∧ e.Restart d) ∧
    List.Forall₂ Delivery.Restart s.deliveries kept.1 ∧
    kept.2 = { s with deliveries := kept.1 } ∧
    kept.2.restore false = kept ∧
    s.restore true = ([], { s with deliveries := [] }) ∧
    ∀ keys : List Key, keys.Nodup → (∀ key, key ∈ keys ↔ (r.get? key).isSome) →
      (r.sorted keys).map (fun e => e.2.rewound) = kept.1 := by
  intro s r kept
  have hkeys : kept.1.map Delivery.key = s.deliveries.map Delivery.key := by
    simp [kept, restore_kept, Function.comp_def]
  rw [hkeys]
  refine ⟨keyed_after clientId t, pairwise_storedAt clientId t, fun d => mem_restore_iff clientId t,
    ?_, rfl, ?_, rfl, fun keys hk hall => ?_⟩
  · exact List.forall₂_map_right_iff.mpr (List.forall₂_same.mpr fun d _ => d.restart_rewound)
  · simp [kept, restore_kept, Function.comp_def]
  · have hsorted := (Numbered.numbers_after clientId t).map_sorted hk hall
    show _ = s.deliveries.map Delivery.rewound
    rw [← hsorted, List.map_map]
    rfl

/-- A refreshed key keeps its place, one that was taken out comes back behind the others. -/
example :
    let d id stage : Delivery := ⟨.pubRel id, stage, .outgoing, id, 1, some 5⟩
    ((after "c" [.put (d 1 .awaitPubcomp), .put (d 2 .awaitPubcomp), .put (d 3 .awaitPubcomp),
      .put (d 2 .sendPubrel), .erase ⟨1, .outgoing⟩, .put (d 1 .awaitPubcomp)]).restore false).1 =
      [2, 3, 1].map fun id => ⟨.pubRel id, .sendPubrel, .outgoing, id, 0, none⟩ := by
  decide

end Session
end Mqtt
