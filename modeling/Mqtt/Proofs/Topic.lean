import Mqtt.Topic
import Mqtt.Proofs.Outcome
import Mathlib.Data.List.Induction

/-!
The check of a topic filter goes by its levels, the grammar by the characters next to a wildcard. A
wildcard that stands alone in its level is one with a slash or an end on either side.
-/
namespace Mqtt.Topic

/-- A level begins behind this text: it is empty or ends with a slash. -/
def LevelBegins (before : List Char) : Prop :=
  ∀ c ∈ before.getLast?, c = '/'

/-- A level ends in front of this text: it is empty or begins with a slash. -/
def LevelEnds (after : List Char) : Prop :=
  ∀ c ∈ after.head?, c = '/'

/-- The grammar of topic filters, which looks at single characters and their neighbours. -/
structure IsFilter (t : List Char) : Prop where
  ne_nil : t ≠ []
  plus : ∀ before after, t = before ++ '+' :: after → LevelBegins before ∧ LevelEnds after
  hash : ∀ before after, t = before ++ '#' :: after → LevelBegins before ∧ after = []

variable {t before after level a b : List Char} {pre post more : List (List Char)} {c : Char}

/-! Levels of a text and levels of its parts. -/

theorem levels_slash (t : List Char) : levels ('/' :: t) = [] :: levels t := rfl

theorem exists_levels_eq_cons (t : List Char) : ∃ level more, levels t = level :: more := by
  cases t with
  | nil => exact ⟨[], [], rfl⟩
  | cons c t =>
    unfold levels
    split
    next => exact ⟨_, _, rfl⟩
    next => split <;> exact ⟨_, _, rfl⟩

theorem exists_levels_eq_concat (t : List Char) : ∃ init last, levels t = init ++ [last] := by
  obtain ⟨level, more, h⟩ := exists_levels_eq_cons t
  rw [h]
  exact ⟨_, _, (List.dropLast_concat_getLast (List.cons_ne_nil level more)).symm⟩

theorem levels_ne_nil (t : List Char) : levels t ≠ [] := by
  obtain ⟨level, more, h⟩ := exists_levels_eq_cons t
  simp [h]

theorem levels_cons (hc : c ≠ '/') (h : levels t = level :: more) :
    levels (c :: t) = (c :: level) :: more := by
  simp only [levels, if_neg hc, h]

theorem exists_of_levels_eq_cons (h : levels t = (c :: a) :: post) :
    ∃ after, t = c :: after ∧ c ≠ '/' ∧ levels after = a :: post := by
  cases t with
  | nil => simp [levels] at h
  | cons d t =>
    by_cases hd : d = '/'
    · rw [hd, levels_slash] at h
      simp at h
    · obtain ⟨level, more, ht⟩ := exists_levels_eq_cons t
      rw [levels_cons hd ht] at h
      simp only [List.cons.injEq] at h
      obtain ⟨⟨rfl, rfl⟩, rfl⟩ := h
      exact ⟨t, rfl, hd, ht⟩

/-- Where two texts meet, the last level of one goes on with the first level of the other. -/
theorem levels_append (hb : levels before = pre ++ [b]) (ha : levels after = a :: post) :
    levels (before ++ after) = pre ++ (b ++ a) :: post := by
  induction before generalizing pre b with
  | nil =>
    obtain ⟨rfl, rfl⟩ : pre = [] ∧ b = [] := by
      cases pre <;> simp_all [levels]
    simpa using ha
  | cons d before ih =>
    by_cases hd : d = '/'
    · subst hd
      rw [levels_slash] at hb
      cases pre with
      | nil => simp [levels_ne_nil] at hb
      | cons p pre =>
        obtain ⟨rfl, hrest⟩ := List.cons.inj hb
        rw [List.cons_append, levels_slash, ih hrest, List.cons_append]
    · obtain ⟨level, more, hlevels⟩ := exists_levels_eq_cons before
      rw [levels_cons hd hlevels] at hb
      -- `d` joins the first level, which may be the last one as well
      cases pre with
      | nil =>
        obtain ⟨rfl, rfl⟩ := List.cons.inj hb
        have hsplit : levels before = [] ++ [level] := hlevels
        exact levels_cons hd (ih hsplit)
      | cons p pre =>
        obtain ⟨rfl, rfl⟩ := List.cons.inj hb
        have hsplit : levels before = (level :: pre) ++ [b] := hlevels
        exact levels_cons hd (ih hsplit)

/-- A text can be cut in the middle of a level. -/
theorem exists_of_levels_eq_append (h : levels t = pre ++ (b ++ a) :: post) :
    ∃ before after, t = before ++ after ∧ levels before = pre ++ [b] ∧ levels after = a :: post := by
  induction t generalizing pre b with
  | nil =>
    obtain ⟨rfl, rfl, rfl, rfl⟩ : pre = [] ∧ b = [] ∧ a = [] ∧ post = [] := by
      cases pre <;> simp_all [levels]
    exact ⟨[], [], rfl, rfl, rfl⟩
  | cons d t ih =>
    by_cases hd : d = '/'
    · subst hd
      rw [levels_slash] at h
      cases pre with
      | nil =>
        obtain ⟨hba, rfl⟩ := List.cons.inj h
        obtain ⟨rfl, rfl⟩ := List.append_eq_nil_iff.mp hba.symm
        exact ⟨[], '/' :: t, rfl, rfl, rfl⟩
      | cons p pre =>
        obtain ⟨rfl, hrest⟩ := List.cons.inj h
        obtain ⟨before, after, rfl, hb, ha⟩ := ih hrest
        exact ⟨'/' :: before, after, rfl, by rw [levels_slash, hb, List.cons_append], ha⟩
    · obtain ⟨level, more, ht⟩ := exists_levels_eq_cons t
      rw [levels_cons hd ht] at h
      cases pre with
      | nil =>
        rw [List.nil_append] at h
        obtain ⟨hlevel, hmore⟩ := List.cons.inj h
        -- the cut stands in front of `d` or behind it
        cases b with
        | nil =>
          obtain rfl : d :: level = a := hlevel
          exact ⟨[], d :: t, rfl, rfl, hmore ▸ levels_cons hd ht⟩
        | cons e b =>
          obtain ⟨rfl, rfl⟩ := List.cons.inj hlevel
          have hsplit : levels t = [] ++ (b ++ a) :: post := hmore ▸ ht
          obtain ⟨before, after, rfl, hb, ha⟩ := ih hsplit
          exact ⟨d :: before, after, rfl, levels_cons hd hb, ha⟩
      | cons p pre =>
        obtain ⟨rfl, rfl⟩ := List.cons.inj h
        have hsplit : levels t = (level :: pre) ++ (b ++ a) :: post := ht
        obtain ⟨before, after, rfl, hb, ha⟩ := ih hsplit
        exact ⟨d :: before, after, rfl, levels_cons hd hb, ha⟩

/-- A character stands in a level as it stands in the text. -/
theorem levels_eq_iff (hc : c ≠ '/') :
    levels t = pre ++ (b ++ c :: a) :: post ↔
      ∃ before after, t = before ++ c :: after ∧ levels before = pre ++ [b] ∧
        levels after = a :: post := by
  constructor
  · intro h
    obtain ⟨before, rest, rfl, hb, hrest⟩ := exists_of_levels_eq_append h
    obtain ⟨after, rfl, _, ha⟩ := exists_of_levels_eq_cons hrest
    exact ⟨before, after, rfl, hb, ha⟩
  · rintro ⟨before, after, rfl, hb, ha⟩
    exact levels_append hb (levels_cons hc ha)

/-! Empty levels at the ends. -/

theorem eq_nil_iff_levelBegins (h : levels before = pre ++ [b]) : b = [] ↔ LevelBegins before := by
  induction before using List.reverseRecOn with
  | nil =>
    obtain ⟨rfl, rfl⟩ : pre = [] ∧ b = [] := by
      cases pre <;> simp_all [levels]
    simp [LevelBegins]
  | append_singleton front d _ =>
    obtain ⟨init, last, hfront⟩ := exists_levels_eq_concat front
    by_cases hd : d = '/'
    · subst hd
      have hslash : levels ['/'] = [] :: [[]] := rfl
      rw [levels_append hfront hslash] at h
      obtain rfl : [] = b := by simpa using congrArg List.getLast? h
      simp [LevelBegins]
    · rw [levels_append hfront (levels_cons hd rfl)] at h
      obtain rfl : last ++ [d] = b := by simpa using congrArg List.getLast? h
      simp [LevelBegins, hd]

theorem eq_nil_iff_levelEnds (h : levels after = a :: post) : a = [] ↔ LevelEnds after := by
  cases after with
  | nil =>
    obtain ⟨rfl, _⟩ := List.cons.inj h
    simp [LevelEnds]
  | cons d rest =>
    by_cases hd : d = '/'
    · rw [hd, levels_slash] at h
      obtain ⟨rfl, _⟩ := List.cons.inj h
      simp [LevelEnds, hd]
    · obtain ⟨level, more, hrest⟩ := exists_levels_eq_cons rest
      rw [levels_cons hd hrest] at h
      obtain ⟨rfl, _⟩ := List.cons.inj h
      simp [LevelEnds, hd]

theorem levels_eq_singleton_nil_iff : levels t = [[]] ↔ t = [] := by
  cases t with
  | nil => simp [levels]
  | cons d t =>
    by_cases hd : d = '/'
    · simp [hd, levels_slash, levels_ne_nil]
    · obtain ⟨level, more, ht⟩ := exists_levels_eq_cons t
      simp [levels_cons hd ht]

/-! The checks. -/

theorem checkLevels_eq_ok_iff {ls : List (List Char)} :
    checkLevels ls = .ok () ↔ ∀ pre level post, ls = pre ++ level :: post →
      ('+' ∈ level → level = ['+']) ∧ ('#' ∈ level → level = ['#'] ∧ post = []) := by
  induction ls with
  | nil => simp [checkLevels]
  | cons first rest ih =>
    simp only [checkLevels, ite_error_eq_ok_iff, ih]
    constructor
    · rintro ⟨hhash, hplus, hrest⟩ pre level post h
      cases pre with
      | nil =>
        obtain ⟨rfl, rfl⟩ := List.cons.inj h
        exact ⟨by simpa using hplus, by simpa [not_or] using hhash⟩
      | cons p pre => exact hrest pre level post (List.cons.inj h).2
    · intro h
      obtain ⟨hplus, hhash⟩ := h [] first rest rfl
      refine ⟨by simpa [not_or] using hhash, by simpa using hplus, ?_⟩
      rintro pre level post rfl
      exact h (first :: pre) level post rfl

theorem checkName_eq_ok_iff {topic : String} :
    checkName topic = .ok () ↔ topic.toList ≠ [] ∧ '+' ∉ topic.toList ∧ '#' ∉ topic.toList := by
  simp only [checkName, ite_error_eq_ok_iff, not_or, and_true]

/-- The levels of a text are well formed when its wildcards are well placed. -/
theorem checkLevels_levels_iff (ht : t ≠ []) : checkLevels (levels t) = .ok () ↔ IsFilter t := by
  have hplus : '+' ≠ '/' := by decide
  have hhash : '#' ≠ '/' := by decide
  rw [checkLevels_eq_ok_iff]
  constructor
  · intro h
    -- a wildcard stands alone if the two halves of its level are empty
    refine ⟨ht, fun before after heq => ?_, fun before after heq => ?_⟩
    · obtain ⟨pre, b, hb⟩ := exists_levels_eq_concat before
      obtain ⟨a, post, ha⟩ := exists_levels_eq_cons after
      have hlevel := (h _ _ _ ((levels_eq_iff hplus).mpr ⟨before, after, heq, hb, ha⟩)).1 (by simp)
      obtain ⟨rfl, rfl⟩ : b = [] ∧ a = [] := by simpa [List.append_eq_cons_iff] using hlevel
      exact ⟨(eq_nil_iff_levelBegins hb).mp rfl, (eq_nil_iff_levelEnds ha).mp rfl⟩
    · obtain ⟨pre, b, hb⟩ := exists_levels_eq_concat before
      obtain ⟨a, post, ha⟩ := exists_levels_eq_cons after
      obtain ⟨hlevel, rfl⟩ :=
        (h _ _ _ ((levels_eq_iff hhash).mpr ⟨before, after, heq, hb, ha⟩)).2 (by simp)
      obtain ⟨rfl, rfl⟩ : b = [] ∧ a = [] := by simpa [List.append_eq_cons_iff] using hlevel
      exact ⟨(eq_nil_iff_levelBegins hb).mp rfl, levels_eq_singleton_nil_iff.mp ha⟩
  · intro h pre level post hlevels
    refine ⟨fun hmem => ?_, fun hmem => ?_⟩
    · obtain ⟨b, a, rfl⟩ := List.append_of_mem hmem
      obtain ⟨before, after, rfl, hb, ha⟩ := (levels_eq_iff hplus).mp hlevels
      obtain ⟨hbegins, hends⟩ := h.plus before after rfl
      rw [(eq_nil_iff_levelBegins hb).mpr hbegins, (eq_nil_iff_levelEnds ha).mpr hends, List.nil_append]
    · obtain ⟨b, a, rfl⟩ := List.append_of_mem hmem
      obtain ⟨before, after, rfl, hb, ha⟩ := (levels_eq_iff hhash).mp hlevels
      obtain ⟨hbegins, rfl⟩ := h.hash before after rfl
      obtain ⟨rfl, rfl⟩ := List.cons.inj ha
      exact ⟨by rw [(eq_nil_iff_levelBegins hb).mpr hbegins, List.nil_append], rfl⟩

theorem isFilter_of_no_wildcard (ht : t ≠ []) (hplus : '+' ∉ t) (hhash : '#' ∉ t) :
    IsFilter t :=
  ⟨ht, fun _ _ h => absurd (h ▸ List.mem_append_right _ List.mem_cons_self) hplus,
    fun _ _ h => absurd (h ▸ List.mem_append_right _ List.mem_cons_self) hhash⟩

theorem checkFilter_eq_ok_iff {filter : String} :
    checkFilter filter = .ok () ↔ IsFilter filter.toList := by
  unfold checkFilter
  rw [ite_error_eq_ok_iff]
  constructor
  · rintro ⟨hne, h⟩
    exact (checkLevels_levels_iff hne).mp h
  · intro h
    exact ⟨h.ne_nil, (checkLevels_levels_iff h.ne_nil).mpr h⟩

/-- A filter is taken exactly if the grammar has it. A name is a filter, and a text without wildcards
is a name if it is a filter: only the empty one is neither. -/
theorem filter_taken_iff_grammatical (t : String) :
    (checkFilter t = .ok () ↔ IsFilter t.toList) ∧
    (checkName t = .ok () → checkFilter t = .ok ()) ∧
    ('+' ∉ t.toList → '#' ∉ t.toList →
      (checkName t = .ok () ↔ checkFilter t = .ok ()) ∧
      (checkFilter t = .ok () ↔ t ≠ "")) := by
  have hname : checkName t = .ok () → checkFilter t = .ok () := fun h =>
    let ⟨hne, hplus, hhash⟩ := checkName_eq_ok_iff.mp h
    checkFilter_eq_ok_iff.mpr (isFilter_of_no_wildcard hne hplus hhash)
  refine ⟨checkFilter_eq_ok_iff, hname, fun hplus hhash => ⟨⟨hname, fun h => ?_⟩, ?_⟩⟩
  · exact checkName_eq_ok_iff.mpr ⟨(checkFilter_eq_ok_iff.mp h).ne_nil, hplus, hhash⟩
  · rw [checkFilter_eq_ok_iff, ne_eq, ← String.toList_eq_nil_iff]
    exact ⟨IsFilter.ne_nil, fun hne => isFilter_of_no_wildcard hne hplus hhash⟩

/-- Empty levels count, at the end as well. -/
example : checkFilter "+//#" = .ok () ∧ checkFilter "#/" = .error (.malformed .misplacedHash) ∧
    checkFilter "a/+b" = .error (.malformed .misplacedPlus) := by decide

end Mqtt.Topic
