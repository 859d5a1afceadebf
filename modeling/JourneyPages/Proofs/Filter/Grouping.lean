import JourneyPages.Proofs.Filter.Run
import JourneyPages.Proofs.Steps
import Mathlib.Data.List.Induction

/-!
Groups one by one. The classes of a list are those of the entries that are the first of their kind,
and a scan that finds the class of an entry by an index of keys makes the same ones. The stages in
a grouping get each class by itself, so that what becomes of it does not depend on the rest of the
list.
-/
namespace JourneyPages

/-! Classes by their first members -/

section classes
variable {α κ : Type} [DecidableEq κ] (key : α → Option κ)

/-- Whether an entry at some place is the first of its class. What has no key is alone in it. -/
def opensClass (xs : List α) (x : α × Nat) : Bool :=
  match key x.1 with
  | none => true
  | some k => (xs.take x.2).all fun y => key y ≠ some k

/-- The members of a list that are in one class with an entry, in the order of the list. -/
def classOf (xs : List α) (x : α) : List α :=
  match key x with
  | none => [x]
  | some k => xs.filter fun y => key y = some k

/-- A class with one more entry behind, if it is the class of the given key. -/
def joinClass (k : κ) (x : α) (c : List α) : List α :=
  if c.any fun y => key y = some k then c ++ [x] else c

variable {key} {x : α} {k : κ} {xs c : List α}

theorem joinClass_of_mem (h : ∃ y ∈ c, key y = some k) : joinClass key k x c = c ++ [x] :=
  if_pos (by simpa using h)

theorem joinClass_of_not_mem (h : ∀ y ∈ c, key y ≠ some k) : joinClass key k x c = c :=
  if_neg (by simpa using h)

theorem mem_flatten_classes {y : α} : y ∈ (classes key xs).flatten ↔ y ∈ xs :=
  (flatten_classes_perm key xs).mem_iff

theorem mem_of_mem_classes (hc : c ∈ classes key xs) {y : α} (hy : y ∈ c) : y ∈ xs :=
  mem_flatten_classes.mp (List.mem_flatten_of_mem hc hy)

/-- An entry behind the others without a key, or with a new one, is a new class. -/
theorem classes_append_new (h : ∀ y ∈ xs, key y = key x → key x = none) :
    classes key (xs ++ [x]) = classes key xs ++ [[x]] := by
  induction xs using classes_induction key with
  | nil =>
    cases hx : key x with
    | none => simp [classes_cons_of_none hx, classes]
    | some k => simp [classes_cons_of_some hx, classes]
  | none y xs hy ih =>
    rw [List.cons_append, classes_cons_of_none hy, classes_cons_of_none hy, List.cons_append,
      ih fun z hz => h z (List.mem_cons_of_mem y hz)]
  | some y xs l hy ih =>
    have hother : key x ≠ some l := by
      intro hx
      have hnone := h y List.mem_cons_self (hy.trans hx.symm)
      simp [hx] at hnone
    have hrest := ih fun z hz => h z (List.mem_cons_of_mem y (List.mem_of_mem_filter hz))
    rw [List.cons_append, classes_cons_of_some hy, classes_cons_of_some hy, List.cons_append,
      List.filter_append, List.filter_append, List.filter_cons_of_neg (by simpa using hother),
      List.filter_cons_of_pos (by simpa using hother), List.filter_nil, List.filter_nil, hrest,
      List.append_nil]

/-- An entry behind the others with a key that is known joins the class of that key. -/
theorem classes_append_known (hx : key x = some k) (h : ∃ y ∈ xs, key y = some k) :
    classes key (xs ++ [x]) = (classes key xs).map (joinClass key k x) := by
  induction xs using classes_induction key with
  | nil => simp at h
  | none y xs hy ih =>
    have hrest := ih (by simpa [hy] using h)
    rw [List.cons_append, classes_cons_of_none hy, classes_cons_of_none hy, List.map_cons, hrest,
      joinClass_of_not_mem (by simp [hy])]
  | some y xs l hy ih =>
    rw [List.cons_append, classes_cons_of_some hy, classes_cons_of_some hy, List.map_cons,
      List.filter_append, List.filter_append]
    by_cases hkl : k = l
    · subst hkl
      have hrest : (classes key (xs.filter fun z => key z ≠ some k)).map (joinClass key k x) =
          classes key (xs.filter fun z => key z ≠ some k) := by
        refine (List.map_congr_left fun c hc => ?_).trans (List.map_id _)
        refine joinClass_of_not_mem fun z hz => ?_
        simpa using List.of_mem_filter (mem_of_mem_classes hc hz)
      rw [joinClass_of_mem ⟨y, List.mem_cons_self, hy⟩, hrest]
      simp [hx]
    · have hknown : ∃ z ∈ xs.filter (fun z => key z ≠ some l), key z = some k := by
        obtain ⟨z, hz, hkey⟩ := h
        rcases List.mem_cons.mp hz with rfl | hz
        · exact absurd (Option.some.inj (hkey.symm.trans hy)) hkl
        · exact ⟨z, List.mem_filter.mpr ⟨hz, by simpa [hkey] using hkl⟩, hkey⟩
      have hfirst : ∀ z ∈ y :: xs.filter (fun z => key z = some l), key z ≠ some k := by
        simp only [List.forall_mem_cons, List.mem_filter, decide_eq_true_eq]
        exact ⟨by simpa [hy] using Ne.symm hkl, fun z hz => by simpa [hz.2] using Ne.symm hkl⟩
      rw [joinClass_of_not_mem hfirst, ← ih hknown]
      simp [hx, hkl]

theorem classOf_append_new {y : α} (h : key y = key x → key x = none) :
    classOf key (xs ++ [x]) y = classOf key xs y := by
  unfold classOf
  cases hy : key y with
  | none => rfl
  | some l =>
    have hx : key x ≠ some l := fun hx => by simp [h (hy.trans hx.symm)] at hx
    simp [hx]

theorem classOf_append_known {y : α} (hx : key x = some k) (hy : y ∈ xs) :
    classOf key (xs ++ [x]) y = joinClass key k x (classOf key xs y) := by
  unfold classOf
  cases hkey : key y with
  | none => exact (joinClass_of_not_mem (by simp [hkey])).symm
  | some l =>
    dsimp only
    rw [List.filter_append]
    by_cases hkl : k = l
    · subst hkl
      have hmem : y ∈ xs.filter fun z => key z = some k := List.mem_filter.mpr ⟨hy, by simp [hkey]⟩
      rw [joinClass_of_mem ⟨y, hmem, hkey⟩]
      simp [hx]
    · have hother : ∀ z ∈ xs.filter (fun z => key z = some l), key z ≠ some k := by
        intro z hz
        have hz := List.of_mem_filter hz
        simp_all [Ne.symm hkl]
      rw [joinClass_of_not_mem hother]
      simp [hx, hkl]

/-- The classes of a list, in the order of their first members, are those of its entries that open
one. -/
theorem classes_eq_map (key : α → Option κ) (xs : List α) : classes key xs =
    (xs.zipIdx.filter (opensClass key xs)).map fun x => classOf key xs x.1 := by
  induction xs using List.reverseRecOn with
  | nil => simp [classes]
  | append_singleton xs x ih =>
    have hopens : xs.zipIdx.filter (opensClass key (xs ++ [x])) =
        xs.zipIdx.filter (opensClass key xs) := by
      refine List.filter_congr fun y hy => ?_
      have hlt := List.snd_lt_of_mem_zipIdx hy
      rw [opensClass, opensClass, List.take_append_of_le_length (by simpa using hlt.le)]
    have hmem : ∀ y ∈ xs.zipIdx.filter (opensClass key xs), y.1 ∈ xs :=
      fun y hy => List.fst_mem_of_mem_zipIdx (List.mem_of_mem_filter hy)
    rw [List.zipIdx_append, List.filter_append, hopens, List.map_append, Nat.zero_add,
      List.zipIdx_singleton]
    by_cases hnew : ∀ y ∈ xs, key y = key x → key x = none
    · have hfirst : opensClass key (xs ++ [x]) (x, xs.length) = true := by
        rw [opensClass, List.take_left]
        cases hx : key x with
        | none => rfl
        | some k => simpa [hx] using hnew
      have hself : classOf key (xs ++ [x]) x = [x] := by
        unfold classOf
        cases hx : key x with
        | none => rfl
        | some k => simpa [hx, List.filter_eq_nil_iff] using hnew
      rw [classes_append_new hnew, ih, List.filter_cons_of_pos hfirst, List.filter_nil,
        List.map_singleton, hself]
      congr 1
      exact List.map_congr_left fun y hy => (classOf_append_new (hnew y.1 (hmem y hy))).symm
    · obtain ⟨y, hy, hkey, hsome⟩ : ∃ y ∈ xs, key y = key x ∧ key x ≠ none := by
        simpa using hnew
      obtain ⟨k, hx⟩ := Option.ne_none_iff_exists'.mp hsome
      rw [hx] at hkey
      have hlast : ¬ opensClass key (xs ++ [x]) (x, xs.length) = true := by
        rw [opensClass, List.take_left]
        simpa [hx] using ⟨y, hy, hkey⟩
      rw [classes_append_known hx ⟨y, hy, hkey⟩, ih, List.filter_cons_of_neg hlast,
        List.filter_nil, List.map_nil, List.append_nil, List.map_map]
      exact List.map_congr_left fun z hz => (classOf_append_known hx (hmem z hz)).symm

end classes

/-- The groups of a list: in the order of their first members, and each in the order of the
list. -/
def Grouping.groups (g : Grouping) (its : List Itinerary) : List (List Itinerary) :=
  (its.zipIdx.filter (opensClass g.key? its)).map fun x => classOf g.key? its x.1

/-! Classes by an index -/

/-- Classes, and the place of the class of each key among them. -/
structure ClassTable (α κ : Type) where
  groups : List (List α)
  index : List (κ × Nat)

namespace ClassTable

section places
variable {α κ : Type} (key : α → Option κ)

/-- The class at a place has an entry with a key. -/
def HasAt (groups : List (List α)) (i : Nat) (k : κ) : Prop :=
  ∃ c, groups[i]? = some c ∧ ∃ y ∈ c, key y = some k

variable {key} {groups : List (List α)} {x : α} {k : κ} {i : Nat}

theorem exists_hasAt_iff : (∃ i, HasAt key groups i k) ↔ ∃ y ∈ groups.flatten, key y = some k := by
  constructor
  · rintro ⟨i, c, hc, y, hy, hkey⟩
    exact ⟨y, List.mem_flatten.mpr ⟨c, List.mem_of_getElem? hc, hy⟩, hkey⟩
  · rintro ⟨y, hy, hkey⟩
    obtain ⟨c, hc, hy⟩ := List.mem_flatten.mp hy
    obtain ⟨i, hi⟩ := List.mem_iff_getElem?.mp hc
    exact ⟨i, c, hi, y, hy, hkey⟩

theorem hasAt_append : HasAt key (groups ++ [[x]]) i k ↔
    HasAt key groups i k ∨ i = groups.length ∧ key x = some k := by
  unfold HasAt
  rcases Nat.lt_trichotomy i groups.length with hlt | rfl | hgt
  · rw [List.getElem?_append_left hlt]
    simp [hlt.ne]
  · simp
  · rw [List.getElem?_eq_none (by simpa using Nat.succ_le_of_lt hgt),
      List.getElem?_eq_none hgt.le]
    simp [hgt.ne']

end places

variable {α κ : Type} [DecidableEq κ] (key : α → Option κ)

/-- Puts an entry into the class that the index has for its key, or else into a new one. -/
def insert (t : ClassTable α κ) (x : α) : ClassTable α κ :=
  match key x with
  | none => { t with groups := t.groups ++ [[x]] }
  | some k =>
    match t.index.lookup k with
    | some i => { t with groups := t.groups.modify i (· ++ [x]) }
    | none => ⟨t.groups ++ [[x]], (k, t.groups.length) :: t.index⟩

/-- One scan over a list. -/
def collect (xs : List α) : ClassTable α κ := xs.foldl (insert key) ⟨[], []⟩

/-- The index has each key at the place of the class that has it, and nowhere else. -/
def Indexed (t : ClassTable α κ) : Prop :=
  ∀ k i, t.index.lookup k = some i ↔ HasAt key t.groups i k

variable {key} {groups : List (List α)} {t : ClassTable α κ} {x : α} {k l : κ} {i : Nat}

/-- Joining a class that has the key brings no key to a new place. -/
theorem hasAt_map_joinClass (hx : key x = some k) :
    HasAt key (groups.map (joinClass key k x)) i l ↔ HasAt key groups i l := by
  unfold HasAt
  rw [List.getElem?_map]
  cases groups[i]? with
  | none => simp
  | some c =>
    by_cases hmem : ∃ y ∈ c, key y = some k
    · simp only [Option.map_some, Option.some.injEq, exists_eq_left', joinClass_of_mem hmem,
        List.mem_append, List.mem_singleton]
      constructor
      · rintro ⟨y, hy | rfl, hkey⟩
        · exact ⟨y, hy, hkey⟩
        · rwa [← hkey, hx]
      · rintro ⟨y, hy, hkey⟩
        exact ⟨y, .inl hy, hkey⟩
    · rw [Option.map_some, joinClass_of_not_mem fun y hy hkey => hmem ⟨y, hy, hkey⟩]

/-- What stands at the place of a key is the class that an entry with that key joins. -/
theorem Indexed.modify_eq (h : Indexed key t) (hi : t.index.lookup k = some i) :
    t.groups.modify i (· ++ [x]) = t.groups.map (joinClass key k x) := by
  apply List.ext_getElem?
  intro j
  rw [List.getElem?_modify, List.getElem?_map]
  cases hj : t.groups[j]? with
  | none => rfl
  | some c =>
    by_cases hij : i = j
    · subst hij
      obtain ⟨d, hd, hmem⟩ := (h k i).mp hi
      obtain rfl := Option.some.inj (hj.symm.trans hd)
      simp [joinClass_of_mem hmem]
    · have hother : ∀ y ∈ c, key y ≠ some k := by
        intro y hy hkey
        have hlookup := (h k j).mpr ⟨c, hj, y, hy, hkey⟩
        exact hij (Option.some.inj (hi.symm.trans hlookup))
      simp [hij, joinClass_of_not_mem hother]

theorem Indexed.insert (h : Indexed key t) (x : α) : Indexed key (t.insert key x) := by
  intro l i
  unfold ClassTable.insert
  cases hx : key x with
  | none =>
    dsimp only
    rw [h l i, hasAt_append, hx]
    simp
  | some k =>
    dsimp only
    cases hk : t.index.lookup k with
    | none =>
      dsimp only
      rw [List.lookup_cons, hasAt_append, hx, ← h l i]
      by_cases hlk : l = k
      · subst hlk
        simp [hk, eq_comm]
      · rw [beq_false_of_ne hlk]
        simp [Ne.symm hlk]
    | some j =>
      dsimp only
      rw [h.modify_eq hk, hasAt_map_joinClass hx, h l i]

/-- One more entry goes where it belongs. -/
theorem Indexed.groups_insert {xs : List α} (h : Indexed key t) (ht : t.groups = classes key xs)
    (x : α) : (t.insert key x).groups = classes key (xs ++ [x]) := by
  have hknown : ∀ k, (∃ i, t.index.lookup k = some i) ↔ ∃ y ∈ xs, key y = some k := by
    intro k
    simp only [h k, exists_hasAt_iff, ht, mem_flatten_classes]
  unfold ClassTable.insert
  cases hx : key x with
  | none =>
    rw [classes_append_new fun _ _ _ => hx, ← ht]
  | some k =>
    dsimp only
    cases hk : t.index.lookup k with
    | none =>
      have hnew : ∀ y ∈ xs, key y = key x → key x = none := by
        intro y hy hkey
        obtain ⟨i, hi⟩ := (hknown k).mpr ⟨y, hy, hkey.trans hx⟩
        simp [hk] at hi
      rw [classes_append_new hnew, ← ht]
    | some i =>
      rw [classes_append_known hx ((hknown k).mp ⟨i, hk⟩), ← ht]
      exact h.modify_eq hk

/-- A scan with an index makes the classes of the list. -/
theorem groups_collect (key : α → Option κ) (xs : List α) :
    (collect key xs).groups = classes key xs := by
  suffices h : Indexed key (collect key xs) ∧ (collect key xs).groups = classes key xs from h.2
  induction xs using List.reverseRecOn with
  | nil => exact ⟨by simp [Indexed, HasAt, collect], by simp [collect, classes]⟩
  | append_singleton xs x ih =>
    have hstep : collect key (xs ++ [x]) = (collect key xs).insert key x := by
      simp [collect]
    rw [hstep]
    exact ⟨ih.1.insert x, ih.1.groups_insert ih.2 x⟩

end ClassTable

/-! Stages on a class by itself -/

namespace Stage

/-- Induction over a stage and the stages in it. -/
theorem nested_induction {motive : Stage → Prop} (reject : ∀ flagger, motive (.reject flagger))
    (sort : ∀ ranking, motive (.sort ranking))
    (cap : ∀ max croppedEnd order, motive (.cap max croppedEnd order))
    (group : ∀ name grouping nested, (∀ s ∈ nested, motive s) →
      motive (.group name grouping nested))
    (reinstate : ∀ tags, motive (.reinstate tags))
    (decorate : ∀ decorator, motive (.decorate decorator)) (s : Stage) : motive s := by
  refine @Stage.rec motive (fun nested => ∀ s ∈ nested, motive s) reject sort cap group reinstate
    decorate (by simp) ?_ s
  intro s nested hs hnested
  exact List.forall_mem_cons.mpr ⟨hs, hnested⟩

/-- What stages make of a list, whatever was cut before. -/
def alone (stages : List Stage) (its : List Itinerary) : Except FilterError (List Itinerary) :=
  (runAll stages ⟨its, none⟩).map Progress.itineraries

/-- A step makes the same of a list whatever was cut before. -/
def IgnoresReport (run : Progress → Except FilterError Progress) : Prop :=
  ∀ p, (run p).map Progress.itineraries = (run ⟨p.itineraries, none⟩).map Progress.itineraries

/-- A step cuts nothing itself. -/
def LeavesReport (run : Progress → Except FilterError Progress) : Prop :=
  ∀ p q, run p = .ok q → q.cap = p.cap

theorem ignoresReport_runAll {stages : List Stage} (h : ∀ s ∈ stages, IgnoresReport s.run) :
    IgnoresReport (runAll stages) := by
  induction stages with
  | nil => exact fun p => rfl
  | cons s stages ih =>
    obtain ⟨hs, hstages⟩ := List.forall_mem_cons.mp h
    intro p
    refine map_bind_congr (hs p) fun x y hxy => ?_
    rw [ih hstages x, ih hstages y, hxy]

theorem leavesReport_runAll {stages : List Stage} (h : ∀ s ∈ stages, LeavesReport s.run) :
    LeavesReport (runAll stages) := by
  induction stages with
  | nil =>
    intro p q hq
    cases hq
    rfl
  | cons s stages ih =>
    obtain ⟨hs, hstages⟩ := List.forall_mem_cons.mp h
    intro p q hq
    obtain ⟨mid, hmid, hq⟩ := ok_of_bind hq
    exact (ih hstages mid q hq).trans (hs p mid hmid)

section groups
variable {run : Progress → Except FilterError Progress}

/-- The classes of a grouping come out one behind the other, as stages make them out of each. -/
theorem map_foldlM_groups {out : List Itinerary → Except FilterError (List Itinerary)}
    (h : ∀ p, (run p).map Progress.itineraries = out p.itineraries)
    (groups : List (List Itinerary)) (front : List Itinerary) (cap : Option CapReport) :
    (groups.foldlM (fun (done : Progress) group => do
        let reduced ← run ⟨group, done.cap⟩
        pure (⟨done.itineraries ++ reduced.itineraries, reduced.cap⟩ : Progress))
      ⟨front, cap⟩).map Progress.itineraries =
      (groups.mapM out).map fun parts => front ++ parts.flatten := by
  induction groups generalizing front cap with
  | nil => simp [Except.map, pure, Except.pure]
  | cons group groups ih =>
    rw [List.foldlM_cons, List.mapM_cons, ← h ⟨group, cap⟩]
    cases run ⟨group, cap⟩ with
    | error e => rfl
    | ok reduced =>
      refine (ih (front ++ reduced.itineraries) reduced.cap).trans ?_
      simp only [Except.map, bind, Except.bind, pure, Except.pure]
      cases groups.mapM out with
      | error e => rfl
      | ok parts => simp

theorem cap_of_foldlM_groups (h : LeavesReport run) {groups : List (List Itinerary)}
    {start q : Progress} (hq : groups.foldlM (fun (done : Progress) group => do
        let reduced ← run ⟨group, done.cap⟩
        pure (⟨done.itineraries ++ reduced.itineraries, reduced.cap⟩ : Progress))
      start = .ok q) : q.cap = start.cap := by
  induction groups generalizing start with
  | nil =>
    cases hq
    rfl
  | cons group groups ih =>
    rw [List.foldlM_cons] at hq
    obtain ⟨mid, hmid, hq⟩ := ok_of_bind hq
    obtain ⟨reduced, hrun, hmid⟩ := ok_of_bind hmid
    cases hmid
    exact (ih hq).trans (h ⟨group, start.cap⟩ reduced hrun)

end groups

/-- What was cut before makes no difference to any stage. -/
theorem ignoresReport (s : Stage) : IgnoresReport s.run := by
  induction s using nested_induction with
  | reject | sort | cap | reinstate => exact fun p => rfl
  | decorate decorator =>
    intro p
    simp only [run, bind, Except.bind, pure, Except.pure]
    cases decorator.run p.itineraries <;> rfl
  | group name grouping nested ih =>
    intro p
    have hnested : ∀ p, (runAll nested p).map Progress.itineraries = alone nested p.itineraries :=
      ignoresReport_runAll ih
    refine map_bind_congr (u := Progress.itineraries) ?_ fun x y hxy => by
      simp [Except.map, pure, Except.pure, hxy]
    exact (map_foldlM_groups hnested _ _ _).trans (map_foldlM_groups hnested _ _ _).symm

/-- Where its stages cut nothing, a grouping makes of each class what they make of it alone. -/
theorem run_group {nested : List Stage} (h : LeavesReport (runAll nested)) (name : String)
    (grouping : Grouping) (p : Progress) : (group name grouping nested).run p =
      ((classes grouping.key? (p.itineraries.filter Itinerary.isKept)).mapM (alone nested)).map
        fun parts => ⟨parts.flatten ++ p.itineraries.filter (!·.isKept), p.cap⟩ := by
  have hnested : ∀ p, (runAll nested p).map Progress.itineraries = alone nested p.itineraries :=
    ignoresReport_runAll fun s _ => ignoresReport s
  let groups := classes grouping.key? (p.itineraries.filter Itinerary.isKept)
  have hfold := map_foldlM_groups hnested groups [] p.cap
  have hcap := fun q => @cap_of_foldlM_groups _ h groups ⟨[], p.cap⟩ q
  simp only [run, bind, Except.bind, pure, Except.pure] at hfold hcap ⊢
  change _ = (groups.mapM (alone nested)).map _
  revert hfold hcap
  generalize List.foldlM (m := Except FilterError) _ _ _ = done
  generalize groups.mapM (alone nested) = parts
  intro hfold hcap
  cases done with
  | error e =>
    cases parts with
    | error e' =>
      cases hfold
      rfl
    | ok parts => cases hfold
  | ok q =>
    cases parts with
    | error e => cases hfold
    | ok parts =>
      have hits : q.itineraries = parts.flatten := Except.ok.inj hfold
      simp only [Except.map, hits, hcap q rfl]

/-! Survivors of a class -/

/-- Of a class the first ones in the order of a ranking are kept, as many as a count says, and no
member is lost. -/
structure KeepsFirst (ranking : Ranking) (count : Nat) (c part : List Itinerary) : Prop where
  members : (part.map Itinerary.untagged).Perm c
  kept : part.filter Itinerary.isKept = (sortByRanks ranking.ranks c).take count
  length : (part.filter Itinerary.isKept).length = min count c.length

theorem quiet_sort_count (ranking : Ranking) (tag : String) (count : Nat) :
    ∀ s ∈ [sort ranking, .reject (.beyondCount tag count)], s.Quiet := by
  simp [Quiet.sort, Quiet.reject]

theorem keepsFirst (ranking : Ranking) (tag : String) (count : Nat) {c : List Itinerary}
    (h : ∀ it ∈ c, it.isKept) : KeepsFirst ranking count c
      (outcomeAll [.sort ranking, .reject (.beyondCount tag count)] c) := by
  have hquiet := quiet_sort_count ranking tag count
  have hkept : (outcomeAll [.sort ranking, .reject (.beyondCount tag count)] c).filter
      Itinerary.isKept = (sortByRanks ranking.ranks c).take count := by
    simp only [outcomeAll, outcome, Flagger.filter_isKept_run_beyondCount, filter_sortByRanks,
      List.filter_eq_self.mpr h]
  refine ⟨?_, hkept, ?_⟩
  · exact (map_untagged_outcomeAll_perm hquiet c).trans (.of_eq (map_untagged_of_isKept h))
  · rw [hkept, List.length_take, (sortByRanks_perm ranking.ranks c).length_eq]

/-- Groups are reduced one by one. -/
theorem groups_alone {nested : List Stage} (h : LeavesReport (runAll nested)) (name : String)
    (grouping : Grouping) (p : Progress) :
    let kept := p.itineraries.filter Itinerary.isKept
    let rejected := p.itineraries.filter (!·.isKept)
    let groups := grouping.groups kept
    (ClassTable.collect grouping.key? kept).groups = groups ∧
    (group name grouping nested).run p = (groups.mapM (alone nested)).map
      (fun parts => ⟨parts.flatten ++ rejected, p.cap⟩) ∧
    (∀ q, (group name grouping nested).run p = .ok q → ∀ c ∈ groups,
      ∃ part, alone nested c = .ok part ∧ part <:+: q.itineraries) ∧
    ∀ ranking tag count, ∃ parts, List.Forall₂ (KeepsFirst ranking count) groups parts ∧
      (group name grouping [.sort ranking, .reject (.beyondCount tag count)]).run p =
        .ok ⟨parts.flatten ++ rejected, p.cap⟩ := by
  intro kept rejected groups
  have hclasses : classes grouping.key? kept = groups := classes_eq_map grouping.key? kept
  have hrun : (group name grouping nested).run p = (groups.mapM (alone nested)).map
      (fun parts => ⟨parts.flatten ++ rejected, p.cap⟩) := by
    rw [← hclasses]
    exact run_group h name grouping p
  refine ⟨(ClassTable.groups_collect _ _).trans hclasses, hrun, ?_, ?_⟩
  · intro q hq c hc
    rw [hrun] at hq
    cases hparts : groups.mapM (alone nested) with
    | error e =>
      rw [hparts] at hq
      cases hq
    | ok parts =>
      rw [hparts] at hq
      cases hq
      obtain ⟨part, hpart, halone⟩ := exists_of_mapM hparts hc
      refine ⟨part, halone, (List.infix_of_mem_flatten hpart).trans ?_⟩
      exact (List.prefix_append _ _).isInfix
  · intro ranking tag count
    have hquiet := quiet_sort_count ranking tag count
    refine ⟨groups.map (outcomeAll [.sort ranking, .reject (.beyondCount tag count)]), ?_, ?_⟩
    · rw [List.forall₂_map_right_iff, List.forall₂_same]
      intro c hc
      rw [← hclasses] at hc
      refine keepsFirst ranking tag count fun it hit => ?_
      exact List.of_mem_filter (mem_of_mem_classes hc hit)
    · rw [(Quiet.group hquiet).run_eq, ← hclasses, outcome, List.flatMap]

/-- Fares for each class, and then the cheapest of it. -/
def cheapestFares : List Stage :=
  [.decorate ⟨"fares", .ok⟩, .sort .cost, .reject (.beyondCount "similar" 1)]

theorem groups_alone_rides : LeavesReport (runAll cheapestFares) ∧
    (group "similar" .stations cheapestFares).run
        ⟨[slowRide, stroll.reject "seen", stroll, fastRide], none⟩ =
      ([[slowRide, fastRide], [stroll]].mapM (alone cheapestFares)).map
        fun parts => ⟨parts.flatten ++ [stroll.reject "seen"], none⟩ := by
  have hleaves : LeavesReport (runAll cheapestFares) := by
    refine leavesReport_runAll ?_
    simp only [cheapestFares, List.forall_mem_cons]
    refine ⟨?_, ?_, ?_, by simp⟩
    · intro p q hq
      obtain ⟨its, -, hq⟩ := ok_of_bind hq
      cases hq
      rfl
    · rintro p q ⟨⟩
      rfl
    · rintro p q ⟨⟩
      rfl
  exact ⟨hleaves, (groups_alone hleaves "similar" .stations
    ⟨[slowRide, stroll.reject "seen", stroll, fastRide], none⟩).2.1⟩

end Stage
end JourneyPages
