import JourneyPages.Trip.Itinerary
import Mathlib.Data.List.Perm.Basic
import Mathlib.Data.List.Perm.Subperm

/-!
The marks that filters leave on itineraries. Two lists are compared one to one and in any order: an
itinerary of one list stands for the same itinerary of the other, with its marks changed in a way
that a relation allows.
-/
namespace JourneyPages
namespace Itinerary

/-- The itinerary without what filters left on it. -/
def untagged (it : Itinerary) : Itinerary := { it with tags := [] }

section untagged
variable (it : Itinerary) (tag : String) (tags : List String)

@[simp] theorem hasTransit_untagged : it.untagged.hasTransit = it.hasTransit := rfl

@[simp] theorem untagged_reject : (it.reject tag).untagged = it.untagged := by
  unfold reject
  split <;> rfl

@[simp] theorem untagged_reinstate : (it.reinstate tags).untagged = it.untagged := rfl

@[simp] theorem isKept_reject : (it.reject tag).isKept = false := by
  unfold reject
  split
  case isTrue h => simpa [isKept] using List.ne_nil_of_mem h
  case isFalse => simp [isKept]

variable {it}

theorem isKept_iff : it.isKept ↔ it.tags = [] := List.isEmpty_iff

theorem untagged_of_isKept (h : it.isKept) : it.untagged = it := by
  have ht : it.tags = [] := isKept_iff.mp h
  cases it
  simp_all [untagged]

theorem tags_reject_of_isKept (h : it.isKept) : (it.reject tag).tags = [tag] := by
  simp [reject, isKept_iff.mp h]

end untagged

/-- A rejected itinerary with all its tags, or a kept one with one tag at most. -/
structure Marked (before after : Itinerary) : Prop where
  untagged : after.untagged = before.untagged
  tags : after.tags = before.tags ∨ before.isKept ∧ ∃ tag, after.tags = [tag]

/-- The same itinerary, and if it had one tag at most, it has no more than one still. -/
structure Retagged (before after : Itinerary) : Prop where
  untagged : after.untagged = before.untagged
  tags : before.tags.length ≤ 1 → after.tags.length ≤ 1

variable {a b c : Itinerary}

theorem Marked.refl (a : Itinerary) : Marked a a := ⟨rfl, .inl rfl⟩

theorem Marked.reject (h : a.isKept) (tag : String) : Marked a (a.reject tag) :=
  ⟨untagged_reject a tag, .inr ⟨h, tag, tags_reject_of_isKept tag h⟩⟩

theorem Marked.trans (hab : Marked a b) (hbc : Marked b c) : Marked a c := by
  refine ⟨hbc.untagged.trans hab.untagged, ?_⟩
  rcases hbc.tags with hc | ⟨hb, hc⟩
  · rw [hc]
    exact hab.tags
  · rcases hab.tags with htags | ⟨ha, -⟩
    · exact .inr ⟨isKept_iff.mpr (htags.symm.trans (isKept_iff.mp hb)), hc⟩
    · exact .inr ⟨ha, hc⟩

theorem Marked.tags_of_not_isKept (h : Marked a b) (ha : a.isKept = false) : b.tags = a.tags := by
  rcases h.tags with htags | ⟨hkept, -⟩
  · exact htags
  · rw [hkept] at ha
    cases ha

/-- What is kept has no mark, and so it was the same before. -/
theorem Marked.eq_of_isKept {a b : Itinerary} (h : Marked a b) (hb : b.isKept) :
    b = a := by
  have htags : b.tags = [] := isKept_iff.mp hb
  rcases h.tags with hsame | ⟨-, tag, htag⟩
  · have ha : a.isKept := isKept_iff.mpr (hsame.symm.trans htags)
    rw [← untagged_of_isKept ha, ← h.untagged, untagged_of_isKept hb]
  · rw [htags] at htag
    cases htag

theorem Marked.retagged (h : Marked a b) : Retagged a b := by
  refine ⟨h.untagged, fun ha => ?_⟩
  rcases h.tags with htags | ⟨-, tag, htags⟩
  · rwa [htags]
  · simp [htags]

theorem Retagged.refl (a : Itinerary) : Retagged a a := ⟨rfl, id⟩

theorem Retagged.trans (hab : Retagged a b) (hbc : Retagged b c) : Retagged a c :=
  ⟨hbc.untagged.trans hab.untagged, fun ha => hbc.tags (hab.tags ha)⟩

theorem Retagged.reinstate (a : Itinerary) (tags : List String) :
    Retagged a (a.reinstate tags) :=
  ⟨rfl, fun ha => Nat.le_trans (List.length_filter_le _ _) ha⟩

/-- What was kept has one tag at most, however often it was rejected and reinstated. -/
theorem Retagged.marked (h : Retagged a b) (ha : a.isKept) : Marked a b := by
  have hle := h.tags (by simp [isKept_iff.mp ha])
  refine ⟨h.untagged, ?_⟩
  match hb : b.tags with
  | [] => exact .inl (isKept_iff.mp ha).symm
  | [tag] => exact .inr ⟨ha, tag, rfl⟩
  | _ :: _ :: _ =>
    simp only [hb, List.length_cons] at hle
    omega

end Itinerary

theorem map_untagged_of_isKept {its : List Itinerary} (h : ∀ it ∈ its, it.isKept) :
    its.map Itinerary.untagged = its :=
  (List.map_congr_left fun it hit => Itinerary.untagged_of_isKept (h it hit)).trans
    (List.map_id its)

/-- One to one and in any order, the entries of one list are related to those of another. -/
def Corresponds {α : Type} (R : α → α → Prop) (xs ys : List α) : Prop :=
  ∃ mid, List.Forall₂ R xs mid ∧ mid.Perm ys

namespace Corresponds
variable {α : Type} {R S : α → α → Prop} {xs ys zs xs' ys' : List α}

theorem of_forall₂ (h : List.Forall₂ R xs ys) : Corresponds R xs ys := ⟨ys, h, .refl ys⟩

theorem of_perm (refl : ∀ x, R x x) (h : xs.Perm ys) : Corresponds R xs ys :=
  ⟨xs, List.forall₂_same.mpr fun x _ => refl x, h⟩

theorem perm_left (hp : xs.Perm ys) (h : Corresponds R ys zs) : Corresponds R xs zs := by
  obtain ⟨mid, hmid, hzs⟩ := h
  obtain ⟨mid', hmid', hperm⟩ := List.perm_comp_forall₂ hp hmid
  exact ⟨mid', hmid', hperm.trans hzs⟩

theorem trans (htrans : ∀ {a b c}, R a b → R b c → R a c) (hxy : Corresponds R xs ys)
    (hyz : Corresponds R ys zs) : Corresponds R xs zs := by
  obtain ⟨mid, hmid, hperm⟩ := hxy
  obtain ⟨last, hlast, hzs⟩ := perm_left hperm hyz
  refine ⟨last, ?_, hzs⟩
  clear hperm hzs
  induction hmid generalizing last with
  | nil =>
    cases hlast
    exact .nil
  | cons hab _ ih =>
    obtain ⟨z, rest, hbz, hrest, rfl⟩ := List.forall₂_cons_left_iff.mp hlast
    exact .cons (htrans hab hbz) (ih rest hrest)

theorem append (h : Corresponds R xs ys) (h' : Corresponds R xs' ys') :
    Corresponds R (xs ++ xs') (ys ++ ys') := by
  obtain ⟨mid, hmid, hperm⟩ := h
  obtain ⟨mid', hmid', hperm'⟩ := h'
  exact ⟨mid ++ mid', List.rel_append hmid hmid', hperm.append hperm'⟩

theorem flatMap {f : List α → List α} (h : ∀ xs, Corresponds R xs (f xs)) (groups : List (List α)) :
    Corresponds R groups.flatten (groups.flatMap f) := by
  induction groups with
  | nil => exact of_forall₂ .nil
  | cons group groups ih => exact (h group).append ih

theorem imp_of_mem (himp : ∀ x ∈ xs, ∀ y, R x y → S x y) (h : Corresponds R xs ys) :
    Corresponds S xs ys := by
  obtain ⟨mid, hmid, hperm⟩ := h
  have hboth := (List.forall₂_and_left xs mid).mpr ⟨himp, hmid⟩
  exact ⟨mid, hboth.imp fun x y hxy => hxy.1 y hxy.2, hperm⟩

theorem imp (himp : ∀ {x y}, R x y → S x y) (h : Corresponds R xs ys) : Corresponds S xs ys :=
  h.imp_of_mem fun _ _ _ => himp

theorem map_right {f : α → α} (hf : ∀ {x y}, R x y → S x (f y)) (h : Corresponds R xs ys) :
    Corresponds S xs (ys.map f) := by
  obtain ⟨mid, hmid, hperm⟩ := h
  refine ⟨mid.map f, ?_, hperm.map f⟩
  rw [List.forall₂_map_right_iff]
  exact hmid.imp fun _ _ => hf

/-- What related entries have in common, the two lists have in common. -/
theorem map_perm {β : Type} {f : α → β} (hf : ∀ {x y}, R x y → f y = f x)
    (h : Corresponds R xs ys) : (ys.map f).Perm (xs.map f) := by
  obtain ⟨mid, hmid, hperm⟩ := h
  have hsame : mid.map f = xs.map f := by
    clear hperm
    induction hmid with
    | nil => rfl
    | cons hxy _ ih => rw [List.map_cons, List.map_cons, hf hxy, ih]
  rw [← hsame]
  exact (hperm.map f).symm

end Corresponds

/-- Marking can only take from what is kept. -/
theorem Corresponds.filter_isKept_subperm {xs ys : List Itinerary}
    (h : Corresponds Itinerary.Marked xs ys) :
    (ys.filter Itinerary.isKept).Subperm (xs.filter Itinerary.isKept) := by
  obtain ⟨mid, hmid, hperm⟩ := h
  refine (hperm.filter _).symm.subperm.trans (List.Sublist.subperm ?_)
  clear hperm
  induction hmid with
  | nil => exact .slnil
  | @cons a b xs mid hab _ ih =>
    by_cases hb : b.isKept
    · obtain rfl := hab.eq_of_isKept hb
      rw [List.filter_cons_of_pos hb, List.filter_cons_of_pos hb]
      exact ih.cons_cons b
    · rw [List.filter_cons_of_neg hb]
      exact ih.trans ((List.sublist_cons_self a xs).filter _)

end JourneyPages
