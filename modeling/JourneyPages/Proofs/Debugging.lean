import JourneyPages.Proofs.Walk
import JourneyPages.Proofs.Paging.Range

/-!
What debugging changes about paging. All profiles gather the same list and report the same cut, and
paging counts kept itineraries only. But a profile that limits the list to the number requested
takes kept itineraries off it together with rejected ones, and paging does not count those: it
looks for more in a longer window.
-/
namespace JourneyPages

namespace Itinerary

@[simp] theorem isKept_explain (it : Itinerary) : it.explain.isKept = it.isKept := rfl

@[simp] theorem hasTransit_explain (it : Itinerary) : it.explain.hasTransit = it.hasTransit := rfl

end Itinerary

/-! The count of transit -/

namespace PageRequest
variable (its : List Itinerary)

theorem transitFound_filter {q : Itinerary → Bool} (h : ∀ it, it.isKept → q it) :
    transitFound (its.filter q) = transitFound its := by
  rw [transitFound, transitFound, List.countP_filter]
  apply List.countP_congr
  intro it _
  simp only [Bool.and_eq_true]
  constructor
  · exact And.left
  · intro hkept
    exact ⟨hkept, h it hkept.1⟩

theorem transitFound_explain : transitFound (its.map Itinerary.explain) = transitFound its := by
  simp [transitFound, List.countP_map, Function.comp_def]

end PageRequest

open PageRequest (transitFound transitFound_filter transitFound_explain)

namespace Plan
variable (p : Plan) (d : DebugProfile) (its : List Itinerary)

/-- The plan under another debug profile. -/
def debugging : Plan := p.prefer fun f => { f with debug := d }

theorem stages_debugging : (p.debugging d).chain.stages = p.chain.stages := rfl

theorem front_debugging : (p.debugging d).front = p.front := rfl

theorem order_debugging : (p.debugging d).order = p.order := rfl

theorem gathered_debugging : (p.debugging d).gathered its = p.gathered its := by
  rw [gathered, gathered, stages_debugging]

theorem offered_debugging : (p.debugging d).offered its = p.offered its := by
  rw [offered, offered, front_debugging, order_debugging]

/-- The part of the gathered list that paging counts in under a debug profile. -/
def counted : List Itinerary :=
  match d with
  | .limitToCount => (Cap.crop p.max p.croppedEnd (p.gathered its)).2
  | _ => p.gathered its

theorem counted_of_ne (h : d ≠ .limitToCount) : p.counted d its = p.gathered its := by
  cases d with
  | limitToCount => exact absurd rfl h
  | off | listAll | limitToWindow => rfl

variable {p its} in
theorem counted_of_length_le (h : p.decorators = []) (hmax : its.length ≤ p.max) :
    p.counted d its = p.gathered its := by
  cases d with
  | limitToCount =>
    rw [counted, Cap.crop_of_length_le _ ((length_gathered h its).le.trans hmax)]
  | off | listAll | limitToWindow => rfl

/-- Sweeping takes nothing off the count but by the limit on the list. -/
theorem transitFound_sweep :
    transitFound ((p.debugging d).chain.sweep (p.gathered its)) =
      transitFound (p.counted d its) := by
  unfold counted
  generalize p.gathered its = gathered
  cases d with
  | off => exact transitFound_filter gathered fun _ hkept => hkept
  | listAll => exact transitFound_explain gathered
  | limitToWindow =>
    refine (transitFound_explain _).trans (transitFound_filter gathered fun it hkept => ?_)
    simp [List.isEmpty_iff.mp hkept]
  | limitToCount =>
    have hsweep : (p.debugging .limitToCount).chain.sweep gathered =
        (Cap.crop p.max p.croppedEnd gathered).2.map Itinerary.explain := by
      rw [Chain.sweep_eq, chain, debugging, prefer]
      cases p.croppedEnd <;> simp [Cap.crop]
    rw [hsweep, transitFound_explain]

end Plan

/-- The preferences under another debug profile. -/
def Preferences.debugging (p : Preferences) (d : DebugProfile) : Preferences :=
  { p with filter := { p.filter with debug := d } }

theorem Preferences.paging_debugging (p : Preferences) (d : DebugProfile) :
    (p.debugging d).paging = p.paging := rfl

/-- What a response says about its page: where it was cut, and the links. -/
def Response.paging (resp : Response) : Option CapReport × Option PageLinks :=
  (resp.cap, resp.links)

namespace SearchRequest
variable (r : SearchRequest) (p : Preferences) (its : List Itinerary)

theorem plan_debugging (d : DebugProfile) :
    r.plan (p.debugging d).filter [] = (r.plan p.filter []).debugging d := by
  rw [plan_eq, plan_eq]
  rfl

theorem offered_debugging (d : DebugProfile) :
    r.offered (p.debugging d).filter its = r.offered p.filter its := by
  rw [offered, plan_debugging, Plan.offered_debugging]
  rfl

/-- The paging of a response, given where its page was cut and what its links are made from. -/
def pagingOf (p : PagingPreferences) (report : Option CapReport) (its : List Itinerary) :
    Except ResponseError (Option CapReport × Option PageLinks) := do
  r.page.validate.mapError .paging
  let policy ← p.policy.mapError .paging
  let links ← (r.page.links policy its report).mapError .paging
  pure (report, links)

section pagingOf
variable {r} {p : PagingPreferences} {report : Option CapReport} {xs ys : List Itinerary}

theorem pagingOf_congr (h : transitFound xs = transitFound ys) :
    r.pagingOf p report xs = r.pagingOf p report ys := by
  have hlinks (policy : WindowPolicy) :
      r.page.links policy xs report = r.page.links policy ys report :=
    PageRequest.links_congr fun _ _ _ => by rw [h]
  simp only [pagingOf, hlinks]

theorem window_of_pagingOf {policy : WindowPolicy} {used : Span}
    {paging : Option CapReport × Option PageLinks} (hpolicy : p.policy = .ok policy)
    (hw : r.window = some used) (h : r.pagingOf p none xs = .ok paging) :
    paging.2.map PageLinks.window = some (policy.grow used r.count (transitFound xs)) := by
  obtain ⟨⟨⟩, hvalid, h⟩ := ok_of_bind h
  obtain ⟨policy', hpolicy', h⟩ := ok_of_bind h
  obtain ⟨links, hlinks, h⟩ := ok_of_bind h
  cases h
  cases hpolicy.symm.trans (ok_of_mapError hpolicy')
  have hvalid := ok_of_mapError hvalid
  obtain ⟨opens, ho⟩ := PageRequest.exists_opens_of_validate (r := r.page) hw hvalid
  exact PageRequest.window_of_links ho hw (ok_of_mapError hlinks)

/-- Whatever the lists, paging that fails on both fails on both for one reason. -/
theorem pagingOf_eq_of_not_isOk (hx : (r.pagingOf p report xs).isOk = false)
    (hy : (r.pagingOf p report ys).isOk = false) :
    r.pagingOf p report xs = r.pagingOf p report ys := by
  unfold pagingOf at hx hy ⊢
  cases hvalid : r.page.validate with
  | error e => rfl
  | ok valid =>
    cases hpolicy : p.policy with
    | error e => rfl
    | ok policy =>
      simp only [hvalid, hpolicy, bind_mapError_ok] at hx hy ⊢
      -- What is left to fail are the links, and these only by times that are out of range.
      have hfails := PageRequest.failsOutOfRange_links hvalid policy
      cases hxs : r.page.links policy xs report with
      | ok links =>
        rw [hxs] at hx
        cases hx
      | error e =>
        cases hys : r.page.links policy ys report with
        | ok links =>
          rw [hys] at hy
          cases hy
        | error e' => rw [hfails xs report e hxs, hfails ys report e' hys]

/-- Two lists give the same paging exactly if neither gives any, or the page was cut, or they let
the window grow alike. -/
theorem pagingOf_eq_iff : r.pagingOf p report xs = r.pagingOf p report ys ↔
    ((r.pagingOf p report xs).isOk = false ∧ (r.pagingOf p report ys).isOk = false) ∨
      ∀ policy used, p.policy = .ok policy → r.window = some used → report = none →
        policy.grow used r.count (transitFound xs) =
          policy.grow used r.count (transitFound ys) := by
  constructor
  · intro h
    cases hx : r.pagingOf p report xs with
    | error e =>
      rw [← h, hx]
      exact .inl ⟨rfl, rfl⟩
    | ok paging =>
      -- The links of a page that was not cut tell how long the list made the window.
      refine .inr fun policy used hpolicy hw hnone => ?_
      subst hnone
      have hxs := window_of_pagingOf hpolicy hw hx
      have hys := window_of_pagingOf hpolicy hw (h.symm.trans hx)
      exact Option.some.inj (hxs.symm.trans hys)
  · rintro (⟨hx, hy⟩ | hgrow)
    · exact pagingOf_eq_of_not_isOk hx hy
    · cases hpolicy : p.policy with
      | error e =>
        simp only [pagingOf, hpolicy]
        cases r.page.validate <;> rfl
      | ok policy =>
        have hlinks : r.page.links policy xs report = r.page.links policy ys report :=
          PageRequest.links_congr fun hnone used hw => hgrow policy used hpolicy hw hnone
        simp only [pagingOf, hpolicy, bind_mapError_ok, hlinks]

end pagingOf

theorem map_paging_respond (d : DebugProfile) :
    (r.respond its (p.debugging d) []).map Response.paging =
      r.pagingOf p.paging (Cap.reportOf r.count r.croppedEnd (r.offered p.filter its))
        ((r.plan p.filter []).counted d its) := by
  rw [← pagingOf_congr ((r.plan p.filter []).transitFound_sweep d its), pagingOf]
  -- As a functor's map it can be moved behind the binds.
  change Response.paging <$> r.respond its (p.debugging d) [] = _
  rw [respond, run_plan, offered_debugging, plan_debugging, Plan.gathered_debugging]
  simp only [map_bind, map_pure, bind_mapError_ok, Preferences.paging_debugging, Response.paging]

theorem isOk_respond (d : DebugProfile) :
    (r.respond its (p.debugging d) []).isOk =
      (r.pagingOf p.paging (Cap.reportOf r.count r.croppedEnd (r.offered p.filter its))
        ((r.plan p.filter []).counted d its)).isOk := by
  rw [← map_paging_respond]
  cases r.respond its (p.debugging d) [] <;> rfl

/-- Two debug profiles make no difference to paging exactly if there is no response under either,
or the page was cut, or the window grows alike from what they count. -/
theorem map_paging_debugging_iff (d₁ d₂ : DebugProfile) :
    (r.respond its (p.debugging d₁) []).map Response.paging =
      (r.respond its (p.debugging d₂) []).map Response.paging ↔
    ((r.respond its (p.debugging d₁) []).isOk = false ∧
      (r.respond its (p.debugging d₂) []).isOk = false) ∨
    ∀ policy used, p.paging.policy = .ok policy → r.window = some used →
      Cap.reportOf r.count r.croppedEnd (r.offered p.filter its) = none →
      policy.grow used r.count (transitFound ((r.plan p.filter []).counted d₁ its)) =
        policy.grow used r.count (transitFound ((r.plan p.filter []).counted d₂ its)) := by
  rw [map_paging_respond, map_paging_respond, isOk_respond, isOk_respond, pagingOf_eq_iff]

/-- Profiles that do not limit the list to the number requested all page alike. -/
theorem paging_debugging_of_ne {d₁ d₂ : DebugProfile} (h₁ : d₁ ≠ .limitToCount)
    (h₂ : d₂ ≠ .limitToCount) :
    (r.respond its (p.debugging d₁) []).map Response.paging =
      (r.respond its (p.debugging d₂) []).map Response.paging := by
  rw [map_paging_respond, map_paging_respond, Plan.counted_of_ne _ _ _ h₁,
    Plan.counted_of_ne _ _ _ h₂]

/-- So do all profiles after a search that found no more than was requested. -/
theorem paging_debugging_of_length_le (h : its.length ≤ r.count) (d₁ d₂ : DebugProfile) :
    (r.respond its (p.debugging d₁) []).map Response.paging =
      (r.respond its (p.debugging d₂) []).map Response.paging := by
  have hmax : its.length ≤ (r.plan p.filter []).max := by rwa [plan_eq]
  have hnone : (r.plan p.filter []).decorators = [] := by rw [plan_eq]
  rw [map_paging_respond, map_paging_respond, Plan.counted_of_length_le _ hnone hmax,
    Plan.counted_of_length_le _ hnone hmax]

end SearchRequest

/-! A page whose early ride takes the place of the one that it could show -/

section earlyRide
open SearchRequest

/-- The hour from eight on, for one itinerary. -/
def oneAtEight : SearchRequest := .first false 1 480 60

/-- A ride that departs before eight and arrives before the other. -/
def earlyRide : Itinerary := .ride 450 45

def nextRide : Itinerary := .ride 490 50

theorem offered_oneAtEight :
    oneAtEight.offered Preferences.bare.filter [earlyRide, nextRide] = [nextRide] := by
  rw [offered_bare]
  rfl

/-- The early ride as the window leaves it. -/
def rejectedRide : Itinerary := earlyRide.reject "outside-search-window"

theorem gathered_oneAtEight :
    (oneAtEight.plan Preferences.bare.filter []).gathered [earlyRide, nextRide] =
      [rejectedRide, nextRide] := by
  have hfront : Stage.runAll (oneAtEight.plan Preferences.bare.filter []).front
      ⟨[earlyRide, nextRide], none⟩ = .ok ⟨[rejectedRide, nextRide], none⟩ := by
    rw [plan_eq, Plan.front, Plan.ruleStages_of_isBare rfl FilterPreferences.isBare_none]
    rfl
  have hmax : ([rejectedRide, nextRide].filter Itinerary.isKept).length ≤
      (oneAtEight.plan Preferences.bare.filter []).max := by
    rw [plan_eq]
    decide
  rw [Plan.gathered_of_front (by rw [plan_eq]) hfront, Cap.run_of_length_le _ hmax,
    sortByRanks_eq_insertionSort, plan_eq]
  rfl

theorem counted_oneAtEight :
    (oneAtEight.plan Preferences.bare.filter []).counted .limitToCount [earlyRide, nextRide] =
      [rejectedRide] := by
  rw [Plan.counted, gathered_oneAtEight, plan_eq]
  rfl

/-- Limited to one, the list is the rejected ride alone: the window for the next search is five
hours long and not, as without debugging, one hour. -/
theorem exists_debugging_steers : ¬ ∀ (r : SearchRequest) (p : Preferences)
    (its : List Itinerary) (d₁ d₂ : DebugProfile),
    (r.respond its (p.debugging d₁) []).map Response.paging =
      (r.respond its (p.debugging d₂) []).map Response.paging := by
  intro hall
  have hpaging := hall oneAtEight .bare [earlyRide, nextRide] .off .limitToCount
  rw [map_paging_respond, map_paging_respond, offered_oneAtEight, counted_oneAtEight,
    Plan.counted_of_ne _ _ _ (by decide), gathered_oneAtEight] at hpaging
  have hwindow := congrArg (fun paging => paging.toOption.bind fun x => x.2.map PageLinks.window)
    hpaging
  exact absurd hwindow (by decide)

end earlyRide
end JourneyPages
