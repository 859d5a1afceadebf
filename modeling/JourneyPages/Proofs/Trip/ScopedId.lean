import JourneyPages.Proofs.Text
import JourneyPages.Trip.ScopedId

/-!
Identifiers in their texts. A feed has no separator in it, so the first separator of a text is the
one that was written behind the feed, and whatever comes after it is the name, further separators
included.
-/
namespace JourneyPages

namespace ScopedId
variable {feed name s : String} {i j : ScopedId}

theorem make_eq_ok_iff : make feed name = .ok i ↔ i.feed = feed ∧ i.name = name := by
  unfold make
  split_ifs with hfeed hseparator hname
  · simp only [false_iff]
    rintro ⟨rfl, -⟩
    exact i.feed_ne_empty hfeed
  · simp only [false_iff]
    rintro ⟨rfl, -⟩
    exact i.separator_not_mem hseparator
  · simp only [false_iff]
    rintro ⟨-, rfl⟩
    exact i.name_ne_empty hname
  · rw [Except.ok.injEq, ScopedId.ext_iff, eq_comm (a := feed), eq_comm (a := name)]

theorem toList_text (i : ScopedId) : i.text.toList = i.feed.toList ++ ':' :: i.name.toList := by
  simp [text, String.toList_append]

/-- What stands before the first separator is the feed, and what stands behind it is the name. -/
theorem read_eq_make {before after : List Char} (h : ':' ∉ before)
    (hs : s.toList = before ++ ':' :: after) :
    read s = make (String.ofList before) (String.ofList after) := by
  obtain ⟨htake, hdrop⟩ := Text.takeWhile_dropWhile_ne_iff.mpr ⟨rfl, h, hs⟩
  rw [read, hdrop, htake]

theorem read_text (i : ScopedId) : read i.text = .ok i := by
  rw [read_eq_make i.separator_not_mem i.toList_text, make_eq_ok_iff]
  exact ⟨String.ofList_toList.symm, String.ofList_toList.symm⟩

theorem text_of_read (h : read s = .ok i) : i.text = s := by
  unfold read at h
  split at h
  case h_1 => cases h
  case h_2 c rest hdrop =>
    obtain ⟨-, -, hsplit⟩ := Text.takeWhile_dropWhile_ne_iff.mp ⟨rfl, hdrop⟩
    obtain ⟨hfeed, hname⟩ := make_eq_ok_iff.mp h
    rw [← String.toList_inj, toList_text, hfeed, hname, String.toList_ofList, String.toList_ofList,
      ← hsplit]

theorem read_eq_ok_iff : read s = .ok i ↔ i.text = s :=
  ⟨text_of_read, fun h => h ▸ read_text i⟩

/-- A text is read if something stands before its first separator and something behind it. -/
theorem exists_read_iff : (∃ i, read s = .ok i) ↔ ∃ before after,
    s.toList = before ++ ':' :: after ∧ ':' ∉ before ∧ before ≠ [] ∧ after ≠ [] := by
  constructor
  · rintro ⟨i, hi⟩
    rw [← text_of_read hi, toList_text]
    refine ⟨i.feed.toList, i.name.toList, rfl, i.separator_not_mem, ?_, ?_⟩
    · simpa using i.feed_ne_empty
    · simpa using i.name_ne_empty
  · rintro ⟨before, after, hs, hseparator, hbefore, hafter⟩
    refine ⟨⟨String.ofList before, String.ofList after, ?_, ?_, ?_⟩, ?_⟩
    · simpa using hbefore
    · simpa using hseparator
    · simpa using hafter
    · rw [read_eq_make hseparator hs, make_eq_ok_iff]
      exact ⟨rfl, rfl⟩

/-- An identifier is read back from its text, a text that is read is that of its identifier, and
there is one for every text with something before its first separator and something behind it. -/
theorem text_round_trip :
    (∀ feed name i, make feed name = .ok i →
      i.feed = feed ∧ i.name = name ∧ read i.text = .ok i) ∧
    (∀ s i, read s = .ok i → i.text = s) ∧
    (∀ s, (∃ i, read s = .ok i) ↔ ∃ before after, s.toList = before ++ ':' :: after ∧
      ':' ∉ before ∧ before ≠ [] ∧ after ≠ []) ∧
    ∀ i j : ScopedId, i.text = j.text → i = j := by
  refine ⟨fun feed name i h => ?_, fun s i => text_of_read, fun s => exists_read_iff, ?_⟩
  · obtain ⟨hfeed, hname⟩ := make_eq_ok_iff.mp h
    exact ⟨hfeed, hname, read_text i⟩
  · intro i j h
    have hread : read i.text = .ok j := read_eq_ok_iff.mpr h.symm
    rw [read_text] at hread
    exact Except.ok.inj hread

/-- A name with separators of its own. -/
def shuttle : ScopedId := ⟨"bus", "a:b:", by decide, by decide, by decide⟩

theorem text_round_trip_shuttle : make "bus" "a:b:" = .ok shuttle ∧ read "bus:a:b:" = .ok shuttle ∧
    shuttle.text = "bus:a:b:" ∧ ∀ j : ScopedId, shuttle.text = j.text → shuttle = j := by
  have hmake : make "bus" "a:b:" = .ok shuttle := rfl
  obtain ⟨hback, htext, -, hinjective⟩ := text_round_trip
  have hread := (hback "bus" "a:b:" shuttle hmake).2.2
  exact ⟨hmake, hread, htext "bus:a:b:" shuttle hread, hinjective shuttle⟩

end ScopedId
end JourneyPages
