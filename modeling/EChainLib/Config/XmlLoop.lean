import EChainLib.Config.XmlText

/-! One turn of the constructor's loop over the children, on a text of any shape. -/

namespace EChainLib.Config.XmlText

open EChainLib.Keys (Bytes)
open EChainLib.Strings

/-! Searches. -/

theorem find_inside {s : Bytes} {byte : UInt8} {pos : Int} (found : find s [byte] pos ≠ -1) :
    find s [byte] pos < s.length := by
  rcases find_fits found with fits | empty
  · rw [List.length_singleton] at fits
    omega
  · cases empty

theorem find_of_hit {s pattern : Bytes} {pos : Int} {place : Nat} (filled : pattern ≠ [])
    (nonneg : 0 ≤ pos) (behind : pos ≤ place) (hit : pattern <+: s.drop place) :
    find s pattern pos ≠ -1 := by
  have later : place = pos.toNat + (place - pos.toNat) := by omega
  rw [later, ← List.drop_drop] at hit
  obtain ⟨ahead, found, -⟩ := findIn_le filled hit
  rw [find, if_neg (by omega), found]
  show pos + (ahead : Int) ≠ -1
  omega

/-- The place behind a byte that is searched for, or the beginning, is in the text. -/
theorem substr_behind {s : Bytes} (byte : UInt8) (pos n : Int) :
    ∃ part, substr s (find s [byte] pos + 1) n = some part := by
  by_cases missing : find s [byte] pos = -1
  · rw [missing]
    exact substr_isSome (by decide) (by simp)
  · have inside := find_inside missing
    have nonneg := (find_begins missing).1
    have behind := (find_begins missing).2.1
    exact substr_isSome (by omega) (by omega)

theorem find_last {s : Bytes} {byte other : UInt8} {pos : Int} (apart : byte ≠ other)
    (found : find s [byte] (find s [other] pos) ≠ -1) :
    find s [other] pos < find s [byte] (find s [other] pos) := by
  obtain ⟨nonneg, behind, begins⟩ := find_begins found
  have there : find s [other] pos ≠ -1 := by omega
  have other_begins := (find_begins there).2.2
  rcases Int.lt_or_eq_of_le behind with later | same
  · exact later
  · rw [← same] at begins
    obtain ⟨rest, shape⟩ := begins
    obtain ⟨rest', shape'⟩ := other_begins
    rw [← shape'] at shape
    injection shape with equal
    exact absurd equal apart

theorem nameEnd_behind {s : Bytes} {start : Int} (ends : find s [chr '>'] start ≠ -1) :
    start ≤ nameEnd (find s [chr ' '] start) (find s [chr '>'] start) := by
  have behind := (find_begins ends).2.1
  unfold nameEnd
  split_ifs with no_space later
  · exact behind
  · exact behind
  · exact (find_begins no_space).2.1

/-! The loop over the children. -/

/-- The tag that the loop reads at a place, behind the note there. -/
def tagStart (s_NodeText : Bytes) (place : Int) : Int :=
  if substr s_NodeText place XML_NOTE_BEGIN_LEN = some XML_NOTE_BEGIN_TAG then
    find s_NodeText [chr '<'] (find s_NodeText XML_NOTE_END_TAG place + 1)
  else place

theorem tagStart_eq_find (s : Bytes) (pos : Int) :
    ∃ behind, tagStart s (find s [chr '<'] pos) = find s [chr '<'] behind := by
  unfold tagStart
  split_ifs
  · exact ⟨_, rfl⟩
  · exact ⟨_, rfl⟩

/-- One turn of the loop, when it has found a place and the tag there. -/
def childFrom (s_NodeText : Bytes) (iNoteStart iNodeStart : Int) : Option (Option (Bytes × Int)) :=
  (substr s_NodeText (find s_NodeText [chr '>'] iNodeStart - 1) 1).bind fun last =>
    if last = [chr '/'] then
      (substr s_NodeText iNoteStart (find s_NodeText [chr '>'] iNodeStart + 1 - iNoteStart)).bind
        fun strNodeText => some (some (strNodeText, find s_NodeText [chr '>'] iNodeStart + 1))
    else
      let iNameEnd := nameEnd (find s_NodeText [chr ' '] iNodeStart) (find s_NodeText [chr '>'] iNodeStart)
      (substr s_NodeText (iNodeStart + 1) (iNameEnd - iNodeStart - 1)).bind fun strNodeName =>
        let iNodeEnd := find s_NodeText ([chr '<', chr '/'] ++ strNodeName ++ [chr '>']) iNameEnd
        if iNodeEnd > 0 then
          (substr s_NodeText iNoteStart (iNodeEnd + (strNodeName.length + 3) - iNoteStart)).bind
            fun strNodeText => some (some (strNodeText, iNodeEnd + (strNodeName.length + 3)))
        else some none

theorem nextChild_eq (s : Bytes) (pos : Int) : nextChild s pos =
    if 0 ≤ pos then
      if find s [chr '<'] pos = -1 then some none
      else childFrom s (find s [chr '<'] pos) (tagStart s (find s [chr '<'] pos))
    else some none := by
  by_cases looks : 0 ≤ pos
  · by_cases missing : find s [chr '<'] pos = -1
    · simp [nextChild, looks, missing]
    · have behind := (find_begins missing).2.1
      obtain ⟨first, first_read⟩ : ∃ first,
          substr s (find s [chr '<'] pos) XML_NOTE_BEGIN_LEN = some first :=
        substr_isSome (by omega) (find_inside missing).le
      have start : (if first = XML_NOTE_BEGIN_TAG then
          find s [chr '<'] (find s XML_NOTE_END_TAG (find s [chr '<'] pos) + 1)
          else find s [chr '<'] pos) = tagStart s (find s [chr '<'] pos) := by
        simp only [tagStart, first_read, Option.some.injEq]
      simp only [nextChild, ge_iff_le, looks, if_true, missing, if_false, first_read, start,
        Option.bind_eq_bind, Option.bind_some, Option.pure_def]
      rfl
  · simp [nextChild, looks]

theorem childFrom_open {s : Bytes} {place start : Int} (open_tag : find s [chr '>'] start = -1) :
    childFrom s place start = none := by
  simp [childFrom, open_tag, substr]

theorem childFrom_isSome {s : Bytes} {place behind : Int} (nonneg : 0 ≤ place)
    (inside : place ≤ s.length) (closed : find s [chr '>'] (find s [chr '<'] behind) ≠ -1) :
    ∃ found, childFrom s place (find s [chr '<'] behind) = some found := by
  have starts := (find_begins closed).1
  have later := find_last (by decide) closed
  have ends_inside := find_inside closed
  obtain ⟨last, last_read⟩ : ∃ last,
      substr s (find s [chr '>'] (find s [chr '<'] behind) - 1) 1 = some last :=
    substr_isSome (by omega) (by omega)
  obtain ⟨name, name_read⟩ := substr_behind (s := s) (chr '<') behind
    (nameEnd (find s [chr ' '] (find s [chr '<'] behind))
      (find s [chr '>'] (find s [chr '<'] behind)) - find s [chr '<'] behind - 1)
  have cut (n : Int) := substr_isSome (s := s) (n := n) nonneg inside
  simp only [childFrom, last_read, name_read, Option.bind_some]
  split_ifs
  · obtain ⟨text, text_read⟩ := cut (find s [chr '>'] (find s [chr '<'] behind) + 1 - place)
    exact ⟨_, by rw [text_read, Option.bind_some]⟩
  · obtain ⟨text, text_read⟩ := cut (find s ([chr '<', chr '/'] ++ name ++ [chr '>'])
      (nameEnd (find s [chr ' '] (find s [chr '<'] behind))
        (find s [chr '>'] (find s [chr '<'] behind))) + (name.length + 3) - place)
    exact ⟨_, by rw [text_read, Option.bind_some]⟩
  · exact ⟨none, rfl⟩

theorem childFrom_cut {s u : Bytes} {place start e : Int}
    (found : childFrom s place start = some (some (u, e))) :
    substr s place (e - place) = some u ∧ 0 ≤ start ∧ start < e ∧ e ≤ s.length ∧
      [chr '>'] <+: s.drop (e - 1).toNat := by
  have closed : find s [chr '>'] start ≠ -1 := by
    intro open_tag
    rw [childFrom_open open_tag] at found
    cases found
  have starts := (find_begins closed).1
  have ends := (find_begins closed).2.1
  have ends_inside := find_inside closed
  simp only [childFrom, Option.bind_eq_some_iff] at found
  obtain ⟨last, -, found⟩ := found
  split_ifs at found with short
  · obtain ⟨text, text_read, shape⟩ := Option.bind_eq_some_iff.mp found
    simp only [Option.some.injEq, Prod.mk.injEq] at shape
    obtain ⟨rfl, rfl⟩ := shape
    refine ⟨text_read, starts, by omega, by omega, ?_⟩
    rw [Int.add_sub_cancel]
    exact (find_begins closed).2.2
  · obtain ⟨name, -, found⟩ := Option.bind_eq_some_iff.mp found
    split_ifs at found with positive
    · obtain ⟨text, text_read, shape⟩ := Option.bind_eq_some_iff.mp found
      simp only [Option.some.injEq, Prod.mk.injEq] at shape
      obtain ⟨rfl, rfl⟩ := shape
      have named := nameEnd_behind closed
      have some_tag : find s ([chr '<', chr '/'] ++ name ++ [chr '>'])
          (nameEnd (find s [chr ' '] start) (find s [chr '>'] start)) ≠ -1 := by omega
      obtain ⟨-, reached, begins⟩ := find_begins some_tag
      have fits := (find_fits some_tag).resolve_right (by simp)
      simp only [List.length_append, List.length_cons, List.length_nil] at fits
      refine ⟨text_read, starts, by omega, by omega, ?_⟩
      have last := begins.drop (name.length + 2)
      rw [List.drop_drop, List.drop_append_of_le_length (by simp)] at last
      have place : (find s ([chr '<', chr '/'] ++ name ++ [chr '>'])
          (nameEnd (find s [chr ' '] start) (find s [chr '>'] start)) + (name.length + 3) - 1).toNat =
          (find s ([chr '<', chr '/'] ++ name ++ [chr '>'])
            (nameEnd (find s [chr ' '] start) (find s [chr '>'] start))).toNat + (name.length + 2) := by
        omega
      rw [place]
      simpa [List.drop_append] using last
    · cases Option.some.inj found

/-- The loop comes to a tag that does not end. -/
structure Broken (s_NodeText : Bytes) (iNodeStart : Int) : Prop where
  looks : 0 ≤ iNodeStart
  marked : find s_NodeText [chr '<'] iNodeStart ≠ -1
  open_tag : find s_NodeText [chr '>'] (tagStart s_NodeText (find s_NodeText [chr '<'] iNodeStart)) = -1

theorem nextChild_eq_none_iff (s : Bytes) (pos : Int) : nextChild s pos = none ↔ Broken s pos := by
  constructor
  · intro thrown
    rw [nextChild_eq] at thrown
    split_ifs at thrown with looks missing
    refine ⟨looks, missing, ?_⟩
    by_contra closed
    obtain ⟨behind, same⟩ := tagStart_eq_find s pos
    have place := (find_begins missing).2.1
    obtain ⟨found, read⟩ : ∃ found,
        childFrom s (find s [chr '<'] pos) (find s [chr '<'] behind) = some found :=
      childFrom_isSome (by omega) (find_inside missing).le (same ▸ closed)
    rw [same, read] at thrown
    cases thrown
  · intro broken
    rw [nextChild_eq, if_pos broken.looks, if_neg broken.marked, childFrom_open broken.open_tag]

/-- What one turn of the loop takes. The tag may stand in front of the place, when the note
there has no end. -/
structure Taken (s u : Bytes) (pos e : Int) : Prop where
  looks : 0 ≤ pos
  marked : find s [chr '<'] pos ≠ -1
  cut : substr s (find s [chr '<'] pos) (e - find s [chr '<'] pos) = some u
  positive : 0 < e
  behind : tagStart s (find s [chr '<'] pos) < e
  inside : e ≤ s.length
  ends : [chr '>'] <+: s.drop (e - 1).toNat

theorem taken_of_nextChild {s u : Bytes} {pos e : Int} (found : nextChild s pos = some (some (u, e))) :
    Taken s u pos e := by
  rw [nextChild_eq] at found
  split_ifs at found with looks missing
  · cases found
  · obtain ⟨cut, starts, behind, inside, ends⟩ := childFrom_cut found
    exact ⟨looks, missing, cut, by omega, behind, inside, ends⟩
  · cases found

theorem Taken.shorter {s u : Bytes} {pos e : Int} (taken : Taken s u pos e) (later : 1 ≤ pos) :
    u.length < s.length := by
  have behind := (find_begins taken.marked).2.1
  have inside := find_inside taken.marked
  have size := (substr_begins taken.cut).2.length_le
  rw [List.length_drop] at size
  omega

/-- Without a note the tag is at the place. -/
theorem Taken.onward {s u : Bytes} {pos e : Int} (taken : Taken s u pos e)
    (plain : substr s (find s [chr '<'] pos) XML_NOTE_BEGIN_LEN ≠ some XML_NOTE_BEGIN_TAG) :
    find s [chr '<'] pos < e := by
  have behind := taken.behind
  rwa [tagStart, if_neg plain] at behind

theorem Taken.within {s u : Bytes} {pos e : Int} (taken : Taken s u pos e) : u <:+: s :=
  substr_within taken.cut

/-- A child that ends behind its place is what lies between the two. -/
theorem Taken.between {s u : Bytes} {pos e : Int} (taken : Taken s u pos e)
    (onward : find s [chr '<'] pos < e) :
    s.drop (find s [chr '<'] pos).toNat = u ++ s.drop e.toNat ∧ [chr '<'] <+: u := by
  have behind := (find_begins taken.marked).2.1
  have looks := taken.looks
  have begins := (find_begins taken.marked).2.2
  have cut := taken.cut
  unfold substr at cut
  rw [if_neg (by have := find_inside taken.marked; omega), if_neg (by omega), Option.some.injEq] at cut
  have place : e.toNat = (find s [chr '<'] pos).toNat + (e - find s [chr '<'] pos).toNat := by omega
  constructor
  · rw [← cut, place, ← List.drop_drop, List.take_append_drop]
  · rw [← cut]
    refine List.prefix_take_iff.mpr ⟨begins, ?_⟩
    rw [List.length_singleton]
    omega

end EChainLib.Config.XmlText
