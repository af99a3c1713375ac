import EChainLib.Config.XmlClosing

/-! An `XMLDoc`: the text that is loaded, and the root node that is cut out of it by its name. -/

namespace EChainLib.Config.XmlText

open EChainLib.Keys (Bytes cString cString_of_text cString_clean text)
open EChainLib.Strings
open EChainLib.Brackets

def XML_HEADLINE : Bytes := text "<?xml version=\"1.0\" encoding=\"GBK\"?>\n"

structure XMLDoc where
  m_RootNode : Option XMLNode
  m_Buffer : Bytes
  m_Useable : Bool

/-- `LoadXML`. The old root node is not deleted. -/
def loadXML (_ : XMLDoc) (v_str : Bytes) : XMLDoc × Bool :=
  ({ m_RootNode := none, m_Buffer := cString v_str, m_Useable := true }, true)

/-- The text from the first `<` with the name to the first closing tag. `none` is an exception,
`some none` that there is no closing tag. -/
def rootText (m_Buffer v_Name : Bytes) : Option (Option Bytes) := do
  let sStart := chr '<' :: v_Name
  let sEnd := [chr '<', chr '/'] ++ v_Name ++ [chr '>']
  let iStart := toInt (find m_Buffer sStart 0)
  let iEnd := toInt (find m_Buffer sEnd 0)
  if iEnd < 0 then return none
  else
    let iEnd := toInt (iEnd + sEnd.length)
    let sNodeText ← substr m_Buffer iStart (iEnd - iStart)
    return some sNodeText

/-- `GetRootNode`. The result is the node that is returned, if it is not `NULL`. -/
def getRootNode (fuel : Nat) (doc : XMLDoc) (v_Name : Bytes) : Option (XMLDoc × Option XMLNode) :=
  if doc.m_Useable = false then some (doc, none)
  else
    match doc.m_RootNode with
    | some m_RootNode => some (doc, some m_RootNode)
    | none => do
        match ← rootText doc.m_Buffer v_Name with
        | none => return (doc, none)
        | some sNodeText =>
            let m_RootNode ← xmlNode fuel sNodeText 0
            return ({ doc with m_RootNode := some m_RootNode }, some m_RootNode)

/-! The head line. -/

/-- The head line without its `>`. -/
def headTag : Bytes := text "<?xml version=\"1.0\" encoding=\"GBK\"?"

theorem headline_eq : XML_HEADLINE = headTag ++ [chr '>', chr '\n'] := by decide +kernel

theorem headline_clean : (0 : UInt8) ∉ XML_HEADLINE := by decide +kernel

theorem headline_length : XML_HEADLINE.length = 37 := by decide +kernel

theorem headline_once : ∃ rest, XML_HEADLINE = chr '<' :: chr '?' :: rest ∧ chr '<' ∉ rest :=
  ⟨XML_HEADLINE.drop 2, by decide +kernel, by decide +kernel⟩

theorem headTag_marks : chr '>' ∉ headTag ∧ doubleQuote ∈ headTag ∧ headTag.getLast? = some (chr '?') := by
  decide +kernel

/-- In the head line nothing begins with a `<` but the head line itself. -/
theorem place_of_begins {rest after : Bytes} {place : Nat} (inside : place < XML_HEADLINE.length)
    (begins : chr '<' :: rest <+: (XML_HEADLINE ++ after).drop place) : place = 0 := by
  obtain ⟨line, shape, once⟩ := headline_once
  rw [List.drop_append_of_le_length inside.le] at begins
  rcases place with _ | before
  · rfl
  · cases back : XML_HEADLINE.drop (before + 1) with
    | nil =>
        have long := List.drop_eq_nil_iff.mp back
        omega
    | cons head more =>
        rw [back, List.cons_append, List.cons_prefix_cons] at begins
        have member : head ∈ XML_HEADLINE.drop (before + 1) := by simp [back]
        rw [shape, List.drop_succ_cons] at member
        have there := List.mem_of_mem_drop member
        rw [← begins.1, List.mem_cons] at there
        rcases there with same | inside
        · exact absurd same (by decide)
        · exact absurd inside once

theorem toInt_of_small {n : Int} (nonneg : 0 ≤ n) (small : n < 2 ^ 31) : toInt n = n := by
  rw [toInt, Int.bmod_eq_of_le (by omega) (by omega)]

theorem toInt_of_large {n : Int} (low : 2 ^ 31 ≤ n) (high : n < 2 ^ 32) : toInt n < 0 := by
  unfold toInt Int.bmod
  dsimp only
  split_ifs
  · omega
  · omega

theorem toInt_bounds (n : Int) : -2 ^ 31 ≤ toInt n ∧ toInt n < 2 ^ 31 := by
  have low := Int.le_bmod (x := n) (m := 2 ^ 32) (by decide)
  have high := Int.bmod_lt (x := n) (m := 2 ^ 32) (by decide)
  rw [toInt]
  omega

theorem find_zero (s pattern : Bytes) :
    find s pattern 0 = match findIn pattern s with
      | none => -1
      | some place => (place : Int) := by
  have parts : s = [] ++ s := rfl
  cases found : findIn pattern s with
  | none => exact find_missing parts rfl found
  | some place =>
      have hit := find_found parts rfl found
      simpa using hit

theorem begins_of_append {mark : UInt8} {pattern s t : Bytes} (begins : pattern <+: s ++ t)
    (ends : mark ∈ s) (without : mark ∉ pattern) : pattern <+: s := by
  rcases List.prefix_or_prefix_of_prefix begins (List.prefix_append s t) with inside | beyond
  · exact inside
  · exact absurd (beyond.subset ends) without

/-- What is cut out, and is not all of the rest, has the length that is asked for. -/
theorem substr_inner {s part : Bytes} {pos n : Int} (read : substr s pos n = some part)
    (other : ∀ place, part ≠ s.drop place) : pos + part.length < s.length ∧ n = part.length := by
  unfold substr at read
  split_ifs at read with outside negative
  · exact absurd (Option.some.inj read).symm (other _)
  · have taken := Option.some.inj read
    rcases Nat.lt_or_ge n.toNat (s.drop pos.toNat).length with less | all
    · have size := congrArg List.length taken
      rw [List.length_take_of_le less.le] at size
      rw [List.length_drop] at less
      omega
    · rw [List.take_of_length_le all] at taken
      exact absurd taken.symm (other _)

/-- The places as `Int32`, where the length between them is that of the whole text. -/
theorem cut_places {head front tail whole start stop : Nat} (small : head < 64)
    (parts : whole = front + tail) (start_le : start ≤ head + whole) (stop_le : stop ≤ head + front)
    (nonneg : 0 ≤ toInt start) (inside : toInt start + whole < (head + whole + 1 : Nat))
    (size : toInt (toInt stop + tail) - toInt start = whole) :
    toInt start = start ∧ start ≤ head ∧
      (start = head → stop = head + front ∧ head + whole < 2 ^ 31) := by
  have bounds := toInt_bounds (toInt stop + tail)
  have start_small : start < 2 ^ 31 := by
    by_contra large
    have wrapped : toInt start < 0 := toInt_of_large (by omega) (by omega)
    omega
  have start_eq : toInt start = start := toInt_of_small (by omega) (by omega)
  refine ⟨start_eq, by omega, fun here => ?_⟩
  have short : head + whole < 2 ^ 31 := by omega
  have stop_eq : toInt stop = stop := toInt_of_small (by omega) (by omega)
  rw [stop_eq, toInt_of_small (by omega) (by omega)] at size
  omega

/-! The root's text in the document. -/

/-- When the root is cut out whole: the text begins with its tag, which is not taken for the head
line, no other closing tag has its name, and the text is short and has no null byte. -/
structure Cuttable (root : XMLNode) : Prop where
  begins : chr '<' :: root.m_NodeName <+: getNodeText root
  headless : ¬ chr '<' :: root.m_NodeName <+: XML_HEADLINE
  noted : ¬ stopText root.m_NodeName <:+: root.m_Note
  alone : ∀ inner ∈ allNodes root.m_Nodes, ¬ Closes root.m_NodeName inner
  clean : (0 : UInt8) ∉ wholeText root
  short : XML_HEADLINE.length + (wholeText root).length < 2 ^ 31

theorem stop_place_le (root : XMLNode) : ∃ place, findIn (stopText root.m_NodeName)
      (XML_HEADLINE ++ getNodeText root) = some place ∧
    place ≤ XML_HEADLINE.length + (frontText root).length := by
  have here : stopText root.m_NodeName <+: (XML_HEADLINE ++ getNodeText root).drop
      (XML_HEADLINE.length + (frontText root).length) := by
    rw [getNodeText_front, ← List.append_assoc, ← List.length_append, List.drop_left]
    exact List.prefix_append _ _
  exact findIn_le (List.cons_ne_nil _ _) here

theorem start_place_le (root : XMLNode) : ∃ place, findIn (chr '<' :: root.m_NodeName)
      (XML_HEADLINE ++ getNodeText root) = some place ∧
    place ≤ XML_HEADLINE.length + (wholeText root).length := by
  obtain ⟨before, after, parts⟩ : ∃ before after,
      wholeText root = before ++ (chr '<' :: root.m_NodeName ++ after) := by
    refine ⟨noteText root ++ repeatchar (chr '\t') root.m_Depth,
      root.m_Property.flatMap propertyText ++ (chr '>' :: (contentText root ++
        (getNodesText root.m_Nodes ++ (indent root ++ stopText root.m_NodeName)))), ?_⟩
    simp [wholeText, frontText, openingText_eq, tagLine]
  have here : chr '<' :: root.m_NodeName <+: (XML_HEADLINE ++ getNodeText root).drop
      (XML_HEADLINE.length + before.length) := by
    have shape : XML_HEADLINE ++ getNodeText root =
        (XML_HEADLINE ++ before) ++ (chr '<' :: root.m_NodeName ++ (after ++ [chr '\n'])) := by
      rw [getNodeText_eq, parts]
      simp
    rw [shape, ← List.length_append, List.drop_left]
    exact List.prefix_append _ _
  have size := congrArg List.length parts
  rw [List.length_append] at size
  obtain ⟨place, found, le⟩ := findIn_le (List.cons_ne_nil _ _) here
  exact ⟨place, found, by omega⟩

theorem rootText_eq_find (m_Buffer v_Name : Bytes) : rootText m_Buffer v_Name =
    if toInt (find m_Buffer (stopText v_Name) 0) < 0 then some none
    else (substr m_Buffer (toInt (find m_Buffer (chr '<' :: v_Name) 0))
      (toInt (toInt (find m_Buffer (stopText v_Name) 0) + (stopText v_Name).length) -
        toInt (find m_Buffer (chr '<' :: v_Name) 0))).map some := by
  have tag : [chr '<', chr '/'] ++ v_Name ++ [chr '>'] = stopText v_Name := rfl
  simp only [rootText, tag, Option.bind_eq_bind, Option.pure_def, Option.map_eq_bind]
  rfl

theorem rootText_eq {m_Buffer v_Name : Bytes} {start stop : Nat}
    (start_found : findIn (chr '<' :: v_Name) m_Buffer = some start)
    (stop_found : findIn (stopText v_Name) m_Buffer = some stop) : rootText m_Buffer v_Name =
      if toInt stop < 0 then some none
      else (substr m_Buffer (toInt start)
        (toInt (toInt stop + (stopText v_Name).length) - toInt start)).map some := by
  rw [rootText_eq_find, find_zero, find_zero, start_found, stop_found]

/-- The rest of the document ends with the end of a line. -/
theorem whole_ne_rest (root : XMLNode) (place : Nat) :
    wholeText root ≠ (XML_HEADLINE ++ getNodeText root).drop place := by
  intro same
  obtain ⟨before, shape⟩ := List.drop_suffix place (XML_HEADLINE ++ getNodeText root)
  have parts : (before ++ (frontText root ++ chr '<' :: chr '/' :: root.m_NodeName)) ++ [chr '>'] =
      (XML_HEADLINE ++ wholeText root) ++ [chr '\n'] := by
    rw [← same, getNodeText_eq, ← List.append_assoc] at shape
    rw [← shape, wholeText, stopText]
    simp
  exact absurd (List.append_inj_right' parts rfl) (by decide)

section Root

variable {root : XMLNode} (unmarked : ∀ inner ∈ allNodes [root], Unmarked inner)

include unmarked

theorem root_unmarked : Unmarked root := unmarked root (by rw [allNodes_cons]; exact List.mem_cons_self)

theorem frontText_closed : Closed (chr '<') (chr '>') (frontText root) := by
  have own := root_unmarked unmarked
  have inside : ∀ inner ∈ allNodes root.m_Nodes, Unmarked inner := fun inner member =>
    unmarked inner (by rw [allNodes_cons]; simp [member])
  exact ((openingText_closed own).append (getNodesText_closed _ inside)).append
    (closed_of_absent (indent_plain root))

/-- The first closing tag is the root's own, or is in front of that. -/
theorem stop_place_iff : findIn (stopText root.m_NodeName) (XML_HEADLINE ++ getNodeText root) =
      some (XML_HEADLINE.length + (frontText root).length) ↔
    ¬ stopText root.m_NodeName <:+: frontText root := by
  have filled : stopText root.m_NodeName ≠ [] := List.cons_ne_nil _ _
  rw [findIn_eq_some_iff filled, getNodeText_front]
  constructor
  · rintro ⟨-, first⟩ ⟨before, after, parts⟩
    have size := congrArg List.length parts
    rw [List.length_append, List.length_append, stopText, List.length_cons] at size
    apply first (XML_HEADLINE.length + before.length) (by omega)
    have shape : XML_HEADLINE ++ (frontText root ++ (stopText root.m_NodeName ++ [chr '\n'])) =
        (XML_HEADLINE ++ before) ++ (stopText root.m_NodeName ++
          (after ++ (stopText root.m_NodeName ++ [chr '\n']))) := by
      rw [← parts]
      simp
    rw [shape, ← List.length_append, List.drop_left]
    exact List.prefix_append _ _
  · intro absent
    constructor
    · rw [← List.append_assoc, ← List.length_append, List.drop_left]
      exact List.prefix_append _ _
    · intro earlier before begins
      rcases Nat.lt_or_ge earlier XML_HEADLINE.length with inside | behind
      · obtain rfl := place_of_begins inside begins
        obtain ⟨rest, shape, -⟩ := headline_once
        rw [List.drop_zero, shape, stopText, List.cons_append, List.cons_append, List.cons_prefix_cons,
          List.cons_prefix_cons] at begins
        exact absurd begins.2.1 (by decide)
      · rw [List.drop_append, List.drop_eq_nil_of_le behind, List.nil_append] at begins
        have single : chr '>' ∉ chr '/' :: root.m_NodeName := by
          simp only [List.mem_cons, not_or]
          exact ⟨by decide, notMem_name (root_unmarked unmarked).name _ (by decide)⟩
        exact absent (infix_of_begins (frontText_closed unmarked) single (by omega) begins)

theorem start_place_iff : findIn (chr '<' :: root.m_NodeName) (XML_HEADLINE ++ getNodeText root) =
      some XML_HEADLINE.length ↔
    chr '<' :: root.m_NodeName <+: getNodeText root ∧ ¬ chr '<' :: root.m_NodeName <+: XML_HEADLINE := by
  rw [findIn_eq_some_iff (List.cons_ne_nil _ _), List.drop_left]
  refine and_congr_right fun _ => ⟨fun first head => ?_, fun headless earlier inside begins => ?_⟩
  · exact first 0 (by rw [headline_length]; decide) (head.trans (List.prefix_append _ _))
  · obtain rfl := place_of_begins inside begins
    have ends : chr '>' ∈ XML_HEADLINE := by rw [headline_eq]; simp
    have without : chr '>' ∉ chr '<' :: root.m_NodeName := by
      simp only [List.mem_cons, not_or]
      exact ⟨by decide, notMem_name (root_unmarked unmarked).name _ (by decide)⟩
    exact headless (begins_of_append begins ends without)

/-- A tag is not the head line: that has quotes, and does not end with one. -/
theorem tagLine_ne_headTag : tagLine root ≠ headTag := by
  intro same
  obtain ⟨-, quoted, last⟩ := headTag_marks
  have own := root_unmarked unmarked
  rcases List.eq_nil_or_concat root.m_Property with none_left | ⟨init, property, ends⟩
  · rw [← same, tagLine, none_left, List.flatMap_nil, List.append_nil, List.mem_cons] at quoted
    rcases quoted with mark | named
    · exact absurd mark (by decide)
    · exact notMem_name own.name doubleQuote (by decide) named
  · rw [← same, tagLine, ends, List.concat_eq_append, List.flatMap_append, List.flatMap_singleton,
      propertyText, ← List.append_assoc, ← List.append_assoc, ← List.cons_append, List.getLast?_concat,
      Option.some.injEq] at last
    exact absurd last (by decide)

theorem not_whole_at_head : ¬ wholeText root <+: XML_HEADLINE ++ getNodeText root := by
  intro begins
  obtain ⟨rest, head, -⟩ := headline_once
  have tabs : repeatchar (chr '\t') root.m_Depth = [] ∨
      ∃ more, repeatchar (chr '\t') root.m_Depth = chr '\t' :: more := by
    unfold repeatchar
    cases root.m_Depth.toNat with
    | zero => exact .inl rfl
    | succ n => exact .inr ⟨_, List.replicate_succ⟩
  rw [wholeText, frontText, openingText_eq] at begins
  by_cases noted : root.m_Note = []
  · rcases tabs with flush | ⟨more, indented⟩
    · obtain ⟨after, shape⟩ := begins
      rw [noteText, if_neg (not_not.mpr noted), flush, headline_eq] at shape
      simp only [List.nil_append, List.append_assoc, List.cons_append] at shape
      exact tagLine_ne_headTag unmarked
        (cut_unique (tagLine_open (root_unmarked unmarked)) headTag_marks.1 shape).1
    · rw [noteText, if_neg (not_not.mpr noted), indented, head] at begins
      exact absurd (List.cons_prefix_cons.mp begins).1 (by decide)
  · rw [noteText, if_pos noted, head] at begins
    rcases tabs with flush | ⟨more, indented⟩
    · rw [flush, XML_NOTE_BEGIN_TAG] at begins
      have second := (List.cons_prefix_cons.mp begins).2
      exact absurd (List.cons_prefix_cons.mp second).1 (by decide)
    · rw [indented] at begins
      exact absurd (List.cons_prefix_cons.mp begins).1 (by decide)

theorem alone_iff : ¬ stopText root.m_NodeName <:+: frontText root ↔
    ¬ stopText root.m_NodeName <:+: root.m_Note ∧
      ∀ inner ∈ allNodes root.m_Nodes, ¬ Closes root.m_NodeName inner := by
  rw [stop_in_frontText_iff (root_unmarked unmarked).name unmarked, not_or]
  simp only [not_exists, not_and]

/-- The root is handed on whole if and only if it can be cut out. -/
theorem rootText_whole_iff : rootText (cString (XML_HEADLINE ++ getNodeText root)) root.m_NodeName =
    some (some (wholeText root)) ↔ Cuttable root := by
  obtain ⟨stop, stop_found, stop_le⟩ := stop_place_le root
  obtain ⟨start, start_found, start_le⟩ := start_place_le root
  have buffer (clean : (0 : UInt8) ∉ wholeText root) :
      cString (XML_HEADLINE ++ getNodeText root) = XML_HEADLINE ++ getNodeText root := by
    refine cString_of_text _ ?_
    simp only [getNodeText_eq, List.mem_append, List.mem_singleton, not_or]
    exact ⟨headline_clean, clean, by decide⟩
  have size : (wholeText root).length = (frontText root).length + (stopText root.m_NodeName).length := by
    rw [wholeText, List.length_append]
  have long : (XML_HEADLINE ++ getNodeText root).length =
      XML_HEADLINE.length + (wholeText root).length + 1 := by
    rw [getNodeText_eq, List.length_append, List.length_append, List.length_singleton, Nat.add_assoc]
  constructor
  · intro cut
    have clean : (0 : UInt8) ∉ wholeText root := by
      have read : wholeText root <:+: cString (XML_HEADLINE ++ getNodeText root) := by
        simp only [rootText, Option.bind_eq_bind, Option.pure_def] at cut
        split_ifs at cut
        · cases Option.some.inj cut
        · obtain ⟨sNodeText, read, shape⟩ := Option.bind_eq_some_iff.mp cut
          rw [Option.some.injEq, Option.some.injEq] at shape
          exact shape ▸ substr_within read
      exact fun zero => cString_clean _ (read.subset zero)
    rw [buffer clean, rootText_eq start_found stop_found] at cut
    split_ifs at cut with closed
    · cases Option.some.inj cut
    · obtain ⟨sNodeText, read, shape⟩ := Option.map_eq_some_iff.mp cut
      obtain rfl := Option.some.inj shape
      obtain ⟨nonneg, -⟩ := substr_begins read
      obtain ⟨inside, cut_size⟩ := substr_inner read (whole_ne_rest root)
      rw [long] at inside
      -- what is cut has the length of the whole text, so it begins and ends where that does
      obtain ⟨start_eq, near, stop_at⟩ := cut_places (headline_length ▸ by decide) size start_le stop_le
        nonneg inside cut_size
      have start_place : start = XML_HEADLINE.length := by
        rcases Nat.lt_or_eq_of_le near with inside | same
        · have begins := ((findIn_eq_some_iff (List.cons_ne_nil _ _) start).mp start_found).1
          obtain rfl := place_of_begins inside begins
          have whole := (substr_begins read).2
          rw [start_eq] at whole
          exact absurd whole (not_whole_at_head unmarked)
        · exact same
      obtain ⟨stop_place, short⟩ := stop_at start_place
      rw [start_place] at start_found
      rw [stop_place] at stop_found
      obtain ⟨begins, headless⟩ := (start_place_iff unmarked).mp start_found
      obtain ⟨noted, alone⟩ := (alone_iff unmarked).mp ((stop_place_iff unmarked).mp stop_found)
      exact ⟨begins, headless, noted, alone, clean, short⟩
  · intro cuttable
    rw [buffer cuttable.clean]
    have stop_eq := (stop_place_iff unmarked).mpr ((alone_iff unmarked).mpr ⟨cuttable.noted, cuttable.alone⟩)
    have start_eq := (start_place_iff unmarked).mpr ⟨cuttable.begins, cuttable.headless⟩
    have short := cuttable.short
    rw [rootText_eq start_eq stop_eq, toInt_of_small (by omega) (by omega : (XML_HEADLINE.length : Int) < _),
      toInt_of_small (by omega) (by omega), if_neg (by omega), toInt_of_small (by omega) (by omega)]
    have parts : XML_HEADLINE ++ getNodeText root = XML_HEADLINE ++ (wholeText root ++ [chr '\n']) := by
      rw [getNodeText_eq]
    rw [substr_eq parts rfl (by omega)]
    rfl

end Root

end EChainLib.Config.XmlText
