import EChainLib.Config.XmlWriting
import EChainLib.Config.XmlLength

/-! What the constructor of `XMLNode` gives for the text that `GetNodeText` has written. -/

namespace EChainLib.Config.XmlText

open EChainLib.Keys (Bytes cString text)
open EChainLib.Strings
open EChainLib.Tags (Forest Tag children starts)

/-! The round trip. -/

theorem propertyAt_within {s : Bytes} {ieqpos : Int} {found : List Property}
    (read : propertyAt s ieqpos = some found) : ∀ property ∈ found, property.PropertyValue <:+: s := by
  simp only [propertyAt, Option.bind_eq_bind, Option.pure_def] at read
  split_ifs at read
  · obtain ⟨name, -, read⟩ := Option.bind_eq_some_iff.mp read
    obtain ⟨value, value_read, shape⟩ := Option.bind_eq_some_iff.mp read
    rw [Option.some.injEq] at shape
    subst shape
    simpa using substr_within value_read
  · obtain ⟨name, -, shape⟩ := Option.bind_eq_some_iff.mp read
    rw [Option.some.injEq] at shape
    subst shape
    simp
  · rw [Option.some.injEq] at read
    subst read
    simp

theorem propertiesFrom_within (fuel : Nat) {s : Bytes} {ieqpos : Int} {found : List Property}
    (read : propertiesFrom s fuel ieqpos = some found) :
    ∀ property ∈ found, property.PropertyValue <:+: s := by
  induction fuel generalizing ieqpos found with
  | zero => cases read
  | succ fuel ih =>
      simp only [propertiesFrom, Option.bind_eq_bind, Option.pure_def] at read
      split_ifs at read
      · obtain ⟨first, first_read, read⟩ := Option.bind_eq_some_iff.mp read
        obtain ⟨more, more_read, shape⟩ := Option.bind_eq_some_iff.mp read
        rw [Option.some.injEq] at shape
        subst shape
        intro property member
        rcases List.mem_append.mp member with here | later
        · exact propertyAt_within first_read property here
        · exact ih more_read property later
      · rw [Option.some.injEq] at read
        subst read
        simp

theorem propertiesOf_within {s : Bytes} {iNoteEnd : Int} {found : List Property}
    (read : propertiesOf s iNoteEnd = some found) :
    ∀ property ∈ found, property.PropertyValue <:+: s := by
  simp only [propertiesOf, Option.bind_eq_bind] at read
  obtain ⟨line, line_read, read⟩ := Option.bind_eq_some_iff.mp read
  intro property member
  exact (propertiesFrom_within _ read property member).trans (substr_within line_read)

theorem contentOf_within {s content : Bytes} {iNoteEnd next : Int}
    (read : contentOf s iNoteEnd = some (content, next)) : content <:+: s := by
  simp only [contentOf, Option.bind_eq_bind, Option.pure_def] at read
  obtain ⟨part, part_read, shape⟩ := Option.bind_eq_some_iff.mp read
  rw [Option.some.injEq, Prod.mk.injEq] at shape
  exact shape.1 ▸ substr_within part_read

/-- Everything read is free of layout. -/
theorem quiet_of_read (fuel : Nat) :
    (∀ text v_Depth node, xmlNode fuel text v_Depth = some node →
      ∀ label ∈ (forest [node]).labels, (∀ byte ∈ label.content, Quiet byte) ∧
        ∀ property ∈ label.properties, ∀ byte ∈ property.PropertyValue, Quiet byte) ∧
    (∀ s m_Depth pos nodes, childNodes fuel s m_Depth pos = some nodes →
      ∀ label ∈ (forest nodes).labels, (∀ byte ∈ label.content, Quiet byte) ∧
        ∀ property ∈ label.properties, ∀ byte ∈ property.PropertyValue, Quiet byte) := by
  induction fuel with
  | zero =>
      constructor
      · intro _ _ _ read
        cases read
      · intro _ _ _ _ read
        cases read
  | succ fuel ih =>
      obtain ⟨node_ih, nodes_ih⟩ := ih
      constructor
      · intro text v_Depth node read
        simp only [xmlNode, Option.bind_eq_bind, Option.bind_eq_some_iff, Prod.exists,
          Option.pure_def, Option.some.injEq] at read
        obtain ⟨s, s_read, _, _, _, _, _, _, content, _, content_read, properties, properties_read,
          nodes, nodes_read, rfl⟩ := read
        have quiet := quiet_of_readable s_read
        have below := nodes_ih s v_Depth _ nodes nodes_read
        intro other member
        rw [forest_cons] at member
        simp only [Forest.labels, forest_nil, List.append_nil, List.mem_cons] at member
        rcases member with rfl | deeper
        · refine ⟨fun byte held => quiet byte ((contentOf_within content_read).subset held), ?_⟩
          intro property held byte inside
          exact quiet byte ((propertiesOf_within properties_read property held).subset inside)
        · exact below other deeper
      · intro s m_Depth pos nodes read
        simp only [childNodes, Option.bind_eq_bind, Option.bind_eq_some_iff] at read
        obtain ⟨found, -, read⟩ := read
        cases found with
        | none =>
            simp only [Option.pure_def, Option.some.injEq] at read
            subst read
            simp [Forest.labels]
        | some child =>
            simp only [Option.bind_eq_some_iff, Option.pure_def, Option.some.injEq] at read
            obtain ⟨node, node_read, rest, rest_read, rfl⟩ := read
            intro other member
            rw [forest_cons] at member
            simp only [Forest.labels, List.mem_cons, List.mem_append] at member
            rcases member with own | below | beside
            · exact node_ih _ _ _ node_read other (by simp [Forest.labels, own])
            · exact node_ih _ _ _ node_read other (by simp [Forest.labels, below])
            · exact nodes_ih _ _ _ _ rest_read other beside

/-- The constructor gives nodes like the one written, and no notes. -/
def RoundTrips (node : XMLNode) (v_Depth : Int) : Prop :=
  ∃ fuel result, xmlNode fuel (getNodeText node) v_Depth = some result ∧
    Noteless [result] ∧ forest [result] = forest [node]

/-- A label that is read as it was written. -/
structure Faithful (label : Label) : Prop where
  content : ∀ byte ∈ label.content, byte ≠ 0 ∧ byte ≠ chr '\r'
  values : ∀ property ∈ label.properties, ∀ byte ∈ property.PropertyValue, byte ≠ 0 ∧ byte ≠ chr '\r'
  signs : ∀ property ∈ label.properties.dropLast, chr '=' ∉ property.PropertyValue
  no_note : ¬ NoteLike label

instance (label : Label) : Decidable (Faithful label) :=
  decidable_of_iff ((∀ byte ∈ label.content, byte ≠ 0 ∧ byte ≠ chr '\r') ∧
      (∀ property ∈ label.properties, ∀ byte ∈ property.PropertyValue,
        byte ≠ 0 ∧ byte ≠ chr '\r') ∧
      (∀ property ∈ label.properties.dropLast, chr '=' ∉ property.PropertyValue) ∧ ¬ NoteLike label)
    ⟨fun ⟨content, values, signs, no_note⟩ => ⟨content, values, signs, no_note⟩,
      fun ⟨content, values, signs, no_note⟩ => ⟨content, values, signs, no_note⟩⟩

/-- A node that comes back. -/
structure Restored (node : XMLNode) : Prop where
  sound : Tags.Sound Label.name (forest node.m_Nodes)
  faithful : ∀ label ∈ (forest [node]).labels, Faithful label

theorem quiet_of_allowed {label : Label} (allowed : label.Allowed)
    (content : ∀ byte ∈ label.content, byte ≠ 0 ∧ byte ≠ chr '\r')
    (values : ∀ property ∈ label.properties, ∀ byte ∈ property.PropertyValue,
      byte ≠ 0 ∧ byte ≠ chr '\r') : QuietLabel label := by
  have name_quiet : ∀ byte, NameByte byte → Quiet byte := by
    rintro byte ⟨above, -⟩
    refine ⟨?_, ?_, ?_, ?_⟩
    all_goals
      rintro rfl
      exact absurd above (by decide)
  intro byte member
  simp only [tagText, attributes, List.mem_cons, List.mem_append, List.mem_flatMap] at member
  rcases member with rfl | named | ⟨property, held, inside⟩ | rfl | written
  · decide
  · exact name_quiet byte (allowed.name byte named)
  · simp only [propertyText, List.mem_cons, List.mem_append, List.not_mem_nil, or_false] at inside
    rcases inside with (((rfl | named) | rfl | rfl) | valued) | rfl
    · decide
    · exact name_quiet byte (allowed.properties property held byte named)
    · decide
    · decide
    · have text := allowed.values property held byte valued
      have kept := values property held byte valued
      exact ⟨kept.1, text.2.2.2.1, kept.2, text.2.2.2.2⟩
    · decide
  · decide
  · have text := allowed.content byte written
    have kept := content byte written
    exact ⟨kept.1, text.2.2.2.1, kept.2, text.2.2.2.2⟩

theorem xmlNode_of_readable {text s : Bytes} (read : readable text = some s) (fuel : Nat)
    (v_Depth : Int) : xmlNode fuel text v_Depth = xmlNode fuel s v_Depth := by
  cases fuel with
  | zero => rfl
  | succ fuel => simp only [xmlNode, read, readable_again read]

/-- The tags of a forest are those of its labels. -/
theorem tag_of_label {forest : Forest Label} {tag : Tag Label Bytes}
    (member : tag ∈ Tags.tags Label.name forest) :
    ∃ label ∈ forest.labels, tag = .start label ∨ tag = .stop label.name := by
  induction forest with
  | nil => simp [Tags.tags] at member
  | node own below beside below_tags beside_tags =>
      simp only [Tags.tags, Forest.labels, List.mem_cons, List.mem_append] at member ⊢
      rcases member with rfl | inside | rfl | next
      · exact ⟨own, .inl rfl, .inl rfl⟩
      · obtain ⟨label, held, kind⟩ := below_tags inside
        exact ⟨label, .inr (.inl held), kind⟩
      · exact ⟨own, .inl rfl, .inr rfl⟩
      · obtain ⟨label, held, kind⟩ := beside_tags next
        exact ⟨label, .inr (.inr held), kind⟩

theorem proper_of_allowed {forest : Forest Label} (allowed : ∀ label ∈ forest.labels, label.Allowed) :
    ∀ tag ∈ Tags.tags Label.name forest, Proper tag := by
  intro tag member
  obtain ⟨label, held, rfl | rfl⟩ := tag_of_label member
  · exact allowed label held
  · exact ⟨(allowed label held).named, (allowed label held).name⟩

theorem quiet_of_labels {forest : Forest Label} (quiet : ∀ label ∈ forest.labels, QuietLabel label) :
    ∀ byte ∈ render (Tags.tags Label.name forest), Quiet byte := by
  intro byte member
  obtain ⟨tag, tag_member, inside⟩ := List.mem_flatMap.mp member
  obtain ⟨label, held, rfl | rfl⟩ := tag_of_label tag_member
  · exact quiet label held byte inside
  · exact quiet_stop (quiet label held) byte inside

/-- The tags behind the first. -/
def rowOf (node : XMLNode) : List (Tag Label Bytes) :=
  Tags.tags Label.name (forest node.m_Nodes) ++ [.stop node.m_NodeName]

theorem tags_node (node : XMLNode) :
    Tags.tags Label.name (forest [node]) = .start (label node) :: rowOf node := by
  simp [Tags.tags, rowOf, label]

section Written
variable {node : XMLNode} (noteless : Noteless [node])
  (allowed : ∀ label ∈ (forest [node]).labels, label.Allowed)
  (quiet : ∀ label ∈ (forest [node]).labels, QuietLabel label)
  (short : (getNodeText node).length + 1 < 2 ^ 31)
include noteless quiet

theorem filter_getNodeText :
    (getNodeText node).filter keeps = render (.start (label node) :: rowOf node) := by
  have text := filter_getNodesText [node] noteless quiet
  rw [tags_node] at text
  simpa [getNodesText] using text

include allowed short

theorem wellFormed_node : WellFormed (label node) (rowOf node) := by
  refine ⟨?_, by simp [rowOf, label], ?_, ?_⟩
  · rw [← tags_node]
    exact proper_of_allowed allowed
  · rw [← tags_node]
    exact quiet_of_labels quiet
  · rw [← filter_getNodeText noteless quiet]
    have fewer := List.length_filter_le keeps (getNodeText node)
    omega

/-- What is read of a written text. -/
theorem readable_getNodeText :
    readable (getNodeText node) = some (render (.start (label node) :: rowOf node)) := by
  have formed := wellFormed_node noteless allowed quiet short
  have kept := filter_getNodeText noteless quiet
  have whole : cString (render (.start (label node) :: rowOf node)) =
      render (.start (label node) :: rowOf node) := by
    refine List.takeWhile_eq_self_iff.mpr fun byte member => ?_
    simpa using (formed.quiet byte member).1
  rw [readable_of_short short]
  exact congrArg some ((congrArg cString kept).trans whole)

/-- The written text is read as the row of its tags. -/
theorem xmlNode_getNodeText (fuel : Nat) (v_Depth : Int) :
    xmlNode fuel (getNodeText node) v_Depth =
      xmlNode fuel (render (.start (label node) :: rowOf node)) v_Depth :=
  xmlNode_of_readable (readable_getNodeText noteless allowed quiet short) fuel v_Depth

end Written

/-- The length of a text as an `Int32` is that of a part of it. -/
theorem readable_cut {text s : Bytes} (read : readable text = some s)
    (long : 2 ^ 31 ≤ text.length + 1) : ∃ len, len + 1 < 2 ^ 31 ∧ len + 2 ^ 32 ≤ text.length ∧
      s = cString ((text.take len).filter keeps) := by
  have narrowed : (Int32.ofNat text.length).toInt = Int.bmod text.length (2 ^ 32) :=
    Int32.toInt_ofNat'
  simp only [readable] at read
  split_ifs at read with fits
  rw [narrowed] at fits read
  refine ⟨(Int.bmod text.length (2 ^ 32)).toNat, by omega, ?_, (Option.some.inj read).symm⟩
  have same : Int.bmod text.length (2 ^ 32) % (2 ^ 32 : Nat) = text.length % (2 ^ 32 : Nat) :=
    Int.bmod_emod
  omega

/-- A row that lacks something of its last start tag, or of the content behind that, does not give
nodes for all of its start tags. -/
theorem not_read_of_cut {init : List (Tag Label Bytes)} {last : Label}
    (proper : ∀ tag ∈ init ++ [.start last], Proper tag) {s w : Bytes}
    (parts : s ++ w = render (init ++ [.start last])) (some_left : w ≠ [])
    (whole : readable s = some s) {fuel : Nat} {v_Depth : Int} {result : XMLNode}
    (read : xmlNode fuel s v_Depth = some result) (noteless : Noteless [result])
    (allowed : ∀ label ∈ (forest [result]).labels, label.Allowed) :
    (forest [result]).labels ≠ starts (init ++ [.start last]) := by
  intro same
  have begins : [chr '<'] <+: s := by
    cases s with
    | nil =>
        rw [xmlNode_empty] at read
        cases read
    | cons byte rest =>
        have first : (render (init ++ [.start last])).head? = some (chr '<') := by
          cases init with
          | nil => rfl
          | cons tag _ => cases tag <;> rfl
        rw [← parts] at first
        exact ⟨rest, by simpa using first.symm⟩
  have no_end : ¬ XML_NOTE_END_TAG <:+: s := fun inside =>
    no_note_end _ proper (inside.trans (parts ▸ (List.prefix_append s w).isInfix))
  have enough := (weight_of_read fuel).1 s v_Depth result whole begins no_end read noteless allowed
  have less := weight_cut proper parts some_left
  rw [same] at enough
  omega

/-- A text that is too long is not read back: what is read of it lacks something of the last
start tag or the content behind that. -/
theorem short_of_read {node : XMLNode} (noteless : Noteless [node])
    (allowed : ∀ label ∈ (forest [node]).labels, label.Allowed)
    (quiet : ∀ label ∈ (forest [node]).labels, QuietLabel label) {fuel : Nat} {v_Depth : Int}
    {result : XMLNode} (read : xmlNode fuel (getNodeText node) v_Depth = some result)
    (result_noteless : Noteless [result]) (same : forest [result] = forest [node]) :
    (getNodeText node).length + 1 < 2 ^ 31 := by
  by_contra long
  cases fuel with
  | zero => cases read
  | succ fuel =>
      obtain ⟨front, left, init, last, cut⟩ :=
        exists_cutAtLast [node] noteless quiet (List.cons_ne_nil _ _)
      have parts : getNodeText node = front ++ left := by simpa [getNodesText] using cut.parts
      cases readable_read : readable (getNodeText node) with
      | none => simp [xmlNode, readable_read] at read
      | some s =>
          obtain ⟨len, small, wrapped, s_eq⟩ := readable_cut readable_read (Nat.le_of_not_lt long)
          have size := congrArg List.length parts
          have left_short := cut.short
          rw [List.length_append] at size
          -- otherwise the text is at most three times as long as what is read of it
          have inside : len < front.length := by omega
          obtain ⟨after, row, only⟩ := cut.row
          obtain ⟨most, byte, ended, kept⟩ := cut.ends
          have proper : ∀ tag ∈ init ++ [.start last], Proper tag := fun tag member =>
            proper_of_allowed allowed tag (row ▸ List.mem_append_left _ member)
          have labels : starts (init ++ [.start last]) = (forest [node]).labels := by
            rw [← Tags.starts_tags Label.name, row, Tags.starts_append _ after, only, List.append_nil]
          -- what is kept of the part read, and of the rest of the front
          have split : (front.take len).filter keeps ++ (front.drop len).filter keeps =
              render (init ++ [.start last]) := by
            rw [← List.filter_append, List.take_append_drop, cut.written]
          have read_part : (getNodeText node).take len = front.take len := by
            rw [parts, List.take_append_of_le_length inside.le]
          have some_left : (front.drop len).filter keeps ≠ [] := by
            have last_byte : byte ∈ front.drop len := by
              have inner : len ≤ most.length := by
                rw [ended, List.length_append, List.length_singleton] at inside
                omega
              rw [ended, List.drop_append_of_le_length inner]
              exact List.mem_append_right _ List.mem_cons_self
            exact List.ne_nil_of_mem (List.mem_filter.mpr ⟨last_byte, kept⟩)
          have quiet_part : ∀ byte ∈ (front.take len).filter keeps, Quiet byte := by
            intro byte member
            have written : byte ∈ render (Tags.tags Label.name (forest [node])) := by
              rw [row, render_append, ← split]
              exact List.mem_append_left _ (List.mem_append_left _ member)
            exact quiet_of_labels quiet byte written
          have s_part : s = (front.take len).filter keeps := by
            rw [s_eq, read_part]
            exact List.takeWhile_eq_self_iff.mpr fun byte member => by
              simpa using (quiet_part byte member).1
          rw [xmlNode_of_readable readable_read] at read
          refine not_read_of_cut proper (s_part ▸ split) some_left (readable_again readable_read) read
            result_noteless ?_ ?_
          · rw [same]
            exact allowed
          · rw [same, labels]

/-- The text of a tree without notes is read back if and only if no byte of it is dropped, no
start tag looks like a note, an `=` in a value has no property behind it, and the tag that is
taken for the end of a node leaves none out. -/
theorem xml_round_trip_iff (node : XMLNode) (noteless : Noteless [node])
    (allowed : ∀ label ∈ (forest [node]).labels, label.Allowed) (v_Depth : Int) :
    RoundTrips node v_Depth ↔ Restored node ∧ (getNodeText node).length + 1 < 2 ^ 31 := by
  constructor
  · rintro ⟨fuel, result, read, result_noteless, same⟩
    have kept := (quiet_of_read fuel).1 _ _ _ read
    rw [same] at kept
    have quiet : ∀ label ∈ (forest [node]).labels, QuietLabel label := fun label member =>
      quiet_of_allowed (allowed label member)
        (fun byte held => ⟨((kept label member).1 byte held).1, ((kept label member).1 byte held).2.2.1⟩)
        fun property held byte inside => ⟨((kept label member).2 property held byte inside).1,
          ((kept label member).2 property held byte inside).2.2.1⟩
    have short := short_of_read noteless allowed quiet read result_noteless same
    have formed := wellFormed_node noteless allowed quiet short
    rw [xmlNode_getNodeText noteless allowed quiet short] at read
    obtain ⟨shape, plain⟩ := (read_of_tags fuel).1 _ _ _ _ formed read result_noteless
    rw [same, forest_cons, Forest.map, forest_nil, Forest.map] at shape
    injection shape with own_heard below_heard
    obtain ⟨sound, fixed⟩ :=
      (Tags.read_map_iff heard (forest node.m_Nodes) [.stop node.m_NodeName] rfl).mp below_heard.symm
    have below_read : children Label.name (rowOf node) = forest node.m_Nodes :=
      (Tags.children_tags_of_sound _ sound).1 _ rfl
    rw [below_read] at plain
    have all_labels : ∀ label ∈ (forest [node]).labels, heard label = label ∧ ¬ NoteLike label := by
      intro other member
      refine ⟨?_, plain other (by simpa [Forest.labels] using member)⟩
      rcases (by simpa [Forest.labels] using member : other = label node ∨ _) with rfl | below
      · exact own_heard.symm
      · exact fixed other below
    refine ⟨⟨sound, fun label member => ⟨?_, ?_, ?_, (all_labels label member).2⟩⟩, short⟩
    · exact fun byte held => ⟨((kept label member).1 byte held).1, ((kept label member).1 byte held).2.2.1⟩
    · exact fun property held byte inside => ⟨((kept label member).2 property held byte inside).1,
        ((kept label member).2 property held byte inside).2.2.1⟩
    · rw [← strays_eq_zero_iff, ← heard_eq_iff (allowed label member)]
      exact (all_labels label member).1
  · rintro ⟨⟨sound, faithful⟩, short⟩
    have quiet : ∀ label ∈ (forest [node]).labels, QuietLabel label := fun label member =>
      quiet_of_allowed (allowed label member) (faithful label member).content
        (faithful label member).values
    have fixed : ∀ label ∈ (forest [node]).labels, heard label = label := fun label member =>
      (heard_eq_iff (allowed label member)).mpr
        ((strays_eq_zero_iff _).mpr (faithful label member).signs)
    have formed := wellFormed_node noteless allowed quiet short
    simp only [forest_cons, Forest.labels, forest_nil, List.append_nil, List.mem_cons] at faithful fixed
    have row_starts : starts (rowOf node) = (forest node.m_Nodes).labels := by
      simp [rowOf, starts]
    obtain ⟨result, read, result_noteless⟩ :=
      (read_exists (2 * (rowOf node).length + 2)).1 (label node) (rowOf node) v_Depth formed
        (fun other member => (faithful other (by simpa [row_starts] using member)).no_note) le_rfl
    refine ⟨2 * (rowOf node).length + 2, result, ?_, result_noteless, ?_⟩
    · rw [xmlNode_getNodeText noteless allowed quiet short]
      exact read
    · have shape := ((read_of_tags _).1 _ _ _ _ formed read result_noteless).1
      have below_read := (Tags.read_map_iff heard (forest node.m_Nodes) [.stop node.m_NodeName] rfl).mpr
        ⟨sound, fun other member => fixed other (.inr member)⟩
      rw [shape, Forest.map, fixed _ (.inl rfl), forest_cons]
      exact congrArg (Forest.node (label node) · .nil) below_read

def element (name content : String) (properties : List (String × String)) (nodes : List XMLNode) :
    XMLNode where
  m_Note := []
  m_NodeName := text name
  m_Content := text content
  m_NodeType := 0
  m_Depth := 0
  m_Property := properties.map fun (name, value) => ⟨text name, text value⟩
  m_Nodes := nodes

/-- Two children of one name, and below the last of them one more. -/
def sampleNode : XMLNode :=
  element "root" "a = b" [("p", "x y"), ("q", "u=v")]
    [element "item" "1" [] [], element "item" "" [("id", "2")] [element "item" "/" [] []]]

theorem xml_round_trip_iff_applies : RoundTrips sampleNode 3 := by
  have read := xml_round_trip_iff sampleNode ⟨⟨rfl, ⟨rfl, trivial⟩, ⟨rfl, ⟨rfl, trivial⟩, trivial⟩,
    trivial⟩, trivial⟩ (by decide +kernel) 3
  exact read.mpr ⟨⟨by decide +kernel, by decide +kernel⟩, by decide +kernel⟩

/-- A child with a child of its own name, and one behind that. -/
def namesakes : XMLNode :=
  element "root" "" [] [element "item" "" [] [element "item" "" [] [], element "note" "" [] []]]

/-- The end tag of the inner node is taken for that of the outer one, and the other becomes a child
of the root. -/
theorem child_behind_namesake_moved :
    Noteless [namesakes] ∧ (∀ label ∈ (forest [namesakes]).labels, label.Allowed) ∧
      ¬ RoundTrips namesakes 0 := by
  refine ⟨⟨⟨rfl, ⟨rfl, ⟨rfl, trivial⟩, ⟨rfl, trivial⟩, trivial⟩, trivial⟩, trivial⟩,
    by decide +kernel, ?_⟩
  rintro ⟨fuel, result, read, -, same⟩
  have other : (xmlNode 20 (getNodeText namesakes) 0).map (fun node => forest [node]) ≠
      some (forest [namesakes]) ∧ (xmlNode 20 (getNodeText namesakes) 0).isSome := by
    decide +kernel
  obtain ⟨node, node_read⟩ := Option.isSome_iff_exists.mp other.2
  apply other.1
  rw [node_read, xmlNode_unique node_read read, Option.map_some, same]

end EChainLib.Config.XmlText
