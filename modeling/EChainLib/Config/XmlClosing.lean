import EChainLib.Support.Brackets
import EChainLib.Config.XmlWriting

/-! Where a closing tag occurs in the text that `GetNodeText` writes. -/

namespace EChainLib.Config.XmlText

open EChainLib.Keys (Bytes)
open EChainLib.Strings (cut_unique)
open EChainLib.Brackets

mutual

/-- A node and those below it. -/
def nodesOf : XMLNode → List XMLNode
  | ⟨m_Note, m_NodeName, m_Content, m_NodeType, m_Depth, m_Property, m_Nodes⟩ =>
      ⟨m_Note, m_NodeName, m_Content, m_NodeType, m_Depth, m_Property, m_Nodes⟩ :: allNodes m_Nodes

def allNodes : List XMLNode → List XMLNode
  | [] => []
  | node :: rest => nodesOf node ++ allNodes rest

end

theorem allNodes_cons (node : XMLNode) (rest : List XMLNode) :
    allNodes (node :: rest) = node :: (allNodes node.m_Nodes ++ allNodes rest) := by
  cases node
  rfl

/-- Names without markup, and no tags in contents and values. A note may hold anything. -/
structure Unmarked (node : XMLNode) : Prop where
  named : node.m_NodeName ≠ []
  name : ∀ byte ∈ node.m_NodeName, NameByte byte
  properties : ∀ property ∈ node.m_Property, ∀ byte ∈ property.PropertyName, NameByte byte
  values : ∀ property ∈ node.m_Property,
    chr '<' ∉ property.PropertyValue ∧ chr '>' ∉ property.PropertyValue
  content : chr '<' ∉ node.m_Content ∧ chr '>' ∉ node.m_Content

instance (node : XMLNode) : Decidable (Unmarked node) :=
  decidable_of_iff (node.m_NodeName ≠ [] ∧ (∀ byte ∈ node.m_NodeName, NameByte byte) ∧
      (∀ property ∈ node.m_Property, ∀ byte ∈ property.PropertyName, NameByte byte) ∧
      (∀ property ∈ node.m_Property,
        chr '<' ∉ property.PropertyValue ∧ chr '>' ∉ property.PropertyValue) ∧
      chr '<' ∉ node.m_Content ∧ chr '>' ∉ node.m_Content)
    ⟨fun ⟨named, name, properties, values, content⟩ => ⟨named, name, properties, values, content⟩,
      fun ⟨named, name, properties, values, content⟩ => ⟨named, name, properties, values, content⟩⟩

/-- The node writes the closing tag of the name, its own or in its note. -/
def Closes (name : Bytes) (node : XMLNode) : Prop :=
  name = node.m_NodeName ∨ stopText name <:+: node.m_Note

instance (name : Bytes) (node : XMLNode) : Decidable (Closes name node) :=
  inferInstanceAs (Decidable (_ ∨ _))

/-! The text up to the closing tag. -/

/-- The text up to the closing tag. -/
def frontText (node : XMLNode) : Bytes :=
  openingText node ++ getNodesText node.m_Nodes ++ indent node

/-- The text up to the end of the closing tag. -/
def wholeText (node : XMLNode) : Bytes := frontText node ++ stopText node.m_NodeName

theorem getNodeText_eq (node : XMLNode) : getNodeText node = wholeText node ++ [chr '\n'] := by
  cases node
  rw [getNodeText, closingText_eq]
  simp [wholeText, frontText]

theorem getNodeText_front (node : XMLNode) :
    getNodeText node = frontText node ++ (stopText node.m_NodeName ++ [chr '\n']) := by
  rw [getNodeText_eq, wholeText, List.append_assoc]

/-! Marks in the parts. -/

theorem tabs_plain (v_num : Int) : chr '<' ∉ repeatchar (chr '\t') v_num :=
  fun member => absurd (List.eq_of_mem_replicate member) (by decide)

theorem indent_plain (node : XMLNode) : chr '<' ∉ indent node := by
  unfold indent
  split_ifs
  · exact tabs_plain _
  · exact List.not_mem_nil

theorem notMem_name {name : Bytes} (bytes : ∀ byte ∈ name, NameByte byte) (byte : UInt8)
    (other : ¬ NameByte byte) : byte ∉ name := fun member => other (bytes byte member)

theorem contentText_plain {node : XMLNode} (unmarked : Unmarked node) : chr '<' ∉ contentText node := by
  have content := unmarked.content.1
  have tabs := tabs_plain (node.m_Depth + 1)
  unfold contentText
  split_ifs
  · simp only [List.mem_append, List.mem_cons, List.not_mem_nil, or_false, not_or]
    exact ⟨⟨⟨by decide, tabs⟩, content⟩, by decide⟩
  · decide
  · exact content

theorem tagLine_once {node : XMLNode} (unmarked : Unmarked node) :
    chr '<' ∉ node.m_NodeName ++ node.m_Property.flatMap propertyText := by
  have name := notMem_name unmarked.name (chr '<') (by decide)
  simp only [List.mem_append, List.mem_flatMap, not_or, not_exists, not_and]
  refine ⟨name, fun property member => ?_⟩
  have property_name := notMem_name (unmarked.properties property member) (chr '<') (by decide)
  have value := (unmarked.values property member).1
  simp only [propertyText, List.mem_append, List.mem_cons, List.not_mem_nil, or_false, not_or]
  exact ⟨⟨⟨⟨by decide, property_name⟩, by decide, by decide⟩, value⟩, by decide⟩

theorem tagLine_open {node : XMLNode} (unmarked : Unmarked node) : chr '>' ∉ tagLine node := by
  have name := notMem_name unmarked.name (chr '>') (by decide)
  simp only [tagLine, List.mem_cons, List.mem_append, List.mem_flatMap, not_or, not_exists, not_and]
  refine ⟨by decide, name, fun property member => ?_⟩
  have property_name := notMem_name (unmarked.properties property member) (chr '>') (by decide)
  have value := (unmarked.values property member).2
  simp only [propertyText, List.mem_append, List.mem_cons, List.not_mem_nil, or_false, not_or]
  exact ⟨⟨⟨⟨by decide, property_name⟩, by decide, by decide⟩, value⟩, by decide⟩

theorem marks_apart : chr '<' ≠ chr '>' := by decide

theorem noteText_closed (node : XMLNode) : Closed (chr '<') (chr '>') (noteText node) := by
  unfold noteText
  split_ifs with noted
  · have ended := closed_ended marks_apart (repeatchar (chr '\t') node.m_Depth ++ XML_NOTE_BEGIN_TAG ++
      node.m_Note ++ [chr ' ', chr '-', chr '-'])
    have shape : repeatchar (chr '\t') node.m_Depth ++ XML_NOTE_BEGIN_TAG ++ node.m_Note ++
        XML_NOTE_END_TAG = repeatchar (chr '\t') node.m_Depth ++ XML_NOTE_BEGIN_TAG ++
        node.m_Note ++ [chr ' ', chr '-', chr '-'] ++ [chr '>'] := by
      simp [XML_NOTE_END_TAG]
    rw [shape]
    exact ended.append (closed_of_absent (by decide))
  · exact closed_of_absent List.not_mem_nil

theorem openingText_closed {node : XMLNode} (unmarked : Unmarked node) :
    Closed (chr '<') (chr '>') (openingText node) := by
  rw [openingText_eq]
  have tabs : Closed (chr '<') (chr '>') _ := closed_of_absent (tabs_plain node.m_Depth)
  have content : Closed (chr '<') (chr '>') _ := closed_of_absent (contentText_plain unmarked)
  exact (noteText_closed node).append (tabs.append ((closed_ended marks_apart _).append content))

theorem stopText_closed (name : Bytes) : Closed (chr '<') (chr '>') (stopText name) :=
  closed_ended marks_apart (chr '<' :: chr '/' :: name)

theorem closingText_closed (node : XMLNode) : Closed (chr '<') (chr '>') (closingText node) := by
  rw [closingText_eq]
  have tabs : Closed (chr '<') (chr '>') _ := closed_of_absent (indent_plain node)
  exact tabs.append ((stopText_closed _).append (closed_of_absent (by decide)))

theorem getNodesText_closed (nodes : List XMLNode) (unmarked : ∀ inner ∈ allNodes nodes, Unmarked inner) :
    Closed (chr '<') (chr '>') (getNodesText nodes) := by
  induction nodes using nodes_induction with
  | nil => exact closed_of_absent List.not_mem_nil
  | cons node rest below beside =>
      rw [allNodes_cons] at unmarked
      rw [getNodesText_cons]
      have own := openingText_closed (unmarked node List.mem_cons_self)
      have inside := below fun inner member => unmarked inner (by simp [member])
      have after := beside fun inner member => unmarked inner (by simp [member])
      exact ((own.append inside).append (closingText_closed node)).append after

/-! A closing tag in the parts. -/

theorem not_stop_of_plain (name : Bytes) {s : Bytes} (plain : chr '<' ∉ s) : ¬ stopText name <:+: s :=
  not_infix_of_absent plain

theorem stop_in_stop_iff {name : Bytes} (bytes : ∀ byte ∈ name, NameByte byte) {other : Bytes}
    (other_bytes : ∀ byte ∈ other, NameByte byte) : stopText name <:+: stopText other ↔ name = other := by
  constructor
  · intro inside
    have once : chr '<' ∉ chr '/' :: (other ++ [chr '>']) := by
      have absent := notMem_name other_bytes (chr '<') (by decide)
      simp only [List.mem_cons, List.mem_append, List.not_mem_nil, or_false, not_or]
      exact ⟨by decide, absent, by decide⟩
    obtain ⟨rest, shape⟩ := (List.cons_prefix_cons.mp (begins_of_once once inside)).2
    rw [List.append_assoc, List.singleton_append] at shape
    exact (cut_unique (notMem_name bytes _ (by decide)) (notMem_name other_bytes _ (by decide)) shape).1
  · rintro rfl
    exact List.infix_refl _

theorem not_stop_in_tagLine {node : XMLNode} (unmarked : Unmarked node) (name : Bytes) :
    ¬ stopText name <:+: tagLine node ++ [chr '>'] := by
  intro inside
  have once : chr '<' ∉ node.m_NodeName ++ node.m_Property.flatMap propertyText ++ [chr '>'] := by
    rw [List.mem_append, not_or]
    exact ⟨tagLine_once unmarked, by decide⟩
  have begins := begins_of_once once inside
  obtain ⟨head, more, shape⟩ := List.exists_cons_of_ne_nil unmarked.named
  rw [shape] at begins
  have same := (List.cons_prefix_cons.mp begins).1
  have byte := unmarked.name head (by rw [shape]; exact List.mem_cons_self)
  rw [← same] at byte
  exact absurd byte (by decide)

section Closing

variable {name : Bytes} (bytes : ∀ byte ∈ name, NameByte byte)

include bytes

theorem stop_append_iff {s : Bytes} (closed : Closed (chr '<') (chr '>') s) (t : Bytes) :
    stopText name <:+: s ++ t ↔ stopText name <:+: s ∨ stopText name <:+: t := by
  have single : chr '>' ∉ chr '/' :: name := by
    simp only [List.mem_cons, not_or]
    exact ⟨by decide, notMem_name bytes _ (by decide)⟩
  exact infix_append_iff closed single t

/-- A closing tag has no space, and does not begin as a note does. -/
theorem stop_in_noteText_iff (node : XMLNode) :
    stopText name <:+: noteText node ↔ stopText name <:+: node.m_Note := by
  have spaceless : chr ' ' ∉ stopText name := by
    have absent := notMem_name bytes (chr ' ') (by decide)
    simp only [stopText, List.mem_cons, List.mem_append, List.not_mem_nil, or_false, not_or]
    exact ⟨by decide, by decide, absent, by decide⟩
  unfold noteText
  split_ifs with noted
  · have shape : repeatchar (chr '\t') node.m_Depth ++ XML_NOTE_BEGIN_TAG ++ node.m_Note ++
        XML_NOTE_END_TAG ++ [chr '\n'] = (repeatchar (chr '\t') node.m_Depth ++
        [chr '<', chr '!', chr '-', chr '-']) ++ chr ' ' ::
          (node.m_Note ++ chr ' ' :: [chr '-', chr '-', chr '>', chr '\n']) := by
      simp [XML_NOTE_BEGIN_TAG, XML_NOTE_END_TAG]
    have ending : ¬ stopText name <:+: [chr '-', chr '-', chr '>', chr '\n'] :=
      not_stop_of_plain name (by decide)
    have opening : ¬ stopText name <:+: repeatchar (chr '\t') node.m_Depth ++
        [chr '<', chr '!', chr '-', chr '-'] := by
      rw [stop_append_iff bytes (closed_of_absent (tabs_plain _))]
      rintro (tabs | mark)
      · exact not_stop_of_plain name (tabs_plain _) tabs
      · have begins := begins_of_once (by decide) mark
        exact absurd (List.cons_prefix_cons.mp begins).1 (by decide)
    rw [shape, infix_cut_iff spaceless, infix_cut_iff spaceless]
    simp [opening, ending]
  · rw [not_not.mp noted]

theorem stop_in_openingText_iff {node : XMLNode} (unmarked : Unmarked node) :
    stopText name <:+: openingText node ↔ stopText name <:+: node.m_Note := by
  have tabs := not_stop_of_plain name (tabs_plain node.m_Depth)
  have content := not_stop_of_plain name (contentText_plain unmarked)
  rw [openingText_eq, stop_append_iff bytes (noteText_closed node), stop_in_noteText_iff bytes,
    stop_append_iff bytes (closed_of_absent (tabs_plain _)),
    stop_append_iff bytes (closed_ended marks_apart _)]
  simp [tabs, content, not_stop_in_tagLine unmarked name]

theorem stop_in_closingText_iff {node : XMLNode} (unmarked : Unmarked node) :
    stopText name <:+: closingText node ↔ name = node.m_NodeName := by
  have tabs := not_stop_of_plain name (indent_plain node)
  have newline : ¬ stopText name <:+: [chr '\n'] := not_stop_of_plain name (by decide)
  rw [closingText_eq, stop_append_iff bytes (closed_of_absent (indent_plain node)),
    stop_append_iff bytes (stopText_closed _), stop_in_stop_iff bytes unmarked.name]
  simp [tabs, newline]

/-- A closing tag in the text is that of a node, or somebody has written it in a note. -/
theorem stop_in_getNodesText_iff (nodes : List XMLNode)
    (unmarked : ∀ inner ∈ allNodes nodes, Unmarked inner) :
    stopText name <:+: getNodesText nodes ↔
      ∃ inner ∈ allNodes nodes, Closes name inner := by
  induction nodes using nodes_induction with
  | nil =>
      have empty := not_stop_of_plain name (s := []) List.not_mem_nil
      simp [getNodesText, allNodes, empty]
  | cons node rest below beside =>
      rw [allNodes_cons] at unmarked ⊢
      have own := unmarked node List.mem_cons_self
      have inner_unmarked : ∀ inner ∈ allNodes node.m_Nodes, Unmarked inner := fun inner member =>
        unmarked inner (by simp [member])
      have rest_unmarked : ∀ inner ∈ allNodes rest, Unmarked inner := fun inner member =>
        unmarked inner (by simp [member])
      have inside := getNodesText_closed node.m_Nodes inner_unmarked
      have parts (p : XMLNode → Prop) :
          (∃ inner ∈ node :: (allNodes node.m_Nodes ++ allNodes rest), p inner) ↔
          p node ∨ (∃ inner ∈ allNodes node.m_Nodes, p inner) ∨ ∃ inner ∈ allNodes rest, p inner := by
        simp only [List.exists_mem_cons_iff, List.mem_append, or_and_right, exists_or]
      rw [parts, getNodesText_cons, stop_append_iff bytes (((openingText_closed own).append
          inside).append (closingText_closed node)),
        stop_append_iff bytes ((openingText_closed own).append inside),
        stop_append_iff bytes (openingText_closed own), stop_in_openingText_iff bytes own,
        stop_in_closingText_iff bytes own, below inner_unmarked, beside rest_unmarked]
      constructor
      · rintro (((note | under) | same) | after)
        · exact .inl (.inr note)
        · exact .inr (.inl under)
        · exact .inl (.inl same)
        · exact .inr (.inr after)
      · rintro ((same | note) | under | after)
        · exact .inl (.inr same)
        · exact .inl (.inl (.inl note))
        · exact .inl (.inl (.inr under))
        · exact .inr after

/-- In front of the node's own closing tag there is none but those of the nodes below it. -/
theorem stop_in_frontText_iff {node : XMLNode} (unmarked : ∀ inner ∈ allNodes [node], Unmarked inner) :
    stopText name <:+: frontText node ↔ stopText name <:+: node.m_Note ∨
      ∃ inner ∈ allNodes node.m_Nodes, Closes name inner := by
  rw [allNodes_cons] at unmarked
  have own := unmarked node List.mem_cons_self
  have inner_unmarked : ∀ inner ∈ allNodes node.m_Nodes, Unmarked inner := fun inner member =>
    unmarked inner (by simp [member])
  have inside := getNodesText_closed node.m_Nodes inner_unmarked
  have tabs := not_stop_of_plain name (indent_plain node)
  rw [frontText, stop_append_iff bytes ((openingText_closed own).append inside),
    stop_append_iff bytes (openingText_closed own), stop_in_openingText_iff bytes own,
    stop_in_getNodesText_iff bytes node.m_Nodes inner_unmarked]
  simp [tabs]

end Closing

end EChainLib.Config.XmlText
