import EChainLib.Config.XmlReading

/-! The text that `GetNodeText` writes, without its layout. -/

namespace EChainLib.Config.XmlText

open EChainLib.Keys (Bytes)
open EChainLib.Tags (Forest Tag starts)

/-! The parts of a node's text. -/

def noteText (node : XMLNode) : Bytes :=
  if node.m_Note ≠ [] then
    repeatchar (chr '\t') node.m_Depth ++ XML_NOTE_BEGIN_TAG ++ node.m_Note ++ XML_NOTE_END_TAG ++
      [chr '\n']
  else []

/-- The start tag without its `>`. -/
def tagLine (node : XMLNode) : Bytes :=
  chr '<' :: (node.m_NodeName ++ node.m_Property.flatMap propertyText)

def contentText (node : XMLNode) : Bytes :=
  if node.m_Nodes ≠ [] then
    (if node.m_Content ≠ [] then
        chr '\n' :: repeatchar (chr '\t') (node.m_Depth + 1) ++ node.m_Content
      else []) ++ [chr '\n']
  else node.m_Content

/-- What stands in front of the closing tag. -/
def indent (node : XMLNode) : Bytes :=
  if node.m_Nodes ≠ [] then repeatchar (chr '\t') node.m_Depth else []

theorem openingText_eq (node : XMLNode) : openingText node =
    noteText node ++ (repeatchar (chr '\t') node.m_Depth ++
      (tagLine node ++ [chr '>'] ++ contentText node)) := by
  simp [openingText, noteText, tagLine, contentText]

theorem closingText_eq (node : XMLNode) :
    closingText node = indent node ++ (stopText node.m_NodeName ++ [chr '\n']) := by
  simp [closingText, indent, stopText]

/-! The text without its layout. -/

def keeps (byte : UInt8) : Bool := !(byte = chr '\t' || byte = chr '\r' || byte = chr '\n')

theorem filter_of_quiet {bytes : Bytes} (quiet : ∀ byte ∈ bytes, Quiet byte) :
    bytes.filter keeps = bytes := by
  refine List.filter_eq_self.mpr fun byte member => ?_
  have seen := quiet byte member
  simp [keeps, seen.2.1, seen.2.2.1, seen.2.2.2]

theorem filter_tabs (v_num : Int) : (repeatchar (chr '\t') v_num).filter keeps = [] := by
  refine List.filter_eq_nil_iff.mpr fun byte member => ?_
  rw [List.eq_of_mem_replicate member]
  decide

def QuietLabel (label : Label) : Prop := ∀ byte ∈ tagText (.start label), Quiet byte

theorem filter_openingText {node : XMLNode} (no_note : node.m_Note = [])
    (quiet : QuietLabel (label node)) :
    (openingText node).filter keeps = tagText (.start (label node)) := by
  have parts : ∀ bytes, bytes <:+: tagText (.start (label node)) → bytes.filter keeps = bytes :=
    fun bytes part => filter_of_quiet fun byte member => quiet byte (part.subset member)
  have line := parts (tagLine node ++ [chr '>'])
    ⟨[], node.m_Content, by simp [tagText, tagLine, label, attributes]⟩
  have content := parts node.m_Content
    ⟨tagLine node ++ [chr '>'], [], by simp [tagText, tagLine, label, attributes]⟩
  have newline : [chr '\n'].filter keeps = [] := by decide
  have layout : (contentText node).filter keeps = node.m_Content := by
    unfold contentText
    split_ifs with some_nodes some_content
    · rw [List.filter_append, List.cons_append, ← List.singleton_append, List.filter_append,
        List.filter_append, newline, filter_tabs, content]
      simp
    · rw [List.nil_append, newline]
      simpa using some_content
    · exact content
  rw [openingText_eq, noteText, if_neg (not_not.mpr no_note), List.nil_append, List.filter_append,
    List.filter_append, filter_tabs, line, layout]
  simp [tagText, tagLine, label, attributes]

theorem filter_closingText {node : XMLNode} (quiet : ∀ byte ∈ stopText node.m_NodeName, Quiet byte) :
    (closingText node).filter keeps = stopText node.m_NodeName := by
  have tabs : (indent node).filter keeps = [] := by
    unfold indent
    split_ifs
    · exact filter_tabs node.m_Depth
    · rfl
  have newline : [chr '\n'].filter keeps = [] := by decide
  rw [closingText_eq, List.filter_append, List.filter_append, tabs, newline, filter_of_quiet quiet]
  simp

theorem getNodesText_cons (node : XMLNode) (rest : List XMLNode) :
    getNodesText (node :: rest) =
      openingText node ++ getNodesText node.m_Nodes ++ closingText node ++ getNodesText rest := by
  cases node
  rfl

theorem quiet_stop {label : Label} (quiet : QuietLabel label) :
    ∀ byte ∈ stopText label.name, Quiet byte := by
  intro byte member
  simp only [stopText, List.mem_cons, List.mem_append, List.not_mem_nil, or_false] at member
  rcases member with rfl | rfl | named | rfl
  · decide
  · decide
  · exact quiet byte (by simp [tagText, named])
  · decide

/-- Without its layout, the text of nodes is the row of their tags. -/
theorem filter_getNodesText (nodes : List XMLNode) (noteless : Noteless nodes)
    (quiet : ∀ label ∈ (forest nodes).labels, QuietLabel label) :
    (getNodesText nodes).filter keeps = render (Tags.tags Label.name (forest nodes)) := by
  induction nodes using nodes_induction with
  | nil => rfl
  | cons node rest below beside =>
      rw [noteless_cons] at noteless
      simp only [forest_cons, Forest.labels, List.mem_cons, List.mem_append] at quiet
      have own := quiet (label node) (.inl rfl)
      rw [getNodesText_cons, List.filter_append, List.filter_append, List.filter_append,
        filter_openingText noteless.1.1 own, filter_closingText (quiet_stop own),
        below noteless.1.2 fun other member => quiet other (.inr (.inl member)),
        beside noteless.2 fun other member => quiet other (.inr (.inr member))]
      simp [Tags.tags, tagText, label]

/-! A written text up to the last content in it. What is left are the ends of nodes whose
beginnings are in front of it. -/

structure CutAtLast (nodes : List XMLNode) (front left : Bytes) (init : List (Tag Label Bytes))
    (last : Label) : Prop where
  parts : getNodesText nodes = front ++ left
  short : left.length ≤ 2 * front.length
  written : front.filter keeps = render (init ++ [.start last])
  row : ∃ after, Tags.tags Label.name (forest nodes) = init ++ [.start last] ++ after ∧
    starts after = []
  ends : ∃ more byte, front = more ++ [byte] ∧ keeps byte = true

theorem closingText_length (node : XMLNode) :
    (closingText node).length ≤ 2 * (openingText node).length := by
  unfold openingText closingText
  split_ifs <;> simp [repeatchar] <;> omega

theorem openingText_ends {node : XMLNode} (alone : node.m_Nodes = [])
    (quiet : QuietLabel (label node)) :
    ∃ more byte, openingText node = more ++ [byte] ∧ keeps byte = true := by
  obtain ⟨line, cut⟩ : ∃ line, openingText node = line ++ chr '>' :: node.m_Content := by
    rw [openingText_eq, contentText, if_neg (not_not.mpr alone)]
    exact ⟨noteText node ++ (repeatchar (chr '\t') node.m_Depth ++ tagLine node), by simp⟩
  rw [cut]
  rcases List.eq_nil_or_concat node.m_Content with empty | ⟨front, byte, shape⟩
  · exact ⟨line, chr '>', by rw [empty], by decide⟩
  · refine ⟨line ++ chr '>' :: front, byte, by rw [shape]; simp, ?_⟩
    have last : Quiet byte := quiet byte (by simp [tagText, label, shape])
    simp [keeps, last.2.1, last.2.2.1, last.2.2.2]

theorem exists_cutAtLast (nodes : List XMLNode) (noteless : Noteless nodes)
    (quiet : ∀ label ∈ (forest nodes).labels, QuietLabel label) (some_nodes : nodes ≠ []) :
    ∃ front left init last, CutAtLast nodes front left init last := by
  -- the last start tag is the last sibling's or one below it, so the text is cut there and what
  -- stands left of it is whole
  induction nodes using nodes_induction with
  | nil => exact absurd rfl some_nodes
  | cons node rest below beside =>
      rw [noteless_cons] at noteless
      simp only [forest_cons, Forest.labels, List.mem_cons, List.mem_append] at quiet
      have own := quiet (label node) (.inl rfl)
      have opening := filter_openingText noteless.1.1 own
      have closing := filter_closingText (quiet_stop own)
      have longer := closingText_length node
      have tags : Tags.tags Label.name (forest (node :: rest)) = .start (label node) ::
          (Tags.tags Label.name (forest node.m_Nodes) ++
            .stop node.m_NodeName :: Tags.tags Label.name (forest rest)) := by
        simp [Tags.tags, label]
      by_cases more : rest = []
      · subst more
        by_cases leaf : node.m_Nodes = []
        · refine ⟨openingText node, closingText node, [], label node, ?_, longer, ?_, ?_,
            openingText_ends leaf own⟩
          · rw [getNodesText_cons, leaf]
            simp [getNodesText]
          · rw [opening]
            simp
          · refine ⟨[.stop node.m_NodeName], ?_, rfl⟩
            rw [tags, leaf]
            rfl
        · obtain ⟨front, left, init, last, cut⟩ :=
            below noteless.1.2 (fun other member => quiet other (.inr (.inl member))) leaf
          obtain ⟨after, row, only⟩ := cut.row
          obtain ⟨most, byte, ended, kept⟩ := cut.ends
          refine ⟨openingText node ++ front, left ++ closingText node,
            .start (label node) :: init, last, ?_, ?_, ?_, ?_, ?_⟩
          · rw [getNodesText_cons, cut.parts]
            simp [getNodesText]
          · have short := cut.short
            rw [List.length_append, List.length_append]
            omega
          · rw [List.filter_append, opening, cut.written]
            rfl
          · refine ⟨after ++ [.stop node.m_NodeName], ?_, ?_⟩
            · rw [tags, row]
              simp [Tags.tags]
            · rw [Tags.starts_append, only]
              rfl
          · exact ⟨openingText node ++ most, byte, by rw [ended, List.append_assoc], kept⟩
      · obtain ⟨front, left, init, last, cut⟩ :=
          beside noteless.2 (fun other member => quiet other (.inr (.inr member))) more
        obtain ⟨after, row, only⟩ := cut.row
        obtain ⟨most, byte, ended, kept⟩ := cut.ends
        have inside := filter_getNodesText node.m_Nodes noteless.1.2
          fun other member => quiet other (.inr (.inl member))
        refine ⟨openingText node ++ getNodesText node.m_Nodes ++ closingText node ++ front, left,
          .start (label node) :: (Tags.tags Label.name (forest node.m_Nodes) ++
            .stop node.m_NodeName :: init), last, ?_, ?_, ?_, ?_, ?_⟩
        · rw [getNodesText_cons, cut.parts]
          simp
        · have short := cut.short
          rw [List.length_append]
          omega
        · rw [List.filter_append, List.filter_append, List.filter_append, opening, inside, closing,
            cut.written]
          simp [tagText]
        · refine ⟨after, ?_, only⟩
          rw [tags, row]
          simp
        · exact ⟨_, byte, by rw [ended, ← List.append_assoc], kept⟩

end EChainLib.Config.XmlText
