import EChainLib.Support.Strings
import EChainLib.Config.Ini

/-! The text of an `XMLNode`: how `GetNodeText` writes it and how the constructor reads it.
`none` is an exception, or that the fuel was used up. -/

namespace EChainLib.Config.XmlText

open EChainLib.Keys (Bytes cString)
open EChainLib.Strings (find rfind substr)

structure Property where
  PropertyName : Bytes
  PropertyValue : Bytes
  deriving DecidableEq

/-- The children are values here, not pointers. A depth is taken not to overflow. -/
structure XMLNode where
  m_Note : Bytes
  m_NodeName : Bytes
  m_Content : Bytes
  m_NodeType : Int
  m_Depth : Int
  m_Property : List Property
  m_Nodes : List XMLNode

def XML_NOTE_BEGIN_TAG : Bytes := [chr '<', chr '!', chr '-', chr '-', chr ' ']

def XML_NOTE_END_TAG : Bytes := [chr ' ', chr '-', chr '-', chr '>']

def XML_NOTE_BEGIN_LEN : Int := 5

def XML_NOTE_END_LEN : Int := 4

def doubleQuote : UInt8 := 0x22

def repeatchar (v_char : UInt8) (v_num : Int) : Bytes := List.replicate v_num.toNat v_char

/-! Writing. -/

def propertyText (property : Property) : Bytes :=
  chr ' ' :: property.PropertyName ++ [chr '=', doubleQuote] ++ property.PropertyValue ++ [doubleQuote]

/-- The text in front of what the children write. -/
def openingText (node : XMLNode) : Bytes :=
  (if node.m_Note ≠ [] then
      repeatchar (chr '\t') node.m_Depth ++ XML_NOTE_BEGIN_TAG ++ node.m_Note ++
        XML_NOTE_END_TAG ++ [chr '\n']
    else []) ++
  repeatchar (chr '\t') node.m_Depth ++ chr '<' :: node.m_NodeName ++
  node.m_Property.flatMap propertyText ++ [chr '>'] ++
  (if node.m_Nodes ≠ [] then
      (if node.m_Content ≠ [] then
          chr '\n' :: repeatchar (chr '\t') (node.m_Depth + 1) ++ node.m_Content
        else []) ++ [chr '\n']
    else node.m_Content)

def closingText (node : XMLNode) : Bytes :=
  (if node.m_Nodes ≠ [] then repeatchar (chr '\t') node.m_Depth else []) ++
  [chr '<', chr '/'] ++ node.m_NodeName ++ [chr '>', chr '\n']

mutual

def getNodeText : XMLNode → Bytes
  | ⟨m_Note, m_NodeName, m_Content, m_NodeType, m_Depth, m_Property, m_Nodes⟩ =>
      let node : XMLNode := ⟨m_Note, m_NodeName, m_Content, m_NodeType, m_Depth, m_Property, m_Nodes⟩
      openingText node ++ getNodesText m_Nodes ++ closingText node

def getNodesText : List XMLNode → Bytes
  | [] => []
  | node :: rest => getNodeText node ++ getNodesText rest

end

/-! Reading. -/

/-- The text without tabs and ends of lines, up to a null byte. Its length is an `Int32`,
and `new char[len+1]` fails for a negative one. -/
def readable (v_NodeText : Bytes) : Option Bytes :=
  let len := (Int32.ofNat v_NodeText.length).toInt
  if 0 ≤ len ∧ len + 1 < 2 ^ 31 then
    some (cString ((v_NodeText.take len.toNat).filter fun byte =>
      !(byte = chr '\t' || byte = chr '\r' || byte = chr '\n')))
  else none

/-- The note, and the place behind it. -/
def noteOf (s_NodeText : Bytes) : Option (Bytes × Int) := do
  let iNoteStart := find s_NodeText [chr '<'] 0
  if (← substr s_NodeText iNoteStart XML_NOTE_BEGIN_LEN) = XML_NOTE_BEGIN_TAG then
    -- 3 where the note has no end
    let iNoteEnd := find s_NodeText XML_NOTE_END_TAG iNoteStart + XML_NOTE_END_LEN
    if iNoteEnd > 0 then
      let m_Note ← substr s_NodeText (iNoteStart + XML_NOTE_BEGIN_LEN)
        (iNoteEnd - XML_NOTE_BEGIN_LEN - XML_NOTE_END_LEN)
      return (m_Note, iNoteEnd)
    else return ([], iNoteEnd)
  else return ([], 0)

/-- Where a name ends, by the first space and the first `>` behind it. -/
def nameEnd (iNameEnd1 iNameEnd2 : Int) : Int :=
  if iNameEnd1 = -1 then iNameEnd2
  else if iNameEnd1 > iNameEnd2 then iNameEnd2 else iNameEnd1

/-- The type and the name. -/
def nameOf (s_NodeText : Bytes) (iNoteEnd : Int) : Option (Int × Bytes) := do
  let iNameStart := find s_NodeText [chr '<'] iNoteEnd
  let iNameEnd1 := find s_NodeText [chr ' '] iNameStart
  let iNameEnd2 := find s_NodeText [chr '>'] iNameStart
  let iNameEnd := nameEnd iNameEnd1 iNameEnd2
  let m_NodeType : Int ←
    if iNameEnd2 > 0 then do
      if (← substr s_NodeText (iNameEnd2 - 1) 1) = [chr '/'] then pure 1 else pure 0
    else pure 0
  let m_NodeName ←
    if m_NodeType = 1 ∧ iNameEnd1 = -1 then
      substr s_NodeText (iNameStart + 1) (iNameEnd - iNameStart - 2)
    else substr s_NodeText (iNameStart + 1) (iNameEnd - iNameStart - 1)
  return (m_NodeType, m_NodeName)

/-- The content, and the place of the `<` behind it. -/
def contentOf (s_NodeText : Bytes) (iNoteEnd : Int) : Option (Bytes × Int) := do
  let iContentStart := find s_NodeText [chr '>'] iNoteEnd
  let iContentEnd := find s_NodeText [chr '<'] iContentStart
  let m_Content ← substr s_NodeText (iContentStart + 1) (iContentEnd - iContentStart - 1)
  return (m_Content, iContentEnd)

/-- The property with its `=` at the place, between the last space in front of it and the
second quote behind it, wherever these belong. -/
def propertyAt (sProperty : Bytes) (ieqpos : Int) : Option (List Property) := do
  let iSpacePos := rfind sProperty [chr ' '] ieqpos
  if iSpacePos > 0 then
    let sPropertyName ← substr sProperty (iSpacePos + 1) (ieqpos - iSpacePos - 1)
    let iPoINTStart := find sProperty [doubleQuote] ieqpos
    let iPoINTEnd := find sProperty [doubleQuote] (iPoINTStart + 1)
    if iPoINTStart > 0 ∧ iPoINTEnd > 0 then
      let sPropertyValue ← substr sProperty (iPoINTStart + 1) (iPoINTEnd - iPoINTStart - 1)
      return [⟨sPropertyName, sPropertyValue⟩]
    else return []
  else return []

/-- The loop over the `=` in a tag; `fuel` bounds their number. -/
def propertiesFrom (sProperty : Bytes) : Nat → Int → Option (List Property)
  | 0, _ => none
  | fuel + 1, ieqpos => do
      if ieqpos > 0 then
        let found ← propertyAt sProperty ieqpos
        let more ← propertiesFrom sProperty fuel (find sProperty [chr '='] (ieqpos + 1))
        return found ++ more
      else return []

def propertiesOf (s_NodeText : Bytes) (iNoteEnd : Int) : Option (List Property) := do
  let iPropertyStart := find s_NodeText [chr '<'] iNoteEnd
  let iPropertyEnd := find s_NodeText [chr '>'] iPropertyStart
  let sProperty ← substr s_NodeText iPropertyStart (iPropertyEnd - iPropertyStart + 1)
  propertiesFrom sProperty (sProperty.length + 1) (find sProperty [chr '='] 0)

/-- The text of the next child and the place behind it, or `none` where the loop ends. -/
def nextChild (s_NodeText : Bytes) (iNodeStart : Int) : Option (Option (Bytes × Int)) := do
  if iNodeStart ≥ 0 then
    let iNodeStart := find s_NodeText [chr '<'] iNodeStart
    if iNodeStart = -1 then return none
    else
      let iNoteStart := iNodeStart
      let isNote := (← substr s_NodeText iNodeStart XML_NOTE_BEGIN_LEN) = XML_NOTE_BEGIN_TAG
      let iNodeStart :=
        if isNote then find s_NodeText [chr '<'] (find s_NodeText XML_NOTE_END_TAG iNodeStart + 1)
        else iNodeStart
      let iNodeEnd1 := find s_NodeText [chr ' '] iNodeStart
      let iNodeEnd2 := find s_NodeText [chr '>'] iNodeStart
      if (← substr s_NodeText (iNodeEnd2 - 1) 1) = [chr '/'] then
        let iNodeEnd := iNodeEnd2 + 1
        return some (← substr s_NodeText iNoteStart (iNodeEnd - iNoteStart), iNodeEnd)
      else
        let iNameEnd := nameEnd iNodeEnd1 iNodeEnd2
        let strNodeName ← substr s_NodeText (iNodeStart + 1) (iNameEnd - iNodeStart - 1)
        let strEndTag := [chr '<', chr '/'] ++ strNodeName ++ [chr '>']
        let iNodeEnd := find s_NodeText strEndTag iNameEnd
        if iNodeEnd > 0 then
          let iNodeEnd := iNodeEnd + (strNodeName.length + 3)
          return some (← substr s_NodeText iNoteStart (iNodeEnd - iNoteStart), iNodeEnd)
        else return none
  else return none

mutual

/-- `XMLNode(string, Int32)`. -/
def xmlNode : Nat → Bytes → Int → Option XMLNode
  | 0, _, _ => none
  | fuel + 1, v_NodeText, v_Depth => do
      let s_NodeText ← readable v_NodeText
      let (m_Note, iNoteEnd) ← noteOf s_NodeText
      let (m_NodeType, m_NodeName) ← nameOf s_NodeText iNoteEnd
      let (m_Content, iContentEnd) ← contentOf s_NodeText iNoteEnd
      let m_Property ← propertiesOf s_NodeText iNoteEnd
      let m_Nodes ← childNodes fuel s_NodeText v_Depth iContentEnd
      return { m_Note, m_NodeName, m_Content, m_NodeType, m_Depth := v_Depth, m_Property, m_Nodes }

/-- The children from the place on. -/
def childNodes : Nat → Bytes → Int → Int → Option (List XMLNode)
  | 0, _, _, _ => none
  | fuel + 1, s_NodeText, m_Depth, iNodeStart => do
      match ← nextChild s_NodeText iNodeStart with
      | none => return []
      | some (strNodeText, iNodeEnd) =>
          let pNode ← xmlNode fuel strNodeText (m_Depth + 1)
          let rest ← childNodes fuel s_NodeText m_Depth iNodeEnd
          return pNode :: rest

end

/-- More fuel does not change a result. -/
theorem read_more (fuel : Nat) :
    (∀ text v_Depth node, xmlNode fuel text v_Depth = some node →
      xmlNode (fuel + 1) text v_Depth = some node) ∧
    (∀ s m_Depth pos nodes, childNodes fuel s m_Depth pos = some nodes →
      childNodes (fuel + 1) s m_Depth pos = some nodes) := by
  induction fuel with
  | zero =>
      constructor
      · intro _ _ _ read
        cases read
      · intro _ _ _ _ read
        cases read
  | succ fuel ih =>
      obtain ⟨node_ih, nodes_ih⟩ := ih
      constructor
      · intro text v_Depth node read
        simp only [xmlNode, Option.bind_eq_bind, Option.bind_eq_some_iff] at read
        obtain ⟨s, s_read, note, note_read, name, name_read, content, content_read, properties,
          properties_read, nodes, nodes_read, shape⟩ := read
        have more := nodes_ih s v_Depth _ nodes nodes_read
        rw [xmlNode]
        simp only [s_read, note_read, name_read, content_read, properties_read, more,
          Option.bind_eq_bind, Option.bind_some]
        exact shape
      · intro s m_Depth pos nodes read
        simp only [childNodes, Option.bind_eq_bind, Option.bind_eq_some_iff] at read
        obtain ⟨found, next, read⟩ := read
        rw [childNodes]
        simp only [next, Option.bind_eq_bind, Option.bind_some]
        cases found with
        | none => exact read
        | some child =>
            simp only [Option.bind_eq_some_iff] at read ⊢
            obtain ⟨node, node_read, rest, rest_read, shape⟩ := read
            exact ⟨node, node_ih _ _ _ node_read, rest, nodes_ih _ _ _ _ rest_read, shape⟩

theorem xmlNode_more {fuel more : Nat} (enough : fuel ≤ more) {text : Bytes} {v_Depth : Int}
    {node : XMLNode} (read : xmlNode fuel text v_Depth = some node) :
    xmlNode more text v_Depth = some node := by
  induction enough with
  | refl => exact read
  | step _ ih => exact (read_more _).1 _ _ _ ih

theorem childNodes_more {fuel more : Nat} (enough : fuel ≤ more) {s : Bytes} {m_Depth pos : Int}
    {nodes : List XMLNode} (read : childNodes fuel s m_Depth pos = some nodes) :
    childNodes more s m_Depth pos = some nodes := by
  induction enough with
  | refl => exact read
  | step _ ih => exact (read_more _).2 _ _ _ _ ih

/-- A text gives one node, whatever the fuel. -/
theorem xmlNode_unique {first second : Nat} {text : Bytes} {v_Depth : Int} {node other : XMLNode}
    (read : xmlNode first text v_Depth = some node)
    (read' : xmlNode second text v_Depth = some other) : node = other := by
  rcases Nat.le_total first second with enough | enough
  · exact Option.some.inj ((xmlNode_more enough read).symm.trans read')
  · exact Option.some.inj (read.symm.trans (xmlNode_more enough read'))

end EChainLib.Config.XmlText
