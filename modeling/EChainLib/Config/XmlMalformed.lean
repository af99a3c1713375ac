import EChainLib.Support.Walks
import EChainLib.Config.XmlLoop
import EChainLib.Config.XmlRoundTrip

/-! What the constructor of `XMLNode` does with a text of any shape: where it throws, and where
its loop over the children does not end. -/

namespace EChainLib.Config.XmlText

open EChainLib.Keys (Bytes)
open EChainLib.Strings
open Relation (TransGen)

/-! The node's own tag. -/

/-- Where the note in front of the tag ends. -/
def noteEnd (s_NodeText : Bytes) : Int :=
  if substr s_NodeText (find s_NodeText [chr '<'] 0) XML_NOTE_BEGIN_LEN = some XML_NOTE_BEGIN_TAG then
    find s_NodeText XML_NOTE_END_TAG (find s_NodeText [chr '<'] 0) + XML_NOTE_END_LEN
  else 0

/-- There is a `<` behind the note. -/
def Tagged (s_NodeText : Bytes) : Prop := find s_NodeText [chr '<'] (noteEnd s_NodeText) ≠ -1

/-- Where the search for children begins. -/
def childrenStart (s_NodeText : Bytes) : Int :=
  find s_NodeText [chr '<'] (find s_NodeText [chr '>'] (noteEnd s_NodeText))

theorem noteOf_isSome {s : Bytes} (marked : find s [chr '<'] 0 ≠ -1) :
    ∃ m_Note, noteOf s = some (m_Note, noteEnd s) := by
  have inside := find_inside marked
  have nonneg := (find_begins marked).2.1
  obtain ⟨first, first_read⟩ := substr_isSome (n := XML_NOTE_BEGIN_LEN) nonneg inside.le
  simp only [noteOf, noteEnd, first_read, Option.bind_eq_bind, Option.bind_some, Option.some.injEq]
  split_ifs with note ends
  · have size := (substr_begins first_read).2.length_le
    rw [note, List.length_drop] at size
    have mark : XML_NOTE_BEGIN_TAG.length = 5 := rfl
    have behind (n : Int) := substr_isSome (n := n)
      (show 0 ≤ find s [chr '<'] 0 + XML_NOTE_BEGIN_LEN by rw [XML_NOTE_BEGIN_LEN]; omega)
      (show find s [chr '<'] 0 + XML_NOTE_BEGIN_LEN ≤ s.length by rw [XML_NOTE_BEGIN_LEN]; omega)
    obtain ⟨m_Note, note_read⟩ := behind (find s XML_NOTE_END_TAG (find s [chr '<'] 0) +
      XML_NOTE_END_LEN - XML_NOTE_BEGIN_LEN - XML_NOTE_END_LEN)
    exact ⟨m_Note, by rw [note_read]; rfl⟩
  · exact ⟨[], rfl⟩
  · exact ⟨[], rfl⟩

theorem nameOf_isSome (s : Bytes) (iNoteEnd : Int) : ∃ name, nameOf s iNoteEnd = some name := by
  have named (n : Int) := substr_behind (s := s) (chr '<') iNoteEnd n
  obtain ⟨_, closed_read⟩ := named (nameEnd (find s [chr ' '] (find s [chr '<'] iNoteEnd))
    (find s [chr '>'] (find s [chr '<'] iNoteEnd)) - find s [chr '<'] iNoteEnd - 2)
  obtain ⟨_, open_read⟩ := named (nameEnd (find s [chr ' '] (find s [chr '<'] iNoteEnd))
    (find s [chr '>'] (find s [chr '<'] iNoteEnd)) - find s [chr '<'] iNoteEnd - 1)
  by_cases positive : find s [chr '>'] (find s [chr '<'] iNoteEnd) > 0
  · have inside : find s [chr '>'] (find s [chr '<'] iNoteEnd) < s.length := find_inside (by omega)
    obtain ⟨last, last_read⟩ : ∃ last,
        substr s (find s [chr '>'] (find s [chr '<'] iNoteEnd) - 1) 1 = some last :=
      substr_isSome (by omega) (by omega)
    simp only [nameOf, positive, if_true, last_read, closed_read, open_read, Option.bind_eq_bind,
      Option.bind_some, Option.pure_def]
    split_ifs
    all_goals exact ⟨_, rfl⟩
  · simp only [nameOf, positive, if_false, closed_read, open_read, Option.bind_eq_bind,
      Option.bind_some, Option.pure_def]
    split_ifs
    all_goals exact ⟨_, rfl⟩

theorem contentOf_isSome (s : Bytes) :
    ∃ m_Content, contentOf s (noteEnd s) = some (m_Content, childrenStart s) := by
  obtain ⟨m_Content, content_read⟩ := substr_behind (s := s) (chr '>') (noteEnd s)
    (find s [chr '<'] (find s [chr '>'] (noteEnd s)) - find s [chr '>'] (noteEnd s) - 1)
  refine ⟨m_Content, ?_⟩
  simp only [contentOf, childrenStart, content_read, Option.bind_eq_bind, Option.bind_some,
    Option.pure_def]

theorem rfindIn_le (s pattern : Bytes) (pos : Nat) : rfindIn s pattern pos ≤ pos := by
  induction pos with
  | zero =>
      rw [rfindIn]
      split_ifs
      all_goals decide
  | succ pos ih =>
      rw [rfindIn]
      split_ifs
      · exact le_rfl
      · omega

theorem propertyAt_isSome {s : Bytes} {ieqpos : Int} (positive : 0 < ieqpos)
    (inside : ieqpos < s.length) : ∃ found, propertyAt s ieqpos = some found := by
  have space : rfind s [chr ' '] ieqpos ≤ ieqpos := by
    rw [rfind, if_neg (by omega)]
    have bound := rfindIn_le s [chr ' '] ieqpos.toNat
    omega
  by_cases spaced : rfind s [chr ' '] ieqpos > 0
  · obtain ⟨_, name_read⟩ : ∃ name, substr s (rfind s [chr ' '] ieqpos + 1)
        (ieqpos - rfind s [chr ' '] ieqpos - 1) = some name := substr_isSome (by omega) (by omega)
    obtain ⟨_, value_read⟩ := substr_behind (s := s) doubleQuote ieqpos
      (find s [doubleQuote] (find s [doubleQuote] ieqpos + 1) - find s [doubleQuote] ieqpos - 1)
    simp only [propertyAt, spaced, if_true, name_read, value_read, Option.bind_eq_bind,
      Option.bind_some, Option.pure_def]
    split_ifs
    all_goals exact ⟨_, rfl⟩
  · simp only [propertyAt, spaced, if_false]
    exact ⟨_, rfl⟩

theorem propertiesFrom_isSome (fuel : Nat) {s : Bytes} {ieqpos : Int} (some_fuel : 0 < fuel)
    (inside : ieqpos < s.length) (enough : 0 < ieqpos → s.length - ieqpos < fuel) :
    ∃ found, propertiesFrom s fuel ieqpos = some found := by
  induction fuel generalizing ieqpos with
  | zero => exact absurd some_fuel (Nat.lt_irrefl 0)
  | succ fuel ih =>
      rw [propertiesFrom]
      split_ifs with positive
      · obtain ⟨first, first_read⟩ := propertyAt_isSome positive inside
        have left := enough positive
        have next : find s [chr '='] (ieqpos + 1) < s.length ∧ (0 < find s [chr '='] (ieqpos + 1) →
            ieqpos < find s [chr '='] (ieqpos + 1)) := by
          by_cases missing : find s [chr '='] (ieqpos + 1) = -1
          · omega
          · have behind := (find_begins missing).2.1
            exact ⟨find_inside missing, fun _ => by omega⟩
        obtain ⟨more, more_read⟩ := ih (by omega) next.1 (fun later => by have := next.2 later; omega)
        exact ⟨first ++ more, by simp [first_read, more_read]⟩
      · exact ⟨[], rfl⟩

theorem propertiesOf_isSome_iff (s : Bytes) (iNoteEnd : Int) :
    (∃ found, propertiesOf s iNoteEnd = some found) ↔ find s [chr '<'] iNoteEnd ≠ -1 := by
  constructor
  · rintro ⟨found, read⟩ missing
    simp [propertiesOf, missing, substr] at read
  · intro marked
    have inside := find_inside marked
    have nonneg := find_begins marked
    obtain ⟨sProperty, read⟩ : ∃ line, substr s (find s [chr '<'] iNoteEnd)
        (find s [chr '>'] (find s [chr '<'] iNoteEnd) - find s [chr '<'] iNoteEnd + 1) = some line :=
      substr_isSome (by omega) inside.le
    have first : find sProperty [chr '='] 0 < sProperty.length ∨ find sProperty [chr '='] 0 = -1 := by
      by_cases missing : find sProperty [chr '='] 0 = -1
      · exact .inr missing
      · exact .inl (find_inside missing)
    obtain ⟨found, found_read⟩ : ∃ found, propertiesFrom sProperty (sProperty.length + 1)
        (find sProperty [chr '='] 0) = some found :=
      propertiesFrom_isSome _ (Nat.succ_pos _) (by omega) (fun _ => by omega)
    exact ⟨found, by simp [propertiesOf, read, found_read]⟩

theorem marked_of_tagged {s : Bytes} (tagged : Tagged s) : find s [chr '<'] 0 ≠ -1 :=
  find_of_hit (by decide) le_rfl (Int.natCast_nonneg _) (find_begins tagged).2.2

theorem children_of_xmlNode {fuel : Nat} {text s : Bytes} {v_Depth : Int} {node : XMLNode}
    (readable_text : readable text = some s) (read : xmlNode fuel text v_Depth = some node) :
    ∃ more, fuel = more + 1 ∧ Tagged s ∧
      childNodes more s v_Depth (childrenStart s) = some node.m_Nodes := by
  cases fuel with
  | zero => cases read
  | succ fuel =>
      simp only [xmlNode, readable_text, Option.bind_eq_bind, Option.bind_some,
        Option.bind_eq_some_iff, Prod.exists, Option.pure_def, Option.some.injEq] at read
      obtain ⟨m_Note, iNoteEnd, note_read, m_NodeType, m_NodeName, name_read, m_Content, iContentEnd,
        content_read, m_Property, property_read, m_Nodes, nodes_read, rfl⟩ := read
      have marked : find s [chr '<'] 0 ≠ -1 := by
        intro missing
        simp [noteOf, missing, substr] at note_read
      obtain ⟨note, note_eq⟩ := noteOf_isSome marked
      obtain ⟨-, rfl⟩ := Prod.mk.inj (Option.some.inj (note_read.symm.trans note_eq))
      obtain ⟨content, content_eq⟩ := contentOf_isSome s
      obtain ⟨-, rfl⟩ := Prod.mk.inj (Option.some.inj (content_read.symm.trans content_eq))
      exact ⟨fuel, rfl, (propertiesOf_isSome_iff s _).mp ⟨_, property_read⟩, nodes_read⟩

theorem xmlNode_of_children {fuel : Nat} {text s : Bytes} {v_Depth : Int} {nodes : List XMLNode}
    (readable_text : readable text = some s) (tagged : Tagged s)
    (children : childNodes fuel s v_Depth (childrenStart s) = some nodes) :
    ∃ node, xmlNode (fuel + 1) text v_Depth = some node := by
  obtain ⟨note, note_read⟩ := noteOf_isSome (marked_of_tagged tagged)
  obtain ⟨name, name_read⟩ := nameOf_isSome s (noteEnd s)
  obtain ⟨content, content_read⟩ := contentOf_isSome s
  obtain ⟨properties, properties_read⟩ := (propertiesOf_isSome_iff s (noteEnd s)).mpr tagged
  rw [xmlNode]
  simp only [readable_text, note_read, name_read, content_read, properties_read, children,
    Option.bind_eq_bind, Option.bind_some]
  exact ⟨_, rfl⟩

/-! The walk over a text and the texts of its children. -/

def Step (s_NodeText : Bytes) (pos next : Int) : Prop :=
  ∃ u, nextChild s_NodeText pos = some (some (u, next))

/-- The places that the loops come to, each in the text of its node. -/
inductive Reached (s_NodeText : Bytes) : Bytes → Int → Prop
  | root : Reached s_NodeText s_NodeText (childrenStart s_NodeText)
  | next {t u : Bytes} {pos next : Int} : Reached s_NodeText t pos →
      nextChild t pos = some (some (u, next)) → Reached s_NodeText t next
  | child {t u : Bytes} {pos next : Int} : Reached s_NodeText t pos →
      nextChild t pos = some (some (u, next)) → Reached s_NodeText u (childrenStart u)

/-- Each text that is read has its tag, and each child's tag ends. -/
structure Whole (s_NodeText : Bytes) : Prop where
  tagged : ∀ t pos, Reached s_NodeText t pos → Tagged t
  closed : ∀ t pos, Reached s_NodeText t pos → ¬ Broken t pos

/-- No loop comes back to a place. -/
def NoReturn (s_NodeText : Bytes) : Prop :=
  ∀ t pos, Reached s_NodeText t pos → ¬ TransGen (Step t) pos pos

/-- The children are behind their node's tag, and the loops go on behind the children. -/
structure Onward (s_NodeText : Bytes) : Prop where
  opening : childrenStart s_NodeText = -1 ∨ find s_NodeText [chr '<'] 0 < childrenStart s_NodeText
  loops : ∀ t u pos next, Reached s_NodeText t pos → nextChild t pos = some (some (u, next)) →
    find t [chr '<'] pos < next

mutual

def nodeCount : XMLNode → Nat
  | ⟨_, _, _, _, _, _, m_Nodes⟩ => 1 + nodesCount m_Nodes

def nodesCount : List XMLNode → Nat
  | [] => 0
  | node :: rest => nodeCount node + nodesCount rest

end

/-- A tree of no more nodes than there are `<`. -/
def Survives (v_NodeText : Bytes) (v_Depth : Int) : Prop :=
  ∃ fuel node, xmlNode fuel v_NodeText v_Depth = some node ∧
    nodeCount node ≤ v_NodeText.count (chr '<')

theorem childrenStart_cases (s : Bytes) : childrenStart s = -1 ∨ 1 ≤ childrenStart s := by
  by_cases missing : childrenStart s = -1
  · exact .inl missing
  · have later := find_last (by decide) missing
    have nonneg := (find_begins missing).1
    rw [← childrenStart] at later
    omega

theorem reached_bounds {s t : Bytes} {pos : Int} (reached : Reached s t pos) :
    (pos = -1 ∨ 1 ≤ pos) ∧ pos ≤ t.length := by
  have opening (u : Bytes) : (childrenStart u = -1 ∨ 1 ≤ childrenStart u) ∧ childrenStart u ≤ u.length := by
    refine ⟨childrenStart_cases u, ?_⟩
    rcases eq_or_ne (childrenStart u) (-1) with missing | there
    · omega
    · exact (find_inside there).le
  cases reached with
  | root => exact opening s
  | next _ found =>
      have taken := taken_of_nextChild found
      exact ⟨.inr taken.positive, taken.inside⟩
  | child _ _ => exact opening t

theorem readable_of_reached {s t : Bytes} {pos : Int} (read : readable s = some s)
    (reached : Reached s t pos) : readable t = some t := by
  induction reached with
  | root => exact read
  | next _ _ ih => exact ih
  | child _ found ih => exact readable_part ih (taken_of_nextChild found).within

theorem steps_closed (s t : Bytes) : Walks.Closed (Step t) {pos | Reached s t pos} :=
  fun _ reached _ ⟨_, found⟩ => reached.next found

/-- Where every child of a text can be read, so can the text from each place on. -/
theorem childNodes_exists {s t : Bytes} {pos : Int} (whole : Whole s) (reached : Reached s t pos)
    (ends : Acc (fun next first => Step t first next) pos)
    (children : ∀ u first next, Reached s t first → nextChild t first = some (some (u, next)) →
      ∃ fuel, ∀ v_Depth, ∃ node, xmlNode fuel u v_Depth = some node) :
    ∃ fuel, ∀ m_Depth, ∃ nodes, childNodes fuel t m_Depth pos = some nodes := by
  induction ends with
  | intro pos _ ih =>
      cases found : nextChild t pos with
      | none => exact absurd ((nextChild_eq_none_iff t pos).mp found) (whole.closed t pos reached)
      | some outcome =>
          rcases outcome with _ | ⟨u, next⟩
          · exact ⟨1, fun m_Depth => ⟨[], childNodes_end found 0 m_Depth⟩⟩
          · obtain ⟨node_fuel, node_read⟩ := children u pos next reached found
            obtain ⟨rest_fuel, rest_read⟩ := ih next ⟨u, found⟩ (reached.next found)
            refine ⟨max node_fuel rest_fuel + 1, fun m_Depth => ?_⟩
            obtain ⟨node, node_eq⟩ := node_read (m_Depth + 1)
            obtain ⟨rest, rest_eq⟩ := rest_read m_Depth
            refine ⟨node :: rest, ?_⟩
            rw [childNodes_child found, xmlNode_more (Nat.le_max_left _ _) node_eq,
              childNodes_more (Nat.le_max_right _ _) rest_eq]
            rfl

/-- Each child's text is shorter than its node's, and each loop ends. -/
theorem xmlNode_exists {s : Bytes} (read : readable s = some s) (whole : Whole s)
    (no_return : NoReturn s) (t : Bytes) (reached : Reached s t (childrenStart t)) :
    ∃ fuel, ∀ v_Depth, ∃ node, xmlNode fuel t v_Depth = some node := by
  induction size : t.length using Nat.strong_induction_on generalizing t with
  | _ length ih =>
      have finite : {pos | Reached s t pos}.Finite := by
        refine (Set.finite_Icc (-1 : Int) t.length).subset fun pos inside => ?_
        have bounds := reached_bounds inside
        exact ⟨by omega, bounds.2⟩
      have ends := Walks.acc_of_no_return finite (steps_closed s t) (no_return t) reached
      obtain ⟨fuel, children⟩ := childNodes_exists whole reached ends
        (fun u first next first_reached found => by
          have taken := taken_of_nextChild found
          have bounds := reached_bounds first_reached
          have looks := taken.looks
          exact ih u.length (size ▸ taken.shorter (by omega)) u (first_reached.child found) rfl)
      refine ⟨fuel + 1, fun v_Depth => ?_⟩
      obtain ⟨nodes, nodes_read⟩ := children v_Depth
      exact xmlNode_of_children (readable_of_reached read reached) (whole.tagged t _ reached) nodes_read

/-! What a text that is read has. -/

theorem childNodes_step {fuel : Nat} {t u : Bytes} {pos next m_Depth : Int} {nodes : List XMLNode}
    (read : childNodes fuel t m_Depth pos = some nodes)
    (found : nextChild t pos = some (some (u, next))) :
    ∃ more node rest, fuel = more + 1 ∧ nodes = node :: rest ∧
      xmlNode more u (m_Depth + 1) = some node ∧ childNodes more t m_Depth next = some rest := by
  cases fuel with
  | zero => cases read
  | succ fuel =>
      rw [childNodes_child found] at read
      obtain ⟨node, node_read, read⟩ := Option.bind_eq_some_iff.mp read
      obtain ⟨rest, rest_read, shape⟩ := Option.bind_eq_some_iff.mp read
      exact ⟨fuel, node, rest, rfl, (Option.some.inj shape).symm, node_read, rest_read⟩

theorem read_of_reached {s : Bytes} (again : readable s = some s) {fuel : Nat} {v_Depth : Int}
    {node : XMLNode} (read : xmlNode fuel s v_Depth = some node) {t : Bytes} {pos : Int}
    (reached : Reached s t pos) :
    Tagged t ∧ ∃ fuel m_Depth nodes, childNodes fuel t m_Depth pos = some nodes := by
  induction reached with
  | root =>
      obtain ⟨more, -, tagged, children⟩ := children_of_xmlNode again read
      exact ⟨tagged, more, v_Depth, _, children⟩
  | next _ found ih =>
      obtain ⟨tagged, fuel, m_Depth, nodes, nodes_read⟩ := ih
      obtain ⟨more, _, rest, -, -, -, rest_read⟩ := childNodes_step nodes_read found
      exact ⟨tagged, more, m_Depth, rest, rest_read⟩
  | child reached found ih =>
      obtain ⟨-, fuel, m_Depth, nodes, nodes_read⟩ := ih
      obtain ⟨more, node, _, -, -, node_read, -⟩ := childNodes_step nodes_read found
      have part := readable_of_reached again (reached.child found)
      obtain ⟨less, -, tagged, children⟩ := children_of_xmlNode part node_read
      exact ⟨tagged, less, _, _, children⟩

theorem whole_of_read {s : Bytes} (again : readable s = some s) {fuel : Nat} {v_Depth : Int}
    {node : XMLNode} (read : xmlNode fuel s v_Depth = some node) : Whole s where
  tagged _ _ reached := (read_of_reached again read reached).1
  closed t pos reached broken := by
    obtain ⟨-, fuel, m_Depth, nodes, nodes_read⟩ := read_of_reached again read reached
    cases fuel with
    | zero => cases nodes_read
    | succ fuel => simp [childNodes, (nextChild_eq_none_iff t pos).mpr broken] at nodes_read

/-- The fuel that a loop needs falls from place to place. -/
theorem noReturn_of_read {s : Bytes} (again : readable s = some s) {fuel : Nat} {v_Depth : Int}
    {node : XMLNode} (read : xmlNode fuel s v_Depth = some node) : NoReturn s := by
  intro t pos reached
  let needed : Int → Nat := fun pos =>
    sInf {fuel | ∃ m_Depth nodes, childNodes fuel t m_Depth pos = some nodes}
  refine Walks.no_return_of_falls needed (steps_closed s t) ?_ reached
  rintro first first_reached next ⟨u, found⟩
  have least : needed first ∈ {fuel | ∃ m_Depth nodes, childNodes fuel t m_Depth first = some nodes} :=
    Nat.sInf_mem (read_of_reached again read first_reached).2
  obtain ⟨m_Depth, nodes, nodes_read⟩ := least
  obtain ⟨more, _, rest, enough, -, -, rest_read⟩ := childNodes_step nodes_read found
  have less : needed next ≤ more := Nat.sInf_le ⟨m_Depth, rest, rest_read⟩
  omega

/-! The number of nodes. -/

theorem noReturn_of_onward {s : Bytes} (onward : Onward s) : NoReturn s := by
  intro t pos reached
  let left : Int → Nat := fun pos => (t.length - pos).toNat
  refine Walks.no_return_of_falls left (steps_closed s t) ?_ reached
  rintro first first_reached next ⟨u, found⟩
  have taken := taken_of_nextChild found
  have behind := (find_begins taken.marked).2.1
  have later := onward.loops t u first next first_reached found
  have inside := taken.inside
  show (t.length - next).toNat < (t.length - first).toNat
  omega

theorem opening_of_begins {u : Bytes} (begins : [chr '<'] <+: u) :
    childrenStart u = -1 ∨ find u [chr '<'] 0 < childrenStart u := by
  obtain ⟨tail, rfl⟩ := begins
  have here : findIn [chr '<'] ([chr '<'] ++ tail) = some 0 := findIn_here (chr '<') [] tail
  have parts : [chr '<'] ++ tail = [] ++ ([chr '<'] ++ tail) := rfl
  have first : find ([chr '<'] ++ tail) [chr '<'] 0 = 0 + (0 : Nat) := find_found parts rfl here
  rcases childrenStart_cases ([chr '<'] ++ tail) with missing | positive
  · exact .inl missing
  · exact .inr (by omega)

theorem count_drop_lt {s : Bytes} {byte : UInt8} {place behind : Nat} (here : [byte] <+: s.drop place)
    (later : place < behind) : (s.drop behind).count byte < s.count byte := by
  obtain ⟨rest, shape⟩ := here
  have cut : s.drop behind = rest.drop (behind - (place + 1)) := by
    have next : s.drop (place + 1) = rest := by
      rw [← List.drop_drop, ← shape]
      rfl
    rw [← next, List.drop_drop]
    congr 1
    omega
  have whole := (List.drop_sublist place s).count_le byte
  have part := (List.drop_sublist (behind - (place + 1)) rest).count_le byte
  rw [← shape] at whole
  rw [cut]
  simp only [List.singleton_append, List.count_cons_self] at whole
  omega

theorem nodeCount_eq (node : XMLNode) : nodeCount node = 1 + nodesCount node.m_Nodes := by
  cases node
  rw [nodeCount]

/-- Each node has a `<` of its own, where the loops go on behind the children. -/
theorem count_of_read {s : Bytes} (again : readable s = some s) (onward : Onward s) (fuel : Nat) :
    (∀ t v_Depth node, Reached s t (childrenStart t) →
      (childrenStart t = -1 ∨ find t [chr '<'] 0 < childrenStart t) →
      xmlNode fuel t v_Depth = some node → nodeCount node ≤ t.count (chr '<')) ∧
    (∀ t m_Depth pos nodes, Reached s t pos → childNodes fuel t m_Depth pos = some nodes →
      nodesCount nodes ≤ (t.drop pos.toNat).count (chr '<') ∧ (pos < 0 → nodes = [])) := by
  -- a node and its row of children at once: each node has the `<` of its own tag, since everything
  -- is read from the front to the back
  induction fuel with
  | zero =>
      constructor
      · intro _ _ _ _ _ read
        cases read
      · intro _ _ _ _ _ read
        cases read
  | succ fuel ih =>
      obtain ⟨node_ih, nodes_ih⟩ := ih
      constructor
      · intro t v_Depth node reached opening read
        obtain ⟨more, enough, tagged, children⟩ :=
          children_of_xmlNode (readable_of_reached again reached) read
        obtain rfl : fuel = more := by omega
        obtain ⟨few, none_left⟩ := nodes_ih t v_Depth _ _ reached children
        obtain ⟨-, nonneg, begins⟩ := find_begins (marked_of_tagged tagged)
        rw [nodeCount_eq]
        rcases opening with missing | later
        · rw [none_left (by omega), nodesCount]
          have whole := (List.drop_sublist (find t [chr '<'] 0).toNat t).count_le (chr '<')
          obtain ⟨rest, shape⟩ := begins
          rw [← shape] at whole
          simp only [List.singleton_append, List.count_cons_self] at whole
          omega
        · have fewer := count_drop_lt begins (by omega : _ < (childrenStart t).toNat)
          omega
      · intro t m_Depth pos nodes reached read
        cases found : nextChild t pos with
        | none =>
            simp [childNodes, found] at read
        | some outcome =>
            rcases outcome with _ | ⟨u, next⟩
            · rw [childNodes_end found, Option.some.injEq] at read
              subst read
              exact ⟨Nat.zero_le _, fun _ => rfl⟩
            · obtain ⟨more, node, rest, enough, rfl, node_read, rest_read⟩ := childNodes_step read found
              obtain rfl : fuel = more := by omega
              have taken := taken_of_nextChild found
              have later := onward.loops t u pos next reached found
              obtain ⟨between, begins⟩ := taken.between later
              have node_few := node_ih u _ node (reached.child found) (opening_of_begins begins) node_read
              obtain ⟨rest_few, -⟩ := nodes_ih t m_Depth next rest (reached.next found) rest_read
              have looks := taken.looks
              have behind := (find_begins taken.marked).2.1
              have ahead : (t.drop (find t [chr '<'] pos).toNat).count (chr '<') ≤
                  (t.drop pos.toNat).count (chr '<') :=
                (List.drop_sublist_drop_left t (by omega)).count_le _
              rw [between, List.count_append] at ahead
              refine ⟨?_, fun negative => absurd looks (by omega)⟩
              rw [nodesCount]
              omega

theorem ends_of_whole {v_NodeText s_NodeText : Bytes} (read : readable v_NodeText = some s_NodeText)
    (whole : Whole s_NodeText) (no_return : NoReturn s_NodeText) (v_Depth : Int) :
    ∃ fuel node, xmlNode fuel v_NodeText v_Depth = some node := by
  obtain ⟨fuel, exists_node⟩ := xmlNode_exists (readable_again read) whole no_return s_NodeText .root
  obtain ⟨node, node_read⟩ := exists_node v_Depth
  exact ⟨fuel, node, (xmlNode_of_readable read fuel v_Depth).trans node_read⟩

theorem survives_of_whole {v_NodeText s_NodeText : Bytes} (read : readable v_NodeText = some s_NodeText)
    (whole : Whole s_NodeText) (onward : Onward s_NodeText) (v_Depth : Int) :
    Survives v_NodeText v_Depth := by
  obtain ⟨fuel, node, node_read⟩ := ends_of_whole read whole (noReturn_of_onward onward) v_Depth
  refine ⟨fuel, node, node_read, ?_⟩
  rw [xmlNode_of_readable read] at node_read
  have few := (count_of_read (readable_again read) onward fuel).1 s_NodeText v_Depth node .root
    onward.opening node_read
  exact few.trans ((sublist_of_readable read).1.count_le _)

/-! Texts without notes. -/

/-- No note, and behind each `<` there is a `>`. -/
structure Plain (s_NodeText : Bytes) : Prop where
  noteless : ¬ XML_NOTE_BEGIN_TAG <:+: s_NodeText
  closed : ∀ place, [chr '<'] <+: s_NodeText.drop place →
    ∃ later, place < later ∧ [chr '>'] <+: s_NodeText.drop later

namespace Plain

variable {s u : Bytes} {pos e : Int}

theorem not_note (plain : Plain s) (place : Int) :
    substr s place XML_NOTE_BEGIN_LEN ≠ some XML_NOTE_BEGIN_TAG :=
  fun note => plain.noteless (substr_within note)

theorem noteEnd_eq (plain : Plain s) : noteEnd s = 0 := by
  rw [noteEnd, if_neg (plain.not_note _)]

theorem not_broken (plain : Plain s) : ¬ Broken s pos := by
  intro broken
  have open_tag := broken.open_tag
  obtain ⟨-, behind, begins⟩ := find_begins broken.marked
  obtain ⟨later, after, ends⟩ := plain.closed _ begins
  have looks := broken.looks
  rw [tagStart, if_neg (plain.not_note _)] at open_tag
  exact find_of_hit (by decide) (by omega) (by omega) ends open_tag

theorem onward (plain : Plain s) (found : nextChild s pos = some (some (u, e))) :
    find s [chr '<'] pos < e :=
  (taken_of_nextChild found).onward (plain.not_note _)

/-- A child ends with its `>`. -/
theorem child (plain : Plain s) (found : nextChild s pos = some (some (u, e))) :
    Plain u ∧ [chr '<'] <+: u := by
  have taken := taken_of_nextChild found
  have later := plain.onward found
  obtain ⟨between, begins⟩ := taken.between later
  refine ⟨⟨fun note => plain.noteless (note.trans taken.within), fun place here => ?_⟩, begins⟩
  have size := congrArg List.length between
  have inside := taken.inside
  have first := (find_begins taken.marked).2.1
  have looks := taken.looks
  rw [List.length_append, List.length_drop, List.length_drop] at size
  have last : [chr '>'] <+: u.drop (u.length - 1) := by
    have ends := taken.ends
    have behind : (e - 1).toNat = (find s [chr '<'] pos).toNat + (u.length - 1) := by omega
    rw [behind, ← List.drop_drop, between, List.drop_append_of_le_length (Nat.sub_le _ _)] at ends
    refine List.prefix_of_prefix_length_le ends (List.prefix_append _ _) ?_
    rw [List.length_drop, List.length_singleton]
    omega
  have within := here.length_le
  rw [List.length_drop, List.length_singleton] at within
  refine ⟨u.length - 1, ?_, last⟩
  by_contra behind
  obtain rfl : place = u.length - 1 := by omega
  obtain ⟨rest, shape⟩ := here
  rw [← shape] at last
  exact absurd (List.singleton_prefix_cons_iff.mp last) (by decide)

theorem reached (plain : Plain s) (marked : find s [chr '<'] 0 ≠ -1) {t : Bytes}
    (reached : Reached s t pos) : Plain t ∧ find t [chr '<'] 0 ≠ -1 := by
  induction reached with
  | root => exact ⟨plain, marked⟩
  | next _ _ ih => exact ih
  | child _ found ih =>
      obtain ⟨part, begins⟩ := ih.1.child found
      exact ⟨part, find_of_hit (by decide) le_rfl (Int.natCast_nonneg 0) begins⟩

end Plain

/-- A text without notes survives, where its first mark is a `<` and behind each `<` there is a
`>`. -/
theorem survives_of_plain {v_NodeText s_NodeText : Bytes} (read : readable v_NodeText = some s_NodeText)
    (plain : Plain s_NodeText) (marked : find s_NodeText [chr '<'] 0 ≠ -1)
    (first : find s_NodeText [chr '<'] 0 < find s_NodeText [chr '>'] 0) (v_Depth : Int) :
    Survives v_NodeText v_Depth := by
  have tagged {t : Bytes} {pos : Int} (reached : Reached s_NodeText t pos) : Tagged t := by
    obtain ⟨part, part_marked⟩ := plain.reached marked reached
    rw [Tagged, part.noteEnd_eq]
    exact part_marked
  have whole : Whole s_NodeText :=
    ⟨fun _ _ reached => tagged reached, fun _ _ reached => (plain.reached marked reached).1.not_broken⟩
  have onward : Onward s_NodeText := by
    refine ⟨?_, fun _ _ _ _ reached found => (plain.reached marked reached).1.onward found⟩
    by_cases missing : childrenStart s_NodeText = -1
    · exact .inl missing
    · have behind := (find_begins missing).2.1
      rw [plain.noteEnd_eq] at behind
      right
      rw [childrenStart, plain.noteEnd_eq]
      omega
  exact survives_of_whole read whole onward v_Depth

/-! Texts of any shape. -/

/-- The text is short enough, every text read in it has its tag, every child's tag ends, and no
loop comes back to a place. -/
def WellTagged (v_NodeText : Bytes) : Prop :=
  ∃ s_NodeText, readable v_NodeText = some s_NodeText ∧ Whole s_NodeText ∧ NoReturn s_NodeText

theorem ends_iff (v_NodeText : Bytes) (v_Depth : Int) :
    (∃ fuel node, xmlNode fuel v_NodeText v_Depth = some node) ↔ WellTagged v_NodeText := by
  constructor
  · rintro ⟨fuel, node, node_read⟩
    cases read : readable v_NodeText with
    | none =>
        cases fuel with
        | zero => cases node_read
        | succ fuel => simp [xmlNode, read] at node_read
    | some s =>
        rw [xmlNode_of_readable read] at node_read
        have again := readable_again read
        exact ⟨s, read, whole_of_read again node_read, noReturn_of_read again node_read⟩
  · rintro ⟨s, read, whole, no_return⟩
    exact ends_of_whole read whole no_return v_Depth

/-- The constructor ends with a tree if and only if the text is well tagged. The tree has no more
nodes than there are `<` where moreover everything is read from the front to the back. -/
theorem survives_when (v_NodeText : Bytes) (v_Depth : Int) :
    ((∃ fuel node, xmlNode fuel v_NodeText v_Depth = some node) ↔
      ∃ s_NodeText, readable v_NodeText = some s_NodeText ∧ Whole s_NodeText ∧ NoReturn s_NodeText) ∧
    ((∃ s_NodeText, readable v_NodeText = some s_NodeText ∧ Whole s_NodeText ∧ Onward s_NodeText) →
      Survives v_NodeText v_Depth) := by
  refine ⟨ends_iff v_NodeText v_Depth, ?_⟩
  rintro ⟨s, read, whole, onward⟩
  exact survives_of_whole read whole onward v_Depth

/-- A tag, and one that does not end. -/
def openTag : Bytes := [chr '<', chr 'a', chr '>', chr '<']

/-- Behind the second `<` the search for `>` ends at -1, and `substr` is to begin at -2. -/
theorem openTag_throws : ¬ ∀ v_NodeText v_Depth, 0 ∉ v_NodeText →
    (∃ before between after, v_NodeText = before ++ chr '<' :: (between ++ chr '>' :: after)) →
    Survives v_NodeText v_Depth := by
  intro claim
  obtain ⟨fuel, node, node_read, -⟩ := claim openTag 0 (by decide)
    ⟨[], [chr 'a'], [chr '<'], rfl⟩
  have again : readable openTag = some openTag := by decide
  have second : childrenStart openTag = 3 := by decide
  have whole := whole_of_read again node_read
  exact whole.closed openTag 3 (second ▸ .root) ⟨by decide, by decide, by decide⟩

/-- A note without an end leads back to a tag in front of it, for ever. -/
example : nextChild ([chr '<', chr 'a', chr '/', chr '>', chr ' '] ++ XML_NOTE_BEGIN_TAG) 4 =
    some (some (XML_NOTE_BEGIN_TAG, 4)) := by decide

/-- A `>` in front of the tag makes the node its own child. -/
example : (xmlNode 4 [chr '>', chr '<', chr 'a', chr '/', chr '>'] 0).map nodeCount = some 2 := by
  decide

end EChainLib.Config.XmlText
