import EChainLib.Support.Run
import EChainLib.Config.XmlDoc
import EChainLib.Config.XmlMalformed

/-! The calls of `GetRootNode` after a document has been loaded. -/

namespace EChainLib.Config.XmlText

open EChainLib.Keys (Bytes cString text)
open EChainLib.Strings
open EChainLib.Run

/-- After an exception the document is as it was. -/
def call (fuel : Nat) (doc : XMLDoc) (v_Name : Bytes) : XMLDoc :=
  match getRootNode fuel doc v_Name with
  | some (doc, _) => doc
  | none => doc

/-- For the root's name its whole text is handed on, or the node is returned that was made of it.
For another name no node is returned. -/
def Serves (fuel : Nat) (root : XMLNode) (doc : XMLDoc) (v_Name : Bytes) : Prop :=
  if v_Name = root.m_NodeName then
    match doc.m_RootNode with
    | none => rootText doc.m_Buffer v_Name = some (some (wholeText root))
    | some m_RootNode => xmlNode fuel (wholeText root) 0 = some m_RootNode
  else ∀ doc' m_RootNode, getRootNode fuel doc v_Name ≠ some (doc', some m_RootNode)

/-- A well tagged text lies between the first `<` with the name and the first closing tag. -/
def Answered (m_Buffer v_Name : Bytes) : Prop :=
  ∃ start stop : Nat, findIn (chr '<' :: v_Name) m_Buffer = some start ∧
    findIn (stopText v_Name) m_Buffer = some stop ∧ 0 ≤ toInt stop ∧
    ∃ sNodeText, substr m_Buffer (toInt start)
        (toInt (toInt stop + (stopText v_Name).length) - toInt start) = some sNodeText ∧
      WellTagged sNodeText

/-- What the calls may ask for. -/
structure Suited (root : XMLNode) (calls : List Bytes) : Prop where
  whole : root.m_NodeName ∈ calls → Cuttable root
  others : ∀ name ∈ calls, name ≠ root.m_NodeName →
    ¬ Answered (cString (XML_HEADLINE ++ getNodeText root)) name
  -- the node is kept, and returned for any name
  kept : ∀ before after, calls = before ++ root.m_NodeName :: after →
    WellTagged (wholeText root) → ∀ name ∈ after, name = root.m_NodeName

theorem answered_iff (m_Buffer v_Name : Bytes) : Answered m_Buffer v_Name ↔
    ∃ sNodeText, rootText m_Buffer v_Name = some (some sNodeText) ∧
      ∃ fuel node, xmlNode fuel sNodeText 0 = some node := by
  simp only [ends_iff]
  constructor
  · rintro ⟨start, stop, start_found, stop_found, positive, sNodeText, read, made⟩
    refine ⟨sNodeText, ?_, made⟩
    rw [rootText_eq start_found stop_found, if_neg (by omega), read]
    rfl
  · rintro ⟨sNodeText, cut, made⟩
    rw [rootText_eq_find] at cut
    split_ifs at cut with closed
    · cases Option.some.inj cut
    · obtain ⟨part, read, shape⟩ := Option.map_eq_some_iff.mp cut
      obtain rfl := Option.some.inj shape
      have begins := (substr_begins read).1
      cases stop_found : findIn (stopText v_Name) m_Buffer with
      | none =>
          rw [find_zero, stop_found] at closed
          exact absurd (by decide) closed
      | some stop =>
          cases start_found : findIn (chr '<' :: v_Name) m_Buffer with
          | none =>
              rw [find_zero, start_found] at begins
              exact absurd begins (by decide)
          | some start =>
              rw [find_zero, find_zero, stop_found, start_found] at read
              rw [find_zero, stop_found] at closed
              exact ⟨start, stop, start_found, stop_found, not_lt.mp closed, part, read, made⟩

/-! What a call does. -/

section Calls

variable {fuel : Nat} {doc : XMLDoc} {root m_RootNode : XMLNode}

theorem getRootNode_cached (useable : doc.m_Useable = true) (cached : doc.m_RootNode = some m_RootNode)
    (v_Name : Bytes) : getRootNode fuel doc v_Name = some (doc, some m_RootNode) := by
  simp [getRootNode, useable, cached]

theorem getRootNode_fresh (useable : doc.m_Useable = true) (fresh : doc.m_RootNode = none)
    (v_Name : Bytes) : getRootNode fuel doc v_Name =
      (rootText doc.m_Buffer v_Name).bind fun
        | none => some (doc, none)
        | some sNodeText => (xmlNode fuel sNodeText 0).map fun m_RootNode =>
            ({ doc with m_RootNode := some m_RootNode }, some m_RootNode) := by
  simp only [getRootNode, useable, Bool.true_eq_false, if_false, fresh, Option.bind_eq_bind,
    Option.pure_def, Option.map_eq_bind]
  rfl

theorem call_cached (useable : doc.m_Useable = true) (cached : doc.m_RootNode = some m_RootNode)
    (v_Name : Bytes) : call fuel doc v_Name = doc := by
  rw [call, getRootNode_cached useable cached]

/-- A call that makes no node leaves the document as it is. -/
theorem call_fresh (useable : doc.m_Useable = true) (fresh : doc.m_RootNode = none) {v_Name : Bytes}
    (unmade : ∀ sNodeText, rootText doc.m_Buffer v_Name = some (some sNodeText) →
      xmlNode fuel sNodeText 0 = none) :
    call fuel doc v_Name = doc ∧
      ∀ doc' node, getRootNode fuel doc v_Name ≠ some (doc', some node) := by
  rw [call, getRootNode_fresh useable fresh]
  rcases cut : rootText doc.m_Buffer v_Name with _ | _ | sNodeText
  · simp
  · simp
  · simp [unmade sNodeText cut]

theorem call_made (useable : doc.m_Useable = true) (fresh : doc.m_RootNode = none)
    {v_Name sNodeText : Bytes} (cut : rootText doc.m_Buffer v_Name = some (some sNodeText))
    (made : xmlNode fuel sNodeText 0 = some m_RootNode) :
    getRootNode fuel doc v_Name =
      some ({ doc with m_RootNode := some m_RootNode }, some m_RootNode) ∧
      call fuel doc v_Name = { doc with m_RootNode := some m_RootNode } := by
  have found : getRootNode fuel doc v_Name =
      some ({ doc with m_RootNode := some m_RootNode }, some m_RootNode) := by
    rw [getRootNode_fresh useable fresh, cut]
    simp [made]
  exact ⟨found, by rw [call, found]⟩

/-- The text stays loaded, and a node that is made stays. -/
theorem call_keeps (fuel : Nat) (useable : doc.m_Useable = true) (v_Name : Bytes) :
    (call fuel doc v_Name).m_Buffer = doc.m_Buffer ∧ (call fuel doc v_Name).m_Useable = true ∧
      (doc.m_RootNode ≠ none → (call fuel doc v_Name).m_RootNode ≠ none) := by
  cases kept : doc.m_RootNode with
  | some m_RootNode =>
      rw [call_cached useable kept]
      exact ⟨rfl, useable, fun _ => by simp [kept]⟩
  | none =>
      rw [call, getRootNode_fresh useable kept]
      rcases rootText doc.m_Buffer v_Name with _ | _ | sNodeText
      · exact ⟨rfl, useable, fun some_node => absurd rfl some_node⟩
      · exact ⟨rfl, useable, fun some_node => absurd rfl some_node⟩
      · cases made : xmlNode fuel sNodeText 0 with
        | none => simp [made, useable]
        | some node => simp [made, useable]

theorem final_keeps (fuel : Nat) (useable : doc.m_Useable = true) (calls : List Bytes) :
    (final (call fuel) doc calls).m_Buffer = doc.m_Buffer ∧
      (final (call fuel) doc calls).m_Useable = true ∧
      (doc.m_RootNode ≠ none → (final (call fuel) doc calls).m_RootNode ≠ none) := by
  induction calls generalizing doc with
  | nil => exact ⟨rfl, useable, id⟩
  | cons name rest ih =>
      obtain ⟨same, still, kept⟩ := call_keeps fuel useable name
      obtain ⟨rest_same, rest_still, rest_kept⟩ := ih still
      exact ⟨rest_same.trans same, rest_still, fun some_node => rest_kept (kept some_node)⟩

theorem final_cached (useable : doc.m_Useable = true) (cached : doc.m_RootNode ≠ none)
    (calls : List Bytes) : final (call fuel) doc calls = doc := by
  obtain ⟨node, kept⟩ := Option.ne_none_iff_exists'.mp cached
  induction calls with
  | nil => rfl
  | cons name rest ih => rw [final, List.foldl_cons, call_cached useable kept]; exact ih

/-- Without fuel no node is made. -/
theorem final_fresh (useable : doc.m_Useable = true) (fresh : doc.m_RootNode = none)
    (calls : List Bytes) : final (call 0) doc calls = doc := by
  induction calls with
  | nil => rfl
  | cons name rest ih =>
      rw [final, List.foldl_cons, (call_fresh useable fresh fun _ _ => rfl).1]
      exact ih

/-! A run of calls. -/

/-- The first call of the root's name has its text cut out. -/
theorem handed_of_serves (useable : doc.m_Useable = true) (fresh : doc.m_RootNode = none)
    {calls : List Bytes} (called : root.m_NodeName ∈ calls)
    (served : Meets (call 0) (Serves 0 root) doc calls) :
    rootText doc.m_Buffer root.m_NodeName = some (some (wholeText root)) := by
  obtain ⟨before, after, rfl⟩ := List.append_of_mem called
  have here := ((meets_append _ _ _ _ _).mp served).2.1
  rw [final_fresh useable fresh, Serves, if_pos rfl, fresh] at here
  exact here

theorem others_of_serves (useable : doc.m_Useable = true) {calls : List Bytes}
    (served : Meets (call fuel) (Serves fuel root) doc calls) {name : Bytes} (called : name ∈ calls)
    (other : name ≠ root.m_NodeName) {sNodeText : Bytes}
    (cut : rootText doc.m_Buffer name = some (some sNodeText)) : xmlNode fuel sNodeText 0 = none := by
  obtain ⟨before, after, rfl⟩ := List.append_of_mem called
  have here := ((meets_append _ _ _ _ _).mp served).2.1
  rw [Serves, if_neg other] at here
  obtain ⟨same, still, -⟩ := final_keeps fuel useable before
  cases made : xmlNode fuel sNodeText 0 with
  | none => rfl
  | some node =>
      cases kept : (final (call fuel) doc before).m_RootNode with
      | some m_RootNode => exact absurd (getRootNode_cached still kept name) (here _ _)
      | none => exact absurd (call_made still kept (same ▸ cut) made).1 (here _ _)

/-- Behind a call of the root's name that makes its node, every call returns it. -/
theorem kept_of_serves (useable : doc.m_Useable = true) {before after : List Bytes}
    (served : Meets (call fuel) (Serves fuel root) doc (before ++ root.m_NodeName :: after))
    {node : XMLNode} (made : xmlNode fuel (wholeText root) 0 = some node) :
    ∀ name ∈ after, name = root.m_NodeName := by
  intro name called
  obtain ⟨between, rest, rfl⟩ := List.append_of_mem called
  obtain ⟨same, still, -⟩ := final_keeps fuel useable before
  obtain ⟨here, later⟩ := ((meets_append _ _ _ _ _).mp served).2
  have cached : (call fuel (final (call fuel) doc before) root.m_NodeName).m_RootNode ≠ none := by
    cases kept : (final (call fuel) doc before).m_RootNode with
    | some m_RootNode =>
        rw [call_cached still kept, kept]
        exact Option.some_ne_none _
    | none =>
        rw [Serves, if_pos rfl, kept] at here
        rw [(call_made still kept here made).2]
        exact Option.some_ne_none _
  have next := (call_keeps fuel still root.m_NodeName).2.1
  have there := ((meets_append _ _ _ _ _).mp later).2.1
  rw [final_cached next cached] at there
  by_contra other
  rw [Serves, if_neg other] at there
  obtain ⟨m_RootNode, kept⟩ := Option.ne_none_iff_exists'.mp cached
  exact there _ _ (getRootNode_cached next kept name)

theorem serves_cached (useable : doc.m_Useable = true) (cached : doc.m_RootNode = some m_RootNode)
    (made : xmlNode fuel (wholeText root) 0 = some m_RootNode) {calls : List Bytes}
    (only : ∀ name ∈ calls, name = root.m_NodeName) : Meets (call fuel) (Serves fuel root) doc calls := by
  induction calls with
  | nil => trivial
  | cons name rest ih =>
      rw [Meets, call_cached useable cached, Serves, if_pos (only name List.mem_cons_self), cached]
      exact ⟨made, ih fun other called => only other (List.mem_cons_of_mem _ called)⟩

theorem Suited.tail {name : Bytes} {rest : List Bytes} (suited : Suited root (name :: rest)) :
    Suited root rest where
  whole called := suited.whole (List.mem_cons_of_mem _ called)
  others other called := suited.others other (List.mem_cons_of_mem _ called)
  kept before after calls := suited.kept (name :: before) after (congrArg (name :: ·) calls)

/-- By induction on the calls, until the root's node is made. -/
theorem serves_of_suited (unmarked : ∀ inner ∈ allNodes [root], Unmarked inner)
    (useable : doc.m_Useable = true)
    (buffer : doc.m_Buffer = cString (XML_HEADLINE ++ getNodeText root))
    (fresh : doc.m_RootNode = none) {calls : List Bytes} (suited : Suited root calls) :
    Meets (call fuel) (Serves fuel root) doc calls := by
  induction calls with
  | nil => trivial
  | cons name rest ih =>
      by_cases own : name = root.m_NodeName
      · subst own
        have handed : rootText doc.m_Buffer root.m_NodeName = some (some (wholeText root)) := by
          rw [buffer]
          exact (rootText_whole_iff unmarked).mpr (suited.whole List.mem_cons_self)
        refine ⟨by rw [Serves, if_pos rfl, fresh]; exact handed, ?_⟩
        -- the root's text is handed out; if its node is made, it answers all later calls
        cases made : xmlNode fuel (wholeText root) 0 with
        | none =>
            have unmade : ∀ sNodeText, rootText doc.m_Buffer root.m_NodeName = some (some sNodeText) →
                xmlNode fuel sNodeText 0 = none := by
              intro sNodeText cut
              rw [handed, Option.some.injEq, Option.some.injEq] at cut
              exact cut ▸ made
            rw [(call_fresh useable fresh unmade).1]
            exact ih suited.tail
        | some node =>
            rw [(call_made useable fresh handed made).2]
            have still : ({ doc with m_RootNode := some node } : XMLDoc).m_Useable = true := useable
            have cached : ({ doc with m_RootNode := some node } : XMLDoc).m_RootNode = some node := rfl
            have tagged := (ends_iff (wholeText root) 0).mp ⟨fuel, node, made⟩
            exact serves_cached still cached made (suited.kept [] rest rfl tagged)
      · have unmade : ∀ sNodeText, rootText doc.m_Buffer name = some (some sNodeText) →
            xmlNode fuel sNodeText 0 = none := by
          intro sNodeText cut
          rw [buffer] at cut
          by_contra some_node
          obtain ⟨node, made⟩ := Option.ne_none_iff_exists'.mp some_node
          exact suited.others name List.mem_cons_self own
            ((answered_iff _ _).mpr ⟨sNodeText, cut, fuel, node, made⟩)
        obtain ⟨same, unserved⟩ := call_fresh useable fresh unmade
        refine ⟨by rw [Serves, if_neg own]; exact unserved, ?_⟩
        rw [same]
        exact ih suited.tail

end Calls

/-- A name that no node has, and that no note closes, gets no node. -/
theorem not_answered_of_absent {root : XMLNode} (unmarked : ∀ inner ∈ allNodes [root], Unmarked inner)
    {name : Bytes} (bytes : ∀ byte ∈ name, NameByte byte)
    (absent : ∀ inner ∈ allNodes [root], ¬ Closes name inner) :
    ¬ Answered (cString (XML_HEADLINE ++ getNodeText root)) name := by
  rintro ⟨start, stop, -, stop_found, -⟩
  have inside : stopText name <:+: XML_HEADLINE ++ getNodeText root := by
    have there := (findIn_begins stop_found).isInfix.trans (List.drop_suffix _ _).isInfix
    exact there.trans (List.takeWhile_prefix _).isInfix
  have headline_closed : Brackets.Closed (chr '<') (chr '>') XML_HEADLINE := by
    have shape : XML_HEADLINE = headTag ++ [chr '>'] ++ [chr '\n'] := by
      rw [headline_eq, List.append_assoc]
      rfl
    rw [shape]
    exact (Brackets.closed_ended marks_apart headTag).append (Brackets.closed_of_absent (by decide))
  have alone : getNodeText root = getNodesText [root] := (List.append_nil _).symm
  rw [stop_append_iff bytes headline_closed, alone, stop_in_getNodesText_iff bytes _ unmarked] at inside
  rcases inside with head | ⟨inner, member, closes⟩
  · obtain ⟨rest, shape, once⟩ := headline_once
    rw [shape] at head
    have once : chr '<' ∉ chr '?' :: rest := by
      rw [List.mem_cons, not_or]
      exact ⟨by decide, once⟩
    have begins := Brackets.begins_of_once once head
    exact absurd (List.cons_prefix_cons.mp begins).1 (by decide)
  · exact absent inner member closes

/-- After a document has been loaded, in whatever state the object was, the calls are served if and
only if the root can be cut out, no other name has a well tagged text of its own, and no other name is
asked for behind the root's, where the root's text is well tagged. -/
theorem root_served_iff (doc : XMLDoc) (root : XMLNode)
    (unmarked : ∀ inner ∈ allNodes [root], Unmarked inner) (calls : List Bytes) :
    (∀ fuel, Meets (call fuel) (Serves fuel root)
      (loadXML doc (XML_HEADLINE ++ getNodeText root)).1 calls) ↔ Suited root calls := by
  have useable : (loadXML doc (XML_HEADLINE ++ getNodeText root)).1.m_Useable = true := rfl
  have fresh : (loadXML doc (XML_HEADLINE ++ getNodeText root)).1.m_RootNode = none := rfl
  have buffer : (loadXML doc (XML_HEADLINE ++ getNodeText root)).1.m_Buffer =
      cString (XML_HEADLINE ++ getNodeText root) := rfl
  constructor
  · intro served
    refine ⟨fun called => ?_, fun name called other answered => ?_, ?_⟩
    · have handed := handed_of_serves useable fresh called (served 0)
      rw [buffer] at handed
      exact (rootText_whole_iff unmarked).mp handed
    · obtain ⟨sNodeText, cut, fuel, node, made⟩ := (answered_iff _ _).mp answered
      have unmade := others_of_serves useable (served fuel) called other (buffer ▸ cut)
      rw [made] at unmade
      cases unmade
    · rintro before after rfl tagged
      obtain ⟨fuel, node, made⟩ := (ends_iff (wholeText root) 0).mpr tagged
      exact kept_of_serves useable (served fuel) made
  · intro suited fuel
    exact serves_of_suited unmarked useable buffer fresh suited

/-- A child with the name of the root. -/
def nested : XMLNode := element "a" "" [] [{ element "a" "" [] [] with m_Depth := 1 }]

/-- What is asked for twice, behind a name that is not in the document. -/
def sampleRoot : XMLNode :=
  element "root" "" [("p", "x y")] [{ element "item" "1" [] [] with m_Depth := 1 },
    { element "roots" "" [] [] with m_Depth := 1 }]

theorem root_served_iff_applies : Meets (call 8) (Serves 8 sampleRoot)
    (loadXML ⟨some nested, text "a", true⟩ (XML_HEADLINE ++ getNodeText sampleRoot)).1
    [text "node", text "root", text "root"] := by
  have unmarked : ∀ inner ∈ allNodes [sampleRoot], Unmarked inner := by decide +kernel
  refine (root_served_iff ⟨some nested, text "a", true⟩ sampleRoot unmarked
    [text "node", text "root", text "root"]).mpr ⟨fun _ => ?_, fun name called other => ?_, ?_⟩ 8
  · exact ⟨by decide +kernel, by decide +kernel, by decide +kernel, by decide +kernel,
      by decide +kernel, by decide +kernel⟩
  · have absent : name = text "node" := by
      simp only [List.mem_cons, List.not_mem_nil, or_false, or_self] at called
      exact called.resolve_right other
    subst absent
    exact not_answered_of_absent unmarked (by decide +kernel) (by decide +kernel)
  · rintro before after calls - name member
    cases before with
    | nil =>
        injection calls with first _
        exact absurd first (by decide +kernel)
    | cons head before =>
        injection calls with _ rest
        have called : name ∈ [text "root", text "root"] := by rw [rest]; simp [member]
        rcases List.mem_cons.mp called with first | second
        · exact first
        · exact List.mem_singleton.mp second

/-- The root's text is cut at the end of its child. -/
theorem nested_cut : ¬ ∀ (doc : XMLDoc) (root : XMLNode), (∀ inner ∈ allNodes [root], Unmarked inner) →
    ∀ fuel calls, Meets (call fuel) (Serves fuel root)
      (loadXML doc (XML_HEADLINE ++ getNodeText root)).1 calls := by
  intro claim
  have unmarked : ∀ inner ∈ allNodes [nested], Unmarked inner := by decide +kernel
  have handed := handed_of_serves rfl rfl List.mem_cons_self
    (claim ⟨none, [], false⟩ nested unmarked 0 [nested.m_NodeName])
  have cut : rootText (cString (XML_HEADLINE ++ getNodeText nested)) nested.m_NodeName ≠
      some (some (wholeText nested)) := by decide +kernel
  exact cut handed

end EChainLib.Config.XmlText
