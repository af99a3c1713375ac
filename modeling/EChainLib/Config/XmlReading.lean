import EChainLib.Config.XmlProperties

/-! The constructor of `XMLNode` on a row of tags gives what the row is when read without
counting. -/

namespace EChainLib.Config.XmlText

open EChainLib.Keys (Bytes cString)
open EChainLib.Strings
open EChainLib.Tags (Forest Tag split children starts)

/-! The tag at the beginning of a text. -/

/-- The label as it is read, with the properties found in the start tag. -/
def heard (label : Label) : Label :=
  { label with properties := (propertiesOf (tagText (.start label)) 0).getD [] }

section Head
variable {s : Bytes} {label : Label} {after : Bytes}

theorem tag_shape (parts : s = tagText (.start label) ++ after) :
    s = [] ++ chr '<' :: (label.name ++ (attributes label ++ chr '>' ::
      (label.content ++ after))) := by
  rw [parts]
  simp [tagText]

theorem find_start (parts : s = tagText (.start label) ++ after) : find s [chr '<'] 0 = 0 := by
  have found := findIn_at (chr '<') [] (label.name ++ (attributes label ++ chr '>' ::
    (label.content ++ after))) (by simp)
  have here := find_found (tag_shape parts) rfl found
  simpa using here

theorem noteOf_start (parts : s = tagText (.start label) ++ after) (allowed : label.Allowed)
    (no_note : ¬ NoteLike label) : noteOf s = some ([], 0) := by
  have first : substr s 0 XML_NOTE_BEGIN_LEN = some ((chr '<' :: (label.name ++
      (attributes label ++ chr '>' :: (label.content ++ after)))).take 5) :=
    substr_take (tag_shape parts) rfl
  have no_begin : (chr '<' :: (label.name ++ (attributes label ++ chr '>' ::
      (label.content ++ after)))).take 5 ≠ XML_NOTE_BEGIN_TAG :=
    fun same => no_note (noteLike_of_begins allowed _ (same ▸ List.take_prefix _ _))
  simp only [noteOf, find_start parts, first, Option.bind_eq_bind, Option.bind_some, no_begin,
    if_false]
  rfl

theorem tag_ends (parts : s = tagText (.start label) ++ after) (allowed : label.Allowed) :
    find s [chr '>'] 0 = (1 + label.name.length + (attributes label).length : Nat) ∧
    nameEnd (find s [chr ' '] 0) (find s [chr '>'] 0) = (1 + label.name.length : Nat) := by
  have no_end := notMem_of_all allowed.name (chr '>') (by decide)
  have no_end' := attributes_notMem allowed (chr '>') (by decide) (by decide) (by decide)
  have ends := nameEnd_eq (tag_shape parts) rfl (notMem_of_all allowed.name (chr ' ') (by decide))
    (by simp [no_end, no_end']) (attributes_spaced label)
  simpa using ends

theorem nameOf_start (parts : s = tagText (.start label) ++ after) (allowed : label.Allowed) :
    nameOf s 0 = some (0, label.name) := by
  obtain ⟨ends, named⟩ := tag_ends parts allowed
  obtain ⟨front, byte, shape, open_tag⟩ := last_byte label.name (attributes label) (tag_last allowed)
  have some_end : find s [chr '>'] 0 > 0 := by omega
  have closing : substr s (find s [chr '>'] 0 - 1) 1 = some [byte] :=
    read_last (tag_shape parts) rfl (by simpa using ends) shape
  have name : substr s (0 + 1) ((1 + label.name.length : Nat) - 0 - 1) = some label.name := by
    have cut : s = [chr '<'] ++ (label.name ++ (attributes label ++ chr '>' ::
        (label.content ++ after))) := tag_shape parts
    exact substr_eq cut rfl (by omega)
  have open_text : [byte] ≠ [chr '/'] := by simpa using open_tag
  have kind : ¬ ((0 : Int) = 1 ∧ find s [chr ' '] 0 = -1) := by omega
  simp only [nameOf, find_start parts, named, some_end, closing, name, open_text, if_true, if_false,
    Option.bind_eq_bind, Option.bind_some, kind, Option.pure_def]

/-- The place behind the content is that of the next tag, if there is one. -/
theorem contentOf_start (parts : s = tagText (.start label) ++ after) (allowed : label.Allowed)
    (tag : after = [] ∨ ∃ more, after = chr '<' :: more) :
    contentOf s 0 =
      some (label.content, if after = [] then -1 else ((tagText (.start label)).length : Int)) := by
  obtain ⟨ends, -⟩ := tag_ends parts allowed
  have no_tag : chr '<' ∉ chr '>' :: label.content := by
    simp [notMem_of_all allowed.content (chr '<') (by decide), show chr '<' ≠ chr '>' by decide]
  have cut : s = (chr '<' :: (label.name ++ attributes label)) ++
      (chr '>' :: (label.content ++ after)) := by
    rw [parts]
    simp [tagText]
  have cut' : s = (chr '<' :: (label.name ++ (attributes label ++ [chr '>']))) ++
      (label.content ++ after) := by
    rw [parts]
    simp [tagText]
  have place : find s [chr '>'] 0 = (chr '<' :: (label.name ++ attributes label)).length := by
    rw [ends]
    simp
    omega
  have place' : find s [chr '>'] 0 + 1 =
      (chr '<' :: (label.name ++ (attributes label ++ [chr '>']))).length := by
    rw [ends]
    simp
    omega
  rcases tag with rfl | ⟨more, rfl⟩
  · have missing : find s [chr '<'] (find s [chr '>'] 0) = -1 := by
      rw [List.append_nil] at cut
      exact find_missing cut place (findIn_of_notMem _ _ _ no_tag)
    have content : substr s (find s [chr '>'] 0 + 1) (-1 - find s [chr '>'] 0 - 1) =
        some label.content := by
      rw [List.append_nil] at cut'
      exact substr_rest cut' place' (by omega)
    simp [contentOf, missing, content]
  · have found := findIn_at (chr '<') (chr '>' :: label.content) more no_tag
    have next : find s [chr '<'] (find s [chr '>'] 0) = (tagText (.start label)).length := by
      rw [find_found cut place (by simpa using found), ends]
      simp [tagText]
      omega
    have content : substr s (find s [chr '>'] 0 + 1)
        ((tagText (.start label)).length - find s [chr '>'] 0 - 1) = some label.content := by
      refine substr_eq cut' place' ?_
      rw [ends]
      simp [tagText]
      omega
    simp [contentOf, next, content]

/-- The properties are read in the start tag alone. -/
theorem propertiesOf_start (parts : s = tagText (.start label) ++ after) (allowed : label.Allowed) :
    ∃ found, propertiesOf s 0 = some found ∧
      found.length = label.properties.length + strays label.properties ∧
      (strays label.properties = 0 → found = label.properties) ∧
      propertiesFrom (chr '<' :: (label.name ++ tagEnd label.properties))
        ((chr '<' :: (label.name ++ tagEnd label.properties)).length + 1)
        (find (chr '<' :: (label.name ++ tagEnd label.properties)) [chr '='] 0) = some found := by
  obtain ⟨ends, -⟩ := tag_ends parts allowed
  have line : substr s 0 (find s [chr '>'] 0 - 0 + 1) =
      some (chr '<' :: (label.name ++ tagEnd label.properties)) := by
    have cut : s = [] ++ ((chr '<' :: (label.name ++ tagEnd label.properties)) ++
        (label.content ++ after)) := by
      rw [parts]
      simp [tagText, tagEnd, attributes]
    refine substr_eq cut rfl ?_
    rw [ends]
    simp [tagEnd, attributes]
    omega
  obtain ⟨found, reads, length, same⟩ := propertiesFrom_tagEnd
    (show chr '<' :: (label.name ++ tagEnd label.properties) =
      (chr '<' :: label.name) ++ tagEnd label.properties by simp) (by simp)
    fun property member => allowed.property member
  have skip : find (chr '<' :: (label.name ++ tagEnd label.properties)) [chr '='] 0 =
      find (chr '<' :: (label.name ++ tagEnd label.properties)) [chr '=']
        (chr '<' :: label.name).length := by
    have no_sign := notMem_of_all allowed.name (chr '=') (by decide)
    have cut : chr '<' :: (label.name ++ tagEnd label.properties) =
        [] ++ ((chr '<' :: label.name) ++ tagEnd label.properties) := by simp
    refine find_skip cut rfl (by simp) ?_
    simp [no_sign, show chr '=' ≠ chr '<' by decide]
  have read := reads ((chr '<' :: (label.name ++ tagEnd label.properties)).length + 1) (by
    simp only [List.length_cons, List.length_append]
    omega)
  rw [← skip] at read
  refine ⟨found, ?_, length, same, read⟩
  simp only [propertiesOf, find_start parts, line, Option.bind_eq_bind, Option.bind_some]
  exact read

theorem propertiesOf_eq (parts : s = tagText (.start label) ++ after) (allowed : label.Allowed) :
    propertiesOf s 0 = some (heard label).properties := by
  obtain ⟨found, read, -, -, line⟩ := propertiesOf_start parts allowed
  obtain ⟨alone, alone_read, -, -, alone_line⟩ :=
    propertiesOf_start (List.append_nil (tagText (.start label))).symm allowed
  rw [alone_line, Option.some.injEq] at line
  rw [read, heard, alone_read, line]
  rfl

end Head

theorem heard_eq_iff {label : Label} (allowed : label.Allowed) :
    heard label = label ↔ strays label.properties = 0 := by
  obtain ⟨found, read, length, same, -⟩ :=
    propertiesOf_start (List.append_nil (tagText (.start label))).symm allowed
  have shape : heard label = { label with properties := found } := by rw [heard, read]; rfl
  rw [shape]
  constructor
  · intro unchanged
    have lengths := congrArg (fun label => label.properties.length) unchanged
    simp only [length] at lengths
    omega
  · intro none_strange
    rw [same none_strange]

theorem strays_eq_zero_iff (properties : List Property) :
    strays properties = 0 ↔
      ∀ property ∈ properties.dropLast, chr '=' ∉ property.PropertyValue := by
  induction properties with
  | nil => simp [strays]
  | cons property rest ih =>
      cases rest with
      | nil => simp [strays]
      | cons next rest =>
          rw [strays, Nat.add_eq_zero_iff, ih]
          simp [List.count_eq_zero]

/-- A text that begins like a note. -/
def Noted (text : Bytes) : Prop := ∃ more, more ≠ [] ∧ text = XML_NOTE_BEGIN_TAG ++ more

theorem noted_render {label : Label} (like : NoteLike label) (tags : List (Tag Label Bytes)) :
    Noted (render (.start label :: tags)) := by
  obtain ⟨more, some_more, shape⟩ := prefix_of_noteLike like
    (chr '>' :: (label.content ++ render tags))
  exact ⟨more, some_more, by simpa [tagText] using shape⟩

/-- The text from a tag that looks like a note to the first end tag of the name in front, or to the
end of the text where that tag stands before it. -/
theorem noted_text {own label : Label} {done rest inside behind : List (Tag Label Bytes)} {s : Bytes}
    {pos : Int} (at_tag : s = render (.start own :: done) ++ render (.start label :: rest))
    (place : pos = (render (.start own :: done)).length) (like : NoteLike label)
    (cut : done ++ .start label :: rest = inside ++ .stop own.name :: behind) :
    ∃ text, substr s pos ((render (.start own :: inside)).length + (own.name.length + 3) - pos) =
      some text ∧ text <:+: s ∧ (text = [] ∨ Noted text) := by
  rcases List.append_eq_append_iff.mp cut with ⟨between, long, tails⟩ | ⟨between, long, tails⟩
  · -- the end tag is behind the one that looks like a note
    cases between with
    | nil => cases tails
    | cons tag between =>
        injection tails with same_tag tails
        subst same_tag
        refine ⟨render (.start label :: (between ++ [.stop own.name])), ?_, ?_, .inr (noted_render like _)⟩
        · have text : s = render (.start own :: done) ++
              (render (.start label :: (between ++ [.stop own.name])) ++ render behind) := by
            rw [at_tag, tails]
            simp
          refine substr_eq text place ?_
          rw [place, long]
          simp [tagText, stopText]
          omega
        · refine ⟨render (.start own :: done), render behind, ?_⟩
          rw [at_tag, tails]
          simp
  · cases between with
    | nil => cases tails
    | cons tag between =>
        injection tails with same_tag tails
        subst same_tag
        have size : ((render (.start own :: inside)).length : Int) + (own.name.length + 3) - pos =
            -(render between).length := by
          rw [place, long]
          simp [tagText, stopText]
          omega
        rw [size]
        by_cases empty : (render between).length = 0
        · refine ⟨[], ?_, List.nil_infix, .inl rfl⟩
          rw [empty]
          exact substr_take at_tag place
        · exact ⟨_, substr_rest at_tag place (by omega),
            ⟨render (.start own :: done), [], by simp [at_tag]⟩, .inr (noted_render like rest)⟩

/-- Where a start tag looks like a note, the tag is looked for at the beginning of the text. The
child's text begins like a note, or is empty. -/
theorem nextChild_note {s : Bytes} {own label : Label} {done rest : List (Tag Label Bytes)} {pos : Int}
    (parts : s = render (.start own :: (done ++ .start label :: rest)))
    (place : pos = (render (.start own :: done)).length)
    (proper : ∀ tag ∈ Tag.start own :: (done ++ .start label :: rest), Proper tag)
    (closed : .stop own.name ∈ done ++ .start label :: rest) (like : NoteLike label) :
    ∃ text next, nextChild s pos = some (some (text, next)) ∧ text <:+: s ∧
      (text = [] ∨ Noted text) := by
  have allowed : own.Allowed := proper (.start own) List.mem_cons_self
  have nonneg : 0 ≤ pos := by omega
  have some_place : pos ≠ -1 := by omega
  have at_tag : s = render (.start own :: done) ++ render (.start label :: rest) := by simp [parts]
  have head : s = tagText (.start own) ++ render (done ++ .start label :: rest) := by simp [parts]
  obtain ⟨more, some_more, shape⟩ := noted_render like rest
  have here : find s [chr '<'] pos = pos := by
    have found := findIn_at (chr '<') [] (render (.start label :: rest)).tail (by simp)
    rw [find_found at_tag place (by rw [shape] at found ⊢; exact found)]
    simp
  have first : substr s pos XML_NOTE_BEGIN_LEN = some XML_NOTE_BEGIN_TAG := by
    rw [shape] at at_tag
    exact substr_eq at_tag place rfl
  have no_end : find s XML_NOTE_END_TAG pos = -1 := by
    refine find_missing at_tag place (findIn_of_absent ?_)
    refine no_note_end _ fun tag member => proper tag ?_
    simp only [List.mem_cons, List.mem_append] at member ⊢
    tauto
  obtain ⟨ends, named⟩ := tag_ends head allowed
  obtain ⟨front, byte, line, open_tag⟩ := last_byte own.name (attributes own) (tag_last allowed)
  have closing : substr s (find s [chr '>'] 0 - 1) 1 = some [byte] :=
    read_last (tag_shape head) rfl (by simpa using ends) line
  have name : substr s (0 + 1) ((1 + own.name.length : Nat) - 0 - 1) = some own.name := by
    have cut : s = [chr '<'] ++ (own.name ++ (attributes own ++ chr '>' ::
        (own.content ++ render (done ++ .start label :: rest)))) := tag_shape head
    exact substr_eq cut rfl (by omega)
  have open_text : [byte] ≠ [chr '/'] := by simpa using open_tag
  obtain ⟨inside, behind, cut, alone⟩ := List.eq_append_cons_of_mem closed
  have target : find s (stopText own.name) (1 + own.name.length : Nat) =
      (render (.start own :: inside)).length := by
    have from_name : s = (chr '<' :: own.name) ++ (attributes own ++ chr '>' ::
        (own.content ++ render (done ++ .start label :: rest))) := by
      simp [tag_shape head]
    have hit := (Tags.split_eq_some_iff own.name _ inside behind).mpr ⟨alone, cut⟩
    have found := findIn_behind allowed own.name (notMem_of_all allowed.name (chr '>') (by decide))
      (done ++ .start label :: rest) fun tag member => proper tag (List.mem_cons_of_mem _ member)
    rw [hit] at found
    rw [find_found from_name (by simp; omega) found]
    simp [tagText]
    omega
  obtain ⟨text, text_read, part, kind⟩ := noted_text at_tag place like cut
  have end_tag : [chr '<', chr '/'] ++ own.name ++ [chr '>'] = stopText own.name := rfl
  have positive : ((render (.start own :: inside)).length : Int) > 0 := by
    simp [tagText]
    omega
  have from_start : (-1 : Int) + 1 = 0 := rfl
  refine ⟨text, (render (.start own :: inside)).length + (own.name.length + 3), ?_, part, kind⟩
  simp only [nextChild, ge_iff_le, nonneg, if_true, here, some_place, if_false, first,
    Option.bind_eq_bind, Option.bind_some, no_end, from_start, find_start head,
    closing, open_text, named, name, end_tag, target, positive, text_read, Option.pure_def]

/-! What is read of a text. -/

def Quiet (byte : UInt8) : Prop :=
  byte ≠ 0 ∧ byte ≠ chr '\t' ∧ byte ≠ chr '\r' ∧ byte ≠ chr '\n'

instance (byte : UInt8) : Decidable (Quiet byte) := inferInstanceAs (Decidable (_ ∧ _))

theorem length_toInt {n : Nat} (short : n + 1 < 2 ^ 31) : (Int32.ofNat n).toInt = n := by
  rw [Int32.toInt_ofNat_of_lt (by omega)]

theorem readable_of_short {text : Bytes} (short : text.length + 1 < 2 ^ 31) :
    readable text = some (cString (text.filter fun byte =>
      !(byte = chr '\t' || byte = chr '\r' || byte = chr '\n'))) := by
  have length := length_toInt short
  have fits : (0 : Int) ≤ text.length ∧ (text.length : Int) + 1 < 2 ^ 31 := by omega
  simp only [readable, length, fits, and_self, if_true, Int.toNat_natCast, List.take_length]

theorem readable_of_quiet {text : Bytes} (quiet : ∀ byte ∈ text, Quiet byte)
    (short : text.length + 1 < 2 ^ 31) : readable text = some text := by
  have kept : text.filter (fun byte => !(byte = chr '\t' || byte = chr '\r' || byte = chr '\n')) =
      text := by
    refine List.filter_eq_self.mpr fun byte member => ?_
    have seen := quiet byte member
    simp [seen.2.1, seen.2.2.1, seen.2.2.2]
  have whole : cString text = text := by
    refine List.takeWhile_eq_self_iff.mpr fun byte member => ?_
    simpa using (quiet byte member).1
  rw [readable_of_short short, kept, whole]

theorem quiet_of_readable {text s : Bytes} (read : readable text = some s) :
    ∀ byte ∈ s, Quiet byte := by
  intro byte member
  simp only [readable] at read
  split_ifs at read
  rw [Option.some.injEq] at read
  subst read
  have kept := (List.takeWhile_prefix _).subset member
  have some_byte := List.mem_takeWhile_imp member
  simp only [List.mem_filter, Bool.not_eq_true', Bool.or_eq_false_iff, decide_eq_false_iff_not] at kept
  exact ⟨by simpa using some_byte, kept.2.1.1, kept.2.1.2, kept.2.2⟩

theorem sublist_of_readable {text s : Bytes} (read : readable text = some s) :
    s.Sublist text ∧ s.length + 1 < 2 ^ 31 := by
  simp only [readable] at read
  split_ifs at read with fits
  rw [Option.some.injEq] at read
  have kept : s.Sublist (text.take (Int32.ofNat text.length).toInt.toNat) := by
    rw [← read]
    exact (List.takeWhile_prefix _).sublist.trans List.filter_sublist
  have size := kept.length_le
  rw [List.length_take] at size
  exact ⟨kept.trans (List.take_sublist _ _), by omega⟩

/-- What is read of a text is read whole. -/
theorem readable_again {text s : Bytes} (read : readable text = some s) : readable s = some s :=
  readable_of_quiet (quiet_of_readable read) (sublist_of_readable read).2

theorem readable_part {s part : Bytes} (read : readable s = some s) (inside : part <:+: s) :
    readable part = some part := by
  have short := (sublist_of_readable read).2
  have shorter := inside.length_le
  exact readable_of_quiet (fun byte member => quiet_of_readable read byte (inside.subset member))
    (by omega)

def label (node : XMLNode) : Label := ⟨node.m_NodeName, node.m_Property, node.m_Content⟩

mutual

/-- A node with those beside it. -/
def tree : XMLNode → Forest Label → Forest Label
  | ⟨_, m_NodeName, m_Content, _, _, m_Property, m_Nodes⟩, beside =>
      .node ⟨m_NodeName, m_Property, m_Content⟩ (forest m_Nodes) beside

/-- The names, contents, properties and children of nodes. -/
def forest : List XMLNode → Forest Label
  | [] => .nil
  | node :: rest => tree node (forest rest)

end

mutual

def XMLNode.Noteless : XMLNode → Prop
  | ⟨m_Note, _, _, _, _, _, m_Nodes⟩ => m_Note = [] ∧ Noteless m_Nodes

def Noteless : List XMLNode → Prop
  | [] => True
  | node :: rest => node.Noteless ∧ Noteless rest

end

@[simp] theorem forest_nil : forest [] = .nil := rfl

@[simp] theorem forest_cons (node : XMLNode) (rest : List XMLNode) :
    forest (node :: rest) = .node (label node) (forest node.m_Nodes) (forest rest) := by
  cases node
  rfl

@[simp] theorem noteless_cons (node : XMLNode) (rest : List XMLNode) :
    Noteless (node :: rest) ↔ (node.m_Note = [] ∧ Noteless node.m_Nodes) ∧ Noteless rest := by
  cases node
  rfl

theorem nodes_induction {motive : List XMLNode → Prop} (nil : motive [])
    (cons : ∀ node rest, motive node.m_Nodes → motive rest → motive (node :: rest)) :
    ∀ nodes, motive nodes
  | [] => nil
  | ⟨_, _, _, _, _, _, m_Nodes⟩ :: rest =>
      cons _ rest (nodes_induction nil cons m_Nodes) (nodes_induction nil cons rest)

/-- A text that begins like a note, and has no end of one, gives a node with a note. -/
theorem note_of_noted {fuel : Nat} {text : Bytes} {v_Depth : Int} {node : XMLNode}
    (readable_text : readable text = some text) (noted : Noted text)
    (no_end : ¬ XML_NOTE_END_TAG <:+: text) (read : xmlNode fuel text v_Depth = some node) :
    node.m_Note ≠ [] := by
  obtain ⟨more, some_more, shape⟩ := noted
  have here : find text [chr '<'] 0 = 0 := by
    have found := findIn_at (chr '<') [] ([chr '!', chr '-', chr '-', chr ' '] ++ more) (by simp)
    have parts : text = [] ++ ([] ++ chr '<' :: ([chr '!', chr '-', chr '-', chr ' '] ++ more)) :=
      shape
    have hit := find_found parts rfl found
    simpa using hit
  have first : substr text 0 XML_NOTE_BEGIN_LEN = some XML_NOTE_BEGIN_TAG := by
    have parts : text = [] ++ (XML_NOTE_BEGIN_TAG ++ more) := shape
    exact substr_eq parts rfl rfl
  have missing : find text XML_NOTE_END_TAG 0 = -1 := by
    have parts : text = [] ++ text := rfl
    exact find_missing parts rfl (findIn_of_absent no_end)
  have rest : substr text (0 + XML_NOTE_BEGIN_LEN)
      (-1 + XML_NOTE_END_LEN - XML_NOTE_BEGIN_LEN - XML_NOTE_END_LEN) = some more :=
    substr_rest shape rfl (by decide)
  have some_end : (-1 : Int) + XML_NOTE_END_LEN > 0 := by decide
  have note : noteOf text = some (more, -1 + XML_NOTE_END_LEN) := by
    simp only [noteOf, here, first, missing, some_end, rest, if_true, Option.bind_eq_bind,
      Option.bind_some, Option.pure_def]
  cases fuel with
  | zero => cases read
  | succ fuel =>
      simp only [xmlNode, readable_text, note, Option.bind_eq_bind, Option.bind_some,
        Option.bind_eq_some_iff, Option.pure_def, Option.some.injEq] at read
      obtain ⟨_, _, _, _, _, _, _, _, rfl⟩ := read
      exact some_more

theorem xmlNode_empty (fuel : Nat) (v_Depth : Int) : xmlNode fuel [] v_Depth = none := by
  cases fuel <;> rfl

/-! A text that is a row of tags, from a start tag that is closed on. -/

structure WellFormed (own : Label) (row : List (Tag Label Bytes)) : Prop where
  proper : ∀ tag ∈ Tag.start own :: row, Proper tag
  closed : Tag.stop own.name ∈ row
  quiet : ∀ byte ∈ render (.start own :: row), Quiet byte
  short : (render (.start own :: row)).length + 1 < 2 ^ 31

namespace WellFormed
variable {own label : Label} {done row rest inside behind : List (Tag Label Bytes)}

theorem allowed (formed : WellFormed own row) : own.Allowed :=
  formed.proper (.start own) List.mem_cons_self

theorem readable (formed : WellFormed own row) :
    readable (render (.start own :: row)) = some (render (.start own :: row)) :=
  readable_of_quiet formed.quiet formed.short

/-- The text of a child is well formed too. -/
theorem child (formed : WellFormed own (done ++ .start label :: rest))
    (cut : rest = inside ++ .stop label.name :: behind) :
    WellFormed label (inside ++ [.stop label.name]) := by
  subst cut
  have whole : render (.start own :: (done ++ .start label ::
      (inside ++ .stop label.name :: behind))) = render (.start own :: done) ++
        (render (.start label :: (inside ++ [.stop label.name])) ++ render behind) := by
    simp
  refine ⟨fun tag member => formed.proper tag ?_, by simp, fun byte member => formed.quiet byte ?_, ?_⟩
  · simp only [List.mem_cons, List.mem_append, List.not_mem_nil, or_false] at member ⊢
    tauto
  · rw [whole]
    simp only [List.mem_append, member, true_or, or_true]
  · have short := formed.short
    rw [whole, List.length_append, List.length_append] at short
    omega

theorem next_tag (formed : WellFormed own row) : ∃ more, render row = chr '<' :: more := by
  obtain ⟨tag, rest, rfl⟩ := List.exists_cons_of_ne_nil (List.ne_nil_of_mem formed.closed)
  cases tag <;> exact ⟨_, rfl⟩

end WellFormed

/-- The constructor where the text does not begin like a note. -/
theorem xmlNode_start {own : Label} {row : List (Tag Label Bytes)} (formed : WellFormed own row)
    (no_note : ¬ NoteLike own) (fuel : Nat) (v_Depth : Int) :
    xmlNode (fuel + 1) (render (.start own :: row)) v_Depth =
      (childNodes fuel (render (.start own :: row)) v_Depth (render [.start own]).length).map
        fun m_Nodes => ⟨[], own.name, own.content, 0, v_Depth, (heard own).properties, m_Nodes⟩ := by
  obtain ⟨more, next⟩ := formed.next_tag
  have parts : render (.start own :: row) = tagText (.start own) ++ render row := rfl
  have some_row : render row ≠ [] := by simp [next]
  have content := contentOf_start parts formed.allowed (.inr ⟨more, next⟩)
  rw [if_neg some_row] at content
  have own_text : tagText (.start own) = render [.start own] := by simp
  simp only [xmlNode, formed.readable, noteOf_start parts formed.allowed no_note,
    nameOf_start parts formed.allowed, content, propertiesOf_eq parts formed.allowed,
    Option.bind_eq_bind, Option.bind_some, own_text]
  cases childNodes fuel (render (.start own :: row)) v_Depth (render [.start own]).length <;> rfl

theorem childNodes_end {s : Bytes} {pos : Int} (ends : nextChild s pos = some none) (fuel : Nat)
    (m_Depth : Int) : childNodes (fuel + 1) s m_Depth pos = some [] := by
  simp [childNodes, ends]

theorem childNodes_child {s text : Bytes} {pos next : Int}
    (child : nextChild s pos = some (some (text, next))) (fuel : Nat) (m_Depth : Int) :
    childNodes (fuel + 1) s m_Depth pos = (xmlNode fuel text (m_Depth + 1)).bind fun pNode =>
      (childNodes fuel s m_Depth next).bind fun rest => some (pNode :: rest) := by
  simp [childNodes, child]

namespace WellFormed
variable {own label : Label} {done row rest : List (Tag Label Bytes)} {pos : Int}

theorem behind (formed : WellFormed own (done ++ row)) : ∀ tag ∈ row, Proper tag := fun tag member =>
  formed.proper tag (List.mem_cons_of_mem _ (List.mem_append_right done member))

theorem next_start (formed : WellFormed own (done ++ .start label :: rest))
    (place : pos = (render (.start own :: done)).length) (no_note : ¬ NoteLike label) :
    nextChild (render (.start own :: (done ++ .start label :: rest))) pos =
      match split label.name rest with
      | none => some none
      | some (inside, _) =>
          let child := render (.start label :: (inside ++ [.stop label.name]))
          some (some (child, pos + child.length)) := by
  have parts : render (.start own :: (done ++ .start label :: rest)) =
      render (.start own :: done) ++ render (.start label :: rest) := by simp
  exact nextChild_start parts place formed.behind no_note

theorem next_stop {name : Bytes} (formed : WellFormed own (done ++ .stop name :: rest))
    (place : pos = (render (.start own :: done)).length) :
    nextChild (render (.start own :: (done ++ .stop name :: rest))) pos = some none := by
  have parts : render (.start own :: (done ++ .stop name :: rest)) =
      render (.start own :: done) ++ render (.stop name :: rest) := by simp
  exact nextChild_stop parts place formed.behind

/-- A child whose tag looks like a note is read as one. -/
theorem noted_child (formed : WellFormed own (done ++ .start label :: rest))
    (place : pos = (render (.start own :: done)).length) (like : NoteLike label) {fuel : Nat}
    {m_Depth : Int} {nodes : List XMLNode}
    (read : childNodes (fuel + 1) (render (.start own :: (done ++ .start label :: rest))) m_Depth
      pos = some nodes) : ¬ Noteless nodes := by
  intro noteless
  obtain ⟨text, next, child, part, kind⟩ :=
    nextChild_note rfl place formed.proper formed.closed like
  rw [childNodes_child child] at read
  obtain ⟨node, node_read, more⟩ := Option.bind_eq_some_iff.mp read
  obtain ⟨others, -, shape⟩ := Option.bind_eq_some_iff.mp more
  rw [Option.some.injEq] at shape
  subst shape
  rw [noteless_cons] at noteless
  rcases kind with rfl | noted
  · rw [xmlNode_empty] at node_read
    cases node_read
  · have no_end : ¬ XML_NOTE_END_TAG <:+: text := fun inside =>
      no_note_end _ formed.proper (inside.trans part)
    have whole := readable_of_quiet
      (fun byte member => formed.quiet byte (part.subset member))
      (Nat.lt_of_le_of_lt (Nat.add_le_add_right part.length_le 1) formed.short)
    exact absurd noteless.1.1 (note_of_noted whole noted no_end node_read)

end WellFormed

/-- Without notes, what is read is the row of tags read without counting. -/
theorem read_of_tags (fuel : Nat) :
    (∀ own row v_Depth node, WellFormed own row →
      xmlNode fuel (render (.start own :: row)) v_Depth = some node → Noteless [node] →
        forest [node] = (Forest.node own (children Label.name row) .nil).map heard ∧
          ∀ label ∈ own :: (children Label.name row).labels, ¬ NoteLike label) ∧
    (∀ own done row m_Depth pos nodes, WellFormed own (done ++ row) →
      pos = ((render (.start own :: done)).length : Int) →
      childNodes fuel (render (.start own :: (done ++ row))) m_Depth pos = some nodes →
      Noteless nodes → forest nodes = (children Label.name row).map heard ∧
        ∀ label ∈ (children Label.name row).labels, ¬ NoteLike label) := by
  -- a node and its row of children at once: a child costs one of the fuel, and so does the way to
  -- the next child
  induction fuel with
  | zero =>
      constructor
      · intro _ _ _ _ _ read
        cases read
      · intro _ _ _ _ _ _ _ _ read
        cases read
  | succ fuel ih =>
      obtain ⟨node_ih, nodes_ih⟩ := ih
      constructor
      · intro own row v_Depth node formed read noteless
        rw [noteless_cons] at noteless
        by_cases like : NoteLike own
        · have no_end := no_note_end _ formed.proper
          exact absurd noteless.1.1
            (note_of_noted formed.readable (noted_render like row) no_end read)
        · rw [xmlNode_start formed like, Option.map_eq_some_iff] at read
          obtain ⟨nodes, nodes_read, rfl⟩ := read
          obtain ⟨same, plain⟩ := nodes_ih own [] row v_Depth _ nodes formed rfl nodes_read
            noteless.1.2
          refine ⟨?_, ?_⟩
          · rw [forest_cons, same]
            rfl
          · intro label member
            rcases List.mem_cons.mp member with rfl | below
            · exact like
            · exact plain label below
      · intro own done row m_Depth pos nodes formed place read noteless
        rcases row with _ | ⟨label | name, rest⟩
        · rw [List.append_nil] at read
          rw [childNodes_end (nextChild_end place), Option.some.injEq] at read
          subst read
          simp [Tags.children_nil, Forest.map, Forest.labels]
        · by_cases like : NoteLike label
          · exact absurd noteless (formed.noted_child place like read)
          · have step := formed.next_start place like
            cases hit : split label.name rest with
            | none =>
                rw [hit] at step
                rw [childNodes_end step, Option.some.injEq] at read
                subst read
                rw [Tags.children_unclosed Label.name label rest ((Tags.split_eq_none_iff _ _).mp hit)]
                simp [Forest.map, Forest.labels]
            -- the child ends at the first end tag of its name, and the loop goes on behind it
            | some parts =>
                obtain ⟨inside, behind⟩ := parts
                obtain ⟨alone, cut⟩ := (Tags.split_eq_some_iff _ _ _ _).mp hit
                rw [hit] at step
                rw [childNodes_child step] at read
                obtain ⟨node, node_read, more⟩ := Option.bind_eq_some_iff.mp read
                obtain ⟨others, others_read, shape⟩ := Option.bind_eq_some_iff.mp more
                rw [Option.some.injEq] at shape
                subst shape
                rw [noteless_cons] at noteless
                obtain ⟨node_same, node_plain⟩ := node_ih label (inside ++ [.stop label.name])
                  (m_Depth + 1) node (formed.child cut) node_read
                  ((noteless_cons _ _).mpr ⟨noteless.1, trivial⟩)
                have reach : done ++ .start label :: rest =
                    (done ++ .start label :: (inside ++ [.stop label.name])) ++ behind := by
                  simp [cut]
                rw [reach] at others_read formed
                obtain ⟨others_same, others_plain⟩ := nodes_ih own _ behind m_Depth _ others formed
                  (by rw [place]; simp; omega) others_read noteless.2
                rw [cut, Tags.children_start Label.name label inside behind alone]
                rw [forest_cons, Forest.map] at node_same
                injection node_same with same_label same_below
                refine ⟨by rw [forest_cons, same_label, same_below, others_same, Forest.map], ?_⟩
                intro other member
                simp only [Forest.labels, List.mem_cons, List.mem_append] at member node_plain
                rcases member with own_label | below | beside
                · exact node_plain other (.inl own_label)
                · exact node_plain other (.inr below)
                · exact others_plain other beside
        · rw [childNodes_end (formed.next_stop place), Option.some.injEq] at read
          subst read
          simp [Tags.children_stop, Forest.map, Forest.labels]

/-- Where no start tag looks like a note, the text is read with fuel for its tags. -/
theorem read_exists (fuel : Nat) :
    (∀ own row v_Depth, WellFormed own row → (∀ label ∈ own :: starts row, ¬ NoteLike label) →
      2 * row.length + 2 ≤ fuel →
      ∃ node, xmlNode fuel (render (.start own :: row)) v_Depth = some node ∧ Noteless [node]) ∧
    (∀ own done row m_Depth pos, WellFormed own (done ++ row) →
      pos = ((render (.start own :: done)).length : Int) →
      (∀ label ∈ starts row, ¬ NoteLike label) → 2 * row.length + 1 ≤ fuel →
      ∃ nodes, childNodes fuel (render (.start own :: (done ++ row))) m_Depth pos = some nodes ∧
        Noteless nodes) := by
  -- every tag costs at most two of the fuel, one for the node and one for the way to it
  induction fuel with
  | zero =>
      constructor
      · intro _ _ _ _ _ enough
        omega
      · intro _ _ _ _ _ _ _ _ enough
        omega
  | succ fuel ih =>
      obtain ⟨node_ih, nodes_ih⟩ := ih
      constructor
      · intro own row v_Depth formed plain enough
        obtain ⟨nodes, read, noteless⟩ := nodes_ih own [] row v_Depth _ formed rfl
          (fun label member => plain label (List.mem_cons_of_mem _ member)) (by omega)
        rw [xmlNode_start formed (plain own List.mem_cons_self)]
        rw [List.nil_append] at read
        rw [read]
        exact ⟨_, rfl, (noteless_cons _ _).mpr ⟨⟨rfl, noteless⟩, trivial⟩⟩
      · intro own done row m_Depth pos formed place plain enough
        rcases row with _ | ⟨label | name, rest⟩
        · rw [List.append_nil]
          exact ⟨[], childNodes_end (nextChild_end place) fuel m_Depth, trivial⟩
        · have step := formed.next_start place (plain label List.mem_cons_self)
          cases hit : split label.name rest with
          | none =>
              rw [hit] at step
              exact ⟨[], childNodes_end step fuel m_Depth, trivial⟩
          | some parts =>
              obtain ⟨inside, behind⟩ := parts
              obtain ⟨-, cut⟩ := (Tags.split_eq_some_iff _ _ _ _).mp hit
              rw [hit] at step
              have size := congrArg List.length cut
              simp only [List.length_append, List.length_cons] at size enough
              have starts_cut : starts rest = starts inside ++ starts behind := by
                rw [cut, Tags.starts_append, starts]
              simp only [starts, starts_cut, List.mem_cons, List.mem_append] at plain
              obtain ⟨node, node_read, node_noteless⟩ := node_ih label (inside ++ [.stop label.name])
                (m_Depth + 1) (formed.child cut) (by
                  intro other member
                  simp only [Tags.starts_append, starts, List.append_nil, List.mem_cons] at member
                  exact plain other (by tauto)) (by simp; omega)
              have reach : done ++ .start label :: rest =
                  (done ++ .start label :: (inside ++ [.stop label.name])) ++ behind := by
                simp [cut]
              rw [reach] at formed step ⊢
              obtain ⟨others, others_read, others_noteless⟩ := nodes_ih own _ behind m_Depth _ formed
                rfl (fun other member => plain other (.inr (.inr member))) (by omega)
              have next : pos + (render (.start label :: (inside ++ [.stop label.name]))).length =
                  ((render (.start own :: (done ++ .start label ::
                    (inside ++ [.stop label.name])))).length : Int) := by
                rw [place]
                simp
                omega
              rw [childNodes_child step, next, node_read, others_read]
              refine ⟨node :: others, rfl, (noteless_cons _ _).mpr ⟨?_, others_noteless⟩⟩
              exact ((noteless_cons _ _).mp node_noteless).1
        · exact ⟨[], childNodes_end (formed.next_stop place) fuel m_Depth, trivial⟩

end EChainLib.Config.XmlText
