import EChainLib.Config.XmlLoop
import EChainLib.Config.XmlReading

/-! How much of a text has to be there for what is read of it: whatever the text is, each node
has a start tag of its own in it, and its content behind that. -/

namespace EChainLib.Config.XmlText

open EChainLib.Keys (Bytes)
open EChainLib.Strings
open EChainLib.Tags (Forest Tag starts)

/-- The bytes behind the first `>`, up to the next tag. -/
def contentIn (bytes : Bytes) : Bytes :=
  ((bytes.dropWhile fun byte => byte ≠ chr '>').drop 1).takeWhile fun byte => byte ≠ chr '<'

/-- For a start tag that ends in the text: one, and the bytes of its content. -/
def opened (byte : UInt8) (rest : Bytes) : Nat :=
  if byte = chr '<' ∧ rest.head? ≠ some (chr '/') ∧ chr '>' ∈ rest then 1 + (contentIn rest).length
  else 0

def weight : Bytes → Nat
  | [] => 0
  | byte :: rest => opened byte rest + weight rest

/-- The weight of a text that has these start tags. -/
def total (labels : List Label) : Nat := (labels.map fun label => 1 + label.content.length).sum

theorem total_append (first second : List Label) :
    total (first ++ second) = total first + total second := by
  simp [total]

theorem weight_drop (bytes : Bytes) (count : Nat) : weight (bytes.drop count) ≤ weight bytes := by
  induction count generalizing bytes with
  | zero => simp
  | succ count ih =>
      cases bytes with
      | nil => simp
      | cons byte rest =>
          have step := ih rest
          rw [List.drop_succ_cons, weight]
          omega

theorem contentIn_cut {line : Bytes} (open_line : chr '>' ∉ line) (tail : Bytes) :
    contentIn (line ++ chr '>' :: tail) = tail.takeWhile fun byte => byte ≠ chr '<' := by
  have skip : (line ++ chr '>' :: tail).dropWhile (fun byte => byte ≠ chr '>') = chr '>' :: tail := by
    rw [List.dropWhile_append_of_pos]
    · simp
    · intro byte member
      have other : byte ≠ chr '>' := fun same => open_line (same ▸ member)
      simpa using other
  rw [contentIn, skip, List.drop_succ_cons, List.drop_zero]

theorem contentIn_append {bytes : Bytes} (ends : chr '>' ∈ bytes) (after : Bytes) :
    (contentIn bytes).length ≤ (contentIn (bytes ++ after)).length := by
  obtain ⟨line, tail, rfl, open_line⟩ := List.eq_append_cons_of_mem ends
  rw [List.append_assoc, List.cons_append, contentIn_cut open_line, contentIn_cut open_line,
    List.takeWhile_append]
  split_ifs with all
  · rw [all, List.length_append]
    omega
  · exact le_rfl

theorem opened_append (byte : UInt8) (rest after : Bytes) :
    opened byte rest ≤ opened byte (rest ++ after) := by
  unfold opened
  split_ifs with here there there
  · have more := contentIn_append here.2.2 after
    omega
  · obtain ⟨sign, word, ends⟩ := here
    refine absurd ⟨sign, ?_, List.mem_append_left _ ends⟩ there
    rwa [List.head?_append_of_ne_nil _ (List.ne_nil_of_mem ends)]
  · omega
  · omega

theorem weight_append (first second : Bytes) :
    weight first + weight second ≤ weight (first ++ second) := by
  induction first with
  | nil => simp [weight]
  | cons byte rest ih =>
      have more := opened_append byte rest second
      rw [List.cons_append, weight, weight]
      omega

/-- Whatever the text, the next child's text begins at a tag, and ends in front of the place where
the loop goes on, unless the tag looks like a note. -/
theorem nextChild_cases {s t : Bytes} {pos e : Int} (found : nextChild s pos = some (some (t, e))) :
    ∃ place : Nat, pos ≤ place ∧ [chr '<'] <+: s.drop place ∧ t <+: s.drop place ∧
      (XML_NOTE_BEGIN_TAG <+: s.drop place ∨
        ∃ size : Nat, e = place + size ∧ s.drop place = t ++ s.drop (place + size)) := by
  have taken := taken_of_nextChild found
  obtain ⟨-, behind, begins⟩ := find_begins taken.marked
  have looks := taken.looks
  refine ⟨(find s [chr '<'] pos).toNat, by omega, begins, (substr_begins taken.cut).2, ?_⟩
  by_cases note : substr s (find s [chr '<'] pos) XML_NOTE_BEGIN_LEN = some XML_NOTE_BEGIN_TAG
  · exact .inl (substr_begins note).2
  · right
    have later := taken.onward note
    have size : e.toNat = (find s [chr '<'] pos).toNat + (e - find s [chr '<'] pos).toNat := by omega
    refine ⟨(e - find s [chr '<'] pos).toNat, by omega, ?_⟩
    rw [← size]
    exact (taken.between later).1

/-- A node without a note comes from a tag that ends, and does not look like a note. -/
theorem tag_of_read {fuel : Nat} {text : Bytes} {v_Depth : Int} {node : XMLNode}
    (whole : readable text = some text) (begins : [chr '<'] <+: text)
    (no_end : ¬ XML_NOTE_END_TAG <:+: text) (read : xmlNode fuel text v_Depth = some node)
    (no_note : node.m_Note = []) (content : chr '<' ∉ node.m_Content) :
    chr '>' ∈ text ∧ ¬ XML_NOTE_BEGIN_TAG <+: text := by
  have ends : chr '>' ∈ text := by
    by_contra open_text
    cases fuel with
    | zero => cases read
    | succ fuel =>
        simp only [xmlNode, whole, Option.bind_eq_bind, Option.bind_eq_some_iff, Prod.exists,
          Option.pure_def, Option.some.injEq] at read
        obtain ⟨_, rfl, _, iNoteEnd, _, _, _, _, text_read, _, content_read, _, _, _, _, rfl⟩ := read
        have missing : find text [chr '>'] iNoteEnd = -1 := by
          by_contra found
          have there := (find_begins found).2.2.isInfix.trans (List.drop_suffix _ text).isInfix
          exact open_text (there.subset (by simp))
        have nothing : find text [chr '<'] (-1) = -1 := rfl
        have all : substr text (-1 + 1) (-1 - -1 - 1) = some text := by
          have parts : text = [] ++ text := rfl
          exact substr_rest parts rfl (by decide)
        simp only [contentOf, missing, nothing, all, Option.bind_eq_bind, Option.bind_some,
          Option.pure_def, Option.some.injEq, Prod.mk.injEq] at content_read
        apply content
        rw [← content_read.1]
        exact begins.subset (by simp)
  refine ⟨ends, ?_⟩
  rintro ⟨more, shape⟩
  have noted : Noted text := by
    refine ⟨more, ?_, shape.symm⟩
    rintro rfl
    rw [← shape] at ends
    exact absurd ends (by decide)
  exact note_of_noted whole noted no_end read no_note

theorem noteOf_plain {rest : Bytes} (plain : ¬ XML_NOTE_BEGIN_TAG <+: [chr '<'] ++ rest) :
    noteOf ([chr '<'] ++ rest) = some ([], 0) := by
  have parts : [chr '<'] ++ rest = [] ++ ([] ++ chr '<' :: rest) := rfl
  have here : find ([chr '<'] ++ rest) [chr '<'] 0 = 0 := by
    simpa using find_found parts rfl (findIn_at (chr '<') [] rest (by simp))
  have first : substr ([chr '<'] ++ rest) 0 XML_NOTE_BEGIN_LEN =
      some (([chr '<'] ++ rest).take 5) :=
    substr_take parts rfl
  have no_begin : ([chr '<'] ++ rest).take 5 ≠ XML_NOTE_BEGIN_TAG :=
    fun same => plain (same ▸ List.take_prefix _ _)
  simp only [noteOf, here, first, Option.bind_eq_bind, Option.bind_some, no_begin, if_false]
  rfl

/-- The name stands behind the first byte. -/
theorem head_of_name {rest name : Bytes} {kind : Int}
    (read : nameOf (chr '<' :: rest) 0 = some (kind, name)) (named : name ≠ [])
    (plain : chr '/' ∉ name) : rest.head? ≠ some (chr '/') := by
  have here : find (chr '<' :: rest) [chr '<'] 0 = 0 := by
    have parts : chr '<' :: rest = [] ++ ([] ++ chr '<' :: rest) := rfl
    simpa using find_found parts rfl (findIn_at (chr '<') [] rest (by simp))
  have begins : name <+: rest := by
    have word : ∀ {n : Int} {kind' : Int}, ((substr (chr '<' :: rest) (0 + 1) n).bind fun word =>
        some (kind', word)) = some (kind, name) → name <+: rest := by
      intro n kind' word_read
      obtain ⟨word, found, shape⟩ := Option.bind_eq_some_iff.mp word_read
      simp only [Option.some.injEq, Prod.mk.injEq] at shape
      rw [← shape.2]
      simpa using (substr_begins found).2
    simp only [nameOf, here, Option.bind_eq_bind, Option.pure_def, Option.bind_some] at read
    split_ifs at read
    all_goals first
      | exact word read
      | obtain ⟨last, -, read⟩ := Option.bind_eq_some_iff.mp read
        split_ifs at read
        all_goals exact word read
  obtain ⟨more, rfl⟩ := begins
  rw [List.head?_append_of_ne_nil _ named]
  intro slash
  exact plain (List.mem_of_mem_head? slash)

/-- The content is what stands behind the first `>` up to the next tag. -/
theorem content_of_text {rest content : Bytes} {next : Int} (ends : chr '>' ∈ rest)
    (read : contentOf (chr '<' :: rest) 0 = some (content, next)) :
    content = contentIn rest ∧ (next = -1 ∨ 1 ≤ next) := by
  obtain ⟨line, tail, rfl, open_line⟩ := List.eq_append_cons_of_mem ends
  have parts : chr '<' :: (line ++ chr '>' :: tail) = [] ++ ((chr '<' :: line) ++ chr '>' :: tail) :=
    rfl
  have cut : chr '<' :: (line ++ chr '>' :: tail) = (chr '<' :: line) ++ chr '>' :: tail := rfl
  have cut' : chr '<' :: (line ++ chr '>' :: tail) = (chr '<' :: (line ++ [chr '>'])) ++ tail := by
    simp
  have sign : find (chr '<' :: (line ++ chr '>' :: tail)) [chr '>'] 0 = (chr '<' :: line).length := by
    have found := findIn_at (chr '>') (chr '<' :: line) tail (by
      simp [open_line, show chr '>' ≠ chr '<' by decide])
    simpa using find_found parts rfl found
  rw [contentIn_cut open_line]
  simp only [contentOf, sign, Option.bind_eq_bind, Option.bind_eq_some_iff] at read
  obtain ⟨part, part_read, shape⟩ := read
  simp only [Option.pure_def, Option.some.injEq, Prod.mk.injEq] at shape
  obtain ⟨rfl, rfl⟩ := shape
  by_cases tag : chr '<' ∈ tail
  · obtain ⟨content, more, rfl, plain⟩ := List.eq_append_cons_of_mem tag
    have found := findIn_at (chr '<') (chr '>' :: content) more (by
      simp [plain, show chr '<' ≠ chr '>' by decide])
    have next := find_found cut rfl found
    rw [next] at part_read ⊢
    have text : substr (chr '<' :: (line ++ chr '>' :: (content ++ chr '<' :: more)))
        ((chr '<' :: line).length + 1) ((chr '<' :: line).length + (chr '>' :: content).length -
          (chr '<' :: line).length - 1) = some content :=
      substr_eq cut' (by simp) (by simp)
    rw [text, Option.some.injEq] at part_read
    refine ⟨?_, .inr (by simp; omega)⟩
    rw [← part_read, List.takeWhile_append_of_pos]
    · simp
    · intro byte member
      have other : byte ≠ chr '<' := fun same => plain (same ▸ member)
      simpa using other
  · have missing := find_missing cut rfl (findIn_of_notMem (chr '<') [] (chr '>' :: tail) (by
      simp [tag, show chr '<' ≠ chr '>' by decide]))
    rw [missing] at part_read ⊢
    have text : substr (chr '<' :: (line ++ chr '>' :: tail)) ((chr '<' :: line).length + 1)
        (-1 - (chr '<' :: line).length - 1) = some tail :=
      substr_rest cut' (by simp) (by omega)
    rw [text, Option.some.injEq] at part_read
    refine ⟨?_, .inl rfl⟩
    rw [← part_read, eq_comm, List.takeWhile_eq_self_iff]
    intro byte member
    have other : byte ≠ chr '<' := fun same => tag (same ▸ member)
    simpa using other

/-- The text of a node has at least the weight of what is read of it. -/
def NodeWeighs (fuel : Nat) : Prop :=
  ∀ text v_Depth node, readable text = some text → [chr '<'] <+: text →
    ¬ XML_NOTE_END_TAG <:+: text → xmlNode fuel text v_Depth = some node → Noteless [node] →
    (∀ label ∈ (forest [node]).labels, label.Allowed) →
    total (forest [node]).labels ≤ weight text

/-- So has the text from where the children are looked for. -/
def ChildrenWeigh (fuel : Nat) : Prop :=
  ∀ s m_Depth pos nodes, readable s = some s → ¬ XML_NOTE_END_TAG <:+: s →
    childNodes fuel s m_Depth pos = some nodes → Noteless nodes →
    (∀ label ∈ (forest nodes).labels, label.Allowed) →
    total (forest nodes).labels ≤ if pos < 0 then 0 else weight (s.drop pos.toNat)

section
variable {fuel : Nat}

theorem nodeWeighs_succ (nodes_ih : ChildrenWeigh fuel) : NodeWeighs (fuel + 1) := by
  intro text v_Depth node whole begins no_end read noteless allowed
  obtain ⟨rest, rfl⟩ := begins
  rw [noteless_cons] at noteless
  simp only [forest_cons, forest_nil, Forest.labels, List.append_nil, List.mem_cons] at allowed ⊢
  have own := allowed _ (.inl rfl)
  obtain ⟨ends, no_note⟩ := tag_of_read whole (List.prefix_append _ _) no_end read
    noteless.1.1 (notMem_of_all own.content (chr '<') (by decide))
  have ends_rest : chr '>' ∈ rest := by
    simpa [show chr '>' ≠ chr '<' by decide] using ends
  have note := noteOf_plain no_note
  simp only [List.singleton_append] at *
  simp only [xmlNode, whole, note, Option.bind_eq_bind, Option.bind_eq_some_iff, Prod.exists,
    Option.pure_def, Option.bind_some, Option.some.injEq] at read
  obtain ⟨kind, name, name_read, content, next, content_read, properties, -, nodes, nodes_read,
    rfl⟩ := read
  have word := head_of_name name_read own.named
    (notMem_of_all own.name (chr '/') (by decide))
  obtain ⟨content_eq, place⟩ := content_of_text ends_rest content_read
  have below := nodes_ih _ _ _ _ whole no_end nodes_read noteless.1.2 fun other member =>
    allowed other (.inr member)
  have behind : (if next < 0 then 0 else weight ((chr '<' :: rest).drop next.toNat)) ≤
      weight rest := by
    split_ifs with negative
    · omega
    · obtain ⟨count, rfl⟩ : ∃ count : Nat, next = (count + 1 : Nat) :=
        ⟨next.toNat - 1, by omega⟩
      rw [Int.toNat_natCast, List.drop_succ_cons]
      exact weight_drop rest count
  have own_tag : opened (chr '<') rest = 1 + (contentIn rest).length :=
    if_pos ⟨rfl, word, ends_rest⟩
  rw [weight, own_tag, total, List.map_cons, List.sum_cons]
  have length : (label (XMLNode.mk [] name content kind v_Depth properties nodes)).content.length =
      (contentIn rest).length := congrArg List.length content_eq
  rw [length]
  exact Nat.add_le_add_left (below.trans behind) _

theorem childrenWeigh_succ (node_ih : NodeWeighs fuel) (nodes_ih : ChildrenWeigh fuel) :
    ChildrenWeigh (fuel + 1) := by
  intro s m_Depth pos nodes whole no_end read noteless allowed
  simp only [childNodes, Option.bind_eq_bind, Option.bind_eq_some_iff] at read
  obtain ⟨found, next, read⟩ := read
  cases found with
  | none =>
      simp only [Option.pure_def, Option.some.injEq] at read
      subst read
      simp [Forest.labels, total]
  | some child =>
      obtain ⟨t, e⟩ := child
      simp only [Option.bind_eq_some_iff, Option.pure_def, Option.some.injEq] at read
      obtain ⟨node, node_read, rest, rest_read, rfl⟩ := read
      rw [noteless_cons] at noteless
      simp only [forest_cons, Forest.labels, List.mem_cons, List.mem_append] at allowed
      have own := allowed _ (.inl rfl)
      -- the text of the child and the text behind it do not overlap, so their weights
      -- add up
      obtain ⟨place, reached, tag, part, kinds⟩ := nextChild_cases next
      have inside : t <:+: s := part.isInfix.trans (List.drop_suffix _ s).isInfix
      have no_end' : ¬ XML_NOTE_END_TAG <:+: t := fun note => no_end (note.trans inside)
      have some_text : t ≠ [] := by
        rintro rfl
        rw [xmlNode_empty] at node_read
        cases node_read
      have begins : [chr '<'] <+: t :=
        List.prefix_of_prefix_length_le tag part (List.length_pos_iff.mpr some_text)
      obtain ⟨ends, no_note⟩ := tag_of_read (readable_part whole inside) begins no_end' node_read
        noteless.1.1 (notMem_of_all own.content (chr '<') (by decide))
      rcases kinds with note | ⟨size, rfl, cut⟩
      · -- a text that begins like a note is not that of a node without one
        rcases List.prefix_or_prefix_of_prefix note part with longer | shorter
        · exact absurd longer no_note
        · exact absurd (shorter.subset ends) (by decide)
      · have nonneg : ¬ pos < 0 := by
          intro negative
          have outside : ¬ pos ≥ 0 := by omega
          rw [nextChild, if_neg outside] at next
          cases next
        have first := node_ih t _ node (readable_part whole inside) begins no_end' node_read
          ((noteless_cons _ _).mpr ⟨noteless.1, trivial⟩) (by
            intro other member
            simp only [forest_cons, forest_nil, Forest.labels, List.append_nil,
              List.mem_cons] at member
            exact allowed other (by tauto))
        have others := nodes_ih s _ _ rest whole no_end rest_read noteless.2 fun other member =>
          allowed other (.inr (.inr member))
        have second : ¬ ((place : Int) + size < 0) := by omega
        have later : ((place : Int) + size).toNat = place + size := by omega
        rw [if_neg second, later] at others
        rw [if_neg nonneg]
        have both := weight_append t (s.drop (place + size))
        have skipped := weight_drop (s.drop pos.toNat) (place - pos.toNat)
        have reach : pos.toNat + (place - pos.toNat) = place := by omega
        rw [List.drop_drop, reach, cut] at skipped
        have parts : total (forest (node :: rest)).labels =
            total (forest [node]).labels + total (forest rest).labels := by
          rw [← total_append]
          simp [Forest.labels]
        omega

end

theorem weight_of_read (fuel : Nat) : NodeWeighs fuel ∧ ChildrenWeigh fuel := by
  induction fuel with
  | zero =>
      constructor
      · intro _ _ _ _ _ _ read
        cases read
      · intro _ _ _ _ _ _ read
        cases read
  | succ fuel ih => exact ⟨nodeWeighs_succ ih.2, childrenWeigh_succ ih.1 ih.2⟩

/-! A row of tags weighs what its start tags do. -/

theorem weight_plain {bytes : Bytes} (plain : chr '<' ∉ bytes) (after : Bytes) :
    weight (bytes ++ after) = weight after := by
  induction bytes with
  | nil => rfl
  | cons byte rest ih =>
      simp only [List.mem_cons, not_or] at plain
      have nothing : opened byte (rest ++ after) = 0 :=
        if_neg fun here => plain.1 here.1.symm
      rw [List.cons_append, weight, nothing, ih plain.2, Nat.zero_add]

theorem open_line {label : Label} (allowed : label.Allowed) :
    chr '>' ∉ label.name ++ attributes label := by
  have no_end := notMem_of_all allowed.name (chr '>') (by decide)
  have no_end' := attributes_notMem allowed (chr '>') (by decide) (by decide) (by decide)
  simp [no_end, no_end']

theorem weight_tag {tag : Tag Label Bytes} (proper : Proper tag) {after : Bytes}
    (next : after = [] ∨ ∃ more, after = chr '<' :: more) :
    weight (tagText tag ++ after) = total (starts [tag]) + weight after := by
  cases tag with
  | start label =>
      have allowed : label.Allowed := proper
      have plain := start_rest_plain allowed
      have content := notMem_of_all allowed.content (chr '<') (by decide)
      obtain ⟨byte, word, named⟩ := List.exists_cons_of_ne_nil allowed.named
      have slash : byte ≠ chr '/' := by
        rintro rfl
        exact notMem_of_all allowed.name (chr '/') (by decide) (by simp [named])
      have run : contentIn (label.name ++ (attributes label ++ chr '>' :: label.content) ++ after) =
          label.content := by
        have cut : label.name ++ (attributes label ++ chr '>' :: label.content) ++ after =
            (label.name ++ attributes label) ++ chr '>' :: (label.content ++ after) := by simp
        rw [cut, contentIn_cut (open_line allowed), List.takeWhile_append_of_pos]
        · rcases next with rfl | ⟨more, rfl⟩ <;> simp
        · intro byte member
          have other : byte ≠ chr '<' := fun same => content (same ▸ member)
          simpa using other
      have own : opened (chr '<') (label.name ++ (attributes label ++ chr '>' :: label.content) ++
          after) = 1 + label.content.length := by
        rw [opened, if_pos ⟨rfl, by simp [named, slash], by simp⟩, run]
      rw [tagText, List.cons_append, weight, own, weight_plain plain]
      simp [total, starts]
  | stop name =>
      obtain ⟨-, bytes⟩ : name ≠ [] ∧ ∀ byte ∈ name, NameByte byte := proper
      have plain : chr '<' ∉ chr '/' :: (name ++ [chr '>']) := by
        have name_plain := notMem_of_all bytes (chr '<') (by decide)
        simp [name_plain, show chr '<' ≠ chr '/' by decide, show chr '<' ≠ chr '>' by decide]
      have nothing : opened (chr '<') (chr '/' :: (name ++ [chr '>']) ++ after) = 0 :=
        if_neg (by simp)
      rw [tagText, stopText, List.cons_append, weight, nothing, weight_plain plain]
      simp [total, starts]

theorem weight_cut_start {label : Label} (allowed : label.Allowed) {s w : Bytes}
    (parts : s ++ w = tagText (.start label)) (some_left : w ≠ []) :
    weight s < 1 + label.content.length := by
  cases s with
  | nil => simp [weight]
  | cons byte s =>
      rw [tagText, List.cons_append] at parts
      injection parts with _ parts
      have plain : chr '<' ∉ s := fun inside =>
        start_rest_plain allowed (by rw [← parts]; exact List.mem_append_left _ inside)
      have rest : weight s = 0 := by
        have whole := weight_plain plain []
        rwa [List.append_nil] at whole
      rw [weight, rest, opened]
      split_ifs with here
      · obtain ⟨line, tail, shape, line_open⟩ := List.eq_append_cons_of_mem here.2.2
        have same : line ++ chr '>' :: (tail ++ w) =
            (label.name ++ attributes label) ++ chr '>' :: label.content := by
          rw [shape] at parts
          simpa using parts
        obtain ⟨-, content⟩ := cut_unique line_open (open_line allowed) same
        have size := congrArg List.length content
        rw [List.length_append] at size
        have some_bytes := List.length_pos_iff.mpr some_left
        have run : (contentIn s).length ≤ tail.length := by
          rw [shape, contentIn_cut line_open]
          exact (List.takeWhile_prefix _).length_le
        omega
      · omega

/-- A part of a row that lacks something of its last start tag weighs less. -/
theorem weight_cut {init : List (Tag Label Bytes)} {label : Label}
    (proper : ∀ tag ∈ init ++ [.start label], Proper tag) {s w : Bytes}
    (parts : s ++ w = render (init ++ [.start label])) (some_left : w ≠ []) :
    weight s < total (starts (init ++ [.start label])) := by
  induction init generalizing s with
  | nil =>
      have less := weight_cut_start (proper (.start label) (by simp)) (by simpa using parts) some_left
      simpa [total, starts] using less
  | cons tag init ih =>
      have own : Proper tag := proper tag (by simp)
      have others := fun other member => proper other (List.mem_cons_of_mem _ member)
      have sum : total (starts (tag :: init ++ [.start label])) =
          total (starts [tag]) + total (starts (init ++ [.start label])) := by
        rw [← total_append, ← Tags.starts_append]
        rfl
      rw [sum]
      rw [List.cons_append, render_cons] at parts
      rcases List.append_eq_append_iff.mp parts with ⟨more, text, -⟩ | ⟨more, rfl, rest⟩
      · have alone := weight_tag own (.inl rfl : ([] : Bytes) = [] ∨ _)
        rw [List.append_nil, text] at alone
        have both := weight_append s more
        have last : 0 < total (starts (init ++ [.start label])) := by
          rw [Tags.starts_append, total_append]
          simp [total, starts]
        simp only [weight] at alone
        omega
      · have less := ih others rest.symm
        have next : more = [] ∨ ∃ rest, more = chr '<' :: rest := by
          cases more with
          | nil => exact .inl rfl
          | cons byte more =>
              right
              refine ⟨more, ?_⟩
              have first : (render (init ++ [.start label])).head? = some (chr '<') := by
                cases init with
                | nil => rfl
                | cons tag _ => cases tag <;> rfl
              rw [rest] at first
              simpa using first
        rw [weight_tag own next]
        omega

end EChainLib.Config.XmlText
