import EChainLib.Support.Tags
import EChainLib.Config.XmlText

/-! The constructor of `XMLNode` on a text that is a row of tags. -/

namespace EChainLib.Config.XmlText

open EChainLib.Keys (Bytes cString)
open EChainLib.Strings
open EChainLib.Tags (Forest Tag split children starts)

/-- What a start tag holds, and the text up to the next tag. -/
structure Label where
  name : Bytes
  properties : List Property
  content : Bytes
  deriving DecidableEq

def NameByte (byte : UInt8) : Prop :=
  chr ' ' < byte ∧ byte ≠ chr '<' ∧ byte ≠ chr '>' ∧ byte ≠ chr '/' ∧ byte ≠ chr '=' ∧
    byte ≠ doubleQuote

instance (byte : UInt8) : Decidable (NameByte byte) :=
  inferInstanceAs (Decidable (_ ∧ _))

def TextByte (byte : UInt8) : Prop :=
  byte ≠ chr '<' ∧ byte ≠ chr '>' ∧ byte ≠ doubleQuote ∧ byte ≠ chr '\t' ∧ byte ≠ chr '\n'

instance (byte : UInt8) : Decidable (TextByte byte) :=
  inferInstanceAs (Decidable (_ ∧ _))

/-- The texts from which trees are made. -/
structure Label.Allowed (label : Label) : Prop where
  named : label.name ≠ []
  name : ∀ byte ∈ label.name, NameByte byte
  properties : ∀ property ∈ label.properties, ∀ byte ∈ property.PropertyName, NameByte byte
  values : ∀ property ∈ label.properties, ∀ byte ∈ property.PropertyValue, TextByte byte
  content : ∀ byte ∈ label.content, TextByte byte

instance (label : Label) : Decidable label.Allowed :=
  decidable_of_iff (label.name ≠ [] ∧ (∀ byte ∈ label.name, NameByte byte) ∧
      (∀ property ∈ label.properties, ∀ byte ∈ property.PropertyName, NameByte byte) ∧
      (∀ property ∈ label.properties, ∀ byte ∈ property.PropertyValue, TextByte byte) ∧
      ∀ byte ∈ label.content, TextByte byte)
    ⟨fun ⟨named, name, properties, values, content⟩ => ⟨named, name, properties, values, content⟩,
      fun ⟨named, name, properties, values, content⟩ => ⟨named, name, properties, values, content⟩⟩

def attributes (label : Label) : Bytes := label.properties.flatMap propertyText

def stopText (name : Bytes) : Bytes := chr '<' :: chr '/' :: (name ++ [chr '>'])

def tagText : Tag Label Bytes → Bytes
  | .start label => chr '<' :: (label.name ++ (attributes label ++ chr '>' :: label.content))
  | .stop name => stopText name

def render (tags : List (Tag Label Bytes)) : Bytes := tags.flatMap tagText

/-- A tag of an allowed label. -/
def Proper : Tag Label Bytes → Prop
  | .start label => label.Allowed
  | .stop name => name ≠ [] ∧ ∀ byte ∈ name, NameByte byte

@[simp] theorem render_nil : render [] = [] := rfl

@[simp] theorem render_cons (tag : Tag Label Bytes) (tags : List (Tag Label Bytes)) :
    render (tag :: tags) = tagText tag ++ render tags := rfl

@[simp] theorem render_append (first second : List (Tag Label Bytes)) :
    render (first ++ second) = render first ++ render second :=
  List.flatMap_append

theorem notMem_of_all {p : UInt8 → Prop} {bytes : Bytes} (all : ∀ byte ∈ bytes, p byte) (byte : UInt8)
    (other : ¬ p byte) : byte ∉ bytes :=
  fun member => other (all byte member)

theorem attributes_notMem {label : Label} (allowed : label.Allowed) (byte : UInt8)
    (no_name : ¬ NameByte byte) (no_text : ¬ TextByte byte)
    (no_mark : byte ∉ [chr ' ', chr '=', doubleQuote]) : byte ∉ attributes label := by
  intro member
  obtain ⟨property, held, inside⟩ := List.mem_flatMap.mp member
  have name := notMem_of_all (allowed.properties property held) byte no_name
  have value := notMem_of_all (allowed.values property held) byte no_text
  simp only [List.mem_cons, List.not_mem_nil, or_false, not_or] at no_mark
  simp [propertyText, name, value, no_mark] at inside

theorem attributes_spaced (label : Label) :
    attributes label = [] ∨ ∃ more, attributes label = chr ' ' :: more := by
  unfold attributes
  cases label.properties with
  | nil => exact .inl rfl
  | cons property rest => exact .inr ⟨_, rfl⟩

theorem nameEnd_eq {s before word tail rest : Bytes} {pos : Int}
    (parts : s = before ++ chr '<' :: (word ++ (tail ++ chr '>' :: rest)))
    (place : pos = before.length) (no_space : chr ' ' ∉ word)
    (no_end : chr '>' ∉ word ++ tail) (spaced : tail = [] ∨ ∃ more, tail = chr ' ' :: more) :
    find s [chr '>'] pos = pos + (1 + word.length + tail.length : Nat) ∧
    nameEnd (find s [chr ' '] pos) (find s [chr '>'] pos) = pos + (1 + word.length : Nat) := by
  have ends : find s [chr '>'] pos = pos + (1 + word.length + tail.length : Nat) := by
    have found := findIn_at (chr '>') (chr '<' :: (word ++ tail)) rest (by
      simpa [List.mem_cons, show chr '>' ≠ chr '<' by decide] using no_end)
    rw [find_found (by simpa using parts) place found]
    simp
    omega
  refine ⟨ends, ?_⟩
  have nonneg : 0 ≤ pos := by omega
  rw [ends]
  rcases spaced with rfl | ⟨more, rfl⟩
  · -- the first space is behind the tag
    have skip : findIn [chr ' '] (chr '<' :: (word ++ chr '>' :: rest)) =
        (findIn [chr ' '] (chr '>' :: rest)).map ((chr '<' :: word).length + ·) := by
      have before_end : chr ' ' ∉ chr '<' :: word := by
        simpa [List.mem_cons, show chr ' ' ≠ chr '<' by decide] using no_space
      simpa using findIn_append (chr ' ') [] (chr '<' :: word) (chr '>' :: rest) before_end
    cases found : findIn [chr ' '] (chr '>' :: rest) with
    | none =>
        rw [found] at skip
        rw [find_missing (by simpa using parts) place skip]
        simp [nameEnd]
    | some ahead =>
        rw [found] at skip
        have positive : ahead ≠ 0 := by
          rintro rfl
          simp [findIn, List.isPrefixOf, show chr ' ' ≠ chr '>' by decide] at found
        rw [find_found (by simpa using parts) place skip]
        simp only [nameEnd, List.length_cons, List.length_nil]
        split_ifs <;> omega
  · have found := findIn_at (chr ' ') (chr '<' :: word) (more ++ chr '>' :: rest) (by
      simpa [List.mem_cons, show chr ' ' ≠ chr '<' by decide] using no_space)
    rw [find_found (by simpa using parts) place found]
    simp only [nameEnd, List.length_cons]
    split_ifs <;> omega

theorem last_byte (word tail : Bytes) (last : (word ++ tail).getLast? ≠ some (chr '/')) :
    ∃ front byte, chr '<' :: (word ++ tail) = front ++ [byte] ∧ byte ≠ chr '/' := by
  rcases List.eq_nil_or_concat (word ++ tail) with empty | ⟨front, byte, shape⟩
  · exact ⟨[], chr '<', by simp [empty], by decide⟩
  · refine ⟨chr '<' :: front, byte, by simp [shape], ?_⟩
    rintro rfl
    exact last (by simp [shape])

theorem tag_last {label : Label} (allowed : label.Allowed) :
    (label.name ++ attributes label).getLast? ≠ some (chr '/') := by
  intro last
  rcases List.eq_nil_or_concat label.properties with empty | ⟨front, property, shape⟩
  · have no_slash := notMem_of_all allowed.name (chr '/') (by decide)
    rw [attributes, empty, List.flatMap_nil, List.append_nil] at last
    exact no_slash (List.mem_of_getLast? last)
  · have quoted : label.name ++ attributes label = (label.name ++ front.flatMap propertyText ++
        (chr ' ' :: property.PropertyName ++ [chr '=', doubleQuote] ++ property.PropertyValue)) ++
          [doubleQuote] := by
      simp [attributes, shape, propertyText]
    rw [quoted, List.getLast?_concat, Option.some.injEq] at last
    exact absurd last (by decide)

/-- The byte in front of the end of a tag. -/
theorem read_last {s before word tail rest front : Bytes} {pos : Int} {byte : UInt8}
    (parts : s = before ++ chr '<' :: (word ++ (tail ++ chr '>' :: rest)))
    (place : pos = before.length)
    (ends : find s [chr '>'] pos = pos + (1 + word.length + tail.length : Nat))
    (shape : chr '<' :: (word ++ tail) = front ++ [byte]) :
    substr s (find s [chr '>'] pos - 1) 1 = some [byte] := by
  have size := congrArg List.length shape
  simp only [List.length_cons, List.length_append, List.length_nil] at size
  have cut : s = (before ++ front) ++ ([byte] ++ chr '>' :: rest) := by
    have inner : chr '<' :: (word ++ (tail ++ chr '>' :: rest)) =
        (front ++ [byte]) ++ chr '>' :: rest := by
      rw [← shape]
      simp
    rw [parts, inner]
    simp
  refine substr_eq cut ?_ rfl
  rw [ends, List.length_append]
  omega

/-- What is found from a tag on, up to the first end tag with its word. -/
theorem nextChild_tag {s before word tail rest : Bytes} {pos : Int}
    (parts : s = before ++ chr '<' :: (word ++ (tail ++ chr '>' :: rest)))
    (place : pos = before.length) (no_space : chr ' ' ∉ word)
    (no_end : chr '>' ∉ word ++ tail) (spaced : tail = [] ∨ ∃ more, tail = chr ' ' :: more)
    (no_note : ¬ XML_NOTE_BEGIN_TAG <+: chr '<' :: (word ++ (tail ++ chr '>' :: rest)))
    (last : (word ++ tail).getLast? ≠ some (chr '/')) :
    nextChild s pos =
      match findIn (stopText word) (tail ++ chr '>' :: rest) with
      | none => some none
      | some ahead => do
          let size : Nat := 1 + word.length + ahead + (word.length + 3)
          let text ← substr s pos size
          return some (text, pos + size) := by
  have nonneg : 0 ≤ pos := by omega
  have here : find s [chr '<'] pos = pos := by
    have found := findIn_at (chr '<') [] (word ++ (tail ++ chr '>' :: rest)) (by simp)
    rw [find_found (by simpa using parts) place found]
    simp
  obtain ⟨ends, named⟩ := nameEnd_eq parts place no_space no_end spaced
  have first : substr s pos XML_NOTE_BEGIN_LEN =
      some ((chr '<' :: (word ++ (tail ++ chr '>' :: rest))).take 5) :=
    substr_take parts place
  have no_begin : (chr '<' :: (word ++ (tail ++ chr '>' :: rest))).take 5 ≠ XML_NOTE_BEGIN_TAG :=
    fun same => no_note (same ▸ List.take_prefix _ _)
  obtain ⟨front, byte, shape, open_tag⟩ := last_byte word tail last
  have closing := read_last parts place ends shape
  have word_text : substr s (pos + 1) (pos + (1 + word.length : Nat) - pos - 1) = some word := by
    have cut : s = (before ++ [chr '<']) ++ (word ++ (tail ++ chr '>' :: rest)) := by
      simpa using parts
    refine substr_eq cut ?_ ?_
    · simp [place]
    · omega
  -- the end tag is searched from the name on, wherever it is
  have target : find s (stopText word) (pos + (1 + word.length : Nat)) =
      match findIn (stopText word) (tail ++ chr '>' :: rest) with
      | none => -1
      | some ahead => pos + (1 + word.length : Nat) + ahead := by
    have cut : s = (before ++ chr '<' :: word) ++ (tail ++ chr '>' :: rest) := by simpa using parts
    have behind : pos + (1 + word.length : Nat) = ((before ++ chr '<' :: word).length : Nat) := by
      simp [place]
      omega
    cases found : findIn (stopText word) (tail ++ chr '>' :: rest) with
    | none => exact find_missing cut behind found
    | some ahead => exact find_found cut behind found
  have end_tag : [chr '<', chr '/'] ++ word ++ [chr '>'] = stopText word := rfl
  have slash : byte ≠ chr '/' := open_tag
  have some_place : pos ≠ -1 := by omega
  simp only [nextChild, ge_iff_le, nonneg, if_true, here, some_place, if_false, first,
    Option.bind_eq_bind, Option.bind_some, no_begin, closing, named, word_text, end_tag, target]
  have open_text : [byte] ≠ [chr '/'] := by simpa using slash
  rw [if_neg open_text]
  cases findIn (stopText word) (tail ++ chr '>' :: rest) with
  | none => rfl
  | some ahead =>
      have positive : pos + (1 + word.length : Nat) + (ahead : Int) > 0 := by omega
      have size : pos + (1 + word.length : Nat) + (ahead : Int) + (word.length + 3) =
          pos + (1 + word.length + ahead + (word.length + 3) : Nat) := by omega
      have length : pos + (1 + word.length + ahead + (word.length + 3) : Nat) - pos =
          ((1 + word.length + ahead + (word.length + 3) : Nat) : Int) := by omega
      simp only [positive, if_true, size, length]

/-- A tag that does not begin the end tag is passed over. -/
theorem findIn_past (body after name : Bytes) (plain : chr '<' ∉ body)
    (other : ¬ stopText name <+: chr '<' :: (body ++ after)) :
    findIn (stopText name) (chr '<' :: (body ++ after)) =
      (findIn (stopText name) after).map (body.length + 1 + ·) := by
  have no_stop : (stopText name).isPrefixOf (chr '<' :: (body ++ after)) = false :=
    Bool.eq_false_iff.mpr fun hit => other (List.isPrefixOf_iff_prefix.mp hit)
  have skip : findIn (stopText name) (body ++ after) =
      (findIn (stopText name) after).map (body.length + ·) :=
    findIn_append (chr '<') (chr '/' :: (name ++ [chr '>'])) body after plain
  rw [findIn, no_stop, if_neg Bool.false_ne_true, skip, Option.map_map]
  congr 1
  funext ahead
  simp
  omega

theorem start_rest_plain {label : Label} (allowed : label.Allowed) :
    chr '<' ∉ label.name ++ (attributes label ++ chr '>' :: label.content) := by
  have name := notMem_of_all allowed.name (chr '<') (by decide)
  have content := notMem_of_all allowed.content (chr '<') (by decide)
  have inside := attributes_notMem allowed (chr '<') (by decide) (by decide) (by decide)
  simp [name, content, inside, show chr '<' ≠ chr '>' by decide]

/-- The search for an end tag finds the first with the name, and not a part of another tag. -/
theorem findIn_render (name : Bytes) (whole : chr '>' ∉ name) (tags : List (Tag Label Bytes))
    (proper : ∀ tag ∈ tags, Proper tag) :
    findIn (stopText name) (render tags) =
      (split name tags).map fun parts => (render parts.1).length := by
  induction tags with
  | nil => rfl
  | cons tag rest ih =>
      have rest_found := ih fun other member => proper other (List.mem_cons_of_mem _ member)
      cases tag with
      | start label =>
          have allowed : label.Allowed := proper (.start label) List.mem_cons_self
          obtain ⟨byte, bytes, name_shape⟩ := List.exists_cons_of_ne_nil allowed.named
          have no_slash : chr '/' ≠ byte := by
            rintro rfl
            exact notMem_of_all allowed.name (chr '/') (by decide) (by simp [name_shape])
          have no_stop : ¬ stopText name <+:
              chr '<' :: (label.name ++ (attributes label ++ chr '>' :: label.content) ++
                render rest) := by
            rintro ⟨after, shape⟩
            simp [stopText, name_shape, no_slash] at shape
          have past := findIn_past _ (render rest) name (start_rest_plain allowed) no_stop
          rw [rest_found] at past
          rw [render_cons, tagText, List.cons_append, past, split]
          cases split name rest with
          | none => rfl
          | some parts =>
              simp only [Option.map_some, render_cons, tagText, List.length_append,
                List.length_cons]
      | stop other =>
          obtain ⟨_, named⟩ : other ≠ [] ∧ ∀ byte ∈ other, NameByte byte :=
            proper (.stop other) List.mem_cons_self
          have other_whole := notMem_of_all named (chr '>') (by decide)
          by_cases same : other = name
          · subst same
            have here := findIn_here (chr '<') (chr '/' :: (other ++ [chr '>'])) (render rest)
            rw [split, if_pos rfl]
            exact here
          · have no_stop : ¬ stopText name <+:
                chr '<' :: (chr '/' :: (other ++ [chr '>']) ++ render rest) := by
              rintro ⟨after, shape⟩
              simp only [stopText, List.cons_append, List.cons.injEq, true_and, List.append_assoc,
                List.nil_append] at shape
              exact same (cut_unique whole other_whole shape).1.symm
            have plain : chr '<' ∉ chr '/' :: (other ++ [chr '>']) := by
              have name_plain := notMem_of_all named (chr '<') (by decide)
              simp [name_plain, show chr '<' ≠ chr '/' by decide, show chr '<' ≠ chr '>' by decide]
            have past := findIn_past _ (render rest) name plain no_stop
            rw [rest_found] at past
            rw [render_cons, tagText, split, if_neg same]
            refine past.trans ?_
            cases split name rest with
            | none => rfl
            | some parts =>
                simp only [Option.map_some, render_cons, tagText, stopText, List.length_append,
                  List.length_cons, List.length_nil]

/-- The search for an end tag from the end of a name on. -/
theorem findIn_behind {label : Label} (allowed : label.Allowed) (name : Bytes)
    (whole : chr '>' ∉ name) (rest : List (Tag Label Bytes)) (proper : ∀ tag ∈ rest, Proper tag) :
    findIn (stopText name) (attributes label ++ chr '>' :: (label.content ++ render rest)) =
      (split name rest).map fun parts =>
        (attributes label ++ chr '>' :: label.content).length + (render parts.1).length := by
  have between : chr '<' ∉ attributes label ++ chr '>' :: label.content := by
    have rest_plain := start_rest_plain allowed
    simp only [List.mem_append, not_or] at rest_plain ⊢
    exact rest_plain.2
  have inner := findIn_render name whole rest proper
  have skip := findIn_append (chr '<') (chr '/' :: (name ++ [chr '>']))
    (attributes label ++ chr '>' :: label.content) (render rest) between
  rw [stopText] at inner ⊢
  rw [inner, Option.map_map, List.append_assoc] at skip
  exact skip

/-- The start tag looks like the beginning of a note. -/
def NoteLike (label : Label) : Prop :=
  label.name = [chr '!', chr '-', chr '-'] ∧ label.properties ≠ []

instance (label : Label) : Decidable (NoteLike label) := inferInstanceAs (Decidable (_ ∧ _))

theorem noteLike_of_begins {label : Label} (allowed : label.Allowed) (rest : Bytes)
    (begins : XML_NOTE_BEGIN_TAG <+: chr '<' :: (label.name ++ (attributes label ++ chr '>' :: rest))) :
    NoteLike label := by
  obtain ⟨after, shape⟩ := begins
  have same : [chr '!', chr '-', chr '-'] ++ chr ' ' :: after =
      label.name ++ (attributes label ++ chr '>' :: rest) := by
    simpa [XML_NOTE_BEGIN_TAG] using shape
  have no_space := notMem_of_all allowed.name (chr ' ') (by decide)
  rcases attributes_spaced label with none_there | ⟨more, some_there⟩
  · rw [none_there, List.nil_append] at same
    have no_end := notMem_of_all allowed.name (chr '>') (by decide)
    rcases List.append_eq_append_iff.mp same with ⟨more, long, tails⟩ | ⟨more, long, tails⟩
    · cases more with
      | nil => injection tails with marks; exact absurd marks (by decide)
      | cons head more => injection tails with marks; exact absurd (by simp [long, marks]) no_space
    · cases more with
      | nil => injection tails with marks; exact absurd marks (by decide)
      | cons head more =>
          injection tails with marks
          have inside : chr '>' ∈ [chr '!', chr '-', chr '-'] := by rw [long, marks]; simp
          exact absurd inside (by decide)
  · rw [some_there, List.cons_append] at same
    refine ⟨(cut_unique (by decide) no_space same).1.symm, fun empty => ?_⟩
    simp [attributes, empty] at some_there

theorem prefix_of_noteLike {label : Label} (like : NoteLike label) (rest : Bytes) :
    ∃ more, more ≠ [] ∧ chr '<' :: (label.name ++ (attributes label ++ rest)) =
      XML_NOTE_BEGIN_TAG ++ more := by
  obtain ⟨named, some_there⟩ := like
  obtain ⟨property, others, shape⟩ := List.exists_cons_of_ne_nil some_there
  refine ⟨property.PropertyName ++ [chr '=', doubleQuote] ++ property.PropertyValue ++
    [doubleQuote] ++ others.flatMap propertyText ++ rest, by simp, ?_⟩
  simp [named, attributes, shape, propertyText, XML_NOTE_BEGIN_TAG]

/-! Where the loop over the children stands at a tag. -/

theorem nextChild_end {s : Bytes} {pos : Int} (place : pos = s.length) :
    nextChild s pos = some none := by
  have nonneg : 0 ≤ pos := by omega
  have none_left : find s [chr '<'] pos = -1 :=
    find_missing (List.append_nil s).symm place rfl
  simp [nextChild, nonneg, none_left]

theorem nextChild_stop {s before name : Bytes} {rest : List (Tag Label Bytes)} {pos : Int}
    (parts : s = before ++ render (.stop name :: rest)) (place : pos = before.length)
    (proper : ∀ tag ∈ Tag.stop name :: rest, Proper tag) : nextChild s pos = some none := by
  obtain ⟨named, bytes⟩ : name ≠ [] ∧ ∀ byte ∈ name, NameByte byte :=
    proper (.stop name) List.mem_cons_self
  have no_space := notMem_of_all bytes (chr ' ') (by decide)
  have no_end := notMem_of_all bytes (chr '>') (by decide)
  have no_slash := notMem_of_all bytes (chr '/') (by decide)
  have shape : s = before ++ chr '<' :: ((chr '/' :: name) ++ ([] ++ chr '>' :: render rest)) := by
    rw [parts]
    simp [tagText, stopText]
  have word_end : chr '>' ∉ chr '/' :: name := by
    simp [no_end, show chr '>' ≠ chr '/' by decide]
  have step := nextChild_tag shape place (by simp [no_space, show chr ' ' ≠ chr '/' by decide])
    (by simpa using word_end) (.inl rfl)
    (by simp [XML_NOTE_BEGIN_TAG, show chr '!' ≠ chr '/' by decide]) (by
      intro last
      obtain ⟨front, byte, rfl⟩ := (List.eq_nil_or_concat name).resolve_left named
      rw [List.append_nil, List.concat_eq_append, ← List.cons_append, List.getLast?_concat,
        Option.some.injEq] at last
      exact no_slash (by simp [last]))
  have other_names : split (chr '/' :: name) rest = none := by
    rw [Tags.split_eq_none_iff]
    intro member
    obtain ⟨_, slashed⟩ : chr '/' :: name ≠ [] ∧ ∀ byte ∈ chr '/' :: name, NameByte byte :=
      proper (.stop (chr '/' :: name)) (List.mem_cons_of_mem _ member)
    exact absurd (slashed (chr '/') List.mem_cons_self) (by decide)
  have missing : findIn (stopText (chr '/' :: name)) ([chr '>'] ++ render rest) = none := by
    have found := findIn_render (chr '/' :: name) word_end rest fun tag member =>
      proper tag (List.mem_cons_of_mem _ member)
    rw [other_names] at found
    have skip := findIn_append (chr '<') (chr '/' :: (chr '/' :: name ++ [chr '>'])) [chr '>']
      (render rest) (by decide)
    rw [stopText] at found ⊢
    rw [skip, found]
    rfl
  rw [step]
  simp only [List.nil_append]
  rw [show chr '>' :: render rest = [chr '>'] ++ render rest from rfl, missing]

theorem nextChild_start {s before : Bytes} {label : Label} {rest : List (Tag Label Bytes)} {pos : Int}
    (parts : s = before ++ render (.start label :: rest)) (place : pos = before.length)
    (proper : ∀ tag ∈ Tag.start label :: rest, Proper tag) (no_note : ¬ NoteLike label) :
    nextChild s pos =
      match split label.name rest with
      | none => some none
      | some (inside, _) =>
          let child := render (.start label :: (inside ++ [.stop label.name]))
          some (some (child, pos + child.length)) := by
  have allowed : label.Allowed := proper (.start label) List.mem_cons_self
  have no_end := notMem_of_all allowed.name (chr '>') (by decide)
  have no_end' := attributes_notMem allowed (chr '>') (by decide) (by decide) (by decide)
  have shape : s = before ++ chr '<' :: (label.name ++ (attributes label ++ chr '>' ::
      (label.content ++ render rest))) := by
    rw [parts]
    simp [tagText]
  have step := nextChild_tag shape place (notMem_of_all allowed.name (chr ' ') (by decide))
    (by simp [no_end, no_end']) (attributes_spaced label)
    (fun begins => no_note (noteLike_of_begins allowed _ begins)) (tag_last allowed)
  have found := findIn_behind allowed label.name no_end rest fun tag member =>
    proper tag (List.mem_cons_of_mem _ member)
  rw [step, found]
  cases hit : split label.name rest with
  | none => rfl
  | some cut =>
      obtain ⟨inside, behind⟩ := cut
      obtain ⟨_, rfl⟩ := (Tags.split_eq_some_iff _ _ _ _).mp hit
      have size : (1 + label.name.length + ((attributes label ++ chr '>' :: label.content).length +
          (render inside).length) + (label.name.length + 3) : Nat) =
          (render (.start label :: (inside ++ [.stop label.name]))).length := by
        simp [tagText, stopText]
        omega
      have text : s = before ++ (render (.start label :: (inside ++ [.stop label.name])) ++
          render behind) := by
        rw [parts]
        simp
      simp only [Option.map_some, size]
      rw [substr_eq text place rfl]
      rfl

/-- No tag ends like a note. -/
theorem not_note_end {word before : Bytes} (named : word ≠ []) (bytes : ∀ byte ∈ word, NameByte byte)
    (byte : UInt8) (mark : byte = chr '<' ∨ byte = chr '/') (x : Bytes) :
    before ++ byte :: word ≠ x ++ [chr ' ', chr '-', chr '-'] := by
  intro same
  have no_space := notMem_of_all bytes (chr ' ') (by decide)
  have mark_dash : byte ≠ chr '-' := by rcases mark with rfl | rfl <;> decide
  have mark_space : byte ≠ chr ' ' := by rcases mark with rfl | rfl <;> decide
  obtain ⟨front, last, rfl⟩ := (List.eq_nil_or_concat word).resolve_left named
  have step : (before ++ byte :: front) ++ [last] = (x ++ [chr ' ', chr '-']) ++ [chr '-'] := by
    simpa using same
  have shorter := (List.append_inj' step rfl).1
  rcases List.eq_nil_or_concat front with rfl | ⟨front, last', rfl⟩
  · have step : before ++ [byte] = (x ++ [chr ' ']) ++ [chr '-'] := by simpa using shorter
    have ends := (List.append_inj' step rfl).2
    simp only [List.cons.injEq, and_true] at ends
    exact mark_dash ends
  · have step : (before ++ byte :: front) ++ [last'] = (x ++ [chr ' ']) ++ [chr '-'] := by
      simpa using shorter
    have shorter := (List.append_inj' step rfl).1
    rcases List.eq_nil_or_concat front with rfl | ⟨front, last'', rfl⟩
    · have ends := (List.append_inj' shorter rfl).2
      simp only [List.cons.injEq, and_true] at ends
      exact mark_space ends
    · have step : (before ++ byte :: front) ++ [last''] = x ++ [chr ' '] := by simpa using shorter
      have ends := (List.append_inj' step rfl).2
      simp only [List.cons.injEq, and_true] at ends
      exact no_space (by simp [ends])

/-- A tag up to its `>`, and what is behind it up to the next. -/
theorem tag_cut {tag : Tag Label Bytes} (proper : Proper tag) :
    ∃ line content, tagText tag = line ++ chr '>' :: content ∧ chr '>' ∉ line ∧ chr '>' ∉ content ∧
      ∀ before x, before ++ line ≠ x ++ [chr ' ', chr '-', chr '-'] := by
  cases tag with
  | start label =>
      have allowed : label.Allowed := proper
      have no_end := notMem_of_all allowed.name (chr '>') (by decide)
      have no_end' := attributes_notMem allowed (chr '>') (by decide) (by decide) (by decide)
      refine ⟨chr '<' :: (label.name ++ attributes label), label.content, by simp [tagText], ?_,
        notMem_of_all allowed.content (chr '>') (by decide), fun before x same => ?_⟩
      · simp [no_end, no_end', show chr '>' ≠ chr '<' by decide]
      · rcases List.eq_nil_or_concat label.properties with empty | ⟨front, property, shape⟩
        · rw [attributes, empty, List.flatMap_nil, List.append_nil] at same
          exact not_note_end allowed.named allowed.name (chr '<') (.inl rfl) x same
        · have quoted : (before ++ chr '<' :: (label.name ++ (front.flatMap propertyText ++
              (chr ' ' :: property.PropertyName ++ [chr '=', doubleQuote] ++
                property.PropertyValue)))) ++ [doubleQuote] =
                (x ++ [chr ' ', chr '-']) ++ [chr '-'] := by
            simpa [attributes, shape, propertyText] using same
          have ends := (List.append_inj' quoted rfl).2
          exact absurd ends (by decide)
  | stop name =>
      obtain ⟨named, bytes⟩ : name ≠ [] ∧ ∀ byte ∈ name, NameByte byte := proper
      have no_end := notMem_of_all bytes (chr '>') (by decide)
      refine ⟨chr '<' :: chr '/' :: name, [], by simp [tagText, stopText], ?_, by simp,
        fun before x same => ?_⟩
      · simp [no_end, show chr '>' ≠ chr '<' by decide, show chr '>' ≠ chr '/' by decide]
      · rw [← List.singleton_append, ← List.append_assoc] at same
        exact not_note_end named bytes (chr '/') (.inr rfl) x same

theorem no_note_end (tags : List (Tag Label Bytes)) (proper : ∀ tag ∈ tags, Proper tag) :
    ¬ XML_NOTE_END_TAG <:+: render tags := by
  -- what is in front of a tag may be the content behind the one before
  suffices ∀ before, chr '>' ∉ before → ¬ XML_NOTE_END_TAG <:+: before ++ render tags by
    simpa using this [] (by simp)
  induction tags with
  | nil =>
      intro before no_end inside
      rw [render_nil, List.append_nil] at inside
      exact no_end (inside.subset (by simp [XML_NOTE_END_TAG]))
  | cons tag rest ih =>
      rintro before no_end ⟨x, y, same⟩
      obtain ⟨line, content, text, line_end, content_end, other⟩ := tag_cut (proper tag (by simp))
      have cut : (x ++ [chr ' ', chr '-', chr '-']) ++ chr '>' :: y =
          (before ++ line) ++ chr '>' :: (content ++ render rest) := by
        simpa [XML_NOTE_END_TAG, text] using same
      by_cases first : chr '>' ∈ x
      · -- then the end of the note is behind the tag
        obtain ⟨front, back, shape, alone⟩ := List.eq_append_cons_of_mem first
        have again : front ++ chr '>' :: (back ++ ([chr ' ', chr '-', chr '-'] ++ chr '>' :: y)) =
            (before ++ line) ++ chr '>' :: (content ++ render rest) := by
          rw [← cut, shape]
          simp
        have behind := (cut_unique alone (by simp [no_end, line_end]) again).2
        apply ih (fun tag member => proper tag (by simp [member])) content content_end
        exact ⟨back, y, by rw [← behind]; simp [XML_NOTE_END_TAG]⟩
      · have ends := (cut_unique (by simp [first, show chr '>' ≠ chr ' ' by decide,
          show chr '>' ≠ chr '-' by decide]) (by simp [no_end, line_end]) cut).1
        exact other before x ends.symm

end EChainLib.Config.XmlText
