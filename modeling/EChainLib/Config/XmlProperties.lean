import EChainLib.Config.XmlTags

/-! The properties that are read in a start tag. Every `=` in it is taken for one, those in the
values too. -/

namespace EChainLib.Config.XmlText

open EChainLib.Keys (Bytes)
open EChainLib.Strings

structure Property.Allowed (property : Property) : Prop where
  name : ∀ byte ∈ property.PropertyName, NameByte byte
  value : ∀ byte ∈ property.PropertyValue, TextByte byte

theorem Label.Allowed.property {label : Label} (allowed : label.Allowed) {property : Property}
    (member : property ∈ label.properties) : property.Allowed :=
  ⟨allowed.properties property member, allowed.values property member⟩

/-- What stands in a tag behind a place. -/
def tagEnd (properties : List Property) : Bytes := properties.flatMap propertyText ++ [chr '>']

theorem tagEnd_cons (property : Property) (rest : List Property) :
    tagEnd (property :: rest) = chr ' ' :: (property.PropertyName ++ chr '=' :: doubleQuote ::
      (property.PropertyValue ++ doubleQuote :: tagEnd rest)) := by
  simp [tagEnd, propertyText]

/-- How many properties are read that no one has written: one for each `=` in a value with a
property behind it. -/
def strays : List Property → Nat
  | [] => 0
  | property :: rest =>
      (if rest = [] then 0 else property.PropertyValue.count (chr '=')) + strays rest

theorem propertyAt_own {s before : Bytes} {property : Property} {rest : List Property}
    (parts : s = before ++ tagEnd (property :: rest)) (behind : before ≠ [])
    (allowed : property.Allowed) {ieqpos : Int}
    (place : ieqpos = (before.length + (1 + property.PropertyName.length) : Nat)) :
    propertyAt s ieqpos = some [property] := by
  have positive := List.length_pos_iff.mpr behind
  have no_space := notMem_of_all allowed.name (chr ' ') (by decide)
  have no_quote := notMem_of_all allowed.value doubleQuote (by decide)
  rw [tagEnd_cons] at parts
  have space : rfind s [chr ' '] ieqpos = before.length := by
    have cut : s = before ++ chr ' ' :: ((property.PropertyName ++ [chr '=']) ++ doubleQuote ::
        (property.PropertyValue ++ doubleQuote :: tagEnd rest)) := by
      simpa using parts
    have nonneg : ¬ ieqpos < 0 := by omega
    rw [rfind, if_neg nonneg]
    refine rfindIn_eq cut ?_ ?_ (by simp [no_space, show chr ' ' ≠ chr '=' by decide])
    · simp
      omega
    · omega
  have name : substr s ((before.length : Int) + 1) (ieqpos - before.length - 1) =
      some property.PropertyName := by
    have cut : s = (before ++ [chr ' ']) ++ (property.PropertyName ++ chr '=' :: doubleQuote ::
        (property.PropertyValue ++ doubleQuote :: tagEnd rest)) := by
      simpa using parts
    refine substr_eq cut ?_ ?_
    · simp
    · omega
  have opening : find s [doubleQuote] ieqpos = ieqpos + 1 := by
    have cut : s = (before ++ chr ' ' :: property.PropertyName) ++ ([chr '='] ++ doubleQuote ::
        (property.PropertyValue ++ doubleQuote :: tagEnd rest)) := by
      simpa using parts
    have found := findIn_at doubleQuote [chr '='] (property.PropertyValue ++ doubleQuote ::
      tagEnd rest) (by decide)
    rw [find_found cut (by simp [place]; omega) found]
    simp
  have value_cut : s = (before ++ chr ' ' :: (property.PropertyName ++ [chr '=', doubleQuote])) ++
      (property.PropertyValue ++ doubleQuote :: tagEnd rest) := by
    simpa using parts
  have value_place : ieqpos + 1 + 1 =
      (before ++ chr ' ' :: (property.PropertyName ++ [chr '=', doubleQuote])).length := by
    simp [place]
    omega
  have closing : find s [doubleQuote] (ieqpos + 1 + 1) =
      ieqpos + 1 + 1 + property.PropertyValue.length :=
    find_found value_cut value_place (findIn_at doubleQuote property.PropertyValue _ no_quote)
  have value : substr s (ieqpos + 1 + 1)
      (ieqpos + 1 + 1 + property.PropertyValue.length - (ieqpos + 1) - 1) =
        some property.PropertyValue :=
    substr_eq value_cut value_place (by omega)
  have before_name : (before.length : Int) > 0 := by omega
  have some_opening : ieqpos + 1 > 0 := by omega
  have some_closing : ieqpos + 1 + 1 + property.PropertyValue.length > 0 := by omega
  simp only [propertyAt, space, before_name, if_true, name, opening, closing, some_opening,
    some_closing, and_self, value, Option.bind_eq_bind, Option.bind_some]
  rfl

/-- An `=` in a value is taken for a property if there is another property behind it. -/
theorem propertyAt_stray {s before inner : Bytes} {rest : List Property}
    (parts : s = before ++ chr '=' :: (inner ++ doubleQuote :: tagEnd rest))
    (spaced : ∃ start word, before = start ++ chr ' ' :: word ∧ start ≠ [])
    (no_quote : doubleQuote ∉ inner) (allowed : ∀ property ∈ rest, property.Allowed) :
    ∃ found, propertyAt s before.length = some found ∧
      found.length = if rest = [] then 0 else 1 := by
  obtain ⟨start, word, shape, behind⟩ := spaced
  have positive := List.length_pos_iff.mpr behind
  have length := congrArg List.length shape
  simp only [List.length_append, List.length_cons] at length
  -- there is a blank in front, which the search back finds or one that is nearer
  have hit : [chr ' '] <+: s.drop start.length := by
    rw [parts, shape]
    simp
  have bounds := rfindIn_bounds hit (show start.length ≤ before.length by omega)
  have space : rfind s [chr ' '] before.length = rfindIn s [chr ' '] before.length := by
    simp [rfind]
  have size := congrArg List.length parts
  simp only [List.length_append, List.length_cons] at size
  obtain ⟨name, name_read⟩ : ∃ name, substr s (rfindIn s [chr ' '] before.length + 1)
      ((before.length : Int) - rfindIn s [chr ' '] before.length - 1) = some name :=
    substr_isSome (by omega) (by omega)
  obtain ⟨quote, quote_place⟩ : ∃ quote : Int, quote = before.length + (1 + inner.length : Nat) :=
    ⟨_, rfl⟩
  have opening : find s [doubleQuote] before.length = quote := by
    have found := findIn_at doubleQuote (chr '=' :: inner) (tagEnd rest) (by
      simp [no_quote, show doubleQuote ≠ chr '=' by decide])
    rw [find_found (by simpa using parts) rfl found, quote_place]
    simp
    omega
  have cut : s = (before ++ chr '=' :: (inner ++ [doubleQuote])) ++ tagEnd rest := by
    simpa using parts
  have place : quote + 1 = (before ++ chr '=' :: (inner ++ [doubleQuote])).length := by
    simp [quote_place]
    omega
  have before_name : rfindIn s [chr ' '] before.length > 0 := by omega
  have some_opening : quote > 0 := by omega
  cases rest with
  | nil =>
      have closing : find s [doubleQuote] (quote + 1) = -1 :=
        find_missing cut place (findIn_of_notMem _ _ _ (by decide))
      refine ⟨[], ?_, rfl⟩
      simp [propertyAt, space, before_name, name_read, opening, closing]
  | cons property rest =>
      have next := allowed property List.mem_cons_self
      have no_quote' := notMem_of_all next.name doubleQuote (by decide)
      have found := findIn_at doubleQuote (chr ' ' :: (property.PropertyName ++ [chr '=']))
        (property.PropertyValue ++ doubleQuote :: tagEnd rest) (by
          simp [no_quote', show doubleQuote ≠ chr '=' by decide,
            show doubleQuote ≠ chr ' ' by decide])
      rw [tagEnd_cons] at cut
      have closing := find_found cut place (by simpa using found)
      have some_closing : find s [doubleQuote] (quote + 1) > 0 := by omega
      obtain ⟨value, value_read⟩ : ∃ value, substr s (quote + 1)
          (find s [doubleQuote] (quote + 1) - quote - 1) = some value := by
        have inside := congrArg List.length cut
        rw [List.length_append] at inside
        exact substr_isSome (by omega) (by omega)
      refine ⟨[⟨name, value⟩], ?_, by simp⟩
      simp only [propertyAt, space, before_name, if_true, name_read, opening, some_opening,
        some_closing, and_self, value_read, Option.bind_eq_bind, Option.bind_some]
      rfl

/-- What the loop gives from a place on where these properties are behind it. -/
abbrev Reads (s : Bytes) (place length strange : Nat) (properties : List Property) : Prop :=
  ∃ found, (∀ fuel, length ≤ fuel →
    propertiesFrom s fuel (find s [chr '='] place) = some found) ∧
    found.length = properties.length + strange ∧ (strange = 0 → found = properties)

theorem propertiesFrom_value {s before inner : Bytes} {rest : List Property}
    (next : ∀ before, s = before ++ tagEnd rest → before ≠ [] →
      Reads s before.length (tagEnd rest).length (strays rest) rest)
    (parts : s = before ++ (inner ++ doubleQuote :: tagEnd rest))
    (spaced : ∃ start word, before = start ++ chr ' ' :: word ∧ start ≠ [])
    (no_quote : doubleQuote ∉ inner) (allowed : ∀ property ∈ rest, property.Allowed) :
    Reads s before.length (inner.length + 1 + (tagEnd rest).length)
      ((if rest = [] then 0 else inner.count (chr '=')) + strays rest) rest := by
  -- on the value byte by byte: the search stops at every sign in it and reads a stray property
  induction inner generalizing before with
  | nil =>
      have cut : s = (before ++ [doubleQuote]) ++ tagEnd rest := by simpa using parts
      obtain ⟨found, reads, length, same⟩ := next (before ++ [doubleQuote]) cut (by simp)
      have quote : s = before ++ ([doubleQuote] ++ tagEnd rest) := by simpa using parts
      have skip : find s [chr '='] before.length = find s [chr '='] (before ++ [doubleQuote]).length :=
        find_skip quote rfl (by simp) (by decide)
      refine ⟨found, fun fuel enough => ?_, by simpa using length, by simpa using same⟩
      rw [skip]
      exact reads fuel (by simp at enough; omega)
  | cons byte inner ih =>
      simp only [List.mem_cons, not_or] at no_quote
      have cut : s = (before ++ [byte]) ++ (inner ++ doubleQuote :: tagEnd rest) := by
        simpa using parts
      have spaced' : ∃ start word, before ++ [byte] = start ++ chr ' ' :: word ∧ start ≠ [] := by
        obtain ⟨start, word, shape, behind⟩ := spaced
        exact ⟨start, word ++ [byte], by simp [shape], behind⟩
      obtain ⟨found, reads, length, same⟩ := ih cut spaced' no_quote.2
      by_cases sign : byte = chr '='
      · subst sign
        obtain ⟨piece, piece_read, piece_length⟩ := propertyAt_stray (by simpa using parts) spaced
          no_quote.2 allowed
        have here : find s [chr '='] before.length = before.length := by
          have at_once := findIn_at (chr '=') [] (inner ++ doubleQuote :: tagEnd rest) (by simp)
          rw [find_found (by simpa using parts) rfl at_once]
          simp
        obtain ⟨start, word, shape, behind⟩ := spaced
        have positive := List.length_pos_iff.mpr behind
        have some_place : (before.length : Int) > 0 := by
          have size := congrArg List.length shape
          simp only [List.length_append, List.length_cons] at size
          omega
        have count : (if rest = [] then 0 else (chr '=' :: inner).count (chr '=')) =
            piece.length + (if rest = [] then 0 else inner.count (chr '=')) := by
          rw [piece_length, List.count_cons_self]
          split_ifs <;> omega
        refine ⟨piece ++ found, ?_, ?_, ?_⟩
        · rintro (_ | fuel) enough
          · simp at enough
          · have enough' : inner.length + 1 + (tagEnd rest).length ≤ fuel := by
              simp only [List.length_cons] at enough
              omega
            have behind_sign : ((before ++ [chr '=']).length : Int) = before.length + 1 := by simp
            have more := reads fuel enough'
            rw [behind_sign] at more
            simp only [propertiesFrom, here, some_place, if_true, piece_read, more,
              Option.bind_eq_bind, Option.bind_some]
            rfl
        · rw [List.length_append, length, count]
          omega
        · intro none_strange
          rw [count] at none_strange
          have no_piece : piece = [] := List.length_eq_zero_iff.mp (by omega)
          rw [no_piece, List.nil_append]
          exact same (by omega)
      · have one : s = before ++ ([byte] ++ (inner ++ doubleQuote :: tagEnd rest)) := by
          simpa using parts
        have skip : find s [chr '='] before.length = find s [chr '='] (before ++ [byte]).length :=
          find_skip one rfl (by simp) (by simpa [eq_comm] using sign)
        have count : (byte :: inner).count (chr '=') = inner.count (chr '=') :=
          List.count_cons_of_ne sign
        refine ⟨found, fun fuel enough => ?_, by rw [count]; exact length, by rw [count]; exact same⟩
        rw [skip]
        exact reads fuel (by simp only [List.length_cons] at enough; omega)

theorem propertiesFrom_tagEnd {s before : Bytes} {properties : List Property}
    (parts : s = before ++ tagEnd properties) (behind : before ≠ [])
    (allowed : ∀ property ∈ properties, property.Allowed) :
    Reads s before.length (tagEnd properties).length (strays properties) properties := by
  -- each property is read at its own sign, and its value may hold further ones
  induction properties generalizing before with
  | nil =>
      have missing : find s [chr '='] before.length = -1 :=
        find_missing parts rfl (findIn_of_notMem _ _ _ (by decide))
      refine ⟨[], ?_, rfl, fun _ => rfl⟩
      rintro (_ | fuel) enough
      · simp [tagEnd] at enough
      · rw [missing]
        rfl
  | cons property rest ih =>
      have own := allowed property List.mem_cons_self
      have others : ∀ property ∈ rest, property.Allowed := fun other member =>
        allowed other (List.mem_cons_of_mem _ member)
      have no_sign := notMem_of_all own.name (chr '=') (by decide)
      have no_quote := notMem_of_all own.value doubleQuote (by decide)
      have shape := parts
      rw [tagEnd_cons] at shape
      have sign : find s [chr '='] before.length =
          (before.length + (1 + property.PropertyName.length) : Nat) := by
        have found := findIn_at (chr '=') (chr ' ' :: property.PropertyName)
          (doubleQuote :: (property.PropertyValue ++ doubleQuote :: tagEnd rest))
          (by simp [no_sign, show chr '=' ≠ chr ' ' by decide])
        rw [find_found (by simpa using shape) rfl found]
        simp
        omega
      have read := propertyAt_own parts behind own sign
      have cut : s = (before ++ chr ' ' :: (property.PropertyName ++ [chr '=', doubleQuote])) ++
          (property.PropertyValue ++ doubleQuote :: tagEnd rest) := by
        simpa using shape
      have value := propertiesFrom_value (fun _ cut behind => ih cut behind others) cut
        ⟨before, _, rfl, behind⟩ no_quote others
      obtain ⟨found, reads, length, same⟩ := value
      have next : find s [chr '='] (find s [chr '='] before.length + 1) =
          find s [chr '='] (before ++ chr ' ' ::
            (property.PropertyName ++ [chr '=', doubleQuote])).length := by
        have quote : s = (before ++ chr ' ' :: (property.PropertyName ++ [chr '='])) ++
            ([doubleQuote] ++ (property.PropertyValue ++ doubleQuote :: tagEnd rest)) := by
          simpa using shape
        refine find_skip quote ?_ ?_ (by decide)
        · rw [sign]
          simp
          omega
        · rw [sign]
          simp
          omega
      refine ⟨property :: found, ?_, ?_, ?_⟩
      · rintro (_ | fuel) enough
        · simp [tagEnd] at enough
        · have some_sign : find s [chr '='] before.length > 0 := by omega
          have more := reads fuel (by
            rw [tagEnd_cons] at enough
            simp only [List.length_cons, List.length_append] at enough
            omega)
          simp only [propertiesFrom, some_sign, if_true, read, next, more, Option.bind_eq_bind,
            Option.bind_some]
          rfl
      · simp only [List.length_cons, strays, length]
        omega
      · intro none_strange
        rw [same none_strange]

end EChainLib.Config.XmlText
