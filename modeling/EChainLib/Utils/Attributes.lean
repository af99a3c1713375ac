import EChainLib.Utils.Tokens

/-! The two attribute parsers of `strings.h`, `ParseAttribute` and `ParseAttributes`, on texts
such as `a=b;c=d`. -/

namespace EChainLib.Utils

open Std (ExtTreeMap)
open EChainLib.Keys (Bytes lowerCase isSpace)

abbrev StringMap := ExtTreeMap Bytes Bytes compare

/-! `ParseAttribute`. -/

/-- The key and the value of one item. `split` returns at least one text. -/
def attributeOf (item : List Bytes) : Bytes × Bytes :=
  match item with
  | key :: value :: _ => (key, value)
  | [key] => (key, [])
  | [] => ([], [])

/-- `insert` leaves a key that is there as it is. -/
def parseAttribute (s delim ope : Bytes) : StringMap :=
  ((split s delim).map fun part => attributeOf (split part ope)).foldl
    (fun ret pair => ret.insertIfNew pair.1 pair.2) ∅

/-! `ParseAttributes`. -/

def toLower (str : Bytes) : Bytes := str.map lowerCase

/-- `nRightPos` of `Trim`, which goes down while it is on a space. -/
def rightPos (str : Bytes) (nLeftPos : Nat) : Nat → Nat
  | 0 => 0
  | pos + 1 =>
      if nLeftPos ≤ pos + 1 ∧ isSpace (str.getD (pos + 1) 0) then rightPos str nLeftPos pos
      else pos + 1

def trim (str : Bytes) : Bytes :=
  if str = [] then []
  else
    let nLeftPos := (str.takeWhile isSpace).length
    let nRightPos := rightPos str nLeftPos (str.length - 1)
    if nLeftPos > nRightPos then [] else (str.drop nLeftPos).take (nRightPos - nLeftPos + 1)

/-- What is done to the two ends of the list of values, and which of them are the key and the
value then. -/
def attributeEntry (key_low_case trim_key trim_value : Bool) (key : Bytes) (back : Option Bytes) :
    Bytes × Bytes :=
  let key := if key_low_case then toLower key else key
  let key := if trim_key then trim key else key
  match back with
  | none => (key, [])
  | some value => (key, if trim_value then trim value else value)

/-- The loop over the parts: the number of lines, and the map; `none` is an overflow. -/
def attributesLoop (value_key : Bytes) (key_low_case trim_key trim_value : Bool) :
    List Bytes → Int → StringMap → Option (Int × StringMap)
  | [], lines, attrs => some (lines, attrs)
  | part :: parts, lines, attrs => do
      match ← strtok part value_key 2 false none with
      | [] => attributesLoop value_key key_low_case trim_key trim_value parts lines attrs
      | front :: rest =>
          let (key, value) := attributeEntry key_low_case trim_key trim_value front rest.getLast?
          attributesLoop value_key key_low_case trim_key trim_value parts (lines + 1)
            (attrs.insert key value)

def parseAttributes (content : Bytes) (attrs : StringMap) (sep_key value_key : Bytes)
    (key_low_case trim_key trim_value : Bool) : Option (Int × StringMap) := do
  let parts ← strtok content sep_key (-1) false none
  attributesLoop value_key key_low_case trim_key trim_value parts 0 attrs

/-! The format. -/

/-- `k1 o v1 d k2 o v2 ...`. -/
def attributeText (d o : UInt8) (entries : List (Bytes × Bytes)) : Bytes :=
  [d].intercalate (entries.map fun entry => entry.1 ++ o :: entry.2)

/-- A map that the format can tell from every other: its keys are not empty and hold no
separator, and its values hold none that stands between two entries. -/
structure Separable (d o : UInt8) (m : StringMap) : Prop where
  filled : ∀ key value : Bytes, m[key]? = some value → key ≠ []
  key_free : ∀ key value : Bytes, m[key]? = some value → d ∉ key ∧ o ∉ key
  value_free : ∀ key value : Bytes, m[key]? = some value → d ∉ value

/-- Both parsers give back the map of which the entries are. -/
structure Inverted (d o : UInt8) (m : StringMap) (entries : List (Bytes × Bytes)) : Prop where
  by_attribute : parseAttribute (attributeText d o entries) [d] [o] = m
  by_attributes : (parseAttributes (attributeText d o entries) ∅ [d] [o] false false false).map
    (fun parsed => parsed.2) = some m

/-- There is an entry, no value holds the separator behind a key, and the position behind the
text is an `int`. -/
structure Legible (o : UInt8) (m : StringMap) (text : Bytes) : Prop where
  some_entry : m ≠ ∅
  value_plain : ∀ key value : Bytes, m[key]? = some value → o ∉ value
  short : text.length + 1 < 2 ^ 31

/-! Maps filled entry by entry. -/

/-- The entries put in one after the other, the last one of a key staying. -/
def fill (m : StringMap) (entries : List (Bytes × Bytes)) : StringMap :=
  entries.foldl (fun attrs pair => attrs.insert pair.1 pair.2) m

@[simp]
theorem fill_nil (m : StringMap) : fill m [] = m := rfl

@[simp]
theorem fill_cons (m : StringMap) (entry : Bytes × Bytes) (entries : List (Bytes × Bytes)) :
    fill m (entry :: entries) = fill (m.insert entry.1 entry.2) entries := rfl

/-- A key that is in none of the entries keeps what it had. -/
theorem fill_absent (m : StringMap) (entries : List (Bytes × Bytes)) (key : Bytes)
    (absent : key ∉ entries.map Prod.fst) : (fill m entries)[key]? = m[key]? := by
  induction entries generalizing m with
  | nil => rfl
  | cons entry entries ih =>
      rw [List.map_cons, List.mem_cons, not_or] at absent
      rw [fill_cons, ih _ absent.2, ExtTreeMap.getElem?_insert]
      simp [Ne.symm absent.1]

/-- What a filled map holds was there or is one of the entries. -/
theorem mem_of_fill (m : StringMap) (entries : List (Bytes × Bytes)) (key value : Bytes)
    (held : (fill m entries)[key]? = some value) :
    (key, value) ∈ entries ∨ m[key]? = some value := by
  induction entries generalizing m with
  | nil => exact .inr held
  | cons entry entries ih =>
      rcases ih _ held with later | before
      · exact .inl (List.mem_cons_of_mem _ later)
      · rw [ExtTreeMap.getElem?_insert] at before
        split_ifs at before with same
        · rw [Std.LawfulEqCmp.compare_eq_iff_eq] at same
          cases before
          exact .inl (by simp [← same])
        · exact .inr before

theorem fill_present (m : StringMap) (entries : List (Bytes × Bytes))
    (distinct : (entries.map Prod.fst).Nodup) (entry : Bytes × Bytes) (member : entry ∈ entries) :
    (fill m entries)[entry.1]? = some entry.2 := by
  induction entries generalizing m with
  | nil => cases member
  | cons first entries ih =>
      rw [List.map_cons, List.nodup_cons] at distinct
      rcases List.mem_cons.mp member with rfl | later
      · rw [fill_cons, fill_absent _ _ _ distinct.1, ExtTreeMap.getElem?_insert_self]
      · exact ih _ distinct.2 later

/-- On new and distinct keys the two ways to put an entry in are the same. -/
theorem foldl_insertIfNew (m : StringMap) (entries : List (Bytes × Bytes))
    (distinct : (entries.map Prod.fst).Nodup) (fresh : ∀ entry ∈ entries, entry.1 ∉ m) :
    entries.foldl (fun ret pair => ret.insertIfNew pair.1 pair.2) m = fill m entries := by
  induction entries generalizing m with
  | nil => rfl
  | cons entry entries ih =>
      rw [List.map_cons, List.nodup_cons] at distinct
      have new : m.insertIfNew entry.1 entry.2 = m.insert entry.1 entry.2 := by
        apply ExtTreeMap.ext_getElem?
        intro key
        have missing := fresh entry (by simp)
        rw [ExtTreeMap.getElem?_insertIfNew, ExtTreeMap.getElem?_insert]
        simp [missing]
      rw [List.foldl_cons, fill_cons, new]
      refine ih _ distinct.2 fun later member => ?_
      have other : entry.1 ≠ later.1 := fun same =>
        distinct.1 (same ▸ List.mem_map_of_mem member)
      rw [ExtTreeMap.mem_insert, not_or]
      exact ⟨fun same => other (Std.LawfulEqCmp.compare_eq_iff_eq.mp same),
        fresh later (List.mem_cons_of_mem _ member)⟩

section Entries

variable {m : StringMap} {entries : List (Bytes × Bytes)} (listed : entries.Perm m.toList)

include listed

theorem mem_entries (key value : Bytes) : (key, value) ∈ entries ↔ m[key]? = some value :=
  listed.mem_iff.trans ExtTreeMap.mem_toList_iff_getElem?_eq_some

theorem distinct_entries : (entries.map Prod.fst).Nodup := by
  have keys : (m.toList.map Prod.fst).Nodup := by
    refine List.pairwise_map.mpr (ExtTreeMap.distinct_keys_toList.imp fun different same => ?_)
    exact different (Std.LawfulEqCmp.compare_eq_iff_eq.mpr same)
  exact (listed.map Prod.fst).nodup_iff.mpr keys

/-- A map is filled from its entries in any order. -/
theorem fill_entries : fill ∅ entries = m := by
  apply ExtTreeMap.ext_getElem?
  intro key
  by_cases present : key ∈ entries.map Prod.fst
  · obtain ⟨entry, member, rfl⟩ := List.mem_map.mp present
    rw [fill_present _ _ (distinct_entries listed) _ member,
      (mem_entries listed _ _).mp member]
  · rw [fill_absent _ _ _ present, ExtTreeMap.getElem?_empty, eq_comm, Option.eq_none_iff_forall_ne_some]
    intro value held
    exact present (List.mem_map.mpr ⟨(key, value), (mem_entries listed _ _).mpr held, rfl⟩)

theorem entries_eq_nil : entries = [] ↔ m = ∅ := by
  rw [← ExtTreeMap.toList_eq_nil_iff]
  constructor
  · rintro rfl
    exact listed.nil_eq.symm
  · intro nothing
    exact (nothing ▸ listed).eq_nil

end Entries

/-! What the two parsers do with such a text. -/

section Format

variable {d o : UInt8} {m : StringMap} {entries : List (Bytes × Bytes)}
  (separable : Separable d o m) (listed : entries.Perm m.toList)

/-- Splitting a value once more keeps what is in front of the first separator in it. -/
theorem headD_splitOn_eq_self (value : Bytes) : (value.splitOn o).headD [] = value ↔ o ∉ value := by
  constructor
  · intro same occurs
    obtain ⟨before, after, shape, absent⟩ := List.eq_append_cons_of_mem occurs
    rw [shape, List.splitOn_append_cons_self_of_not_mem absent, List.headD_cons] at same
    have size := congrArg List.length same
    rw [List.length_append, List.length_cons] at size
    omega
  · intro absent
    rw [List.splitOn_eq_singleton absent, List.headD_cons]

theorem attributeOf_item (key value : Bytes) (absent : o ∉ key) :
    attributeOf ((key ++ o :: value).splitOn o) = (key, (value.splitOn o).headD []) := by
  rw [List.splitOn_append_cons_self_of_not_mem absent]
  cases shape : value.splitOn o with
  | nil => rfl
  | cons first rest => rfl

/-- The items that stand between the separators. -/
def items (o : UInt8) (entries : List (Bytes × Bytes)) : List Bytes :=
  entries.map fun entry => entry.1 ++ o :: entry.2

theorem length_attributeText (filled : entries ≠ []) :
    (attributeText d o entries).length + 1 =
      (entries.map fun entry => entry.1.length + entry.2.length + 2).sum := by
  induction entries with
  | nil => exact absurd rfl filled
  | cons entry entries ih =>
      rw [attributeText, List.map_cons, List.map_cons, List.sum_cons]
      by_cases alone : entries = []
      · subst alone
        simp
        omega
      · rw [List.intercalate_cons_of_ne_nil (by simpa using alone), ← ih alone, attributeText]
        simp
        omega

section Parsed

include separable listed

theorem item_free (item : Bytes) (member : item ∈ items o entries) (different : d ≠ o) :
    d ∉ item := by
  obtain ⟨entry, inside, rfl⟩ := List.mem_map.mp member
  have held := (mem_entries listed _ _).mp inside
  have key_free := (separable.key_free _ _ held).1
  have value_free := separable.value_free _ _ held
  simp [key_free, value_free, different]

theorem parseAttribute_text (different : d ≠ o) (filled : entries ≠ []) :
    parseAttribute (attributeText d o entries) [d] [o] =
      fill ∅ (entries.map fun entry => (entry.1, (entry.2.splitOn o).headD [])) := by
  have parts : split (attributeText d o entries) [d] = items o entries := by
    rw [split_eq]
    exact List.splitOn_intercalate d
      (fun item member => item_free separable listed item member different)
      (by simpa using filled)
  have pairs : (items o entries).map (fun part => attributeOf (split part [o])) =
      entries.map fun entry => (entry.1, (entry.2.splitOn o).headD []) := by
    rw [items, List.map_map]
    refine List.map_congr_left fun entry member => ?_
    have held := (mem_entries listed _ _).mp member
    rw [Function.comp_apply, split_eq]
    exact attributeOf_item _ _ (separable.key_free _ _ held).2
  have distinct := distinct_entries listed
  rw [parseAttribute, parts, pairs]
  refine foldl_insertIfNew _ _ ?_ fun entry _ => ExtTreeMap.not_mem_empty
  rw [List.map_map]
  exact distinct

/-- `ParseAttribute` inverts the format when no value holds the separator behind a key. -/
theorem parseAttribute_eq (different : d ≠ o) (filled : entries ≠ []) :
    parseAttribute (attributeText d o entries) [d] [o] = m ↔
      ∀ key value : Bytes, m[key]? = some value → o ∉ value := by
  rw [parseAttribute_text separable listed different filled]
  have distinct := distinct_entries listed
  constructor
  · intro same key value held
    have member := (mem_entries listed _ _).mpr held
    have found := fill_present ∅
      (entries.map fun entry => (entry.1, (entry.2.splitOn o).headD []))
      (by rw [List.map_map]; exact distinct) _ (List.mem_map_of_mem member)
    rw [same, held] at found
    exact (headD_splitOn_eq_self value).mp (Option.some.inj found).symm
  · intro plain
    have same : (entries.map fun entry => (entry.1, (entry.2.splitOn o).headD [])) = entries := by
      refine (List.map_congr_left fun entry member => ?_).trans (List.map_id _)
      have held := (mem_entries listed _ _).mp member
      rw [(headD_splitOn_eq_self entry.2).mpr (plain _ _ held)]
      rfl
    rw [same]
    exact fill_entries listed

end Parsed

/-- Each item puts its entry in, if the position behind it is an `int`. -/
theorem attributesLoop_items (marked : o ≠ 0) (attrs : StringMap) (lines : Int)
    (plain : ∀ entry ∈ entries, o ∉ entry.1)
    (small : ∀ item ∈ items o entries, item.length + 1 < 2 ^ 31) :
    attributesLoop [o] false false false (items o entries) lines attrs =
      some (lines + entries.length, fill attrs entries) := by
  induction entries generalizing attrs lines with
  | nil => simp [items, attributesLoop]
  | cons entry entries ih =>
      have pieces := strtok_two marked entry.1 entry.2 (plain entry (by simp))
        (small _ (by simp [items]))
      have later := ih (attrs.insert entry.1 entry.2) (lines + 1)
        (fun other member => plain other (List.mem_cons_of_mem _ member))
        (fun item member => small item (List.mem_cons_of_mem _ member))
      have count : lines + ((entry :: entries).length : Int) = lines + 1 + entries.length := by
        rw [List.length_cons]
        omega
      rw [items, List.map_cons, attributesLoop, pieces, fill_cons, count, ← later]
      -- an empty value leaves one piece, and the entry of it has an empty value again
      by_cases empty : entry.2 = []
      · simp [empty, attributeEntry, items]
      · simp [empty, attributeEntry, items]

theorem length_item_le (item : Bytes) (member : item ∈ items o entries) :
    item.length ≤ (attributeText d o entries).length := by
  obtain ⟨entry, inside, rfl⟩ := List.mem_map.mp member
  have total := length_attributeText (d := d) (o := o) (List.ne_nil_of_mem inside)
  have part := List.single_le_sum (l := entries.map fun entry => entry.1.length + entry.2.length + 2)
    (by simp) _ (List.mem_map_of_mem inside)
  simp only [List.length_append, List.length_cons]
  omega

include separable listed in
theorem strtok_attributeText (different : d ≠ o) (marked : d ≠ 0) (filled : entries ≠ [])
    (small : (attributeText d o entries).length < 2 ^ 31) :
    strtok (attributeText d o entries) [d] (-1) false none =
      if (attributeText d o entries).length + 1 < 2 ^ 31 then some (items o entries) else none := by
  have some_item : items o entries ≠ [] := by simpa [items] using filled
  have last_item := List.getLast_mem some_item
  have split := List.dropLast_append_getLast some_item
  have last_filled : (items o entries).getLast some_item ≠ [] := by
    obtain ⟨entry, -, shape⟩ := List.mem_map.mp last_item
    rw [← shape]
    simp
  have pieces := strtok_pieces marked (items o entries).dropLast
    ((items o entries).getLast some_item) last_filled
    (fun piece member => item_free separable listed piece (split ▸ member) different)
  rw [split] at pieces
  exact pieces small

/-- Below the limit `ParseAttributes` counts the entries and fills the map with them. -/
theorem parseAttributes_text (separable : Separable d o m) (listed : entries.Perm m.toList)
    (different : d ≠ o) (d_marked : d ≠ 0) (o_marked : o ≠ 0)
    (filled : entries ≠ []) (small : (attributeText d o entries).length + 1 < 2 ^ 31) :
    parseAttributes (attributeText d o entries) ∅ [d] [o] false false false =
      some ((entries.length : Int), m) := by
  have plain : ∀ entry ∈ entries, o ∉ entry.1 := fun entry member =>
    (separable.key_free _ _ ((mem_entries listed _ _).mp member)).2
  have short : ∀ item ∈ items o entries, item.length + 1 < 2 ^ 31 := fun item member => by
    have width := length_item_le (d := d) item member
    omega
  rw [parseAttributes, strtok_attributeText separable listed different d_marked filled (by omega),
    if_pos small, Option.bind_eq_bind, Option.bind_some,
    attributesLoop_items o_marked ∅ 0 plain short, fill_entries listed, Int.zero_add]

/-- What the loop returns is filled from pairs no longer than the parts they come from. -/
theorem attributesLoop_bound (parts : List Bytes) (lines : Int) (attrs : StringMap)
    (parsed : Int × StringMap)
    (returned : attributesLoop [o] false false false parts lines attrs = some parsed) :
    ∃ pairs : List (Bytes × Bytes), parsed.2 = fill attrs pairs ∧
      (pairs.map fun pair => pair.1.length + pair.2.length + 2).sum ≤
        (parts.map fun part => part.length + 2).sum := by
  induction parts generalizing lines attrs with
  | nil =>
      cases returned
      exact ⟨[], rfl, Nat.le_refl _⟩
  | cons part parts ih =>
      obtain ⟨pieces, cut, continued⟩ := Option.bind_eq_some_iff.mp returned
      have bound := strtok_bound part 2 false pieces cut
      have narrowed := narrow_range part.length
      have below : (narrow part.length + 1).toNat ≤ part.length + 1 := by
        by_cases fits : part.length < 2 ^ 31
        · have value := narrow_of_lt fits
          omega
        · have value := narrow_of_ge (Nat.le_of_not_lt fits)
          omega
      rw [List.map_cons, List.sum_cons]
      cases pieces with
      | nil =>
          obtain ⟨pairs, filled, total⟩ := ih lines attrs continued
          exact ⟨pairs, filled, by omega⟩
      | cons front rest =>
          obtain ⟨pairs, filled, total⟩ := ih _ _ continued
          refine ⟨attributeEntry false false false front rest.getLast? :: pairs, filled, ?_⟩
          rw [List.map_cons, List.sum_cons] at bound
          have entry_bound : (attributeEntry false false false front rest.getLast?).1.length +
              (attributeEntry false false false front rest.getLast?).2.length ≤ part.length := by
            cases last : rest.getLast? with
            | none =>
                simp [attributeEntry]
                omega
            | some value =>
                have one := List.single_le_sum (l := rest.map fun piece => piece.length + 1)
                  (by simp) _ (List.mem_map_of_mem (List.mem_of_getLast? last))
                simp [attributeEntry]
                omega
          rw [List.map_cons, List.sum_cons]
          omega

/-- Beyond the `int`s the text is longer than what the parser reads of it. -/
theorem parseAttributes_long (separable : Separable d o m) (listed : entries.Perm m.toList)
    (different : d ≠ o) (marked : d ≠ 0) (filled : entries ≠ [])
    (large : 2 ^ 31 ≤ (attributeText d o entries).length + 1) (lines : Int) :
    parseAttributes (attributeText d o entries) ∅ [d] [o] false false false ≠ some (lines, m) := by
  intro returned
  obtain ⟨parts, cut, looped⟩ := Option.bind_eq_some_iff.mp returned
  by_cases edge : (attributeText d o entries).length < 2 ^ 31
  · rw [strtok_attributeText separable listed different marked filled edge,
      if_neg (Nat.not_lt.mpr large)] at cut
    cases cut
  · obtain ⟨pairs, same, total⟩ := attributesLoop_bound parts 0 ∅ _ looped
    -- every entry is among the pairs read, and these weigh no more than what was read
    have inside : entries ⊆ pairs := fun entry member => by
      have held := (mem_entries listed _ _).mp member
      rw [show m = fill ∅ pairs from same] at held
      rcases mem_of_fill _ _ _ _ held with found | nothing
      · exact found
      · rw [ExtTreeMap.getElem?_empty] at nothing
        cases nothing
    have once : entries.Nodup := (distinct_entries listed).of_map
    obtain ⟨chosen, reordered, part⟩ := once.subperm inside
    have weights : (entries.map fun pair => pair.1.length + pair.2.length + 2).sum ≤
        (pairs.map fun pair => pair.1.length + pair.2.length + 2).sum := by
      rw [← (reordered.map _).sum_eq]
      exact (part.map _).sum_le_sum (by simp)
    have size := length_attributeText (d := d) (o := o) filled
    have bound := strtok_bound _ (-1) false parts cut
    have doubled : (parts.map fun part => part.length + 2).sum ≤
        2 * (parts.map fun part => part.length + 1).sum := by
      rw [← List.sum_map_mul_left]
      exact List.sum_le_sum fun part _ => by omega
    have wrapped := narrow_of_ge (Nat.le_of_not_lt edge)
    have range := narrow_range (attributeText d o entries).length
    omega

end Format

/-- On the entries of a map in any order, both parsers give it back exactly when it is not empty,
no value holds the separator behind a key and the text is not too long for an `int`. -/
theorem attributes_inverted_iff (d o : UInt8) (different : d ≠ o) (d_marked : d ≠ 0)
    (o_marked : o ≠ 0) (m : StringMap) (separable : Separable d o m)
    (entries : List (Bytes × Bytes)) (listed : entries.Perm m.toList) :
    Inverted d o m entries ↔ Legible o m (attributeText d o entries) := by
  by_cases nothing : m = ∅
  · subst nothing
    have empty : entries = [] := (entries_eq_nil listed).mpr rfl
    subst empty
    constructor
    · intro inverted
      have made : parseAttribute (attributeText d o []) [d] [o] = ∅ := inverted.by_attribute
      -- the one empty part of an empty text is entered with an empty key
      have entered : parseAttribute (attributeText d o []) [d] [o] =
          (∅ : StringMap).insertIfNew [] [] := by
        simp [parseAttribute, attributeText, split_eq, attributeOf]
      rw [entered] at made
      have held := congrArg (fun attrs : StringMap => attrs[([] : Bytes)]?) made
      simp at held
    · intro legible
      exact absurd rfl legible.some_entry
  · have filled : entries ≠ [] := fun empty => nothing ((entries_eq_nil listed).mp empty)
    constructor
    · intro inverted
      refine ⟨nothing, (parseAttribute_eq separable listed different filled).mp
        inverted.by_attribute, ?_⟩
      by_contra large
      obtain ⟨⟨lines, parsed⟩, returned, same⟩ := Option.map_eq_some_iff.mp inverted.by_attributes
      cases same
      exact parseAttributes_long separable listed different d_marked filled
        (Nat.le_of_not_lt large) lines returned
    · intro legible
      refine ⟨(parseAttribute_eq separable listed different filled).mpr legible.value_plain, ?_⟩
      rw [parseAttributes_text separable listed different d_marked o_marked filled legible.short]
      rfl

/-- `a=b;c=d` gives back the map it was written from. -/
theorem two_attributes_inverted :
    Inverted 59 61 (((∅ : StringMap).insert [97] [98]).insert [99] [100])
      [([97], [98]), ([99], [100])] := by
  refine (attributes_inverted_iff 59 61 (by decide) (by decide) (by decide) _ ⟨?_, ?_, ?_⟩ _
    (by decide +kernel)).mpr ⟨by decide +kernel, ?_, by decide +kernel⟩
  all_goals
    intro key value held
    have inside := mem_of_fill ∅ [([97], [98]), ([99], [100])] key value held
    simp at inside
    rcases inside with inside | inside <;> simp [inside]

/-- The text of the empty map is read as an entry with an empty key. -/
theorem empty_text_is_an_entry :
    Separable 59 61 ∅ ∧ [].Perm (∅ : StringMap).toList ∧
      parseAttribute (attributeText 59 61 []) [59] [61] = (∅ : StringMap).insert [] [] ∧
      ¬ Inverted 59 61 ∅ [] := by
  have entered : parseAttribute (attributeText 59 61 []) [59] [61] = (∅ : StringMap).insert [] [] :=
    rfl
  refine ⟨⟨?_, ?_, ?_⟩, List.Perm.refl _, entered, fun inverted => ?_⟩
  · intro key value held
    simp at held
  · intro key value held
    simp at held
  · intro key value held
    simp at held
  · have made : (∅ : StringMap).insert [] [] = ∅ := entered.symm.trans inverted.by_attribute
    simp at made

end EChainLib.Utils
