import EChainLib.Support.LastMark
import EChainLib.Utils.BackupNames

/-! The names that `Logger::Initialize` makes for the two log files, from one file name. -/

namespace EChainLib.Utils

open EChainLib.Keys (Bytes cString)
open EChainLib.Config (chr)
open EChainLib.LastMark
open EChainLib.Strings (find rfind)

/-- `File::GetUpLevelPath`. -/
def getUpLevelPath (path : Bytes) : Bytes :=
  let normal_path := regularPath path
  let nPos := rfind normal_path [chr '/'] (-1)
  if nPos = -1 then []
  else
    let nPos := if 0 = nPos ∧ normal_path.head? = some (chr '/') then nPos + 1 else nPos
    normal_path.take nPos.toNat

/-- `File::GetExtension`. -/
def getExtension (path : Bytes) : Bytes :=
  let normal_path := regularPath path
  let end_pos := find normal_path [chr '?'] 0
  let normal_path := if end_pos ≠ -1 then normal_path.take end_pos.toNat else normal_path
  let nPos := rfind normal_path [chr '.'] (-1)
  if nPos = -1 ∨ nPos + 1 = normal_path.length then [] else normal_path.drop (nPos + 1).toNat

/-- `out_file_name` or `err_file_name`, by what is put into it. -/
def logFileName (suffix file_name : Bytes) : Bytes :=
  let file_ext := getExtension file_name
  if file_ext.length > 0 ∧ file_ext.length + 1 < file_name.length then
    let strSubPath := file_name.take (file_name.length - file_ext.length - 1)
    format (cString strSubPath ++ suffix ++ chr '.' :: cString file_ext)
  else file_name ++ suffix

def outSuffix : Bytes := [chr '-', chr 'o', chr 'u', chr 't']

def errSuffix : Bytes := [chr '-', chr 'e', chr 'r', chr 'r']

def outFileName (file_name : Bytes) : Bytes := logFileName outSuffix file_name

def errFileName (file_name : Bytes) : Bytes := logFileName errSuffix file_name

/-! What the names are for. -/

def lastComponent (path : Bytes) : Bytes := behindLast (chr '/') path

/-- The suffix goes in front of the last dot, or to the end where there is none. -/
def inserted (suffix component : Bytes) : Bytes :=
  if chr '.' ∈ component then
    (upToLast (chr '.') component).dropLast ++ suffix ++ chr '.' :: behindLast (chr '.') component
  else component ++ suffix

/-- A name that has only forward slashes and a last component without a dot at its ends. -/
structure LogName (name : Bytes) : Prop where
  forward : chr '\\' ∉ name
  filled : lastComponent name ≠ []
  first : (lastComponent name).head? ≠ some (chr '.')
  last : (lastComponent name).getLast? ≠ some (chr '.')

structure InPlace (name out err : Bytes) : Prop where
  differ : out ≠ err
  out_directory : getUpLevelPath out = getUpLevelPath name
  err_directory : getUpLevelPath err = getUpLevelPath name
  out_component : lastComponent out = inserted outSuffix (lastComponent name)
  err_component : lastComponent err = inserted errSuffix (lastComponent name)

/-- The name up to its first question mark. -/
def unasked (name : Bytes) : Bytes := name.takeWhile fun c => c ≠ chr '?'

/-- Where the last component has a dot, the question mark must leave the same extension, and the
name must be a text that can be formatted; where it has none, no other extension may be found:
there is no dot, or it is the last thing in front of the question mark, or it is the first
character of a name without one. -/
def Placed (name : Bytes) : Prop :=
  if chr '.' ∈ lastComponent name then
    (chr '.' ∈ unasked name ∧ behindLast (chr '.') (unasked name) = behindLast (chr '.') name) ∧
      0 ∉ name ∧ name.length + 4 < 2 ^ 27
  else
    chr '.' ∉ unasked name ∨ (unasked name).getLast? = some (chr '.') ∨
      (chr '?' ∉ name ∧ chr '.' ∉ name.tail)

instance (name : Bytes) : Decidable (Placed name) :=
  inferInstanceAs (Decidable (if chr '.' ∈ lastComponent name then _ else _))

/-! What the functions of `File` give. -/

theorem getUpLevelPath_eq (path : Bytes) (forward : chr '\\' ∉ path) :
    getUpLevelPath path =
      if upToLast (chr '/') path = [chr '/'] then [chr '/'] else (upToLast (chr '/') path).dropLast := by
  rw [getUpLevelPath, regularPath_plain path forward]
  simp only [rfind_eq]
  by_cases member : chr '/' ∈ path
  · obtain ⟨front, shape, cut⟩ := exists_cut (chr '/') path member
    have place : ((front ++ [chr '/']).length : Int) - 1 = front.length := by simp
    rw [cut, place, List.dropLast_concat, if_neg (by omega)]
    by_cases root : front = []
    · have first : path.head? = some (chr '/') := by
        rw [shape, root]
        rfl
      rw [if_pos ⟨by rw [root]; rfl, first⟩, if_pos (by rw [root]; rfl), root, shape, root]
      rfl
    · have later : ¬ (0 : Int) = front.length := by
        have room := List.length_pos_iff.mpr root
        omega
      have longer : front ++ [chr '/'] ≠ [chr '/'] := by
        intro same
        exact root (by simpa using same)
      rw [if_neg fun both => later both.1, if_neg longer, shape]
      simp
  · rw [upToLast_of_notMem _ path member]
    rfl

theorem unasked_find (path : Bytes) : (if find path [chr '?'] 0 ≠ -1 then
    path.take (find path [chr '?'] 0).toNat else path) = unasked path := by
  by_cases member : chr '?' ∈ path
  · obtain ⟨before, after, rfl, absent⟩ := List.eq_append_cons_of_mem member
    have front : unasked (before ++ chr '?' :: after) = before := by
      rw [unasked, List.takeWhile_append_of_pos]
      · simp
      · intro c there
        exact decide_eq_true fun same => absent (same ▸ there)
    rw [find_first before after _ absent, if_pos (by omega), front]
    simp
  · have nowhere : find path [chr '?'] 0 = -1 := by
      have missing := Strings.findIn_of_notMem (chr '?') [] path member
      simp [find, missing]
    rw [nowhere, if_neg (by simp), unasked]
    refine (List.takeWhile_eq_self_iff.mpr fun c there => ?_).symm
    exact decide_eq_true fun same => member (same ▸ there)

theorem getExtension_eq (path : Bytes) (forward : chr '\\' ∉ path) :
    getExtension path =
      if chr '.' ∈ unasked path then behindLast (chr '.') (unasked path) else [] := by
  rw [getExtension, regularPath_plain path forward]
  simp only [unasked_find, rfind_eq]
  generalize unasked path = q
  by_cases member : chr '.' ∈ q
  · obtain ⟨front, shape, cut⟩ := exists_cut (chr '.') q member
    have place : ((front ++ [chr '.']).length : Int) - 1 = front.length := by simp
    have sizes := congrArg List.length shape
    rw [List.length_append, List.length_cons] at sizes
    rw [cut, place, if_pos member]
    by_cases last : behindLast (chr '.') q = []
    · rw [last, List.length_nil] at sizes
      rw [if_pos (.inr (by omega)), last]
    · have room := List.length_pos_iff.mpr last
      have skip : ((front.length : Int) + 1).toNat = (front ++ [chr '.']).length := by
        rw [List.length_append, List.length_singleton]
        omega
      have rest := upToLast_append_behindLast (chr '.') q
      rw [cut] at rest
      rw [if_neg (by omega), skip]
      conv_lhs => rw [← rest]
      exact List.drop_left
  · rw [upToLast_of_notMem _ q member, if_neg member]
    rfl

/-! A name with another last component. -/

section Replaced

variable {name component : Bytes}

theorem lastComponent_replaced (flat : chr '/' ∉ component) :
    lastComponent (upToLast (chr '/') name ++ component) = component := by
  rw [lastComponent, behindLast_append _ _ _ flat, behindLast_upToLast, List.nil_append]

theorem getUpLevelPath_replaced (flat : chr '/' ∉ component) (plain : chr '\\' ∉ component)
    (forward : chr '\\' ∉ name) :
    getUpLevelPath (upToLast (chr '/') name ++ component) = getUpLevelPath name := by
  have parts := upToLast_append_behindLast (chr '/') name
  have front : chr '\\' ∉ upToLast (chr '/') name := by
    intro member
    rw [← parts] at forward
    exact forward (List.mem_append_left _ member)
  have whole : chr '\\' ∉ upToLast (chr '/') name ++ component := by simp [front, plain]
  rw [getUpLevelPath_eq _ whole, getUpLevelPath_eq _ forward, upToLast_append _ _ _ flat,
    upToLast_upToLast]

end Replaced

theorem name_parts (name : Bytes) :
    upToLast (chr '/') name ++ lastComponent name = name :=
  upToLast_append_behindLast (chr '/') name

theorem flat_component (name : Bytes) : chr '/' ∉ lastComponent name :=
  notMem_behindLast (chr '/') name

theorem inserted_dotted (suffix front tail : Bytes) (absent : chr '.' ∉ tail) :
    inserted suffix (front ++ chr '.' :: tail) = front ++ suffix ++ chr '.' :: tail := by
  have dotted : chr '.' ∈ front ++ chr '.' :: tail := by simp
  rw [inserted, if_pos dotted, upToLast_cut _ _ _ absent, behindLast_cut _ _ _ absent,
    List.dropLast_concat]

/-- A character that is not in the suffix comes from the component. -/
theorem notMem_inserted {suffix component : Bytes} {c : UInt8} (no_dot : c ≠ chr '.')
    (no_suffix : c ∉ suffix) (absent : c ∉ component) : c ∉ inserted suffix component := by
  by_cases dotted : chr '.' ∈ component
  · obtain ⟨front, shape, _⟩ := exists_cut (chr '.') component dotted
    have clean := notMem_behindLast (chr '.') component
    generalize behindLast (chr '.') component = tail at shape clean
    subst shape
    rw [inserted_dotted _ _ _ clean]
    simp only [List.mem_append, List.mem_cons, not_or] at absent ⊢
    exact ⟨⟨absent.1, no_suffix⟩, no_dot, absent.2.2⟩
  · rw [inserted, if_neg dotted]
    simp [absent, no_suffix]

theorem inserted_injective {first second component : Bytes}
    (same : inserted first component = inserted second component) : first = second := by
  unfold inserted at same
  split_ifs at same
  · have fronts := List.append_inj_left' same rfl
    exact List.append_cancel_left fronts
  · exact List.append_cancel_left same

/-- The names whose last component is the one with the suffix are in place. -/
theorem inPlace_inserted (name : Bytes) (forward : chr '\\' ∉ name) :
    InPlace name (upToLast (chr '/') name ++ inserted outSuffix (lastComponent name))
      (upToLast (chr '/') name ++ inserted errSuffix (lastComponent name)) := by
  have backslash : chr '\\' ∉ lastComponent name := by
    intro member
    rw [← name_parts name] at forward
    exact forward (List.mem_append_right _ member)
  have flat : ∀ suffix, chr '/' ∉ suffix → chr '/' ∉ inserted suffix (lastComponent name) :=
    fun suffix absent => notMem_inserted (by decide) absent (flat_component name)
  have plain : ∀ suffix, chr '\\' ∉ suffix → chr '\\' ∉ inserted suffix (lastComponent name) :=
    fun suffix absent => notMem_inserted (by decide) absent backslash
  constructor
  · intro same
    have suffixes := inserted_injective (List.append_cancel_left same)
    exact absurd suffixes (by decide)
  · exact getUpLevelPath_replaced (flat _ (by decide)) (plain _ (by decide)) forward
  · exact getUpLevelPath_replaced (flat _ (by decide)) (plain _ (by decide)) forward
  · exact lastComponent_replaced (flat _ (by decide))
  · exact lastComponent_replaced (flat _ (by decide))

/-! When they are in place. -/

theorem unasked_whole (name : Bytes) (absent : chr '?' ∉ name) : unasked name = name := by
  refine List.takeWhile_eq_self_iff.mpr fun c member => ?_
  exact decide_eq_true fun same => absent (same ▸ member)

theorem unasked_begins (name : Bytes) : unasked name <+: name := List.takeWhile_prefix _

/-- The extension of a name whose last component has a dot, and what is in front of it. -/
structure Extended (name front extension : Bytes) : Prop where
  parts : name = upToLast (chr '/') name ++ front ++ chr '.' :: extension
  component : lastComponent name = front ++ chr '.' :: extension
  absent : chr '.' ∉ extension
  found : behindLast (chr '.') name = extension
  front_filled : front ≠ []
  extension_filled : extension ≠ []

theorem LogName.extended {name : Bytes} (good : LogName name)
    (dotted : chr '.' ∈ lastComponent name) :
    ∃ front extension, Extended name front extension := by
  obtain ⟨front, shape, _⟩ := exists_cut (chr '.') (lastComponent name) dotted
  have clean := notMem_behindLast (chr '.') (lastComponent name)
  generalize behindLast (chr '.') (lastComponent name) = extension at shape clean
  have parts := name_parts name
  rw [shape, ← List.append_assoc] at parts
  refine ⟨front, extension, parts.symm, shape, clean, ?_, ?_, ?_⟩
  · conv_lhs => rw [← parts]
    exact behindLast_cut _ _ _ clean
  · rintro rfl
    exact good.first (by rw [shape]; rfl)
  · rintro rfl
    exact good.last (by rw [shape]; simp)

theorem Extended.logFileName_eq {name front extension : Bytes}
    (extended : Extended name front extension) (forward : chr '\\' ∉ name)
    (asked : chr '.' ∈ unasked name)
    (same : behindLast (chr '.') (unasked name) = behindLast (chr '.') name)
    (text : 0 ∉ name) {suffix : Bytes} (four : suffix.length = 4)
    (short : name.length + 4 < 2 ^ 27) :
    logFileName suffix name =
      upToLast (chr '/') name ++ inserted suffix (lastComponent name) := by
  have ext : getExtension name = extension := by
    rw [getExtension_eq name forward, if_pos asked, same, extended.found]
  have sizes := congrArg List.length extended.parts
  simp only [List.length_append, List.length_cons] at sizes
  have some_front := List.length_pos_iff.mpr extended.front_filled
  have some_ext := List.length_pos_iff.mpr extended.extension_filled
  have cut : name.take (name.length - extension.length - 1) =
      upToLast (chr '/') name ++ front := by
    have place : name.length - extension.length - 1 =
        (upToLast (chr '/') name ++ front).length := by
      rw [List.length_append]
      omega
    rw [place]
    conv_lhs => rw [extended.parts]
    exact List.take_left' (by rw [← extended.parts])
  have clean : 0 ∉ upToLast (chr '/') name ++ front ∧ 0 ∉ extension := by
    rw [extended.parts] at text
    simp only [List.mem_append, List.mem_cons, not_or] at text ⊢
    exact ⟨text.1, text.2.2⟩
  have limit : 128 * kMaxStringLen = 2 ^ 27 := rfl
  rw [logFileName, ext, if_pos ⟨some_ext, by omega⟩, cut]
  dsimp only
  rw [Keys.cString_of_text _ clean.1, Keys.cString_of_text _ clean.2, format, if_pos,
    extended.component, inserted_dotted _ _ _ extended.absent]
  · simp
  · rw [limit]
    simp only [List.length_append, List.length_cons]
    omega

theorem mem_getUpLevelPath {path : Bytes} (forward : chr '\\' ∉ path) {c : UInt8}
    (member : c ∈ getUpLevelPath path) : c ∈ path := by
  have whole := upToLast_append_behindLast (chr '/') path
  rw [getUpLevelPath_eq path forward] at member
  rw [← whole]
  refine List.mem_append_left _ ?_
  split_ifs at member with root
  · rw [root]
    exact member
  · exact List.mem_of_mem_dropLast member

/-- The directory part is in the upper path, up to its last slash. -/
theorem mem_upToLast {path : Bytes} (forward : chr '\\' ∉ path) {c : UInt8} (other : c ≠ chr '/')
    (member : c ∈ upToLast (chr '/') path) : c ∈ getUpLevelPath path := by
  have slash : chr '/' ∈ path := by
    by_contra absent
    rw [upToLast_of_notMem _ path absent] at member
    exact List.not_mem_nil member
  obtain ⟨front, _, cut⟩ := exists_cut (chr '/') path slash
  rw [getUpLevelPath_eq path forward]
  rw [cut] at member ⊢
  have before : c ∈ front := by simpa [other] using member
  have filled : front ++ [chr '/'] ≠ [chr '/'] := by
    intro same
    rw [List.append_left_eq_self.mp same] at before
    exact List.not_mem_nil before
  rw [if_neg filled, List.dropLast_concat]
  exact before

/-- What `Initialize` has put together where it has found an extension and the two texts differ. -/
structure Composed (name sub ext : Bytes) : Prop where
  sub_eq : sub = cString (name.take (name.length - (getExtension name).length - 1))
  ext_eq : ext = cString (getExtension name)
  out : outFileName name = sub ++ outSuffix ++ chr '.' :: ext
  err : errFileName name = sub ++ errSuffix ++ chr '.' :: ext
  short : sub.length + ext.length + 5 < 2 ^ 27

theorem logFileName_composed (suffix name : Bytes)
    (found : (getExtension name).length > 0 ∧ (getExtension name).length + 1 < name.length) :
    logFileName suffix name =
      format (cString (name.take (name.length - (getExtension name).length - 1)) ++ suffix ++
        chr '.' :: cString (getExtension name)) :=
  if_pos found

theorem composed (name : Bytes)
    (found : (getExtension name).length > 0 ∧ (getExtension name).length + 1 < name.length)
    (differ : outFileName name ≠ errFileName name) :
    ∃ sub ext, Composed name sub ext := by
  have out := logFileName_composed outSuffix name found
  have err := logFileName_composed errSuffix name found
  generalize sub_eq : cString (name.take (name.length - (getExtension name).length - 1)) = sub at out err
  generalize ext_eq : cString (getExtension name) = ext at out err
  have limit : 128 * kMaxStringLen = 2 ^ 27 := rfl
  have size : ∀ suffix : Bytes, suffix.length = 4 →
      (sub ++ suffix ++ chr '.' :: ext).length = sub.length + ext.length + 5 := by
    intro suffix four
    simp only [List.length_append, List.length_cons, four]
    omega
  rw [format, size outSuffix rfl, limit] at out
  rw [format, size errSuffix rfl, limit] at err
  by_cases short : sub.length + ext.length + 5 < 2 ^ 27
  · rw [if_pos short] at out err
    exact ⟨sub, ext, sub_eq.symm, ext_eq.symm, out, err, short⟩
  · rw [if_neg short] at out err
    exact absurd (out.trans err.symm) differ

theorem cString_begins (s : Bytes) : cString s <+: s := List.takeWhile_prefix _

theorem getExtension_within (name : Bytes) (forward : chr '\\' ∉ name) {c : UInt8}
    (member : c ∈ getExtension name) : c ∈ name := by
  rw [getExtension_eq name forward] at member
  split_ifs at member
  · have whole := upToLast_append_behindLast (chr '.') (unasked name)
    refine (unasked_begins name).subset ?_
    rw [← whole]
    exact List.mem_append_right _ member
  · exact absurd member List.not_mem_nil

theorem getExtension_undotted (name : Bytes) (forward : chr '\\' ∉ name) :
    chr '.' ∉ getExtension name := by
  rw [getExtension_eq name forward]
  split_ifs
  · exact notMem_behindLast _ _
  · exact List.not_mem_nil

section
variable {name sub ext : Bytes}

theorem Composed.sub_within (made : Composed name sub ext) {c : UInt8} (member : c ∈ sub) :
    c ∈ name :=
  List.mem_of_mem_take ((cString_begins _).subset (made.sub_eq ▸ member))

theorem Composed.ext_found (made : Composed name sub ext) {c : UInt8} (member : c ∈ ext) :
    c ∈ getExtension name :=
  (cString_begins _).subset (made.ext_eq ▸ member)

theorem Composed.terminated (made : Composed name sub ext) : 0 ∉ sub ∧ 0 ∉ ext := by
  rw [made.sub_eq, made.ext_eq]
  exact ⟨Keys.cString_clean _, Keys.cString_clean _⟩

/-- A directory in the extension would end both names in the same component. -/
theorem Composed.flat (made : Composed name sub ext)
    (inPlace : InPlace name (outFileName name) (errFileName name)) : chr '/' ∉ chr '.' :: ext := by
  intro slash
  have out_component := inPlace.out_component
  have err_component := inPlace.err_component
  rw [made.out, lastComponent, behindLast_append_of_mem _ _ _ slash] at out_component
  rw [made.err, lastComponent, behindLast_append_of_mem _ _ _ slash] at err_component
  exact absurd (inserted_injective (out_component.symm.trans err_component)) (by decide)

theorem Composed.out_component (made : Composed name sub ext)
    (inPlace : InPlace name (outFileName name) (errFileName name)) :
    lastComponent sub ++ outSuffix ++ chr '.' :: ext =
      inserted outSuffix (lastComponent name) := by
  have no_slash : chr '/' ∉ outSuffix ++ chr '.' :: ext := by
    intro member
    rcases List.mem_append.mp member with suffix | later
    · exact absurd suffix (by decide)
    · exact made.flat inPlace later
  have component := inPlace.out_component
  rwa [made.out, lastComponent, List.append_assoc, behindLast_append _ _ _ no_slash,
    ← lastComponent, ← List.append_assoc] at component

theorem Composed.dotted (made : Composed name sub ext)
    (inPlace : InPlace name (outFileName name) (errFileName name)) :
    chr '.' ∈ lastComponent name := by
  have component := made.out_component inPlace
  by_contra none
  rw [inserted, if_neg none] at component
  have member : chr '.' ∈ lastComponent name ++ outSuffix := by
    rw [← component]
    simp
  rcases List.mem_append.mp member with there | suffix
  · exact none there
  · exact absurd suffix (by decide)

/-- What was cut off is the extension of the last component, and what was kept its front. -/
theorem Composed.extended (made : Composed name sub ext) (good : LogName name)
    (inPlace : InPlace name (outFileName name) (errFileName name)) :
    Extended name (lastComponent sub) ext := by
  obtain ⟨front, extension, extended⟩ := good.extended (made.dotted inPlace)
  have component := made.out_component inPlace
  rw [extended.component, inserted_dotted _ _ _ extended.absent] at component
  have undotted : chr '.' ∉ ext := fun member =>
    getExtension_undotted name good.forward (made.ext_found member)
  have same_ext : ext = extension := by
    have tails := congrArg (behindLast (chr '.')) component
    rwa [behindLast_cut _ _ _ undotted, behindLast_cut _ _ _ extended.absent] at tails
  have same_front : lastComponent sub = front := by
    rw [same_ext] at component
    exact List.append_cancel_right (List.append_cancel_right component)
  rwa [same_front, same_ext]

/-- The directory is that of a formatted name, so that the whole name is a text. -/
theorem Composed.text (made : Composed name sub ext) (good : LogName name)
    (inPlace : InPlace name (outFileName name) (errFileName name)) : 0 ∉ name := by
  have forward : chr '\\' ∉ outFileName name := by
    rw [made.out]
    simp only [List.mem_append, List.mem_cons, not_or]
    refine ⟨⟨fun member => good.forward (made.sub_within member), by decide⟩, by decide,
      fun member => ?_⟩
    exact good.forward (getExtension_within name good.forward (made.ext_found member))
  rw [(made.extended good inPlace).parts]
  simp only [List.mem_append, List.mem_cons, not_or]
  refine ⟨⟨fun member => ?_, fun member => ?_⟩, by decide, made.terminated.2⟩
  · have up := mem_upToLast good.forward (by decide) member
    rw [← inPlace.out_directory] at up
    have there := mem_getUpLevelPath forward up
    rw [made.out] at there
    simp only [List.mem_append, List.mem_cons] at there
    rcases there with (there | suffix) | dot | there
    · exact made.terminated.1 there
    · exact absurd suffix (by decide)
    · exact absurd dot (by decide)
    · exact made.terminated.2 there
  · refine made.terminated.1 ?_
    rw [← upToLast_append_behindLast (chr '/') sub]
    exact List.mem_append_right _ member

theorem placed_of_composed (good : LogName name) (made : Composed name sub ext)
    (found : (getExtension name).length > 0)
    (inPlace : InPlace name (outFileName name) (errFileName name)) : Placed name := by
  have extended := made.extended good inPlace
  have text := made.text good inPlace
  have whole_ext : ext = getExtension name := by
    rw [made.ext_eq]
    exact Keys.cString_of_text _ fun member => text (getExtension_within name good.forward member)
  have sub_size : sub.length = name.length - (getExtension name).length - 1 := by
    rw [made.sub_eq, Keys.cString_of_text _ fun member => text (List.mem_of_mem_take member),
      List.length_take]
    omega
  have short := made.short
  have sizes := congrArg List.length extended.parts
  simp only [List.length_append, List.length_cons] at sizes
  have ends := getExtension_eq name good.forward
  have asked : chr '.' ∈ unasked name := by
    by_contra none
    rw [if_neg none] at ends
    rw [ends] at found
    exact absurd found (by decide)
  rw [if_pos asked] at ends
  rw [Placed, if_pos (made.dotted inPlace)]
  refine ⟨⟨asked, ?_⟩, text, ?_⟩
  · rw [← ends, ← whole_ext, extended.found]
  · rw [sub_size, ← whole_ext] at short
    omega

end

/-- Where no extension is cut off, the suffixes stand at the end of the name. -/
theorem placed_of_appended {name : Bytes} (good : LogName name)
    (none : ¬ ((getExtension name).length > 0 ∧ (getExtension name).length + 1 < name.length))
    (inPlace : InPlace name (outFileName name) (errFileName name)) : Placed name := by
  have out : outFileName name = name ++ outSuffix := if_neg none
  have out_component := inPlace.out_component
  rw [out, lastComponent, behindLast_append _ _ _ (by decide), ← lastComponent] at out_component
  have undotted : chr '.' ∉ lastComponent name := by
    intro dotted
    obtain ⟨front, extension, extended⟩ := good.extended dotted
    rw [extended.component, inserted_dotted _ _ _ extended.absent, List.append_assoc,
      List.append_assoc] at out_component
    have tails := congrArg List.head? (List.append_cancel_left out_component)
    simp [outSuffix] at tails
    exact absurd tails (by decide)
  have ends := getExtension_eq name good.forward
  rw [Placed, if_neg undotted]
  by_cases asked : chr '.' ∈ unasked name
  · rw [if_pos asked] at ends
    obtain ⟨front, shape, _⟩ := exists_cut (chr '.') (unasked name) asked
    rw [← ends] at shape
    right
    by_cases last : getExtension name = []
    · left
      rw [shape, last]
      simp
    · right
      have some_ext := List.length_pos_iff.mpr last
      have sizes := congrArg List.length shape
      have below := (unasked_begins name).length_le
      rw [List.length_append, List.length_cons] at sizes
      have whole := (unasked_begins name).eq_of_length_le (by omega)
      have alone : front = [] := List.length_eq_zero_iff.mp (by omega)
      refine ⟨fun member => ?_, ?_⟩
      · rw [← whole] at member
        have other := List.mem_takeWhile_imp member
        simp at other
      · rw [← whole, shape, alone]
        exact getExtension_undotted name good.forward
  · exact .inl asked

theorem getExtension_placed {name : Bytes} (good : LogName name)
    (undotted : chr '.' ∉ lastComponent name) (placed : Placed name) :
    ¬ ((getExtension name).length > 0 ∧ (getExtension name).length + 1 < name.length) := by
  rw [Placed, if_neg undotted] at placed
  rw [getExtension_eq name good.forward]
  split_ifs with asked
  · obtain ⟨front, shape, _⟩ := exists_cut (chr '.') (unasked name) asked
    have clean := notMem_behindLast (chr '.') (unasked name)
    generalize behindLast (chr '.') (unasked name) = ext at shape clean ⊢
    rcases placed with absent | last | ⟨whole, first⟩
    · exact absurd asked absent
    · rintro ⟨filled, _⟩
      rcases List.eq_nil_or_concat' ext with empty | ⟨before, final, concat⟩
      · exact List.length_pos_iff.mp filled empty
      · have same : final = chr '.' := by
          rw [shape, concat, List.getLast?_append_cons, ← List.cons_append,
            List.getLast?_append_cons] at last
          exact Option.some.inj last
        exact clean (by simp [concat, same])
    · rw [unasked_whole name whole] at shape
      rintro ⟨_, long⟩
      rw [shape] at first long
      cases front with
      | nil => simp at long
      | cons head front => exact first (by simp)
  · exact fun both => absurd both.1 (by decide)

/-- The names are in place under just that condition. -/
theorem inPlace_iff (name : Bytes) (good : LogName name) :
    InPlace name (outFileName name) (errFileName name) ↔ Placed name := by
  constructor
  · intro inPlace
    by_cases found : (getExtension name).length > 0 ∧
        (getExtension name).length + 1 < name.length
    · obtain ⟨sub, ext, made⟩ := composed name found inPlace.differ
      exact placed_of_composed good made found.1 inPlace
    · exact placed_of_appended good found inPlace
  · intro placed
    have inPlace := inPlace_inserted name good.forward
    have whole := name_parts name
    by_cases dotted : chr '.' ∈ lastComponent name
    · obtain ⟨front, extension, extended⟩ := good.extended dotted
      rw [Placed, if_pos dotted] at placed
      obtain ⟨⟨asked, same⟩, text, short⟩ := placed
      rw [outFileName, errFileName, extended.logFileName_eq good.forward asked same text rfl short,
        extended.logFileName_eq good.forward asked same text rfl short]
      exact inPlace
    · have none := getExtension_placed good dotted placed
      have appended : ∀ suffix, logFileName suffix name =
          upToLast (chr '/') name ++ inserted suffix (lastComponent name) := by
        intro suffix
        rw [logFileName, if_neg none, inserted, if_neg dotted, ← List.append_assoc, whole]
      rw [outFileName, errFileName, appended, appended]
      exact inPlace

/-- `/logs/chain.log`. -/
def plainName : Bytes :=
  [chr '/', chr 'l', chr 'o', chr 'g', chr 's', chr '/', chr 'c', chr 'h', chr 'a', chr 'i',
    chr 'n', chr '.', chr 'l', chr 'o', chr 'g']

/-- `logs.d/chain`. -/
def dottedDirectory : Bytes :=
  [chr 'l', chr 'o', chr 'g', chr 's', chr '.', chr 'd', chr '/', chr 'c', chr 'h', chr 'a',
    chr 'i', chr 'n']

theorem inPlace_plainName : LogName plainName ∧ Placed plainName ∧
    InPlace plainName (outFileName plainName) (errFileName plainName) := by
  have good : LogName plainName := ⟨by decide, by decide, by decide, by decide⟩
  have placed : Placed plainName := by decide
  exact ⟨good, placed, (inPlace_iff plainName good).mpr placed⟩

/-- The directory is renamed: the names are `logs-out.d/chain` and `logs-err.d/chain`. -/
theorem dottedDirectory_renamed : LogName dottedDirectory ∧
    ¬ InPlace dottedDirectory (outFileName dottedDirectory) (errFileName dottedDirectory) := by
  refine ⟨⟨by decide, by decide, by decide, by decide⟩, fun inPlace => ?_⟩
  exact absurd inPlace.out_component (by decide)

end EChainLib.Utils
