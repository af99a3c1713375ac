import Mathlib
import EChainLib.Keys.Cfca

/-! `stuSUBJECT`, and the way its fields go into an X.509 name (`Add_Name`) and
come back out of one. The locale's multibyte code is UTF-8 and `wchar_t` holds a
code point. -/

namespace EChainLib.Ca

open Keys (Bytes cString)

/-- A NUL-terminated text in a `char[size]`. -/
abbrev Field (size : Nat) := { text : Bytes // 0 ∉ text ∧ text.length < size }

structure StuSubject where
  C : Field 4
  ST : Field 4
  L : Field 12
  O : Field 128
  OU : Field 128
  CN : Field 128
  MAIL : Field 128
  PMAIL : Field 128
  T : Field 128
  D : Field 128
  G : Field 128
  I : Field 12
  NAME : Field 128
  S : Field 128
  QUAL : Field 12
  STN : Field 12
  PW : Field 12
  ADD : Field 12
  HD : Field 33
  NI : Field 4096

def Field.empty (size : Nat) (room : 0 < size) : Field size := ⟨[], by simp, room⟩

/-- `stuSUBJECT()` clears the whole structure. -/
def StuSubject.cleared : StuSubject where
  C := .empty _ (by decide)
  ST := .empty _ (by decide)
  L := .empty _ (by decide)
  O := .empty _ (by decide)
  OU := .empty _ (by decide)
  CN := .empty _ (by decide)
  MAIL := .empty _ (by decide)
  PMAIL := .empty _ (by decide)
  T := .empty _ (by decide)
  D := .empty _ (by decide)
  G := .empty _ (by decide)
  I := .empty _ (by decide)
  NAME := .empty _ (by decide)
  S := .empty _ (by decide)
  QUAL := .empty _ (by decide)
  STN := .empty _ (by decide)
  PW := .empty _ (by decide)
  ADD := .empty _ (by decide)
  HD := .empty _ (by decide)
  NI := .empty _ (by decide)

inductive NameNid where
  | countryName
  | stateOrProvinceName
  | localityName
  | organizationName
  | organizationalUnitName
  | commonName
  | pkcs9_emailAddress
  | email_protect
  | title
  | description
  | givenName
  | initials
  | name
  | surname
  | dnQualifier
  | pkcs9_unstructuredName
  | pkcs9_challengePassword
  | pkcs9_unstructuredAddress
  deriving DecidableEq

structure NameEntry where
  nid : NameNid
  data : Bytes
  deriving DecidableEq

abbrev X509Name := List NameEntry

/-! Writing. -/

/-- `mbstowcs`. -/
def mbstowcs (input : Bytes) : Option (List Nat) :=
  input.toByteArray.utf8Decode?.map fun chars => chars.toList.map Char.toNat

/-- The two bytes `cbuf` takes of each wide character, then zeros. -/
def wideBytes (ws : List Nat) (wslen : Nat) : Bytes :=
  let cbuf := ws.flatMap fun wc => [UInt8.ofNat (wc / 256), UInt8.ofNat (wc % 256)]
  cbuf ++ List.replicate (2 * wslen - cbuf.length) 0

/-- `UTF8_putc` of a 16-bit value. -/
def utf8Unit (v : Nat) : Bytes :=
  if v ≤ 0x7f then [UInt8.ofNat v]
  else if v ≤ 0x7ff then [UInt8.ofNat (v / 64 % 0x20 + 0xc0), UInt8.ofNat (v % 0x40 + 0x80)]
  else [UInt8.ofNat (v / 4096 % 0x10 + 0xe0), UInt8.ofNat (v / 64 % 0x40 + 0x80),
    UInt8.ofNat (v % 0x40 + 0x80)]

/-- `ASN1_mbstring_copy` from `MBSTRING_BMP` to a UTF8String. -/
def mbstringCopy : Bytes → Bytes
  | high :: low :: rest => utf8Unit (high.toNat * 256 + low.toNat) ++ mbstringCopy rest
  | _ => []

/-- The text `Add_Name` hands to `X509_NAME_add_entry_by_NID`, which measures it
with `strlen`; `none` where it adds no entry. -/
def entryText (input : Bytes) : Option Bytes :=
  if input = [] then none
  else (mbstowcs input).map fun ws => cString (mbstringCopy (wideBytes ws (input.length + 1)))

def addName {size : Nat} (x509name : X509Name) (type : NameNid) (iput : Field size) : X509Name :=
  match entryText iput.val with
  | none => x509name
  | some data => x509name ++ [⟨type, data⟩]

/-- The calls of `Add_Name` in `mkRoot` and `mkReq`. -/
def addSubject (x509name : X509Name) (info : StuSubject) : X509Name :=
  let name := addName x509name .countryName info.C
  let name := addName name .stateOrProvinceName info.ST
  let name := addName name .localityName info.L
  let name := addName name .organizationName info.O
  let name := addName name .organizationalUnitName info.OU
  let name := addName name .commonName info.CN
  let name := addName name .pkcs9_emailAddress info.MAIL
  let name := addName name .email_protect info.PMAIL
  let name := addName name .title info.T
  let name := addName name .description info.D
  let name := addName name .givenName info.G
  let name := addName name .initials info.I
  let name := addName name .name info.NAME
  let name := addName name .surname info.S
  let name := addName name .dnQualifier info.QUAL
  let name := addName name .pkcs9_unstructuredName info.STN
  let name := addName name .pkcs9_challengePassword info.PW
  addName name .pkcs9_unstructuredAddress info.ADD

/-- The name of a new certificate or request. -/
def subjectName (info : StuSubject) : X509Name := addSubject [] info

theorem addName_append {size : Nat} (front back : X509Name) (type : NameNid) (iput : Field size) :
    addName (front ++ back) type iput = front ++ addName back type iput := by
  unfold addName
  cases entryText iput.val <;> simp

/-- What a name already holds stays in front. -/
theorem addSubject_append (x509name : X509Name) (info : StuSubject) :
    addSubject x509name info = x509name ++ subjectName info := by
  have start := addName_append x509name [] .countryName info.C
  rw [List.append_nil] at start
  simp only [subjectName, addSubject, start, addName_append]

/-! Reading. -/

/-- The value of the first entry with this NID. -/
def firstValue (name : X509Name) (nid : NameNid) : Option Bytes :=
  (name.find? fun entry => entry.nid = nid).map NameEntry.data

theorem cString_length (s : Bytes) : (cString s).length ≤ s.length :=
  (List.takeWhile_sublist _).length_le

/-- `X509_NAME_get_text_by_NID` into a `char[size]`: the text the buffer then
holds. A name without the entry leaves the buffer as it was. -/
def getTextByNid {size : Nat} (name : X509Name) (nid : NameNid) (buf : Field size) : Field size :=
  match firstValue name nid with
  | none => buf
  | some data =>
      ⟨cString (data.take (size - 1)), Keys.cString_clean _, by
        have short := cString_length (data.take (size - 1))
        have room := buf.property.2
        simp only [List.length_take] at short
        omega⟩

/-- The eight fields `CheckRootCert` and `GetReqContent` read from a name. -/
def readSubject (name : X509Name) (info : StuSubject) : StuSubject :=
  { info with
    O := getTextByNid name .organizationName info.O
    CN := getTextByNid name .commonName info.CN
    MAIL := getTextByNid name .pkcs9_emailAddress info.MAIL
    C := getTextByNid name .countryName info.C
    ST := getTextByNid name .stateOrProvinceName info.ST
    L := getTextByNid name .localityName info.L
    OU := getTextByNid name .organizationalUnitName info.OU
    T := getTextByNid name .title info.T }

theorem firstValue_addName {size : Nat} (x509name : X509Name) (type nid : NameNid)
    (iput : Field size) :
    firstValue (addName x509name type iput) nid =
      (firstValue x509name nid).or (if type = nid then entryText iput.val else none) := by
  cases entry : entryText iput.val with
  | none => simp [addName, entry]
  | some data =>
      simp only [addName, entry, firstValue, List.find?_append, Option.map_or]
      by_cases same : type = nid <;> simp [same]

/-- Each field is the only one under its NID. -/
theorem firstValue_subject (info : StuSubject) (nid : NameNid) :
    firstValue (subjectName info) nid =
      match nid with
      | .countryName => entryText info.C.val
      | .stateOrProvinceName => entryText info.ST.val
      | .localityName => entryText info.L.val
      | .organizationName => entryText info.O.val
      | .organizationalUnitName => entryText info.OU.val
      | .commonName => entryText info.CN.val
      | .pkcs9_emailAddress => entryText info.MAIL.val
      | .email_protect => entryText info.PMAIL.val
      | .title => entryText info.T.val
      | .description => entryText info.D.val
      | .givenName => entryText info.G.val
      | .initials => entryText info.I.val
      | .name => entryText info.NAME.val
      | .surname => entryText info.S.val
      | .dnQualifier => entryText info.QUAL.val
      | .pkcs9_unstructuredName => entryText info.STN.val
      | .pkcs9_challengePassword => entryText info.PW.val
      | .pkcs9_unstructuredAddress => entryText info.ADD.val := by
  have start : firstValue [] nid = none := rfl
  cases nid <;> simp [subjectName, addSubject, firstValue_addName, start]

/-! The text survives exactly where every character has a 16-bit code. -/

def utf8 (chars : List Char) : Bytes := chars.flatMap String.utf8EncodeChar

def InBmp (chars : List Char) : Prop := ∀ c ∈ chars, c.toNat < 0x10000

theorem mbstowcs_utf8 (chars : List Char) :
    mbstowcs (utf8 chars) = some (chars.map Char.toNat) := by
  have decoded : (utf8 chars).toByteArray.utf8Decode? = some chars.toArray :=
    List.utf8Decode?_utf8Encode
  simp [mbstowcs, decoded]

theorem utf8Unit_char (c : Char) (small : c.toNat < 0x10000) :
    utf8Unit c.toNat = String.utf8EncodeChar c := by
  have bound : c.val.toNat ≤ 0xffff := by
    have same : c.val.toNat = c.toNat := rfl
    omega
  simp only [utf8Unit, String.utf8EncodeChar, Char.toNat, bound, if_true]

/-- A wide character keeps its low sixteen bits. -/
def storedUnit (wc : Nat) : Bytes := utf8Unit (wc % 0x10000)

theorem mbstringCopy_zeros (count : Nat) :
    mbstringCopy (List.replicate (2 * count) 0) = List.replicate count 0 := by
  induction count with
  | zero => rfl
  | succ count ih =>
      rw [show 2 * (count + 1) = 2 * count + 1 + 1 by ring, List.replicate_succ, List.replicate_succ,
        mbstringCopy, ih]
      rfl

theorem mbstringCopy_wide (ws : List Nat) (count : Nat) :
    mbstringCopy ((ws.flatMap fun wc => [UInt8.ofNat (wc / 256), UInt8.ofNat (wc % 256)]) ++
      List.replicate (2 * count) 0) = ws.flatMap storedUnit ++ List.replicate count 0 := by
  induction ws with
  | nil => exact mbstringCopy_zeros count
  | cons wc rest ih =>
      have value : (UInt8.ofNat (wc / 256)).toNat * 256 + (UInt8.ofNat (wc % 256)).toNat =
          wc % 0x10000 := by
        simp only [UInt8.toNat_ofNat']
        omega
      simp only [List.flatMap_cons, List.cons_append, List.nil_append, mbstringCopy, value, ih,
        List.append_assoc, storedUnit]

theorem cString_zeros (s : Bytes) (count : Nat) :
    cString (s ++ List.replicate count 0) = cString s := by
  induction s with
  | nil => cases count <;> simp [cString, List.replicate_succ]
  | cons c rest ih =>
      by_cases zero : c = 0
      · simp [cString, zero]
      · simpa [cString, zero] using ih

theorem wide_length (ws : List Nat) :
    (ws.flatMap fun wc => [UInt8.ofNat (wc / 256), UInt8.ofNat (wc % 256)]).length =
      2 * ws.length := by
  induction ws with
  | nil => rfl
  | cons wc rest ih =>
      simp only [List.flatMap_cons, List.length_append, ih, List.length_cons, List.length_nil]
      ring

/-- What `Add_Name` stores of a UTF-8 text. -/
theorem entryText_utf8 (chars : List Char) (nonempty : utf8 chars ≠ []) :
    entryText (utf8 chars) =
      some (cString ((chars.map Char.toNat).flatMap storedUnit)) := by
  rw [entryText, if_neg nonempty, mbstowcs_utf8, Option.map_some, wideBytes]
  simp only [wide_length]
  rw [show ∀ a b : Nat, 2 * a - 2 * b = 2 * (a - b) by omega, mbstringCopy_wide, cString_zeros]

theorem byte_low_iff (n : Nat) (byte : n < 256) : UInt8.ofNat n < 0xf0 ↔ n < 240 := by
  have limit : (0xf0 : UInt8).toNat = 240 := rfl
  rw [UInt8.lt_iff_toNat_lt, UInt8.toNat_ofNat', limit, Nat.mod_eq_of_lt byte]

/-- A character outside the BMP is the only one with a byte from `0xf0` on. -/
theorem storedUnit_low (wc : Nat) : ∀ c ∈ storedUnit wc, c < 0xf0 := by
  intro c member
  simp only [storedUnit, utf8Unit] at member
  split at member
  · simp only [List.mem_singleton] at member
    rw [member, byte_low_iff _ (by omega)]
    omega
  · split at member <;>
      simp only [List.mem_cons, List.not_mem_nil, or_false] at member
    · rcases member with rfl | rfl <;> rw [byte_low_iff _ (by omega)] <;> omega
    · rcases member with rfl | rfl | rfl <;> rw [byte_low_iff _ (by omega)] <;> omega

theorem outside_bmp_high (c : Char) (outside : 0x10000 ≤ c.toNat) :
    ∃ b ∈ String.utf8EncodeChar c, ¬ b < 0xf0 := by
  have large : ¬ c.val.toNat ≤ 0xffff := by
    have same : c.val.toNat = c.toNat := rfl
    omega
  refine ⟨UInt8.ofNat (c.val.toNat / 262144 % 0x08 + 0xf0), ?_, ?_⟩
  · rw [String.utf8EncodeChar]
    simp only [large, show ¬ c.val.toNat ≤ 0x7f by omega, show ¬ c.val.toNat ≤ 0x7ff by omega,
      if_false]
    exact List.mem_cons_self
  · rw [byte_low_iff _ (by omega)]
    omega

theorem inBmp_iff (chars : List Char) : InBmp chars ↔ ∀ c ∈ utf8 chars, c < 0xf0 := by
  constructor
  · intro bmp b member
    obtain ⟨c, found, encoded⟩ := List.mem_flatMap.mp member
    have unit : storedUnit c.toNat = String.utf8EncodeChar c := by
      rw [storedUnit, Nat.mod_eq_of_lt (bmp c found), utf8Unit_char c (bmp c found)]
    rw [← unit] at encoded
    exact storedUnit_low c.toNat b encoded
  · intro low c member
    by_contra outside
    obtain ⟨b, encoded, high⟩ := outside_bmp_high c (by omega)
    exact high (low b (List.mem_flatMap.mpr ⟨c, member, encoded⟩))

theorem entryText_iff (chars : List Char) (nonempty : utf8 chars ≠ [])
    (terminated : 0 ∉ utf8 chars) : entryText (utf8 chars) = some (utf8 chars) ↔ InBmp chars := by
  rw [entryText_utf8 chars nonempty, Option.some.injEq]
  constructor
  · intro same c member
    by_contra outside
    obtain ⟨b, encoded, high⟩ := outside_bmp_high c (by omega)
    have stored : b ∈ cString ((chars.map Char.toNat).flatMap storedUnit) := by
      rw [same]
      exact List.mem_flatMap.mpr ⟨c, member, encoded⟩
    obtain ⟨wc, _, unit⟩ := List.mem_flatMap.mp ((List.takeWhile_sublist _).subset stored)
    exact high (storedUnit_low wc b unit)
  · intro bmp
    have units : (chars.map Char.toNat).flatMap storedUnit = utf8 chars := by
      rw [List.flatMap_map, utf8]
      apply List.flatMap_congr
      intro c member
      rw [storedUnit, Nat.mod_eq_of_lt (bmp c member), utf8Unit_char c (bmp c member)]
    rw [units, Keys.cString_of_text _ terminated]

theorem ascii_code (c : UInt8) (ascii : c < 0x80) : (Char.ofNat c.toNat).toNat = c.toNat := by
  have low : c.toNat < 128 := UInt8.lt_iff_toNat_lt.mp ascii
  have valid : c.toNat.isValidChar := Or.inl (by omega)
  rw [Char.toNat_ofNat, if_pos valid]

/-- A field of printable ASCII is UTF-8 of characters inside the BMP. -/
theorem entryText_ascii (text : Bytes) (nonempty : text ≠ []) (terminated : 0 ∉ text)
    (ascii : ∀ c ∈ text, c < 0x80) : entryText text = some text := by
  have spelled : utf8 (text.map fun c => Char.ofNat c.toNat) = text := by
    rw [utf8, List.flatMap_map]
    have single : ∀ c ∈ text, String.utf8EncodeChar (Char.ofNat c.toNat) = [c] := by
      intro c member
      have low : c.toNat < 128 := UInt8.lt_iff_toNat_lt.mp (ascii c member)
      have code : (Char.ofNat c.toNat).val.toNat = c.toNat := ascii_code c (ascii c member)
      simp [String.utf8EncodeChar, code, show c.toNat ≤ 127 by omega]
    rw [List.flatMap_congr single]
    simp
  have bmp : InBmp (text.map fun c => Char.ofNat c.toNat) := by
    intro char member
    obtain ⟨c, found, rfl⟩ := List.mem_map.mp member
    have low : c.toNat < 128 := UInt8.lt_iff_toNat_lt.mp (ascii c found)
    rw [ascii_code c (ascii c found)]
    omega
  have stored := (entryText_iff _ (by rw [spelled]; exact nonempty)
    (by rw [spelled]; exact terminated)).mpr bmp
  rwa [spelled] at stored

theorem utf8_empty (chars : List Char) (empty : utf8 chars = []) : chars = [] := by
  cases chars with
  | nil => rfl
  | cons c rest =>
      have encoded := (List.flatMap_eq_nil_iff.mp empty) c List.mem_cons_self
      exact absurd encoded String.utf8EncodeChar_ne_nil

/-- A field written to a name and read back into a field of its size. -/
theorem read_back_iff {size : Nat} (name : X509Name) (nid : NameNid) (field buf : Field size)
    (chars : List Char) (spelled : field.val = utf8 chars)
    (stored : firstValue name nid = entryText field.val) :
    getTextByNid name nid buf = field ↔ (field.val = [] → buf = field) ∧ InBmp chars := by
  by_cases empty : field.val = []
  · have none_written : firstValue name nid = none := by
      rw [stored, empty]
      rfl
    have nothing : InBmp chars := by
      rw [utf8_empty chars (spelled ▸ empty)]
      exact fun c member => absurd member List.not_mem_nil
    simp [getTextByNid, none_written, empty, nothing]
  · have nonempty : utf8 chars ≠ [] := spelled ▸ empty
    have terminated : 0 ∉ utf8 chars := spelled ▸ field.property.1
    have room : (utf8 chars).length ≤ size - 1 := by
      have short := field.property.2
      rw [spelled] at short
      omega
    rw [spelled] at stored
    have written := entryText_utf8 chars nonempty
    rw [written] at stored
    simp only [empty, false_implies, true_and]
    constructor
    · intro same c member
      by_contra outside
      obtain ⟨b, encoded, high⟩ := outside_bmp_high c (by omega)
      have read : b ∈ (getTextByNid name nid buf).val := by
        rw [same, spelled]
        exact List.mem_flatMap.mpr ⟨c, member, encoded⟩
      rw [getTextByNid, stored] at read
      have kept := List.mem_of_mem_take ((List.takeWhile_sublist _).subset read)
      obtain ⟨wc, _, unit⟩ := List.mem_flatMap.mp ((List.takeWhile_sublist _).subset kept)
      exact high (storedUnit_low wc b unit)
    · intro bmp
      have whole := (entryText_iff chars nonempty terminated).mpr bmp
      rw [written] at whole
      rw [whole] at stored
      apply Subtype.ext
      simp only [getTextByNid, stored]
      rw [List.take_of_length_le room, Keys.cString_of_text _ terminated, spelled]

/-- A field of ASCII, written to a name and read back into a cleared one. -/
theorem read_back_ascii {size : Nat} (name : X509Name) (nid : NameNid) (field : Field size)
    (room : 0 < size) (ascii : ∀ c ∈ field.val, c < 0x80)
    (stored : firstValue name nid = entryText field.val) :
    getTextByNid name nid (.empty size room) = field := by
  unfold getTextByNid
  by_cases empty : field.val = []
  · have unwritten : entryText field.val = none := if_pos empty
    rw [stored, unwritten]
    exact Subtype.ext empty.symm
  · rw [stored, entryText_ascii field.val empty field.property.1 ascii]
    have short := field.property.2
    apply Subtype.ext
    dsimp only
    rw [List.take_of_length_le (by omega), Keys.cString_of_text _ field.property.1]

end EChainLib.Ca
