import EChainLib.Support.Words
import EChainLib.Keys.Cfca

/-! What `CFCA::IsBase64String` accepts, against the grammar, and the texts `CFCA::Verify`
hands to the vendor's library behind it. -/

namespace EChainLib.Keys

/-- Characters of the alphabet and behind them at most two `=`. -/
def Padded (text : Bytes) : Prop :=
  ∃ letters count, text = letters ++ List.replicate count equalsSign ∧ count ≤ 2 ∧
    ∀ c ∈ letters, base64Character c = true

structure Base64Text (text : Bytes) : Prop where
  nonempty : text ≠ []
  quartets : text.length % 4 = 0
  padded : Padded text

/-- What the scan does not look at. -/
def unscanned (msg : Bytes) : Bytes := msg.drop (scannedLength msg)

/-- The length or a character in front of the first `=` is wrong. -/
def Refused (msg : Bytes) : Prop :=
  msg = [] ∨ msg.length % 4 ≠ 0 ∨ ∃ c ∈ msg.take (scannedLength msg), base64Character c = false

theorem isBase64String_iff (msg : Bytes) : isBase64String msg = true ↔ ¬ Refused msg := by
  simp only [isBase64String, Refused, Bool.and_eq_true, decide_eq_true_eq, beq_iff_eq,
    List.all_eq_true, not_or, not_exists, not_and, Bool.not_eq_false, ne_eq, not_not,
    List.length_eq_zero_iff, and_assoc]

/-- Characters of the alphabet in front do not change whether a text is padded well. -/
theorem padded_append (letters rest : Bytes) (known : ∀ c ∈ letters, base64Character c = true) :
    Padded (letters ++ rest) ↔ Padded rest := by
  constructor
  · rintro ⟨front, count, same, few, front_known⟩
    rcases List.append_eq_append_iff.mp same with ⟨more, rfl, ends⟩ | ⟨more, rfl, ends⟩
    · exact ⟨more, count, ends, few, fun c there => front_known c (List.mem_append_right _ there)⟩
    · -- the whole rest is padding
      have signs : rest = List.replicate rest.length equalsSign :=
        List.eq_replicate_of_mem fun c there =>
          List.eq_of_mem_replicate (ends ▸ List.mem_append_right more there)
      have length := congrArg List.length ends
      rw [List.length_replicate, List.length_append] at length
      exact ⟨[], rest.length, signs, by omega, by simp⟩
  · rintro ⟨front, count, rfl, few, front_known⟩
    refine ⟨letters ++ front, count, (List.append_assoc _ _ _).symm, few, ?_⟩
    intro c there
    exact (List.mem_append.mp there).elim (known c) (front_known c)

/-- The scan stops at the first `=` at the latest. -/
theorem scannedLength_le (msg : Bytes) :
    scannedLength msg ≤ (msg.takeWhile (· ≠ equalsSign)).length := by
  have place := Words.toInt_ofNat_le (msg.takeWhile (· ≠ equalsSign)).length
  have whole := Words.toInt_ofNat_le msg.length
  have short := Words.toInt_ofNat_lt msg.length
  simp only [scannedLength]
  by_cases marked : equalsSign ∈ msg
  · rw [if_pos marked]
    split_ifs with wrapped
    · have far := Words.ofNat_eq_neg_one wrapped
      omega
    · exact place
  · have plain : msg.takeWhile (· ≠ equalsSign) = msg := by
      rw [List.takeWhile_eq_self_iff]
      intro c there
      exact decide_eq_true fun same => marked (same ▸ there)
    rw [if_neg marked, if_pos rfl, plain]
    exact whole

/-- In front of its padding a text is all alphabet. -/
theorem padded_front (text : Bytes) (padded : Padded text) :
    ∀ c ∈ text.takeWhile (· ≠ equalsSign), base64Character c = true := by
  obtain ⟨letters, count, rfl, _, known⟩ := padded
  intro c there
  have inside : c ∈ letters := by
    refine (List.mem_append.mp ((List.takeWhile_sublist _).subset there)).resolve_right ?_
    intro sign
    have other := List.mem_takeWhile_imp there
    rw [List.eq_of_mem_replicate sign] at other
    simp at other
  exact known c inside

theorem base64_not_refused (text : Bytes) (valid : Base64Text text) : ¬ Refused text := by
  rintro (empty | odd | ⟨c, there, foreign⟩)
  · exact valid.nonempty empty
  · exact odd valid.quartets
  · have ahead : text.take (scannedLength text) <+: text.takeWhile (· ≠ equalsSign) :=
      List.prefix_of_prefix_length_le (List.take_prefix _ _) (List.takeWhile_prefix _)
        ((List.length_take_le _ _).trans (scannedLength_le text))
    rw [padded_front text valid.padded c (ahead.subset there)] at foreign
    cases foreign

theorem scanned_known (msg : Bytes) (accepted : ¬ Refused msg) :
    ∀ c ∈ msg.take (scannedLength msg), base64Character c = true := by
  intro c there
  by_contra foreign
  exact accepted (.inr (.inr ⟨c, there, Bool.eq_false_iff.mpr foreign⟩))

/-- The text an accepted one is cut to at its first NUL. -/
theorem cString_accepted (msg : Bytes) (accepted : ¬ Refused msg) :
    cString msg = msg.take (scannedLength msg) ++ cString (unscanned msg) := by
  have solid : ∀ c ∈ msg.take (scannedLength msg), decide (c ≠ 0) = true := by
    intro c there
    refine decide_eq_true ?_
    rintro rfl
    exact absurd (scanned_known msg accepted 0 there) (by decide)
  conv_lhs => rw [← List.take_append_drop (scannedLength msg) msg]
  exact List.takeWhile_append_of_pos solid

theorem accepted_valid_iff (msg : Bytes) (accepted : ¬ Refused msg) :
    Base64Text msg ↔ Padded (unscanned msg) := by
  rw [← padded_append _ _ (scanned_known msg accepted), unscanned, List.take_append_drop]
  constructor
  · exact fun valid => valid.padded
  · intro padded
    refine ⟨fun empty => accepted (.inl empty), ?_, padded⟩
    by_contra odd
    exact accepted (.inr (.inl odd))

/-- `IsBase64String` says what the grammar says of a text that it refuses, and of the others
as far as what stands behind the scan is padding. -/
theorem grammar_iff (msg : Bytes) :
    (isBase64String msg = true ↔ Base64Text msg) ↔ Refused msg ∨ Padded (unscanned msg) := by
  rw [isBase64String_iff]
  by_cases refused : Refused msg
  · have invalid : ¬ Base64Text msg := fun valid => base64_not_refused msg valid refused
    simp [refused, invalid]
  · simp [refused, accepted_valid_iff msg refused]

/-! The texts behind the check. -/

section Handed

variable (lib : CfcaLib)

/-- `CFCA::Verify` with the texts it has handed to the library, each cut at its first NUL. -/
def cfcaVerifyCalls (msg sig publickey : Bytes) : Bool × List Bytes :=
  if !lib.handle_ then (false, [])
  else if !isBase64String publickey then (false, [])
  else if !isBase64String sig then (false, [])
  else
    match getAlgorithm lib (cString publickey) with
    | none => (false, [cString publickey])
    | some szAlgorithm =>
        match verifySignature lib szAlgorithm msg (Int32.ofNat msg.length) (cString sig) with
        | none => (false, [cString publickey, cString sig])
        | some _ => (true, [cString publickey, cString sig])

theorem cfcaVerifyCalls_result (msg sig publickey : Bytes) :
    (cfcaVerifyCalls lib msg sig publickey).1 = cfcaVerify lib msg sig publickey := by
  unfold cfcaVerifyCalls cfcaVerify
  split_ifs
  · rfl
  · rfl
  · rfl
  · cases getAlgorithm lib (cString publickey) with
    | none => rfl
    | some szAlgorithm =>
        dsimp only
        cases verifySignature lib szAlgorithm msg (Int32.ofNat msg.length) (cString sig) <;> rfl

/-- A text as far as its first NUL has a length that is right and only padding behind the
scan. -/
structure PaddedToNul (text : Bytes) : Prop where
  nonempty : cString text ≠ []
  quartets : (cString text).length % 4 = 0
  padded : Padded (cString (unscanned text))

/-- Without the library, or where one of the two texts is refused, nothing is handed on; a
signature is only if the library can read the key. -/
def HandedWhole (sig publickey : Bytes) : Prop :=
  lib.handle_ = false ∨ Refused publickey ∨ Refused sig ∨
    PaddedToNul publickey ∧ (getAlgorithm lib (cString publickey) = none ∨ PaddedToNul sig)

theorem handed_valid_iff (text : Bytes) (accepted : ¬ Refused text) :
    Base64Text (cString text) ↔ PaddedToNul text := by
  have padded : Padded (cString text) ↔ Padded (cString (unscanned text)) := by
    rw [cString_accepted text accepted, padded_append _ _ (scanned_known text accepted)]
  constructor
  · exact fun valid => ⟨valid.nonempty, valid.quartets, padded.mp valid.padded⟩
  · exact fun whole => ⟨whole.nonempty, whole.quartets, padded.mpr whole.padded⟩

theorem handed_texts_iff (msg sig publickey : Bytes) :
    (∀ text ∈ (cfcaVerifyCalls lib msg sig publickey).2, Base64Text text) ↔
      HandedWhole lib sig publickey := by
  have key_accepted := isBase64String_iff publickey
  have sig_accepted := isBase64String_iff sig
  unfold cfcaVerifyCalls HandedWhole
  cases lib.handle_ with
  | false => simp
  | true =>
      by_cases key_refused : Refused publickey
      · have refused : isBase64String publickey = false := by simpa [key_refused] using key_accepted
        simp [key_refused, refused]
      · by_cases sig_refused : Refused sig
        · have refused : isBase64String sig = false := by simpa [sig_refused] using sig_accepted
          simp [key_accepted.mpr key_refused, sig_refused, refused]
        · have key_valid := handed_valid_iff publickey key_refused
          have sig_valid := handed_valid_iff sig sig_refused
          simp only [key_accepted.mpr key_refused, sig_accepted.mpr sig_refused, key_refused,
            sig_refused]
          cases getAlgorithm lib (cString publickey) with
          | none => simp [key_valid]
          | some szAlgorithm =>
              dsimp only
              cases verifySignature lib szAlgorithm msg (Int32.ofNat msg.length) (cString sig) <;>
                simp [key_valid, sig_valid]

/-- `IsBase64String` accepts exactly base64 texts as far as it refuses a text or what the
scan leaves is padding; the same goes for the texts that reach the library. -/
theorem base64_texts_iff (s msg sig publickey : Bytes) :
    ((isBase64String s = true ↔ Base64Text s) ↔ Refused s ∨ Padded (unscanned s)) ∧
      ((∀ text ∈ (cfcaVerifyCalls lib msg sig publickey).2, Base64Text text) ↔
        HandedWhole lib sig publickey) :=
  ⟨grammar_iff s, handed_texts_iff lib msg sig publickey⟩

/-- `A=!?`. -/
def hiddenTail : Bytes := [0x41, 0x3d, 0x21, 0x3f]

theorem hidden_tail_accepted :
    isBase64String hiddenTail = true ∧ ¬ Base64Text hiddenTail := by
  have accepted : isBase64String hiddenTail = true := by decide
  refine ⟨accepted, fun valid => ?_⟩
  have padded := (accepted_valid_iff hiddenTail ((isBase64String_iff hiddenTail).mp accepted)).mp valid
  obtain ⟨letters, count, same, few, known⟩ := padded
  have rest : unscanned hiddenTail = [0x3d, 0x21, 0x3f] := by decide
  have length := congrArg List.length same
  rw [rest, List.length_append, List.length_replicate] at length
  -- a letter in front would be the `=`
  cases letters with
  | nil =>
      simp at length
      omega
  | cons c more =>
      rw [rest, List.cons_append, List.cons.injEq] at same
      have foreign := known c List.mem_cons_self
      rw [← same.1] at foreign
      exact absurd foreign (by decide)

end Handed

end EChainLib.Keys
