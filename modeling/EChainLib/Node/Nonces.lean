import EChainLib.Node.Api

/-! The two readers of a nonce, `ParseGenesInfoFromJson` and `ParseNonceNumFromJson`,
on the same response. -/

namespace EChainLib.Node

open EChainLib.Keys (Bytes text)

/-- The return value and the outputs of `ParseGenesInfoFromJson`. Where the response
has no nonce, the 0 in `nonceNum` is written over with the local `iNonceNum`. -/
def genesInfo (iNonceNum : Int32) (accountAddr : Bytes) (nonceNum : Int) (reply : Option Json) :
    Except Stop (Int × Bytes × Int) := do
  match ← parseGenesInfoFromJson reply with
  | none => return (-1, accountAddr, nonceNum)
  | some (address, nonce) => return (1, address, nonce.getD iNonceNum.toInt)

/-- `rep["result"][key].asInt()`. -/
def Json.resultInt (key : String) (rep : Json) : Except Stop Int := do
  (← (← rep.get "result").get key).asInt

/-- `error_code` is 0 and `result` has an address. -/
structure GenesisResponse (rep : Json) : Prop where
  code : rep.errorCode = .ok (true, 0)
  address : rep.hasResult "address" = .ok true

/-- The result is the address of the response and the nonce that the other reader
finds in it, whatever the local variable holds. -/
def ReadersAgree (rep : Json) : Prop :=
  ∃ address nonce, rep.resultString "address" = .ok address ∧
    parseNonceNumFromJson (some rep) = .ok nonce ∧
    ∀ iNonceNum accountAddr nonceNum,
      genesInfo iNonceNum accountAddr nonceNum (some rep) = .ok (1, address, nonce)

/-- `result.nonce` is there as a number that fits an `int`, and the address can be
read as a text. -/
structure NonceReported (rep : Json) : Prop where
  address : ∃ address, rep.resultString "address" = .ok address
  present : rep.hasResult "nonce" = .ok true
  number : ∃ nonce, rep.resultInt "nonce" = .ok nonce

section Readings

variable {rep : Json} (response : GenesisResponse rep)

include response

theorem genesisNonce_reading : parseNonceNumFromJson (some rep) = (do
    if ← rep.hasResult "nonce" then rep.resultInt "nonce" else return 0) := by
  rw [parseNonceNumFromJson, response.code]
  rfl

theorem genesisInfo_reading : parseGenesInfoFromJson (some rep) = (do
    let address ← rep.resultString "address"
    if ← rep.hasResult "nonce" then return some (address, some (← rep.resultInt "nonce"))
    else return some (address, none)) := by
  rw [parseGenesInfoFromJson, response.code]
  simp only [bind, Except.bind, pure, Except.pure, response.address, and_self, if_true,
    Json.resultInt]
  cases rep.get "result" with
  | error stop => rfl
  | ok result => cases found : result.get "nonce" <;> simp only [found]

end Readings

/-- A response without a nonce leaves the result to the local variable. -/
theorem uninitialised_result {rep : Json} (response : GenesisResponse rep) {address : Bytes}
    (addressed : rep.resultString "address" = .ok address)
    (absent : rep.hasResult "nonce" = .ok false) (iNonceNum : Int32) (accountAddr : Bytes)
    (nonceNum : Int) :
    genesInfo iNonceNum accountAddr nonceNum (some rep) = .ok (1, address, iNonceNum.toInt) := by
  rw [genesInfo, genesisInfo_reading response, addressed, absent]
  rfl

theorem absent_nonce_disagrees {rep : Json} (response : GenesisResponse rep)
    (absent : rep.hasResult "nonce" = .ok false) : ¬ ReadersAgree rep := by
  rintro ⟨address, nonce, addressed, _, agree⟩
  have first := agree 0 [] 0
  have second := agree 1 [] 0
  rw [uninitialised_result response addressed absent] at first second
  simp only [Except.ok.injEq, Prod.mk.injEq, true_and] at first second
  rw [← second] at first
  exact absurd first (by decide)

/-- The readers agree on the responses with a nonce, and on no others. -/
theorem nonce_readers_agree_iff (rep : Json) (response : GenesisResponse rep) :
    ReadersAgree rep ↔ NonceReported rep := by
  constructor
  · intro agree
    obtain ⟨address, nonce, addressed, read, _⟩ := id agree
    rw [genesisNonce_reading response] at read
    cases present : rep.hasResult "nonce" with
    | error stop =>
        rw [present] at read
        cases read
    | ok found =>
        cases found with
        | false => exact absurd agree (absent_nonce_disagrees response present)
        | true =>
            rw [present] at read
            exact ⟨⟨address, addressed⟩, present, nonce, read⟩
  · rintro ⟨⟨address, addressed⟩, present, nonce, number⟩
    refine ⟨address, nonce, addressed, ?_, ?_⟩
    · rw [genesisNonce_reading response, present]
      exact number
    · intro iNonceNum accountAddr nonceNum
      rw [genesInfo, genesisInfo_reading response, addressed, present]
      simp only [number]
      rfl

theorem nonce_readers_agree_iff_applies :
    let rep := Json.obj [("error_code", .int 0),
      ("result", .obj [("address", .str (text "a")), ("nonce", .int 7)])]
    ReadersAgree rep ↔ NonceReported rep :=
  nonce_readers_agree_iff _ ⟨rfl, rfl⟩

theorem missing_nonce_disagrees :
    let rep := Json.obj [("error_code", .int 0), ("result", .obj [("address", .str (text "a"))])]
    GenesisResponse rep ∧ ¬ ReadersAgree rep :=
  ⟨⟨rfl, rfl⟩, absent_nonce_disagrees ⟨rfl, rfl⟩ rfl⟩

end EChainLib.Node
