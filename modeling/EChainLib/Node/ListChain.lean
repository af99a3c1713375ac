import EChainLib.Support.Marks
import EChainLib.Node.Chain
import EChainLib.Node.CreateAccount

/-! A chain that is its list of transactions, and a JSON library that reads back
what it writes. -/

namespace EChainLib.Node

open EChainLib.Keys (Bytes text)

/-! The JSON library. One document has the styled text the real library gives it,
every other value has its top-level strings and numbers as marks. -/

def leafNumbers : Json → List Nat
  | .str value => 0 :: value.map UInt8.toNat
  | .int value => [1, value.toNat, (-value).toNat]
  | _ => []

def numbersLeaf : List Nat → Json
  | 0 :: value => .str (value.map UInt8.ofNat)
  | [1, positive, negative] => .int (positive - negative)
  | _ => .null

def memberRows (members : List (String × Json)) : List (List Nat) :=
  members.flatMap fun member => [member.1.toList.map Char.toNat, leafNumbers member.2]

def rowsMembers : List (List Nat) → List (String × Json)
  | key :: leaf :: rest => (String.ofList (key.map Char.ofNat), numbersLeaf leaf) :: rowsMembers rest
  | _ => []

def leaf (value : Json) : Json := numbersLeaf (leafNumbers value)

theorem leaf_str (value : Bytes) : leaf (.str value) = .str value := by
  simp [leaf, leafNumbers, numbersLeaf, Function.comp_def]

theorem leaf_int (value : Int) : leaf (.int value) = .int value := by
  simp only [leaf, leafNumbers, numbersLeaf, Json.int.injEq]
  omega

/-- Only strings and numbers are kept. -/
theorem leaf_kept (value : Json) : leaf value = value ∨ leaf value = .null := by
  cases value with
  | str value => exact .inl (leaf_str value)
  | int value => exact .inl (leaf_int value)
  | _ => exact .inr rfl

theorem rowsMembers_memberRows (members : List (String × Json)) :
    rowsMembers (memberRows members) = members.map fun member => (member.1, leaf member.2) := by
  induction members with
  | nil => rfl
  | cons member members ih =>
      have key : String.ofList ((member.1.toList.map Char.toNat).map Char.ofNat) = member.1 := by
        simp [Function.comp_def]
      have step : memberRows (member :: members) =
          member.1.toList.map Char.toNat :: leafNumbers member.2 :: memberRows members := rfl
      rw [step, rowsMembers, key, ih]
      rfl

theorem lookup_leaves (members : List (String × Json)) (key : String) :
    (members.map fun member => (member.1, leaf member.2)).lookup key =
      (members.lookup key).map leaf := by
  induction members with
  | nil => rfl
  | cons member members ih =>
      obtain ⟨name, value⟩ := member
      simp only [List.map_cons, List.lookup_cons]
      cases key == name
      · exact ih
      · rfl

def sampleDocument : List (String × Json) :=
  businessJson 1 ADDNEW (text "5f") (text " ") (text "/d") (.obj []) 1 (text "2017-06-01 08:00:00")

def sampleText : Bytes :=
  text "\x7b\n   \"dataHash\" : \"5f\",\n   \"dataPath\" : \"/d\",\n   \"dataType\" : 1,\n   \"descInfo\" : \x7b\x7d,\n   \"operationType\" : 1,\n   \"preHash\" : \" \",\n   \"time\" : \"2017-06-01 08:00:00\",\n   \"version\" : 1\n\x7d\n"

def styledText : Json → Bytes
  | .obj members =>
      if memberRows members = memberRows sampleDocument then sampleText
      else 4 :: 4 :: Marks.encode (memberRows members)
  | _ => [4, 4]

def parseText (input : Bytes) : Option Json :=
  if input = sampleText then some (.obj sampleDocument)
  else
    match input with
    | 4 :: 4 :: marks => some (.obj (rowsMembers (Marks.decode marks)))
    | 0x7b :: _ => some (.obj [])
    | _ => none

/-- Two objects with the same rows have the same strings and numbers. -/
theorem lookup_of_rows (members others : List (String × Json))
    (same : memberRows members = memberRows others) (key : String) (value : Json)
    (found : members.lookup key = some value) (kept : leaf value = value) (present : value ≠ .null) :
    others.lookup key = some value := by
  have leaves : (members.lookup key).map leaf = (others.lookup key).map leaf := by
    rw [← lookup_leaves, ← lookup_leaves, ← rowsMembers_memberRows, same, rowsMembers_memberRows]
  rw [found, Option.map_some, kept] at leaves
  obtain ⟨other, other_found, same_leaf⟩ := Option.map_eq_some_iff.mp leaves.symm
  rcases leaf_kept other with other_kept | lost
  · rw [other_found, ← same_leaf, other_kept]
  · exact absurd (same_leaf.symm.trans lost) present

/-- The sample text opens with a brace, the marks of other documents do not. -/
theorem marks_ne_sample (marks : Bytes) : 4 :: 4 :: marks ≠ sampleText := by
  intro same
  have first : (4 :: 4 :: marks).head? = sampleText.head? := by rw [same]
  have sample : sampleText.head? = some 0x7b := by decide +kernel
  rw [sample] at first
  simp at first

theorem parseText_reads_back (members : List (String × Json)) :
    ∃ read, parseText (styledText (.obj members)) = some (.obj read) ∧
      ∀ key value, members.lookup key = some value → leaf value = value → value ≠ .null →
        read.lookup key = some value := by
  by_cases sample : memberRows members = memberRows sampleDocument
  · refine ⟨sampleDocument, by simp [styledText, sample, parseText], ?_⟩
    exact lookup_of_rows members sampleDocument sample
  · refine ⟨members.map fun member => (member.1, leaf member.2), ?_, ?_⟩
    · rw [styledText, if_neg sample]
      unfold parseText
      rw [if_neg (marks_ne_sample _)]
      show some (Json.obj (rowsMembers (Marks.decode (Marks.encode (memberRows members))))) = _
      rw [Marks.decode_encode, rowsMembers_memberRows]
    · intro key value found kept _
      rw [lookup_leaves, found, Option.map_some, kept]

def markLib : JsonLib where
  parse := parseText
  toStyledString := styledText
  parse_empty := by decide +kernel
  parse_blank := by decide +kernel
  styled_length := by
    intro value
    have sample : 2 ≤ sampleText.length := by decide +kernel
    unfold styledText
    split
    · split_ifs
      · exact sample
      · simp
    · simp
  styled_text := by
    intro value
    have sample : (0 : UInt8) ∉ sampleText := by decide +kernel
    unfold styledText
    split
    · split_ifs
      · exact sample
      · simp [Marks.zero_not_mem_encode]
    · simp
  reads_back := by
    intro members
    obtain ⟨read, parsed, kept⟩ := parseText_reads_back members
    refine ⟨read, parsed, fun key value found => ?_, fun key value _ found => ?_⟩
    · exact kept key _ found (leaf_str value) Json.noConfusion
    · exact kept key _ found (leaf_int value) Json.noConfusion

/-! The chain. The hash of a transaction is its place on the ledger, as one byte. -/

def spell (entry : Entry) : Bytes :=
  entry.hash.headD 0 :: match entry.metadata with
    | none => []
    | some metadata => 1 :: metadata

def spelled : Bytes → Option Entry
  | [] => none
  | hash :: [] => some ⟨[hash], none⟩
  | hash :: _ :: metadata => some ⟨[hash], some metadata⟩

def submittedBlob (content : Json) : Except Stop Bytes := do
  (← (← (← content.get "items").index 0).get "transaction_blob").asString

def historyReply : Option Entry → Json
  | none => .obj [("error_code", .int 4)]
  | some entry =>
      let metadata := entry.metadata.elim [] fun metadata => [("metadata", .str metadata)]
      okReply [("transactions", .arr [.obj [("transaction", .obj metadata)]])]

def submitEntry (ledger : List Entry) : Option Entry → Option Json × List Entry
  | none => (none, ledger)
  | some entry =>
      if entry.hash ∈ ledger.map (·.hash) then (some (submitReply 3), ledger)
      else (some (submitReply 0), ledger ++ [entry])

def listReply : Request → List Entry → Option Json × List Entry
  | .getAccount _, ledger => (some (okReply [("nonce", .int 0)]), ledger)
  | .getTransactionBlob content, ledger =>
      let hash := [UInt8.ofNat ledger.length]
      (some (okReply [("transaction_blob", .str (spell ⟨hash, metadataOf content⟩)),
        ("hash", .str hash)]), ledger)
  | .submitTransaction content, ledger =>
      submitEntry ledger ((submittedBlob content).toOption.bind spelled)
  | .getTransactionHistory hash, ledger =>
      (some (historyReply (ledger.find? fun entry => entry.hash = hash)), ledger)
  | _, ledger => (none, ledger)

def listEnv : Env (List Entry) where
  lib := Keys.zeroLib
  sign := fun _ _ => []
  http := listReply
  sql := fun _ => ⟨fun _ => false, fun _ => 0, [], fun _ db => db⟩
  barTime := fun _ => text "2017-06-01 08:00:00"
  uninitialised := fun _ => 0

theorem spelled_spell (hash : UInt8) (metadata : Option Bytes) :
    spelled (spell ⟨[hash], metadata⟩) = some ⟨[hash], metadata⟩ := by
  cases metadata <;> rfl

theorem historyReply_reports (found : Option Entry) : Reports (some (historyReply found)) found := by
  match found with
  | none =>
      rintro rep ⟨⟩
      exact .inr ⟨true, 4, rfl, by decide⟩
  | some ⟨hash, none⟩ => exact ⟨_, rfl, rfl, rfl, rfl⟩
  | some ⟨hash, some metadata⟩ => exact ⟨_, rfl, rfl, rfl, rfl⟩

theorem history_reports (hash : Bytes) (ledger : List Entry) :
    Reports (some (historyReply (ledger.find? fun entry => entry.hash = hash)))
      (ledger.find? fun entry => entry.hash = hash) := historyReply_reports _

theorem submitEntry_appends (ledger : List Entry) (asked : Option Entry) :
    ((submitEntry ledger asked).2 = ledger ∧
        ∀ rep, (submitEntry ledger asked).1 = some rep → rep.submitCode ≠ .ok 0) ∨
      ∃ entry, asked = some entry ∧ entry.hash ∉ ledger.map (·.hash) ∧
        (submitEntry ledger asked).2 = ledger ++ [entry] := by
  cases asked with
  | none =>
      refine .inl ⟨rfl, fun rep lost => ?_⟩
      cases lost
  | some entry =>
      by_cases used : entry.hash ∈ ledger.map (·.hash)
      · rw [submitEntry, if_pos used]
        refine .inl ⟨rfl, fun rep replied coded => ?_⟩
        cases replied
        cases coded
      · rw [submitEntry, if_neg used]
        exact .inr ⟨entry, rfl, used, rfl⟩

def listChain : FaithfulChain listEnv where
  ledger := id
  spells := fun blob entry => spelled blob = some entry
  quiet := by
    intro request ledger quiet
    cases request with
    | submitTransaction content => exact absurd rfl (quiet content)
    | _ => rfl
  blob := by
    intro content ledger rep blob replied found entry same
    cases replied
    cases found
    rw [spelled_spell] at same
    cases same
    refine ⟨rfl, fun hash named => ?_⟩
    cases named
    rfl
  submit := fun _ _ blob ledger => submitEntry_appends ledger (spelled blob)
  history := fun hash ledger => historyReply_reports _

end EChainLib.Node
