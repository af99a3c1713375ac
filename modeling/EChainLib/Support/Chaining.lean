import Mathlib

/-! Cipher block chaining over any blocks that can be mixed and unmixed. -/

namespace EChainLib.Chaining

variable {Block : Type*} (mix : Block → Block → Block)

def encrypt (cipher : Block → Block) : Block → List Block → List Block
  | _, [] => []
  | previous, block :: rest =>
      cipher (mix block previous) :: encrypt cipher (cipher (mix block previous)) rest

def decrypt (inverse : Block → Block) : Block → List Block → List Block
  | _, [] => []
  | previous, block :: rest => mix (inverse block) previous :: decrypt inverse block rest

/-- The block that the next one is mixed with. -/
def final (cipher : Block → Block) (previous : Block) (blocks : List Block) : Block :=
  blocks.foldl (fun previous block => cipher (mix block previous)) previous

variable {mix}

@[simp] theorem encrypt_length (cipher : Block → Block) (previous : Block) (blocks : List Block) :
    (encrypt mix cipher previous blocks).length = blocks.length := by
  induction blocks generalizing previous with
  | nil => rfl
  | cons block rest ih => simp [encrypt, ih]

/-- Decrypting gives the blocks back and goes on behind them. -/
theorem decrypt_encrypt_append (cipher inverse : Block → Block)
    (left_inverse : Function.LeftInverse inverse cipher)
    (unmix : ∀ block previous, mix (mix block previous) previous = block) (previous : Block)
    (blocks behind : List Block) :
    decrypt mix inverse previous (encrypt mix cipher previous blocks ++ behind) =
      blocks ++ decrypt mix inverse (final mix cipher previous blocks) behind := by
  induction blocks generalizing previous with
  | nil => rfl
  | cons block rest ih =>
      rw [encrypt, List.cons_append, decrypt, left_inverse, unmix, ih]
      rfl

end EChainLib.Chaining
