/-!
# Hashing

A **hasher** gives every key a raw 64-bit hash, the same for equal keys. Before a raw hash
chooses a home it is **mixed**: the two halves of its 128-bit product with an odd constant are
combined, which spreads weak hashes over the low bits, used for homes, and the high bits, used
for fragments.

A **fold** makes a hash weaker on purpose, for instance by mapping neighbouring keys to one hash.
-/

namespace ProbeWindow

universe v

/-- The fractional part of the golden ratio, as a 64-bit word. -/
def mixMultiplier : Nat := 0x9E3779B97F4A7C15

/-- Spreads a raw hash over all 64 bits. -/
def mix (hash : UInt64) : UInt64 :=
  let product := hash.toNat * mixMultiplier
  UInt64.ofNat product ^^^ UInt64.ofNat (product / UInt64.size)

/-- A rule that weakens a hash. -/
inductive Fold where
  /-- The hash itself. -/
  | identity
  /-- One hash for all keys. -/
  | constant (n : UInt64)
  /-- The quotient by a number: neighbours collide. -/
  | div (n : UInt64)
  /-- The remainder by a number: few hashes in all. -/
  | mod (n : UInt64)
  /-- A shift to the left: high bits are lost. -/
  | shl (n : UInt64)
deriving DecidableEq, Repr

namespace Fold

/-- What a fold is called. -/
def name : Fold → String
  | identity => "Identity"
  | constant _ => "Constant"
  | div _ => "Div"
  | mod _ => "Mod"
  | shl _ => "Shl"

/-- The folded hash. -/
def apply : Fold → UInt64 → UInt64
  | identity, h => h
  | constant n, _ => n
  | div n, h => h / n
  | mod n, h => h % n
  | shl n, h => h <<< n

end Fold

/-- A hash function on keys that respects their equality. -/
structure Hasher (κ : Type v) [BEq κ] where
  /-- What the hasher is called. -/
  name : String
  /-- The raw hash of a key. -/
  hash : κ → UInt64
  /-- Equal keys have equal hashes. -/
  hash_congr : ∀ {a b : κ}, (a == b) = true → hash a = hash b

namespace Hasher

variable {κ : Type v} [BEq κ]

/-- The hasher, with its hashes folded. -/
def folded (h : Hasher κ) (fold : Fold) : Hasher κ where
  name := fold.name
  hash k := fold.apply (h.hash k)
  hash_congr hab := congrArg fold.apply (h.hash_congr hab)

end Hasher

end ProbeWindow
