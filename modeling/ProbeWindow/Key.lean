import ProbeWindow.Hashing
import ProbeWindow.Layout
import ProbeWindow.Fault
import ProbeWindow.Text

/-!
# Keys

What a type offers to serve as the key of a map or set: an equality, a raw hash that respects
it, its layout, a description, and a copy, which may be refused. Keys are numbered, so that a run
of keys can be written as a range of numbers.

Equality may be coarser than identity: two labelled keys are equal when their identifiers are,
and the label tells which of several equal keys a table holds.
-/

namespace ProbeWindow

/-- A type of keys. -/
class Key (κ : Type) extends BEq κ where
  /-- The raw hash of a key. -/
  rawHash : κ → UInt64
  /-- Equal keys have equal raw hashes. -/
  rawHash_congr : ∀ {a b : κ}, (a == b) = true → rawHash a = rawHash b
  /-- The layout of a key. -/
  layout : Layout
  /-- The number of a key. -/
  number : κ → UInt64
  /-- A key with a number. -/
  ofNumber : UInt64 → κ
  /-- The description of a key. -/
  describe : κ → String
  /-- A copy of a key, unless the key refuses to be copied. -/
  copy : κ → Except Fault κ := .ok

namespace Key

/-- The hasher that answers with the raw hash. -/
def hasher (κ : Type) [Key κ] : Hasher κ where
  name := Fold.identity.name
  hash := rawHash
  hash_congr := rawHash_congr

/-- The 64-bit offset basis of the byte hash. -/
def byteHashBasis : UInt64 := 0xCBF29CE484222325

/-- The 64-bit prime of the byte hash. -/
def byteHashPrime : UInt64 := 0x100000001B3

/-- The hash of a text: every byte of its encoding is combined into the hash, which is then
multiplied by a prime. -/
def byteHash (s : String) : UInt64 :=
  s.toUTF8.toList.foldl (fun hash byte ↦ (hash ^^^ byte.toUInt64) * byteHashPrime) byteHashBasis

/-- The keys `start`, `start + step`, … by their numbers, so many in all; numbers wrap around. -/
def range (start step : UInt64) (count : Nat) : List UInt64 :=
  (List.range count).map fun i ↦ start + step * i.toUInt64

end Key

/-- Numbers are keys. -/
instance : Key UInt64 where
  rawHash := id
  rawHash_congr h := eq_of_beq h
  layout := ⟨8, 8⟩
  number := id
  ofNumber := id
  describe n := toString n.toNat

/-- Texts are keys, numbered by their length in bytes. -/
instance : Key String where
  rawHash := Key.byteHash
  rawHash_congr h := congrArg Key.byteHash (eq_of_beq h)
  layout := ⟨24, 8⟩
  number s := s.utf8ByteSize.toUInt64
  ofNumber n := toString n.toNat
  describe := Text.quoted

/-- A key with a label that does not take part in equality. -/
structure Labelled where
  /-- What the key is. -/
  id : UInt64
  /-- Which of several equal keys it is. -/
  label : String
deriving DecidableEq, Repr

/-- The label of a key that refuses to be copied. -/
def Labelled.uncopyable : String := "noclone"

/-- Labelled keys are equal when their identifiers are. -/
instance : Key Labelled where
  beq a b := a.id == b.id
  rawHash k := k.id
  rawHash_congr h := eq_of_beq h
  layout := ⟨32, 8⟩
  number k := k.id
  ofNumber n := ⟨n, ""⟩
  describe k := toString k.id.toNat ++ "#" ++ k.label
  copy k := if k.label == Labelled.uncopyable then .error (.raised "clone refused") else .ok k

/-- There is one key that carries no data. -/
instance : Key Unit where
  beq _ _ := true
  rawHash _ := Key.byteHashBasis
  rawHash_congr _ := rfl
  layout := ⟨0, 1⟩
  number _ := 0
  ofNumber _ := ()
  describe _ := "()"

end ProbeWindow
