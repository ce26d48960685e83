import LayeredCache.Key.Code
import LayeredCache.Key.SipHash

/-!
# Keys

A key is a sequence of contributions together with two accumulators that depend on the order and the
number of the contributions. The accumulators make most unequal keys differ early; the sequence
decides. All arithmetic is modulo 2 ^ 64.
-/

namespace LayeredCache

/-- The hash of one contribution; the null has the hash one. -/
def KeyPart.scalarHash (p : KeyPart) : UInt64 :=
  if p.isNull then 1 else SipHash.hash (p.codeBefore [])

/-- The key of a cached value. -/
structure Key where
  /-- The accumulator that depends on the order. -/
  hash : UInt64 := 17
  /-- The sum of the hashes of the contributions. -/
  checksum : UInt64 := 0
  /-- The number of contributions. -/
  count : Nat := 0
  /-- The contributions in order. -/
  parts : List KeyPart := []

namespace Key

/-- Whether two keys are equal. The accumulators and the number, which are cheap to compare, come
first; the contributions decide. -/
def same (k k' : Key) : Bool :=
  k.hash == k'.hash && k.checksum == k'.checksum && k.count == k'.count &&
    KeyPart.sameAll k.parts k'.parts

theorem same_iff_eq (k k' : Key) : k.same k' = true ↔ k = k' := by
  cases k
  cases k'
  simp [same, KeyPart.sameAll_iff_eq, and_assoc]

instance : DecidableEq Key := fun k k' => decidable_of_decidable_of_iff (same_iff_eq k k')

/-- The key without contributions. -/
def empty : Key := {}

/-- The key with one more contribution. -/
def update (k : Key) (p : KeyPart) : Key :=
  let s := p.scalarHash
  { hash := k.hash * 37 + s * UInt64.ofNat (k.count + 1)
    checksum := k.checksum + s
    count := k.count + 1
    parts := k.parts ++ [p] }

/-- The key with more contributions, taken in order. -/
def updateAll (k : Key) (ps : List KeyPart) : Key := ps.foldl update k

/-- The key of a sequence of contributions. -/
def ofParts (ps : List KeyPart) : Key := empty.updateAll ps

/-- An accumulator as a signed number. -/
def signedText (u : UInt64) : String := toString u.toInt64.toInt

/-- The text of a key: both accumulators and all contributions, with colons between them. -/
def text (k : Key) : String :=
  k.parts.foldl (fun s p => p.textAfter (s ++ ":")) (signedText k.hash ++ ":" ++ signedText k.checksum)

instance : ToString Key := ⟨text⟩

@[simp] theorem parts_update (k : Key) (p : KeyPart) : (k.update p).parts = k.parts ++ [p] := rfl

@[simp] theorem count_update (k : Key) (p : KeyPart) : (k.update p).count = k.count + 1 := rfl

@[simp] theorem parts_updateAll (k : Key) (ps : List KeyPart) :
    (k.updateAll ps).parts = k.parts ++ ps := by
  induction ps generalizing k with
  | nil => simp [updateAll]
  | cons p ps ih => simpa [updateAll] using ih (k.update p)

theorem updateAll_append (k : Key) (ps qs : List KeyPart) :
    k.updateAll (ps ++ qs) = (k.updateAll ps).updateAll qs := by simp [updateAll]

end Key

end LayeredCache
