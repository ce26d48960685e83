import LayeredCache.Key.Basic
import Mathlib.Algebra.Ring.Parity
import Mathlib.Data.List.Basic
import Mathlib.Data.Nat.Prime.Basic
import Mathlib.Data.UInt
import Mathlib.Tactic.Ring

/-!
# The accumulators tell the order of the contributions

The checksum is the sum of the hashes of the contributions. In the other accumulator the hash of a
contribution counts by a weight: the number of its place, times a power of 37 for those that came
later. So another contribution at one place changes either accumulator by the difference of the
hashes, times its factor. Two contributions that change places leave the sum as it is, and change
the other accumulator by the difference of their hashes times the difference of the two weights.
The weights are even and odd by turns, and an odd factor can be cancelled modulo 2 ^ 64.

## Main definitions

* `Key.weight` — the factor of a place in the accumulator that depends on the order.

## Main statements

* `Key.hash_set`, `Key.checksum_set` — what another contribution at one place changes.
* `Key.accumulators_tell_order` — contributions at odd distance that change places change the hash
  and not the checksum, and another contribution at one place changes the checksum.
-/

namespace LayeredCache

namespace Key

open scoped UInt64.CommRing

/-! ## Odd factors -/

/-- An odd factor can be cancelled modulo 2 ^ 64. -/
theorem eq_zero_of_odd_mul {u x : UInt64} (hu : Odd u.toNat) (h : u * x = 0) : x = 0 := by
  have hmul : u.toNat * x.toNat % 2 ^ 64 = 0 := by
    rw [← UInt64.toNat_mul, h]
    rfl
  have hcoprime : Nat.Coprime (2 ^ 64) u.toNat :=
    Nat.Coprime.pow_left 64 (Nat.coprime_two_left.mpr hu)
  have hdvd : 2 ^ 64 ∣ x.toNat :=
    hcoprime.dvd_of_dvd_mul_left (Nat.dvd_of_mod_eq_zero hmul)
  exact UInt64.toNat_inj.mp (Nat.eq_zero_of_dvd_of_lt hdvd x.toNat_lt)

/-- A difference modulo 2 ^ 64 is odd if one of the numbers is and the other is not. -/
theorem odd_toNat_sub {u v : UInt64} (h : Odd (u.toNat + v.toNat)) : Odd (u - v).toNat := by
  rw [Nat.odd_iff] at h ⊢
  have hv := v.toNat_lt
  rw [UInt64.toNat_sub]
  omega

/-! ## What a contribution counts -/

/-- The factor of the place `i` in the accumulator of `n` contributions. -/
def weight (n i : Nat) : UInt64 := UInt64.ofNat ((i + 1) * Nat.pow 37 (n - 1 - i))

theorem odd_weight_iff (n i : Nat) : Odd (weight n i).toNat ↔ Odd (i + 1) := by
  have hpow : Odd (Nat.pow 37 (n - 1 - i)) := Odd.pow (by decide)
  have hmod : (weight n i).toNat % 2 = (i + 1) * Nat.pow 37 (n - 1 - i) % 2 := by
    rw [weight, UInt64.toNat_ofNat']
    exact Nat.mod_mod_of_dvd _ (Dvd.intro (2 ^ 63) rfl)
  rw [Nat.odd_iff, hmod, ← Nat.odd_iff, Nat.odd_mul]
  exact and_iff_left hpow

/-- The weights of places at odd distance differ by an odd number. -/
theorem odd_weight_sub {n i j : Nat} (hij : i < j) (h : Odd (j - i)) :
    Odd (weight n i - weight n j).toNat := by
  refine odd_toNat_sub (Nat.odd_add'.mpr ?_)
  rw [odd_weight_iff, ← Nat.not_odd_iff_even, odd_weight_iff]
  rw [Nat.odd_iff] at h ⊢
  rw [Nat.odd_iff]
  omega

theorem count_updateAll (k : Key) (ps : List KeyPart) :
    (k.updateAll ps).count = k.count + ps.length := by
  induction ps generalizing k with
  | nil => rfl
  | cons p ps ih =>
    show ((k.update p).updateAll ps).count = _
    rw [ih, count_update, List.length_cons]
    omega

theorem checksum_updateAll (k : Key) (ps : List KeyPart) :
    (k.updateAll ps).checksum = k.checksum + (ps.map KeyPart.scalarHash).sum := by
  induction ps generalizing k with
  | nil => exact (add_zero k.checksum).symm
  | cons p ps ih =>
    show ((k.update p).updateAll ps).checksum = _
    rw [ih, List.map_cons, List.sum_cons, ← add_assoc]
    rfl

/-- A difference of the hashes of two keys is multiplied by 37 with each contribution to both. -/
theorem hash_updateAll_sub {k k' : Key} (h : k'.count = k.count) (ps : List KeyPart) :
    (k'.updateAll ps).hash - (k.updateAll ps).hash =
      (k'.hash - k.hash) * UInt64.ofNat (Nat.pow 37 ps.length) := by
  induction ps generalizing k k' with
  | nil => exact (mul_one _).symm
  | cons p ps ih =>
    show ((k'.update p).updateAll ps).hash - ((k.update p).updateAll ps).hash = _
    have hstep : (k'.update p).hash - (k.update p).hash = (k'.hash - k.hash) * 37 := by
      simp only [update, h]
      ring
    have hpow : UInt64.ofNat (Nat.pow 37 (ps.length + 1)) =
        37 * UInt64.ofNat (Nat.pow 37 ps.length) := by
      rw [Nat.pow_eq, Nat.pow_succ', UInt64.ofNat_mul]
      rfl
    rw [ih (by rw [count_update, count_update, h]), hstep, List.length_cons, hpow, mul_assoc]

/-! ## Another contribution at one place -/

/-- The contributions with another one at one place, as those in front, the other one and those
behind. -/
theorem set_eq_append {ps : List KeyPart} {i : Nat} (hi : i < ps.length) (p : KeyPart) :
    ps.set i p = ps.take i ++ p :: ps.drop (i + 1) := by
  rw [List.set_eq_take_append_cons_drop, if_pos hi]

theorem eq_append {ps : List KeyPart} {i : Nat} (hi : i < ps.length) :
    ps = ps.take i ++ ps[i] :: ps.drop (i + 1) := by
  rw [← set_eq_append hi, List.set_getElem_self]

theorem ofParts_append_cons (ps qs : List KeyPart) (p : KeyPart) :
    ofParts (ps ++ p :: qs) = ((ofParts ps).update p).updateAll qs := updateAll_append empty ps _

/-- Another contribution changes the hash by the difference of the hashes, times the weight of its
place. -/
theorem hash_set {ps : List KeyPart} {i : Nat} (hi : i < ps.length) (p : KeyPart) :
    (ofParts (ps.set i p)).hash =
      (ofParts ps).hash + (p.scalarHash - ps[i].scalarHash) * weight ps.length i := by
  have hcount : (ofParts (ps.take i)).count = i := by
    rw [ofParts, count_updateAll, List.length_take, Nat.min_eq_left (Nat.le_of_lt hi)]
    exact Nat.zero_add i
  have hbehind : (ps.drop (i + 1)).length = ps.length - 1 - i := by
    rw [List.length_drop]
    omega
  have hcounts : ((ofParts (ps.take i)).update p).count =
      ((ofParts (ps.take i)).update ps[i]).count := by
    rw [count_update, count_update]
  have hdiffer := hash_updateAll_sub hcounts (ps.drop (i + 1))
  rw [← ofParts_append_cons, ← ofParts_append_cons, ← eq_append hi, ← set_eq_append hi,
    hbehind] at hdiffer
  rw [← sub_eq_iff_eq_add', hdiffer, weight, UInt64.ofNat_mul]
  simp only [update, hcount]
  ring

/-- Another contribution changes the checksum by the difference of the hashes. -/
theorem checksum_set {ps : List KeyPart} {i : Nat} (hi : i < ps.length) (p : KeyPart) :
    (ofParts (ps.set i p)).checksum =
      (ofParts ps).checksum + (p.scalarHash - ps[i].scalarHash) := by
  have hsum (q : KeyPart) : (ofParts (ps.take i ++ q :: ps.drop (i + 1))).checksum =
      (ofParts (ps.take i)).checksum + q.scalarHash +
        ((ps.drop (i + 1)).map KeyPart.scalarHash).sum := by
    rw [ofParts_append_cons, checksum_updateAll]
    rfl
  have hold := hsum ps[i]
  rw [← eq_append hi] at hold
  rw [set_eq_append hi, hsum, hold]
  ring

/-! ## Two contributions that change places -/

/-- The contributions with those at two places exchanged. -/
def exchange (ps : List KeyPart) {i j : Nat} (hi : i < ps.length) (hj : j < ps.length) :
    List KeyPart :=
  (ps.set i ps[j]).set j ps[i]

section

variable {ps : List KeyPart} {i j : Nat}

theorem checksum_exchange (hij : i < j) (hi : i < ps.length) (hj : j < ps.length) :
    (ofParts (exchange ps hi hj)).checksum = (ofParts ps).checksum := by
  rw [exchange, checksum_set (by rwa [List.length_set]), checksum_set hi,
    List.getElem_set_ne (Nat.ne_of_lt hij)]
  ring

theorem hash_exchange (hij : i < j) (hi : i < ps.length) (hj : j < ps.length) :
    (ofParts (exchange ps hi hj)).hash =
      (ofParts ps).hash + (weight ps.length i - weight ps.length j) *
        (ps[j].scalarHash - ps[i].scalarHash) := by
  have hlength : (ps.set i ps[j]).length = ps.length := List.length_set
  rw [exchange, hash_set (hj.trans_eq hlength.symm), hash_set hi,
    List.getElem_set_ne (Nat.ne_of_lt hij)]
  simp only [hlength]
  ring

/-- The accumulator that depends on the order notices an exchange at odd distance. -/
theorem hash_exchange_eq_iff (hij : i < j) (hodd : Odd (j - i)) (hi : i < ps.length)
    (hj : j < ps.length) :
    (ofParts (exchange ps hi hj)).hash = (ofParts ps).hash ↔
      ps[i].scalarHash = ps[j].scalarHash := by
  rw [hash_exchange hij, add_eq_left]
  constructor
  · intro h
    exact (sub_eq_zero.mp (eq_zero_of_odd_mul (odd_weight_sub hij hodd) h)).symm
  · intro h
    rw [h, sub_self, mul_zero]

end

/-- If two contributions at odd distance change places, then the checksum stays, and the hash
changes exactly if the hashes of the two differ. Another contribution at one place changes the
checksum exactly if its hash is another one. -/
theorem accumulators_tell_order (ps : List KeyPart) :
    (∀ (i j : Nat) (hi : i < ps.length) (hj : j < ps.length), i < j → Odd (j - i) →
        (ofParts (exchange ps hi hj)).checksum = (ofParts ps).checksum ∧
          ((ofParts (exchange ps hi hj)).hash ≠ (ofParts ps).hash ↔
            ps[i].scalarHash ≠ ps[j].scalarHash)) ∧
      ∀ (i : Nat) (hi : i < ps.length) (p : KeyPart),
        (ofParts (ps.set i p)).checksum ≠ (ofParts ps).checksum ↔
          p.scalarHash ≠ ps[i].scalarHash := by
  refine ⟨fun i j hi hj hij hodd => ⟨checksum_exchange hij hi hj, ?_⟩, fun i hi p => ?_⟩
  · exact not_congr (hash_exchange_eq_iff hij hodd hi hj)
  · rw [checksum_set hi, Ne, add_eq_left, sub_eq_zero]

namespace Swapped

/-- A text, a truth value and a number. -/
def parts : List KeyPart := [.str "a", .bool true, .uint 1]

/-- Neighbours that change places, and the null in the last place. -/
theorem exchange_and_replacement_show :
    (ofParts (exchange parts (i := 1) (j := 2) (by decide) (by decide))).checksum =
        (ofParts parts).checksum ∧
      (ofParts (exchange parts (i := 1) (j := 2) (by decide) (by decide))).hash ≠
        (ofParts parts).hash ∧
      (ofParts (parts.set 2 .null)).checksum ≠ (ofParts parts).checksum := by
  have hdiffer : parts[1].scalarHash ≠ parts[2].scalarHash := by decide +kernel
  have hnull : KeyPart.null.scalarHash ≠ parts[2].scalarHash := by decide +kernel
  obtain ⟨hexchange, hset⟩ := accumulators_tell_order parts
  obtain ⟨hchecksum, hhash⟩ := hexchange 1 2 (by decide) (by decide) (by decide) (by decide)
  exact ⟨hchecksum, hhash.mpr hdiffer, (hset 2 (by decide) .null).mpr hnull⟩

end Swapped

end Key

end LayeredCache
