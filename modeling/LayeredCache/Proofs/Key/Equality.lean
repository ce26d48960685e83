import LayeredCache.Key.Workbench
import Mathlib.Data.List.Basic
import Mathlib.Logic.Function.Basic

/-!
# When keys are equal

A key is put together step by step, in whatever portions, and copies go their own way. Two keys are
compared by their accumulators first and by their contributions last. All the same, what decides is
the sequence of contributions alone: keys are equal exactly if as many contributions went into them
and those at equal places agree. So the accumulators of equal keys are equal, and a hash table,
which looks only into the bucket of the accumulator, finds what was stored under an equal key.

## Main definitions

* `KeyPart.Agrees` — two contributions have one kind and the same content.
* `KeyStep.contributed` — the contributions that went into a key, read off the steps.
* `Key.HashTable` — entries in buckets that are told apart by one accumulator of their keys.

## Main statements

* `KeyStep.same_iff_contributions_agree` — keys are equal exactly if their contributions agree, and
  hash tables take equal keys for one.
-/

namespace LayeredCache

/-! ## Contributions that agree -/

namespace KeyPart

mutual

/-- Two contributions have one kind and the same content. Of numbers in floating point the bit
pattern counts. -/
inductive Agrees : KeyPart → KeyPart → Prop where
  | null : Agrees null null
  | bool (b : Bool) : Agrees (bool b) (bool b)
  | int (i : Int64) : Agrees (int i) (int i)
  | uint (u : UInt64) : Agrees (uint u) (uint u)
  | float (bits : UInt64) : Agrees (float bits) (float bits)
  | str (s : String) : Agrees (str s) (str s)
  | bytes (b : List UInt8) : Agrees (bytes b) (bytes b)
  | list {ps qs : List KeyPart} : AgreeAll ps qs → Agrees (list ps) (list qs)

/-- Two lists of contributions are of one length and agree place by place. -/
inductive AgreeAll : List KeyPart → List KeyPart → Prop where
  | nil : AgreeAll [] []
  | cons {p q : KeyPart} {ps qs : List KeyPart} :
    Agrees p q → AgreeAll ps qs → AgreeAll (p :: ps) (q :: qs)

end

mutual

theorem Agrees.refl : (p : KeyPart) → Agrees p p
  | .null => .null
  | .bool b => .bool b
  | .int i => .int i
  | .uint u => .uint u
  | .float bits => .float bits
  | .str s => .str s
  | .bytes b => .bytes b
  | .list ps => .list (AgreeAll.refl ps)

theorem AgreeAll.refl : (ps : List KeyPart) → AgreeAll ps ps
  | [] => .nil
  | p :: ps => .cons (Agrees.refl p) (AgreeAll.refl ps)

end

mutual

theorem Agrees.eq {p q : KeyPart} : Agrees p q → p = q
  | .null | .bool _ | .int _ | .uint _ | .float _ | .str _ | .bytes _ => rfl
  | .list h => congrArg KeyPart.list h.eq

theorem AgreeAll.eq {ps qs : List KeyPart} : AgreeAll ps qs → ps = qs
  | .nil => rfl
  | .cons h hs => congr (congrArg List.cons h.eq) hs.eq

end

/-- Contributions are taken for equal exactly if they agree, whatever the nesting. -/
theorem same_iff_agrees {p q : KeyPart} : p.same q = true ↔ Agrees p q := by
  rw [same_iff_eq]
  constructor
  · rintro rfl
    exact Agrees.refl p
  · exact Agrees.eq

/-- Lists of contributions are taken for equal exactly if they have one length and agree place by
place. -/
theorem sameAll_iff_agrees {ps qs : List KeyPart} :
    sameAll ps qs = true ↔ ps.length = qs.length ∧
      ∀ (i : Nat) (p q : KeyPart), ps[i]? = some p → qs[i]? = some q → p.Agrees q := by
  rw [sameAll_iff_eq]
  constructor
  · rintro rfl
    refine ⟨rfl, fun i p q hp hq => ?_⟩
    obtain rfl := Option.some.inj (hp.symm.trans hq)
    exact Agrees.refl p
  · rintro ⟨hlength, hagree⟩
    refine List.ext_getElem hlength fun i hi hi' => ?_
    exact (hagree i _ _ (List.getElem?_eq_getElem hi) (List.getElem?_eq_getElem hi')).eq

end KeyPart

/-! ## Keys as an equivalence -/

namespace Key

theorem equivalence_same : Equivalence fun k k' : Key => k.same k' = true := by
  simp only [same_iff_eq]
  exact eq_equivalence

/-- Contributions make one key, whether they come all at once or in two portions. -/
theorem ofParts_append (ps qs : List KeyPart) : ofParts (ps ++ qs) = (ofParts ps).updateAll qs :=
  updateAll_append empty ps qs

theorem parts_ofParts (ps : List KeyPart) : (ofParts ps).parts = ps := parts_updateAll empty ps

theorem same_ofParts_iff {ps qs : List KeyPart} :
    (ofParts ps).same (ofParts qs) = true ↔ KeyPart.sameAll ps qs = true := by
  rw [same_iff_eq, KeyPart.sameAll_iff_eq]
  constructor
  · intro h
    rw [← parts_ofParts ps, h, parts_ofParts]
  · rintro rfl
    rfl

/-- Equal keys have equal accumulators and numbers of contributions. -/
theorem accumulators_of_same {k k' : Key} (h : k.same k' = true) :
    k.hash = k'.hash ∧ k.checksum = k'.checksum ∧ k.count = k'.count := by
  obtain rfl := (same_iff_eq k k').mp h
  exact ⟨rfl, rfl, rfl⟩

/-! ## Hash tables -/

/-- Entries in buckets. Which bucket a key belongs to is decided by its order-sensitive accumulator
alone, in whatever way. -/
structure HashTable (β : Type) where
  bucketOf : UInt64 → Nat
  buckets : Nat → List (Key × β)

namespace HashTable

variable {β : Type} {t : HashTable β} {k k' : Key}

/-- The bucket in which a key is looked for. -/
def bucket (t : HashTable β) (k : Key) : List (Key × β) := t.buckets (t.bucketOf k.hash)

/-- The value under the first key of the bucket that is equal. -/
def find? (t : HashTable β) (k : Key) : Option β :=
  ((t.bucket k).find? fun e => e.1.same k).map (·.2)

/-- The table with other entries in the bucket of a key. -/
def setBucket (t : HashTable β) (k : Key) (entries : List (Key × β)) : HashTable β :=
  { t with buckets := Function.update t.buckets (t.bucketOf k.hash) entries }

/-- The entries of the bucket of a key whose keys are other ones. -/
def others (t : HashTable β) (k : Key) : List (Key × β) := (t.bucket k).filter fun e => !e.1.same k

/-- The table in which a key has a value. -/
def insert (t : HashTable β) (k : Key) (v : β) : HashTable β := t.setBucket k ((k, v) :: t.others k)

/-- The table without an entry for a key. -/
def erase (t : HashTable β) (k : Key) : HashTable β := t.setBucket k (t.others k)

/-- Equal keys belong to one bucket, and within it the same entry is found. -/
theorem find?_congr (h : k.same k' = true) : t.find? k = t.find? k' := by
  have hbucket : t.bucket k = t.bucket k' :=
    congrArg (fun hash => t.buckets (t.bucketOf hash)) (accumulators_of_same h).1
  have hsame : (fun e : Key × β => e.1.same k) = fun e => e.1.same k' := by
    funext e
    rw [Bool.eq_iff_iff]
    exact ⟨fun he => equivalence_same.trans he h,
      fun he => equivalence_same.trans he (equivalence_same.symm h)⟩
  unfold find?
  rw [hbucket, hsame]

/-- Another key finds in the bucket of a key what it finds among the other entries. -/
theorem find?_others (h : ¬k.same k' = true) :
    (t.others k).find? (fun e => e.1.same k') = (t.bucket k).find? fun e => e.1.same k' := by
  rw [others, List.find?_filter]
  congr 1
  funext e
  -- An entry under the one key is none under the other.
  cases he : e.1.same k' with
  | false => simp
  | true =>
    have hne : ¬e.1.same k = true := fun hk =>
      h (equivalence_same.trans (equivalence_same.symm hk) he)
    simp [hne]

theorem bucket_setBucket (entries : List (Key × β)) :
    (t.setBucket k entries).bucket k' =
      if t.bucketOf k'.hash = t.bucketOf k.hash then entries else t.bucket k' := by
  simp only [bucket, setBucket, Function.update_apply]

/-- What was stored under a key is found under the equal ones, and no others are concerned. -/
theorem find?_insert (v : β) :
    (t.insert k v).find? k' = if k.same k' then some v else t.find? k' := by
  by_cases h : k.same k' = true
  · rw [if_pos h, ← find?_congr h, find?, insert, bucket_setBucket, if_pos rfl]
    simp [equivalence_same.refl k]
  · rw [if_neg h, find?, insert, bucket_setBucket]
    split
    · next hbucket =>
      have hother : t.bucket k' = t.bucket k := congrArg t.buckets hbucket
      have hskip : ((k, v) :: t.others k).find? (fun e => e.1.same k') =
          (t.others k).find? fun e => e.1.same k' := List.find?_cons_of_neg h
      rw [find?, hother, hskip, find?_others h]
    · rfl

/-- What was stored under a key is gone for the equal ones, and no others are concerned. -/
theorem find?_erase : (t.erase k).find? k' = if k.same k' then none else t.find? k' := by
  by_cases h : k.same k' = true
  · rw [if_pos h, ← find?_congr h, find?, erase, bucket_setBucket, if_pos rfl, others]
    simp
  · rw [if_neg h, find?, erase, bucket_setBucket]
    split
    · next hbucket =>
      have hother : t.bucket k' = t.bucket k := congrArg t.buckets hbucket
      rw [find?, hother, find?_others h]
    · rfl

end HashTable

end Key

/-! ## Keys on a workbench -/

namespace KeyStep

/-- The keys after steps, the latest one in front. -/
def after (past : List KeyStep) : Table String Key :=
  past.foldr (fun s keys => (s.run keys).1) .empty

/-- The contributions that went into the key of a name, in order, read off the steps. -/
def contributed (name : String) : (past : List KeyStep) → Option (List KeyPart)
  | [] => none
  | start n :: past => if name = n then some [] else contributed name past
  | extend n ps :: past =>
    if name = n then (contributed name past).map (· ++ ps) else contributed name past
  | copy n target :: past =>
    if name = target then (contributed n past).or (contributed name past)
    else contributed name past
  | view _ :: past | compare .. :: past => contributed name past

/-- A step more shows one thing more. -/
theorem runAll_concat (steps : List KeyStep) (s : KeyStep) (keys : Table String Key) :
    runAll keys (steps ++ [s]) =
      runAll keys steps ++ [(s.run (steps.foldl (fun keys s => (s.run keys).1) keys)).2] := by
  induction steps generalizing keys with
  | nil => rfl
  | cons s' steps ih => exact congrArg (_ :: ·) (ih _)

/-- The key of a name is what its contributions make, in whatever portions they came and whatever
became of the key that it was copied from. -/
theorem find?_after (past : List KeyStep) (name : String) :
    (after past).find? name = (contributed name past).map Key.ofParts := by
  induction past generalizing name with
  | nil => rfl
  | cons s past ih =>
    show (s.run (after past)).1.find? name = _
    cases s with
    | start n =>
      rw [run, Table.find?_insert, contributed]
      split
      · rfl
      · exact ih name
    | extend n ps =>
      rw [run, contributed]
      by_cases h : name = n
      · subst h
        rw [if_pos rfl, ih name]
        cases hc : contributed name past with
        | none => simp [ih, hc]
        | some qs => simp [Table.find?_insert, Key.ofParts_append]
      · rw [if_neg h, ← ih name]
        cases (after past).find? n <;> simp [Table.find?_insert, h]
    | copy n target =>
      rw [run, contributed, ih n]
      by_cases h : name = target
      · subst h
        rw [if_pos rfl]
        cases contributed n past with
        | none => simp [ih]
        | some qs => simp [Table.find?_insert]
      · rw [if_neg h, ← ih name]
        cases contributed n past <;> simp [Table.find?_insert, h]
    | view n =>
      rw [run, contributed, ← ih name]
      cases (after past).find? n <;> rfl
    | compare n other =>
      rw [run, contributed, ← ih name]
      cases (after past).find? n <;> cases (after past).find? other <;> rfl

/-- Contributions are equal if they agree, and being equal is an equivalence of keys. Whatever steps
were taken on a workbench, two keys on it compare as equal exactly if as many contributions went
into them and those at equal places agree; then their accumulators and their numbers of
contributions are equal. A hash table finds under a key what was stored or erased last under an
equal one, and under no other. -/
theorem same_iff_contributions_agree {past : List KeyStep} {name other : String}
    {ps qs : List KeyPart} (hps : contributed name past = some ps)
    (hqs : contributed other past = some qs) :
    (∀ p q : KeyPart, p.same q = true ↔ p.Agrees q) ∧
      Equivalence (fun k k' : Key => k.same k' = true) ∧
      ∃ k k', (after past).find? name = some k ∧ (after past).find? other = some k' ∧
        (runAll .empty (past.reverse ++ [.compare name other])).getLast? =
          some (.equal (k.same k')) ∧
        (k.same k' = true ↔ ps.length = qs.length ∧
          ∀ (i : Nat) (p q : KeyPart), ps[i]? = some p → qs[i]? = some q → p.Agrees q) ∧
        (k.same k' = true →
          k.hash = k'.hash ∧ k.checksum = k'.checksum ∧ k.count = k'.count) ∧
        ∀ (β : Type) (t : Key.HashTable β),
          (k.same k' = true → t.find? k = t.find? k') ∧
          (∀ v, (t.insert k v).find? k' = if k.same k' then some v else t.find? k') ∧
          (t.erase k).find? k' = if k.same k' then none else t.find? k' := by
  have hk : (after past).find? name = some (.ofParts ps) := by rw [find?_after, hps]; rfl
  have hk' : (after past).find? other = some (.ofParts qs) := by rw [find?_after, hqs]; rfl
  refine ⟨fun _ _ => KeyPart.same_iff_agrees, Key.equivalence_same, .ofParts ps, .ofParts qs,
    hk, hk', ?_, ?_, Key.accumulators_of_same, fun β t => ⟨Key.HashTable.find?_congr,
      Key.HashTable.find?_insert, Key.HashTable.find?_erase⟩⟩
  · have hkeys : past.reverse.foldl (fun keys s => (s.run keys).1) .empty = after past :=
      List.foldl_reverse
    rw [runAll_concat, hkeys, List.getLast?_concat, run, hk, hk']
  · rw [Key.same_ofParts_iff, KeyPart.sameAll_iff_agrees]

/-! ## A copy that goes its own way -/

namespace Copied

/-- A number that is not one, inside two lists. -/
def nested : KeyPart := .list [.list [.float 0x7FF8000000000000], .null]

/-- The key `a` is copied when two contributions went into it; `c` has the other zero. -/
def past : List KeyStep :=
  [.extend "c" [.float 0x8000000000000000, nested], .extend "c" [.int 1], .start "c",
    .extend "b" [nested], .extend "a" [nested], .copy "a" "b", .extend "a" [.int 1, .float 0],
    .start "a"]

/-- Both go on in the same way and are equal; negative zero makes a key another one. -/
theorem copy_is_equal_and_negative_zero_differs :
    (∃ k k', (after past).find? "a" = some k ∧ (after past).find? "b" = some k' ∧
        k.same k' = true ∧ k.hash = k'.hash) ∧
      ∃ k k', (after past).find? "a" = some k ∧ (after past).find? "c" = some k' ∧
        ¬k.same k' = true := by
  have ha : contributed "a" past = some [.int 1, .float 0, nested] := by decide
  have hb : contributed "b" past = some [.int 1, .float 0, nested] := by decide
  have hc : contributed "c" past = some [.int 1, .float 0x8000000000000000, nested] := by decide
  obtain ⟨-, -, k, k', hk, hk', -, hsame, haccumulators, -⟩ := same_iff_contributions_agree ha hb
  obtain ⟨-, -, l, l', hl, hl', -, hdiffer, -, -⟩ := same_iff_contributions_agree ha hc
  have hequal : k.same k' = true := by
    refine hsame.mpr ⟨rfl, fun i p q hp hq => ?_⟩
    obtain rfl := Option.some.inj (hp.symm.trans hq)
    exact KeyPart.Agrees.refl p
  refine ⟨⟨k, k', hk, hk', hequal, (haccumulators hequal).1⟩, l, l', hl, hl', fun h => ?_⟩
  have hzeros := ((hdiffer.mp h).2 1 (.float 0) (.float 0x8000000000000000) rfl rfl).eq
  exact absurd hzeros (by decide)

end Copied

end KeyStep

end LayeredCache
