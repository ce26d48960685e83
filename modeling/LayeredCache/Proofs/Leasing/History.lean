import LayeredCache.Layer.Basic
import LayeredCache.Proofs.Base

/-!
# Histories of a reclaiming layer

A run of a reclaiming layer over a base store is told by what was done, the latest act in front.
From this alone follows which entry of a key is current, whether it is pinned, which instances were
read last, and whether a collection is due. Outside the layer callers take up new instances, keep
the ones that are still alive as they like, and let them go; an instance that nobody holds cannot
be taken up again.

## Main definitions

* `Leasing.current?` — the current entry of a key, with what has happened since it was written.
* `Leasing.IsHeld` — whether somebody holds an instance once the collection of an operation is done.
* `Leasing.Run` — the runs of a reclaiming layer, with everything that may happen around it.
-/

namespace LayeredCache.Leasing

variable {κ α : Type}

/-- What is done to a reclaiming layer, and what happens around it. -/
inductive Act (κ α : Type) where
  | put (k : κ) (item : Item α)
  /-- A lookup and the instance it has found. -/
  | get (k : κ) (found : Option (Item α))
  | remove (k : κ)
  | clear
  | size
  | purge
  /-- A collection that was asked for. -/
  | collect
  /-- The signal is raised. -/
  | raise
  /-- Something outside the layer. -/
  | outside

/-- The acts before which the layer looks whether a collection is due. -/
def Act.observes : Act κ α → Bool
  | .put .. | .get .. | .remove _ | .size | .purge => true
  | .clear | .collect | .raise | .outside => false

/-- Whether the signal was raised since the layer looked last. -/
def raised : (past : List (Act κ α)) → Bool
  | [] => false
  | .raise :: _ => true
  | a :: past => !a.observes && raised past

/-- The number of acts at which the layer has looked. -/
def operations : (past : List (Act κ α)) → Nat
  | [] => 0
  | a :: past => if a.observes then operations past + 1 else operations past

/-- Whether a collection is due at the `n`th operation, whatever the signal says. -/
def isScheduled : Retention → (n : Nat) → Bool
  | .soft _, _ => false
  | .weak every first, n => decide (every ≠ 0 ∧ (first + n) % every = 0)

/-- Whether a collection is due if an operation comes next. -/
def isDue (r : Retention) (past : List (Act κ α)) : Bool :=
  raised past || isScheduled r (operations past + 1)

/-- Whether an act runs a collection. -/
def Act.collects (r : Retention) (a : Act κ α) (past : List (Act κ α)) : Bool :=
  match a with
  | .collect => true
  | a => a.observes && isDue r past

/-- An entry: the instance that was written, the number of writes that followed, and whether a
collection has run since. -/
structure Entry (α : Type) where
  item : Item α
  followed : Nat := 0
  collected : Bool := false

/-- Whether an entry that is current is pinned. -/
def Entry.isPinned (r : Retention) (e : Entry α) : Bool :=
  !e.collected &&
    match r with
    | .soft limit => decide (e.followed < limit)
    | .weak .. => true

/-- The entry after a collection, if there was one. -/
def Entry.collectIf (b : Bool) (e : Entry α) : Entry α := { e with collected := e.collected || b }

/-- The entry after a write. -/
def Entry.follow (e : Entry α) : Entry α := { e with followed := e.followed + 1 }

variable [DecidableEq κ]

/-- The current entry of a key: that of its last write, if the key was not removed and the layer not
cleared since. -/
def current? (r : Retention) (k : κ) : (past : List (Act κ α)) → Option (Entry α)
  | [] => none
  | a :: past =>
    let kept := (current? r k past).map (Entry.collectIf (a.collects r past))
    match a with
    | .put k' item => if k = k' then some { item := item } else kept.map Entry.follow
    | .remove k' => if k = k' then none else kept
    | .clear => none
    | _ => kept

omit [DecidableEq κ] in
/-- The instances that lookups have found since the layer was cleared last, the latest in front. -/
def hits : (past : List (Act κ α)) → List Nat
  | [] => []
  | .clear :: _ => []
  | .get _ (some i) :: past => i.serial :: hits past
  | _ :: past => hits past

/-! ## Runs -/

/-- A reclaiming layer on a base store. -/
abbrev onBare (id : String) (base : Nat) : Cache κ α (Leasing κ × Unit) :=
  Leasing.onto (Cache.bare id base)

omit [DecidableEq κ] in
/-- The instance that a lookup has found. -/
def found? : Lookup κ α → Option (Item α)
  | .done (.ok (some c)) => some c.item
  | _ => none

/-- A reclaiming layer without further layers outside, the ground, and what it sees of the world. -/
structure World (κ α : Type) where
  state : Leasing κ × Unit
  ground : Ground κ α
  moment : Moment

/-- Whether somebody holds an instance once the collection at the beginning of an operation, if one
is due, is done: a caller or another cache, the queue of the instances that were read last, or a
pinned entry. -/
def IsHeld (base bound : Nat) (r : Retention) (past : List (Act κ α)) (w : World κ α)
    (serial : Nat) : Prop :=
  w.moment.held serial = true ∨ w.ground.keptElsewhere base serial = true ∨
    serial ∈ (hits past).take bound ∨
    isDue r past = false ∧ ∃ k e, current? r k past = some e ∧ e.isPinned r = true ∧
      e.item.serial = serial

/-- What can be asked for. A write is one of an instance. -/
inductive Call (κ α : Type) where
  | put (k : κ) (item : Item α)
  | get (k : κ)
  | remove (k : κ)
  | clear
  | size
  | purge
  | collect
  | raise

/-- Does what was asked for; the act tells what a lookup has found. An instance that is handed out
is held by the caller. -/
def Call.perform (id : String) (base : Nat) (w : World κ α) : Call κ α → Act κ α × World κ α
  | .put k item =>
    let r := (onBare id base).put w.moment k { item := item } w.state w.ground
    (.put k item, ⟨r.state, r.ground, w.moment⟩)
  | .get k =>
    let r := (onBare id base).get w.moment k w.state w.ground
    (.get k (found? r.answer),
      ⟨r.state, r.ground, w.moment.holding ((found? r.answer).toList.map (·.serial))⟩)
  | .remove k =>
    let r := (onBare id base).remove w.moment k w.state w.ground
    (.remove k, ⟨r.state, r.ground, w.moment.holding (r.answer.toList.map (·.item.serial))⟩)
  | .clear =>
    let r := (onBare id base).clear w.moment w.state w.ground
    (.clear, ⟨r.state, r.ground, w.moment⟩)
  | .size =>
    let r := (onBare id base).size w.moment w.state w.ground
    (.size, ⟨r.state, r.ground, w.moment⟩)
  | .purge =>
    let r := Leasing.purge (Cache.bare id base) w.moment w.state w.ground
    (.purge, ⟨r.state, r.ground, w.moment⟩)
  | .collect =>
    let r := Leasing.collect base w.state.1 w.ground
    (.collect, ⟨(r.1, w.state.2), r.2.1, w.moment⟩)
  | .raise =>
    let signal := w.state.1.signal
    (.raise, { w with moment := { w.moment with
      pressure := fun x => if x = signal then w.moment.pressure x + 1 else w.moment.pressure x } })

omit [DecidableEq κ] in
/-- A caller holds the instance that it writes. -/
def Call.IsFair (w : World κ α) : Call κ α → Prop
  | .put _ item => w.moment.held item.serial = true
  | _ => True

omit [DecidableEq κ] in
/-- What may happen outside the layer: other base stores change, serial numbers are given out,
callers and other caches hold other instances. An instance that is held outside afterwards is a new
one, or somebody held it before. -/
structure Outside (base : Nat) (w w' : World κ α) : Prop where
  state : w'.state = w.state
  tidy : w'.ground.Tidy
  store : w'.ground.store base = w.ground.store base
  issued : w.ground.issued ≤ w'.ground.issued
  pressure : w'.moment.pressure w.state.1.signal = w.moment.pressure w.state.1.signal
  held : ∀ n, w'.moment.held n = true ∨ w'.ground.keptElsewhere base n = true →
    w.state.1.holds w.moment w.ground n = true ∨ w.ground.issued ≤ n ∧ n < w'.ground.issued

/-- `Run id base l₀ past w`: the acts `past` lead from the layer `l₀ m₀` on an empty base store,
made at the moment `m₀`, to `w`. -/
inductive Run (id : String) (base : Nat) (l₀ : Moment → Leasing κ) :
    List (Act κ α) → World κ α → Prop where
  | start (m₀ : Moment) (g₀ : Ground κ α) : g₀.Tidy → g₀.store base = .empty →
    (∀ n, m₀.held n = true ∨ g₀.keptElsewhere base n = true → n < g₀.issued) →
    Run id base l₀ [] ⟨(l₀ m₀, ()), g₀, m₀⟩
  | call {past : List (Act κ α)} {w : World κ α} (c : Call κ α) : Run id base l₀ past w →
    c.IsFair w → Run id base l₀ ((c.perform id base w).1 :: past) (c.perform id base w).2
  | outside {past : List (Act κ α)} {w : World κ α} (w' : World κ α) : Run id base l₀ past w →
    Outside base w w' → Run id base l₀ (.outside :: past) w'

end LayeredCache.Leasing
