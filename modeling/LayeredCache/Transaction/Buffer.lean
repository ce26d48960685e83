import LayeredCache.Routine

/-!
# The write buffer of a transaction over one cache

Writes wait in the order in which the keys were last written. Reads go to the cache and do not see
waiting writes; a key that was read and not found is remembered as missed. A commit writes what
waits and removes every missed key that was not written, so that a value that somebody else stored
in the meantime is not left behind. A pending clear empties the cache first; until then reads find
nothing.
-/

namespace LayeredCache

/-- What a transaction has not yet done to one cache. -/
structure Buffer (κ α : Type) where
  /-- Whether a commit begins by clearing the cache. -/
  clearing : Bool := false
  /-- The waiting writes, each key once, in the order of its last write. -/
  writes : List (κ × Item α) := []
  /-- The missed keys, each once. -/
  misses : List κ := []

namespace Buffer

variable {κ α σ : Type}

/-- The number of waiting writes. -/
def pending (b : Buffer κ α) : Nat := b.writes.length

/-- Whether a commit would do nothing. -/
def isClean (b : Buffer κ α) : Bool := !b.clearing && b.writes.isEmpty && b.misses.isEmpty

/-- The serial numbers of the waiting instances. -/
def serials (b : Buffer κ α) : List Nat := b.writes.map (·.2.serial)

/-- Empties the cache at the next commit, and forgets what waits. -/
def clear (b : Buffer κ α) : Buffer κ α := { b with clearing := true, writes := [] }

variable [DecidableEq κ]

/-- Whether a write of the key waits. -/
def writesTo (b : Buffer κ α) (k : κ) : Bool := b.writes.any fun w => w.1 = k

/-- Lets a write wait; an earlier one of the same key is forgotten. -/
def put (b : Buffer κ α) (k : κ) (i : Item α) : Buffer κ α :=
  { b with writes := b.writes.filter (fun w => w.1 ≠ k) ++ [(k, i)] }

/-- Remembers a missed key. -/
def miss (b : Buffer κ α) (k : κ) : Buffer κ α :=
  if k ∈ b.misses then b else { b with misses := b.misses ++ [k] }

/-- What the transaction remembers of what a lookup found, and what it sees of it. -/
def learn (b : Buffer κ α) (k : κ) (found : Option (Cell α)) : Buffer κ α × Option (Cell α) :=
  (if found.isNone then b.miss k else b, if b.clearing then none else found)

/-- What a finished lookup means to the transaction. -/
def settle (b : Buffer κ α) (k : κ) (r : Reply κ α σ (Lookup κ α)) :
    Reply κ α (Buffer κ α × σ) (Lookup κ α) :=
  match r.answer with
  | .done (.ok found) =>
    let (b, seen) := b.learn k found
    ⟨(b, r.state), r.ground, .done (.ok seen)⟩
  | answer => ⟨(b, r.state), r.ground, answer⟩

/-- Reads from the cache. -/
def get (d : Cache κ α σ) (m : Moment) (k : κ) (b : Buffer κ α) (s : σ) (g : Ground κ α) :
    Reply κ α (Buffer κ α × σ) (Lookup κ α) :=
  b.settle k (d.get m k s g)

/-- Goes on with a read that waits. -/
def resume (d : Cache κ α σ) (m : Moment) (k : κ) (gate : Nat) (w : Wake) (b : Buffer κ α) (s : σ)
    (g : Ground κ α) : Reply κ α (Buffer κ α × σ) (Lookup κ α) :=
  b.settle k (d.resume m k gate w s g)

omit [DecidableEq κ] in
/-- Writes in order, up to the first failure. -/
def writeAll (d : Cache κ α σ) (m : Moment) :
    List (κ × Item α) → σ → Ground κ α → Reply κ α σ (Written κ)
  | [], s, g => ⟨s, g, .ok ()⟩
  | (k, i) :: rest, s, g =>
    let r := d.put m k { item := i } s g
    match r.answer with
    | .error e => ⟨r.state, r.ground, .error e⟩
    | .ok _ => writeAll d m rest r.state r.ground

/-- The missed keys without a waiting write. -/
def unwritten (b : Buffer κ α) : List κ := b.misses.filter fun k => !b.writesTo k

/-- Applies the buffer to the cache. A failing write ends the commit and leaves the buffer as it
was. -/
def commit (d : Cache κ α σ) (m : Moment) (b : Buffer κ α) (s : σ) (g : Ground κ α) :
    Reply κ α (Buffer κ α × σ) (Written κ) :=
  let m := m.holding b.serials
  let (s, g) := if b.clearing then let r := d.clear m s g; (r.state, r.ground) else (s, g)
  let r := writeAll d m b.writes s g
  match r.answer with
  | .error e => ⟨(b, r.state), r.ground, .error e⟩
  | .ok _ =>
    let (s, g) := d.removeAll m b.unwritten r.state r.ground
    ⟨({}, s), g.note (.committed d.id b.pending b.misses.length b.clearing), .ok ()⟩

omit [DecidableEq κ] in
/-- Forgets the buffer and says that the missed keys will not be written. -/
def rollback (d : Cache κ α σ) (m : Moment) (b : Buffer κ α) (s : σ) (g : Ground κ α) :
    Reply κ α (Buffer κ α × σ) Unit :=
  let (s, g) := d.releaseAll m b.misses s g
  ⟨({}, s), g, ()⟩

omit [DecidableEq κ] in
/-- Writes in order, up to the first failure, step by step. -/
def writing (d : Routines κ α σ) : List (κ × Item α) → Routine κ α σ (Written κ)
  | [] => return .ok ()
  | (k, i) :: rest => do
    match ← d.put k { item := i } with
    | .error e => return .error e
    | .ok _ => writing d rest

/-- Applies the buffer to the cache, step by step. The buffer is to be kept until that is done, and
longer if it fails. -/
def committing (d : Routines κ α σ) (b : Buffer κ α) : Routine κ α σ (Written κ) := do
  if b.clearing then d.clear
  match ← writing d b.writes with
  | .error e => return .error e
  | .ok _ =>
    Routine.forEach d.remove b.unwritten
    Routine.note (.committed d.id b.pending b.misses.length b.clearing)
    return .ok ()

omit [DecidableEq κ] in
/-- Says that the missed keys will not be written, step by step. -/
def releasing (d : Routines κ α σ) (b : Buffer κ α) : Routine κ α σ Unit :=
  Routine.forEach d.release b.misses

omit [DecidableEq κ] in
theorem run_writing {d : Routines κ α σ} {c : Cache κ α σ} (h : d.Follows c) (m : Moment)
    (writes : List (κ × Item α)) (s : σ) (g : Ground κ α) :
    (writing d writes).run m (s, g) = some (writeAll c m writes s g).outcome := by
  induction writes generalizing s g with
  | nil => rfl
  | cons w rest ih =>
    simp only [writing, writeAll, Process.bind_eq, Process.run_bind, h.put, Reply.outcome,
      Option.bind_some]
    cases (c.put m w.1 { item := w.2 } s g).answer with
    | error e => rfl
    | ok _ => exact ih _ _

/-- A commit that nobody keeps waiting comes to the commit as a whole. -/
theorem run_committing {d : Routines κ α σ} {c : Cache κ α σ} (h : d.Follows c) (m : Moment)
    (b : Buffer κ α) (s : σ) (g : Ground κ α) :
    (committing d b).run (m.holding b.serials) (s, g) =
      some (((b.commit c m s g).state.2, (b.commit c m s g).ground),
        (b.commit c m s g).answer) := by
  simp only [committing, commit]
  generalize m.holding b.serials = m
  cases b.clearing with
  | true =>
    simp only [if_true, Process.bind_eq, Process.run_bind, h.clear, run_writing h, Reply.outcome,
      Option.bind_some, h.id]
    cases (writeAll c m b.writes (c.clear m s g).state (c.clear m s g).ground).answer with
    | error e => rfl
    | ok _ => simp [Routine.run_forEach_remove h]
  | false =>
    simp only [Bool.false_eq_true, if_false, Process.bind_eq, Process.run_bind, Process.pure_eq,
      run_writing h, Reply.outcome, Option.bind_some, h.id]
    cases (writeAll c m b.writes s g).answer with
    | error e => rfl
    | ok _ => simp [Routine.run_forEach_remove h]

omit [DecidableEq κ] in
theorem run_releasing {d : Routines κ α σ} {c : Cache κ α σ} (h : d.Follows c) (m : Moment)
    (b : Buffer κ α) (s : σ) (g : Ground κ α) :
    (releasing d b).run m (s, g) =
      some (((b.rollback c m s g).state.2, (b.rollback c m s g).ground), ()) :=
  Routine.run_forEach_release h m b.misses s g

omit [DecidableEq κ] in
@[simp] theorem isClean_empty : ({} : Buffer κ α).isClean = true := rfl

omit [DecidableEq κ] in
@[simp] theorem clearing_clear (b : Buffer κ α) : b.clear.clearing = true := rfl

@[simp] theorem misses_put (b : Buffer κ α) (k : κ) (i : Item α) : (b.put k i).misses = b.misses :=
  rfl

@[simp] theorem mem_misses_miss (b : Buffer κ α) (k k' : κ) :
    k' ∈ (b.miss k).misses ↔ k' = k ∨ k' ∈ b.misses := by
  unfold miss
  split
  · next h => exact ⟨Or.inr, fun h' => h'.elim (fun e => e ▸ h) id⟩
  · simp [or_comm]

end Buffer

end LayeredCache
