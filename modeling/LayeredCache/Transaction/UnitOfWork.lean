import LayeredCache.Transaction.Buffer

/-!
# Units of work over several caches

A unit of work has one buffer for each identifier of a cache that it touched, in the order of the
first touch; calls through another cache with the same identifier go to the one touched first. A
commit takes the participants in that order and stops at the first that fails, which stays in front
of the ones not yet reached. There is no atomicity across caches.

The caches are given as references `ρ`; `find` says what the operations of a reference are on a
state `τ` that all caches share.
-/

namespace LayeredCache

/-- A cache that takes part in a unit of work. -/
structure Participant (ρ κ α : Type) where
  cache : ρ
  id : String
  buffer : Buffer κ α := {}

/-- The participants in the order of their first touch. -/
structure UnitOfWork (ρ κ α : Type) where
  participants : List (Participant ρ κ α) := []

namespace UnitOfWork

variable {ρ κ α τ : Type}

/-- The number of participants. -/
def size (u : UnitOfWork ρ κ α) : Nat := u.participants.length

/-- The participant with an identifier. -/
def participant? (u : UnitOfWork ρ κ α) (id : String) : Option (Participant ρ κ α) :=
  u.participants.find? (·.id = id)

/-- Lets a cache take part unless one with its identifier does already. -/
def join (u : UnitOfWork ρ κ α) (cache : ρ) (id : String) : UnitOfWork ρ κ α :=
  if (u.participant? id).isSome then u
  else ⟨u.participants ++ [{ cache := cache, id := id }]⟩

/-- Changes the buffer of a participant. -/
def modify (u : UnitOfWork ρ κ α) (id : String) (f : Buffer κ α → Buffer κ α) : UnitOfWork ρ κ α :=
  ⟨u.participants.map fun p => if p.id = id then { p with buffer := f p.buffer } else p⟩

/-- The serial numbers of all waiting instances. -/
def serials (u : UnitOfWork ρ κ α) : List Nat := u.participants.flatMap (·.buffer.serials)

/-- Clears a cache at the next commit. -/
def clear (u : UnitOfWork ρ κ α) (cache : ρ) (id : String) : UnitOfWork ρ κ α :=
  (u.join cache id).modify id Buffer.clear

variable [DecidableEq κ]

/-- Lets a write wait. -/
def put (u : UnitOfWork ρ κ α) (cache : ρ) (id : String) (k : κ) (i : Item α) : UnitOfWork ρ κ α :=
  (u.join cache id).modify id (·.put k i)

/-- Reads through the participant with the identifier of the cache. -/
def get (find : ρ → Cache κ α τ) (m : Moment) (u : UnitOfWork ρ κ α) (cache : ρ) (id : String)
    (k : κ) (t : τ) (g : Ground κ α) : Reply κ α (UnitOfWork ρ κ α × τ) (Lookup κ α) :=
  let u := u.join cache id
  match u.participant? id with
  | none => ⟨(u, t), g, .done (.ok none)⟩
  | some p =>
    let r := p.buffer.get (find p.cache) m k t g
    ⟨(u.modify id fun _ => r.state.1, r.state.2), r.ground, r.answer⟩

/-- Goes on with a read that waits. -/
def resume (find : ρ → Cache κ α τ) (m : Moment) (u : UnitOfWork ρ κ α) (id : String) (k : κ)
    (gate : Nat) (w : Wake) (t : τ) (g : Ground κ α) :
    Reply κ α (UnitOfWork ρ κ α × τ) (Lookup κ α) :=
  match u.participant? id with
  | none => ⟨(u, t), g, .done (.ok none)⟩
  | some p =>
    let r := p.buffer.resume (find p.cache) m k gate w t g
    ⟨(u.modify id fun _ => r.state.1, r.state.2), r.ground, r.answer⟩

/-- Reads for a caller that cannot be woken. -/
def fetch (find : ρ → Cache κ α τ) (m : Moment) (u : UnitOfWork ρ κ α) (cache : ρ) (id : String)
    (k : κ) (t : τ) (g : Ground κ α) : Reply κ α (UnitOfWork ρ κ α × τ) (Found κ α) :=
  let r := u.get find m cache id k t g
  match r.answer with
  | .done found => ⟨r.state, r.ground, found⟩
  | .waiting gate _ =>
    let r := r.state.1.resume find m id k gate .expired r.state.2 r.ground
    match r.answer with
    | .done found => ⟨r.state, r.ground, found⟩
    | .waiting .. => ⟨r.state, r.ground, .error (.lockTimeout id k 0)⟩

/-- Commits participants in order up to the first that fails. -/
def commitAll (find : ρ → Cache κ α τ) (m : Moment) :
    List (Participant ρ κ α) → τ → Ground κ α →
      Reply κ α (List (Participant ρ κ α) × τ) (Written κ)
  | [], t, g => ⟨([], t), g, .ok ()⟩
  | p :: rest, t, g =>
    let waiting := rest.flatMap (·.buffer.serials)
    let r := p.buffer.commit (find p.cache) (m.holding waiting) t g
    match r.answer with
    | .error e =>
      ⟨({ p with buffer := r.state.1 } :: rest, r.state.2),
        r.ground.note (.commitFailed p.id e), .error e⟩
    | .ok _ => commitAll find m rest r.state.2 r.ground

/-- Commits all participants; the ones that are left are those that were not committed. -/
def commit (find : ρ → Cache κ α τ) (m : Moment) (u : UnitOfWork ρ κ α) (t : τ) (g : Ground κ α) :
    Reply κ α (UnitOfWork ρ κ α × τ) (Written κ) :=
  let r := commitAll find m u.participants t g
  ⟨(⟨r.state.1⟩, r.state.2), r.ground, r.answer⟩

omit [DecidableEq κ] in
/-- Rolls participants back in order. -/
def rollbackAll (find : ρ → Cache κ α τ) (m : Moment) :
    List (Participant ρ κ α) → τ → Ground κ α → τ × Ground κ α
  | [], t, g => (t, g)
  | p :: rest, t, g =>
    let r := p.buffer.rollback (find p.cache) m t g
    rollbackAll find m rest r.state.2 r.ground

omit [DecidableEq κ] in
/-- Rolls all participants back; none is left. -/
def rollback (find : ρ → Cache κ α τ) (m : Moment) (u : UnitOfWork ρ κ α) (t : τ) (g : Ground κ α) :
    Reply κ α (UnitOfWork ρ κ α × τ) Unit :=
  let (t, g) := rollbackAll find m u.participants t g
  ⟨({}, t), g, ()⟩

end UnitOfWork

end LayeredCache
