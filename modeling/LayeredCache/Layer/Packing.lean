import LayeredCache.Routine

/-!
# Layers that keep values as bytes

A write encodes the value and hands an instance of bytes on; a lookup decodes the bytes into a new
instance, so no two callers share one. A removed value that cannot be decoded is dropped.
-/

namespace LayeredCache.Packing

open Routine (below issue note run_below)

variable {κ α σ : Type} [Codec α]

/-- The bytes of a value; an instance of bytes is left as it is. -/
def pack (c : Content α) : Except CodecError (List UInt8) :=
  match c with
  | .plain v => Codec.encode v
  | .packed bytes => .ok bytes

/-- A new instance of the value that a cell holds as bytes. -/
def unpack (c : Cell α) (g : Ground κ α) : Ground κ α × Except CodecError (Cell α) :=
  match c.item.content with
  | .plain _ => (g, .ok c)
  | .packed bytes =>
    match Codec.decode bytes with
    | .error e => (g, .error e)
    | .ok v => (g.issue, .ok { item := ⟨g.issued, .plain v⟩ })

/-- Decodes what a finished lookup found. -/
def settle (r : Reply κ α σ (Lookup κ α)) : Reply κ α (Unit × σ) (Lookup κ α) :=
  match r.answer with
  | .done (.ok (some c)) =>
    match unpack c r.ground with
    | (g, .ok c) => ⟨((), r.state), g, .done (.ok (some c))⟩
    | (g, .error e) => ⟨((), r.state), g, .done (.error (.serialization e))⟩
  | answer => ⟨((), r.state), r.ground, answer⟩

/-- A cache that keeps values as bytes. -/
def onto (d : Cache κ α σ) : Cache κ α (Unit × σ) where
  id := d.id
  base := d.base
  put m k c s g :=
    match pack c.item.content with
    | .error e => ⟨s, g, .error (.serialization e)⟩
    | .ok bytes =>
      let r := d.put m k { item := ⟨g.issued, .packed bytes⟩ } s.2 g.issue
      ⟨((), r.state), r.ground, r.answer⟩
  get m k s g := settle (d.get m k s.2 g)
  resume m k gate w s g := settle (d.resume m k gate w s.2 g)
  remove m k s g :=
    let r := d.remove m k s.2 g
    match r.answer with
    | none => ⟨((), r.state), r.ground, none⟩
    | some c =>
      match unpack c r.ground with
      | (g, .ok c) => ⟨((), r.state), g, some c⟩
      | (g, .error e) =>
        ⟨((), r.state), g.note (.undecodable d.id k (.serialization e)), none⟩
  clear m s g :=
    let r := d.clear m s.2 g
    ⟨((), r.state), r.ground, ()⟩
  size m s g :=
    let r := d.size m s.2 g
    ⟨((), r.state), r.ground, r.answer⟩
  release m k s g :=
    let r := d.release m k s.2 g
    ⟨((), r.state), r.ground, ()⟩

/-- Decodes the bytes of a cell. -/
def unpacking (c : Cell α) : Routine κ α (Unit × σ) (Except CodecError (Cell α)) :=
  .act fun _ t =>
    let (g, unpacked) := unpack c t.2
    (unpacked, t.1, g)

/-- The steps of a cache that keeps values as bytes. -/
def routines (d : Routines κ α σ) : Routines κ α (Unit × σ) where
  id := d.id
  base := d.base
  put k c := do
    match pack c.item.content with
    | .error e =>
      .dropping c.item.serial
      return .error (.serialization e)
    | .ok bytes =>
      let serial ← issue
      .holding serial
      let written ← below (d.put k { item := ⟨serial, .packed bytes⟩ })
      .dropping c.item.serial
      return written
  get k := do
    match ← below (d.get k) with
    | .ok (some c) =>
      match ← unpacking c with
      | .ok c => return .ok (some c)
      | .error e => return .error (.serialization e)
    | found => return found
  remove k := do
    match ← below (d.remove k) with
    | none => return none
    | some c =>
      match ← unpacking c with
      | .ok c => return some c
      | .error e =>
        note (.undecodable d.id k (.serialization e))
        return none
  clear := below d.clear
  size := below d.size
  release k := below (d.release k)

@[simp] theorem run_unpacking (m : Moment) (c : Cell α) (t : (Unit × σ) × Ground κ α) :
    (unpacking c).run m t = some ((t.1, (unpack c t.2).1), (unpack c t.2).2) := rfl

theorem routines_follow {d : Routines κ α σ} {c : Cache κ α σ} (h : d.Follows c) :
    (routines d).Follows (onto c) where
  id := h.id
  base := h.base
  put m k x s g := by
    simp only [routines, onto]
    cases pack x.item.content <;> simp [h.put, Reply.outcome]
  get m k s g := by
    simp only [routines, onto, settle, Process.bind_eq, Process.run_bind, run_below, h.get,
      Reply.finished?]
    cases (c.get m k s.2 g).answer with
    | waiting gate latch => rfl
    | done found =>
      rcases found with _ | _ | x
      · rfl
      · rfl
      · simp only [Option.map_some, Option.bind_some, Process.run_bind, run_unpacking]
        rcases unpack x (c.get m k s.2 g).ground with ⟨_, _ | _⟩ <;> rfl
  remove m k s g := by
    simp only [routines, onto, Process.bind_eq, Process.run_bind, run_below, h.remove, h.id,
      Reply.outcome, Option.map_some, Option.bind_some]
    cases (c.remove m k s.2 g).answer with
    | none => rfl
    | some x =>
      simp only [Process.run_bind, run_unpacking, Option.bind_some]
      rcases unpack x (c.remove m k s.2 g).ground with ⟨_, _ | _⟩ <;> rfl
  clear m s g := by simp [routines, onto, h.clear, Reply.outcome]
  size m s g := by simp [routines, onto, h.size, Reply.outcome]
  release m k s g := by simp [routines, onto, h.release, Reply.outcome]

end LayeredCache.Packing
